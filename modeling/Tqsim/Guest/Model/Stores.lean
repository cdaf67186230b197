import Tqsim.Guest.Model.Loads

/-!
# The guest's stores

The store helpers of `op_helper.c` with `CONFIG_HSIM`. A shared address is
written through the stub, from the helper's argument; a local one in the
guest's memory, and through the stub again, with a word that is zero, if the
store misses the data cache.
-/

namespace Tqsim

namespace Guest

open TraceAnalyzer (Double)
open Hsim (Bytes AccessType Access bytesOf memcpy memmapIsShared memmapIsLocal)

/-- A call of a store helper: what a load helper has, and the value. -/
structure Store (α : Type) extends Load where
  val : α

/-- What tells the store helpers apart: the size in bits, the bytes of the
argument, and the message for an address that is neither shared nor local. -/
structure StoreHelper (α : Type) where
  size : ℕ
  bytes : α → Bytes
  message : UInt32 → UInt32 → String

/-- `DO_GEN_HSIM_ST`. The `VAR_TYPE` has as many bits as `SIZE2` says, so that
the conversion to it keeps the low bytes of the value. -/
def doGenHsimSt (size2 : ℕ) : StoreHelper UInt32 where
  size := size2
  bytes val := bytesOf val.toNat
  message := illegalAccess "illegal"

def hsimSt8 : StoreHelper UInt32 := doGenHsimSt 8
def hsimSt16 : StoreHelper UInt32 := doGenHsimSt 16
def hsimSt32 : StoreHelper UInt32 := doGenHsimSt 32

/-- `hsim_st64`, which is not made by the macro. -/
def hsimSt64 : StoreHelper UInt64 where
  size := 64
  bytes val := bytesOf val.toNat
  message := illegalAccess "illegal"

variable {F : Type}

namespace Machine

/-- The arguments of `hsim_access` for a write. -/
def writeAccess (M : Machine F) (l : Load) (data : Bytes) (size : ℕ) (atype : AccessType) :
    Access :=
  { M.access l size atype with rw := true, data := data }

/-- The call of `hsim_access` for a write. -/
def hsimWrite (D : Double F) (M : Machine F) (l : Load) (data : Bytes) (size : ℕ)
    (atype : AccessType) : Option (Machine F) :=
  (M.stub.hsimAccess (UInt64.ofInt (M.core.getSimpleCycle D)) (M.writeAccess l data size atype)).map
    fun (stub, _) => { core := M.core.readTime D, stub := stub }

/-- `*(VAR_TYPE *)(guest_base + addr) = val`, of a number of bytes. -/
def storeGuest (M : Machine F) (addr : UInt32) (data : Bytes) (n : ℕ) : Machine F :=
  { M with stub := { M.stub with
      guestMemory := memcpy M.stub.guestMemory addr.toNat data n } }

end Machine

namespace StoreHelper

variable {α : Type} (h : StoreHelper α) (D : Double F) (cfg : CoreConfig) (M : Machine F)
  (s : Store α)

/-- The store to a shared address. -/
def storeShared : Option (Machine F) :=
  M.hsimWrite D s.toLoad (h.bytes s.val) h.size .blockingAccess

/-- The store to a local address. -/
def storeLocal : Option (Machine F) :=
  let M := M.storeGuest s.addr (h.bytes s.val) (h.size / 8)
  (M.core.dcacheAccess D cfg ⟨s.addr, true, s.missType⟩).bind fun (missType, core) =>
    let M := { M with core := core }
    if missType ≠ .l1Hit then M.hsimWrite D s.toLoad (fun _ => 0) h.size .nonBlockingAccess
    else some M

/-- **A store helper**: the state that it leaves. -/
def store : Except Stop (Machine F) :=
  match memmapIsShared M.stub.memmap s.addr with
  | none => .error .fault
  | some (isShared, memmap) =>
    let M := M.setMemmap memmap
    if isShared then orFault (h.storeShared D M s)
    else if memmapIsLocal s.addr then orFault (h.storeLocal D cfg M s)
    else .error (.exit (h.message s.pc s.addr))

end StoreHelper

end Guest

end Tqsim
