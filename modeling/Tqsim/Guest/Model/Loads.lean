import Tqsim.Guest.Model.Core
import Tqsim.Hsim.Model.Stub

/-!
# The guest's loads

The load helpers of `op_helper.c` with `CONFIG_HSIM`. A shared address is
read through the stub, into a word of the helper; a local one from the
guest's memory, through a pointer of the type that the macro was given. A
local load that misses the data cache makes an access through the stub as
well, into a word that nothing reads.
-/

namespace Tqsim

namespace Guest

open TraceAnalyzer (Double)
open Hsim (Bytes Packet Reply AccessType Access Memmap Stub word memmapIsShared memmapIsLocal)

/-- The core, and the stub that it forwards accesses to. -/
structure Machine (F : Type) where
  core : Core F
  stub : Stub

/-- A call of a load helper, and what its surroundings hold at that time. -/
structure Load where
  addr : UInt32
  /-- `env->regs[15]`. -/
  pc : UInt32
  /-- `my_packet`, before it is assigned. -/
  packet : Packet
  /-- `miss_type`, before it is assigned. -/
  missType : CacheMissType
  replies : List Reply

/-- Why a helper does not return. -/
inductive Stop where
  /-- A fault, or an answer that never comes. -/
  | fault
  /-- `exit(-1)`, after the message. -/
  | exit (message : String)
  deriving DecidableEq, Repr

def orFault {α : Type} : Option α → Except Stop α
  | none => .error .fault
  | some a => .ok a

/-! ## Values in memory -/

/-- The 16-bit word at the start. -/
def halfword (b : Bytes) : UInt16 := (b 0).toUInt16 ||| (b 1).toUInt16 <<< 8

/-- The 64-bit word at the start. -/
def doubleword (b : Bytes) : UInt64 := (word b 0).toUInt64 ||| (word b 1).toUInt64 <<< 32

/-- `VAR_TYPE` of `DO_GEN_HSIM_LD`. -/
inductive VarType where
  | uint8
  | int8
  | uint16
  | int16
  | uint32
  deriving DecidableEq, Repr

/-- `*(VAR_TYPE *)p`, converted to the `uint32_t` that is returned. -/
def VarType.load (b : Bytes) : VarType → UInt32
  | uint8 => (b 0).toUInt32
  | int8 => (b 0).toInt8.toInt32.toUInt32
  | uint16 => (halfword b).toUInt32
  | int16 => (halfword b).toInt16.toInt32.toUInt32
  | uint32 => word b 0

/-! ## The helpers -/

/-- What tells the load helpers apart: the size in bits, what is returned of
the word that a shared access fills in and of the guest's memory, and the
message for an address that is neither. -/
structure LoadHelper (α : Type) where
  size : ℕ
  ofShared : Bytes → α
  ofLocal : Bytes → α
  message : UInt32 → UInt32 → String

/-- `%x`. -/
def hex (n : UInt32) : String := String.ofList (Nat.toDigits 16 n.toNat)

/-- The message for an address that is neither shared nor local. -/
def illegalAccess (illegal : String) (pc addr : UInt32) : String :=
  illegal ++ " access at pc(" ++ hex pc ++ ") to " ++ hex addr ++ "\n"

/-- `DO_GEN_HSIM_LD`. -/
def doGenHsimLd (size2 : ℕ) (varType : VarType) : LoadHelper UInt32 where
  size := size2
  ofShared val := word val 0
  ofLocal := varType.load
  message := illegalAccess "Illegal"

def hsimLd8u : LoadHelper UInt32 := doGenHsimLd 8 .uint8
def hsimLd8s : LoadHelper UInt32 := doGenHsimLd 8 .int8
def hsimLd16u : LoadHelper UInt32 := doGenHsimLd 16 .uint16
def hsimLd16s : LoadHelper UInt32 := doGenHsimLd 16 .int16
def hsimLd32u : LoadHelper UInt32 := doGenHsimLd 32 .uint32

/-- `hsim_ld64`, which is not made by the macro. -/
def hsimLd64 : LoadHelper UInt64 where
  size := 64
  ofShared := doubleword
  ofLocal := doubleword
  message := illegalAccess "illegal"

variable {F : Type}

namespace Machine

/-- The arguments of `hsim_access` for a read into a word that is zero
before. -/
def access (M : Machine F) (l : Load) (size : ℕ) (atype : AccessType) : Access where
  address := l.addr
  rw := false
  data _ := 0
  size := size
  atype := atype
  stack := l.packet
  replies := l.replies
  cachesimIl1NumMiss := M.core.cachesim.il1NumMiss
  cachesimIl1NumAccess := M.core.cachesim.il1NumAccess
  numInsts := UInt64.ofNat M.core.numInsts

/-- The call of `hsim_access`, for which the clock is read: the state, and the
word. -/
def hsimAccess (D : Double F) (M : Machine F) (l : Load) (size : ℕ) (atype : AccessType) :
    Option (Machine F × Bytes) :=
  (M.stub.hsimAccess (UInt64.ofInt (M.core.getSimpleCycle D)) (M.access l size atype)).map
    fun (stub, val) => ({ core := M.core.readTime D, stub := stub }, val)

/-- The map, as a lookup leaves it. -/
def setMemmap (M : Machine F) (memmap : Memmap) : Machine F :=
  { M with stub := { M.stub with memmap := memmap } }

end Machine

namespace LoadHelper

variable {α : Type} (h : LoadHelper α) (D : Double F) (cfg : CoreConfig) (M : Machine F) (l : Load)

/-- The load of a shared address. -/
def loadShared : Option (α × Machine F) :=
  (M.hsimAccess D l h.size .blockingAccess).map fun (M, val) => (h.ofShared val, M)

/-- The load of a local address. -/
def loadLocal : Option (α × Machine F) :=
  let val := h.ofLocal fun i => M.stub.guestMemory (l.addr.toNat + i)
  (M.core.dcacheAccess D cfg ⟨l.addr, false, l.missType⟩).bind fun (missType, core) =>
    let M := { M with core := core }
    if missType ≠ .l1Hit then
      (M.hsimAccess D l h.size .nonBlockingAccess).map fun (M, _) => (val, M)
    else some (val, M)

/-- **A load helper**: the value that is returned, and the state. -/
def load : Except Stop (α × Machine F) :=
  match memmapIsShared M.stub.memmap l.addr with
  | none => .error .fault
  | some (isShared, memmap) =>
    let M := M.setMemmap memmap
    if isShared then orFault (h.loadShared D M l)
    else if memmapIsLocal l.addr then orFault (h.loadLocal D cfg M l)
    else .error (.exit (h.message l.pc l.addr))

end LoadHelper

end Guest

end Tqsim
