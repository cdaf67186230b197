import Tqsim.Guest.Loads
import Tqsim.Guest.Model.Stores

/-!
# Where an access goes

A helper asks `memmap_is_shared` whether an address is shared, and if so calls
`hsim_access`, which asks `memmap_get_type` for its type. Each of the two
walks the list of regions, and the regions may overlap. The second walk finds
what the first one did, since that is in front by then: an access that the
test lets through is never one of unknown type, and a packet goes out for the
type of the region that the test was about.
-/

namespace Tqsim

namespace Guest

open TraceAnalyzer (Double exactDouble)
open Hsim (Bytes Access AccessType Memmap MemRegion MemoryType MapCall Stub SysReg added
  memmapInitialize memmapIsShared memmapGetType memmapFindMemRegion)

/-- The branches of `hsim_access`. -/
inductive AccessBranch where
  /-- `mem_access`, for an address of the type. -/
  | packet (type : MemoryType)
  /-- `hsim_internal_access`. -/
  | systemRegister
  /-- The message `unknown mem type`. -/
  | unknownMemType (type : MemoryType)
  deriving DecidableEq, Repr

/-- What is done in a branch. -/
def AccessBranch.access : AccessBranch → Stub → UInt64 → Access → Option (Stub × Bytes)
  | packet _, s, cycle, a => s.memAccess cycle a
  | systemRegister, s, cycle, a => s.hsimInternalAccess cycle a
  | unknownMemType _, s, _, a => some (s, a.data)

/-- `hsim_access`, for which the branch and the map are known. -/
def AccessBranch.hsimAccess (b : AccessBranch) (s : Stub) (memmap : Memmap) (curCycle : UInt64)
    (a : Access) : Option (Stub × Bytes) :=
  (b.access { s with cpuCycle := curCycle, memmap := memmap } (s.deltaCycle curCycle) a).map
    fun (s, data) => ({ s with lastSyncCycles := curCycle }, data)

variable {F : Type} {M : Machine F} {α : Type}

theorem StoreHelper.store_of_shared (h : StoreHelper α) {D : Double F} {cfg : CoreConfig}
    {s : Store α} {m : Memmap}
    (hm : memmapIsShared M.stub.memmap s.addr = some (true, m)) :
    h.store D cfg M s = orFault (h.storeShared D (M.setMemmap m) s) := by
  rw [store, hm]
  rfl

/-- The clock is all that a write reads of the core, too. -/
theorem Machine.hsimWrite_core {D : Double F} {N : Machine F} {l : Load} {data : Bytes} {size : ℕ}
    {atype : AccessType} (h : M.hsimWrite D l data size atype = some N) :
    N.core = M.core.readTime D := by
  obtain ⟨⟨s, val⟩, -, rfl⟩ := Option.map_eq_some_iff.1 h
  rfl

/-- **The core sees a store** as it sees a load. -/
theorem StoreHelper.store_core (h : StoreHelper α) {D : Double F} {cfg : CoreConfig} {N : Machine F}
    {s : Store α} (hstore : h.store D cfg M s = .ok N) :
    ∃ shared m, memmapIsShared M.stub.memmap s.addr = some (shared, m) ∧
      M.core.hsimAccess D cfg shared ⟨s.addr, true, s.missType⟩ = some N.core := by
  unfold store at hstore
  split at hstore
  next => cases hstore
  next shared m hm =>
    refine ⟨shared, m, hm, ?_⟩
    cases shared with
    | true =>
      rw [Machine.hsimWrite_core (orFault_eq_ok_iff.1 hstore)]
      rfl
    | false =>
      simp only [Bool.false_eq_true, if_false] at hstore
      split at hstore
      next =>
        obtain ⟨⟨missType, core⟩, hcore, hrest⟩ :=
          Option.bind_eq_some_iff.1 (orFault_eq_ok_iff.1 hstore)
        refine (Core.hsimAccess_local (c := M.core) hcore).trans ?_
        simp only at hrest
        split at hrest
        next hmiss => rw [if_pos hmiss, Machine.hsimWrite_core hrest]
        next hmiss => rw [if_neg hmiss, ← Option.some.inj hrest]
      next => cases hstore

end Guest

end Tqsim
