import Tqsim.Sampling.Handover
import Tqsim.Sampling.Helpers.Modes

/-!
# The addresses of a record

`push_memaddr` appends an address to the newest record of the trace buffer,
whose array `eff_addr` has sixteen entries, and no function counts them. The
newest record is that of the last instruction while the buffer has room, and
that of the last one stored afterwards. What its array is asked to hold is
therefore a number of calls of `dcache_access`: those since that instruction.
-/

namespace Tqsim

namespace Sampling

open TraceAnalyzer

variable {F : Type} {s s' : Sampler F}

/-- From `s` to `s'`, `push_memaddr` stores an address at index `k` of the
newest record. -/
def StoresAt (s s' : Sampler F) (addr : UInt32) (k : ℕ) : Prop :=
  ∃ inst inst', s.traceBuffer.elems.getLast? = some inst ∧
    s'.traceBuffer.elems.getLast? = some inst' ∧
    inst'.effAddr = inst.effAddr ++ [addr] ∧ inst.effAddr.length = k

theorem exists_storesAt {inst : Inst} (hsam : s.isSampled = true)
    (hinst : s.traceBuffer.elems.getLast? = some inst) (addr : UInt32) (isWrite : Bool)
    (d : UInt32 → Bool → CacheMissType) :
    ∃ s', s.call (.dcacheAccess addr isWrite d) = some s' ∧
      StoresAt s s' addr inst.effAddr.length := by
  let inst' := setInstEffAddr inst addr (d addr isWrite)
  let q : InstQueue Inst := { s.traceBuffer with elems := s.traceBuffer.elems.dropLast ++ [inst'] }
  have hq : pushMemaddr s.traceBuffer addr (d addr isWrite) = some q := by
    rw [pushMemaddr, updateNewest, hinst]
    rfl
  refine ⟨Sampler.pushed { s with history := s.history ++ [.dcacheAccess addr isWrite d] } q, ?_,
    inst, inst', hinst, List.getLast?_concat, rfl, rfl⟩
  simp only [Sampler.call, hsam, if_true, hq, Option.map_some]

/-- **Which addresses stay inside the record**: those with fewer than sixteen
accesses before them since the instruction that the newest record is of. That
is the last instruction as long as the sample fits in the buffer, and the
one that filled it afterwards. -/
theorem storesAt_lt_iff (E : Env F) (cfg : SampleConfig) (an : State F) (perf : Perfmodel F)
    (s : Sampler F) (hs : Reachable E cfg an perf s) (hready : s.loc = .ready)
    (hsam : s.isSampled = true) (addr : UInt32) (isWrite : Bool)
    (d : UInt32 → Bool → CacheMissType) :
    ∃ s' k, s.call (.dcacheAccess addr isWrite d) = some s' ∧ StoresAt s s' addr k ∧
      (k < 16 ↔ accessesSince (s.numSampledInst - 1000001) s.history < 16) := by
  have h := (mode_of_reachable hs (by rw [hready]; rfl)).1.recording hsam
  have hfollowed : s.followed = s.history := by rw [Sampler.followed, hready]; rfl
  have hpos := h.nonempty (by rw [hready]; rfl)
  have hne : s.traceBuffer.elems ≠ [] := by
    rw [← List.length_pos_iff_ne_nil, h.holds.size]
    omega
  obtain ⟨inst, hinst⟩ := Option.ne_none_iff_exists'.1 fun hnone =>
    hne (List.getLast?_eq_none_iff.1 hnone)
  have hlen := h.holds.newest inst hinst
  rw [hfollowed] at hlen
  obtain ⟨s', hcall, hstores⟩ := exists_storesAt hsam hinst addr isWrite d
  exact ⟨s', inst.effAddr.length, hcall, hstores, by rw [hlen]⟩

/-! ## A transfer of many registers -/

/-- The guest is between two calls. -/
def Loc.isReady : Loc → Bool
  | .ready => true
  | _ => false

theorem Loc.eq_ready {l : Loc} (h : l.isReady = true) : l = .ready := by
  cases l <;> first | rfl | cases h

/-- `vldmia r0, {s0-s31}`, after `n` of the loads that the translator makes of
it. -/
def vldmMoves (n : ℕ) : List Move :=
  instMoves 0 0xEC900A20 ++
    (List.range n).map fun k =>
      .call (.dcacheAccess (UInt32.ofNat (0x1000 + 4 * k)) false fun _ _ => .l1Hit)

/-- How the run stands: whether the guest is between two calls, whether it
samples, its accesses, and the addresses on the newest record. -/
def vldmOutcome (n : ℕ) : Option (Bool × Bool × ℕ × Option ℕ) :=
  (Run.play (Sampler.move (sampleEnv 2) ⟨1, 2⟩) (vldmMoves n)
    (Sampler.initial blankState samplePerfmodel)).map fun s =>
      (s.loc.isReady, s.isSampled, accessesSince (s.numSampledInst - 1000001) s.history,
        s.traceBuffer.elems.getLast?.map fun inst => inst.effAddr.length)

theorem reachable_of_vldmOutcome {n k j : ℕ} (h : vldmOutcome n = some (true, true, k, some j)) :
    ∃ s, Reachable (sampleEnv 2) ⟨1, 2⟩ blankState samplePerfmodel s ∧ s.loc = .ready ∧
      s.isSampled = true ∧ accessesSince (s.numSampledInst - 1000001) s.history = k ∧
      ∃ inst, s.traceBuffer.elems.getLast? = some inst ∧ inst.effAddr.length = j := by
  obtain ⟨s, hs, heq⟩ := Option.map_eq_some_iff.1 h
  simp only [Prod.mk.injEq] at heq
  obtain ⟨h1, h2, h3, h4⟩ := heq
  exact ⟨s, ⟨_, hs⟩, Loc.eq_ready h1, h2, h3, Option.map_eq_some_iff.1 h4⟩

/-- The sixteenth load is the last one inside the record. -/
theorem storesAt_lt_sixteenth :
    ∃ s s', Reachable (sampleEnv 2) ⟨1, 2⟩ blankState samplePerfmodel s ∧ s.loc = .ready ∧
      s.isSampled = true ∧ ∃ k, StoresAt s s' 0x103C k ∧ k < 16 := by
  obtain ⟨s, hs, hready, hsam, hsince, -⟩ := reachable_of_vldmOutcome
    (show vldmOutcome 15 = some (true, true, 15, some 15) by decide)
  obtain ⟨s', k, -, hstores, hiff⟩ := storesAt_lt_iff (sampleEnv 2) ⟨1, 2⟩ blankState
    samplePerfmodel s hs hready hsam 0x103C false fun _ _ => .l1Hit
  exact ⟨s, s', hs, hready, hsam, k, hstores, hiff.2 (by rw [hsince]; decide)⟩

/-- The seventeenth is stored behind it. -/
theorem storesAt_seventeenth :
    ∃ s s', Reachable (sampleEnv 2) ⟨1, 2⟩ blankState samplePerfmodel s ∧ s.loc = .ready ∧
      s.isSampled = true ∧
      s.call (.dcacheAccess 0x1040 false fun _ _ => .l1Hit) = some s' ∧
      StoresAt s s' 0x1040 16 := by
  obtain ⟨s, hs, hready, hsam, -, inst, hinst, hlen⟩ := reachable_of_vldmOutcome
    (show vldmOutcome 16 = some (true, true, 16, some 16) by decide)
  obtain ⟨s', hcall, hstores⟩ := exists_storesAt hsam hinst 0x1040 false fun _ _ => .l1Hit
  exact ⟨s, s', hs, hready, hsam, hcall, hlen ▸ hstores⟩

end Sampling

end Tqsim
