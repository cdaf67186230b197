import Tqsim.Sampling.Handover

/-!
# The last sample

`gdb_exit` calls `perfmodel_sample_wrapup` before it reads the estimate. That
function looks at `is_sampled` only. A sample that is being recorded is
analyzed and awaited there; an analysis that `inst_increment` has started is
awaited at the end of its period, and when the guest exits before, nobody
awaits it.
-/

namespace Tqsim

namespace Sampling

open TraceAnalyzer

variable {F : Type} {cfg : SampleConfig}

/-- How far the guest is in its period when it rests. -/
theorem mod_period_of_recording {k j n : ℕ} (hper : cfg.length ≤ cfg.defaultPeriod)
    (hr : Resting cfg (.recording k j) n) : (n - 1) % cfg.defaultPeriod = j - 1 := by
  obtain ⟨hn, hj, hle⟩ := hr
  rw [show n - 1 = k * cfg.defaultPeriod + (j - 1) by omega, Nat.mul_add_mod',
    Nat.mod_eq_of_lt (by omega)]

theorem length_le_mod_period {k n : ℕ} (hr : Resting cfg (.analyzing k) n) :
    cfg.length ≤ (n - 1) % cfg.defaultPeriod := by
  obtain ⟨hlt, hle⟩ := hr
  rw [Nat.succ_mul] at hle
  rw [show n - 1 = k * cfg.defaultPeriod + (n - 1 - k * cfg.defaultPeriod) by omega,
    Nat.mul_add_mod', Nat.mod_eq_of_lt (by omega)]
  omega

/-- **Which runs lose their last sample.** When the guest exits, the model has
been updated with every analysis started just when the last instruction was
one of those that its period samples. -/
theorem updates_eq_starts_iff (E : Env F) (cfg : SampleConfig) (an : State F) (perf : Perfmodel F)
    (hpos : 1 ≤ cfg.length) (hper : cfg.length ≤ cfg.defaultPeriod) (s : Sampler F)
    (hs : Reachable E cfg an perf s) (hexit : s.loc = .exited) (hN : 1 ≤ instCalls s.history) :
    (updates s.log).length = (starts s.log).length ↔
      (instCalls s.history - 1) % cfg.defaultPeriod < cfg.length := by
  obtain ⟨ph, hr, hcalls, hout⟩ := reachable_closing hpos hper hs (by rw [hexit]; rfl)
  simp only [hexit] at hout
  rw [hcalls] at hN ⊢
  cases ph with
  | before =>
    have hn : s.numInsts = 0 := hr
    omega
  | recording k j =>
    have hmod := mod_period_of_recording hper hr
    obtain ⟨-, hj, hle⟩ := hr
    rw [hout.updates, hout.starts, hmod]
    exact iff_of_true rfl (by omega)
  | analyzing k =>
    have hmod := length_le_mod_period hr
    rw [hout.updates, hout.starts]
    exact iff_of_false (by omega) (by omega)

/-- The guest is at `perfmodel_getCycle`. -/
def Loc.isExited : Loc → Bool
  | .exited => true
  | _ => false

theorem Loc.eq_exited {l : Loc} (h : l.isExited = true) : l = .exited := by
  cases l <;> first | rfl | cases h

/-- How a run at a sample of one instruction and a period of two ends:
whether it is at its exit, its instructions, and its analyses started and
awaited. -/
def outcome (moves : List Move) : Option (Bool × ℕ × ℕ × ℕ) :=
  (Run.play (Sampler.move (sampleEnv 2) ⟨1, 2⟩) moves
    (Sampler.initial blankState samplePerfmodel)).map fun s =>
      (s.loc.isExited, instCalls s.history, (starts s.log).length, (updates s.log).length)

theorem reachable_of_outcome {moves : List Move} {n k l : ℕ}
    (h : outcome moves = some (true, n, k, l)) :
    ∃ s, Reachable (sampleEnv 2) ⟨1, 2⟩ blankState samplePerfmodel s ∧ s.loc = .exited ∧
      instCalls s.history = n ∧ (starts s.log).length = k ∧ (updates s.log).length = l := by
  obtain ⟨s, hs, heq⟩ := Option.map_eq_some_iff.1 h
  simp only [Prod.mk.injEq] at heq
  exact ⟨s, ⟨moves, hs⟩, Loc.eq_exited heq.1, heq.2⟩

/-- One instruction, which is recorded when the guest exits. -/
def recordedExit : List Move :=
  instMoves 0 0xE0810002 ++ [.exit ⟨0, 0, 0, 0⟩, .guest] ++ List.replicate 7 .analysis ++ [.guest]

theorem updates_eq_starts_recordedExit :
    ∃ s, Reachable (sampleEnv 2) ⟨1, 2⟩ blankState samplePerfmodel s ∧ s.loc = .exited ∧
      instCalls s.history = 1 ∧ (updates s.log).length = (starts s.log).length := by
  obtain ⟨s, hs, hexit, hn, -⟩ := reachable_of_outcome
    (show outcome recordedExit = some (true, 1, 1, 1) by decide)
  refine ⟨s, hs, hexit, hn, ?_⟩
  refine (updates_eq_starts_iff (sampleEnv 2) ⟨1, 2⟩ blankState samplePerfmodel (by decide)
    (by decide) s hs hexit (by omega)).2 ?_
  rw [hn]
  decide

/-- Both instructions of the period. The analysis of the first is under way
when the guest exits, and the model is never updated. -/
def analyzingExit : List Move :=
  instMoves 0 0xE0810002 ++ instMoves 4 0xE0810002 ++ [.exit ⟨0, 0, 0, 0⟩, .guest]

theorem updates_ne_starts_analyzingExit :
    ∃ s, Reachable (sampleEnv 2) ⟨1, 2⟩ blankState samplePerfmodel s ∧ s.loc = .exited ∧
      instCalls s.history = 2 ∧ (starts s.log).length = 1 ∧ (updates s.log).length = 0 :=
  reachable_of_outcome (show outcome analyzingExit = _ by decide)

end Sampling

end Tqsim
