import Tqsim.TraceAnalyzer.Structure

/-!
# The limits of the back end

What the units, the widths and the queues allow is never exceeded, in any
cycle of any analysis. `WithinLimits` says so of a state; it holds before the
cycle and after each of its stages. `CycleLimits` compares the states at the
two ends of a cycle: what was committed, what left the unit buffer, and what
was issued, to each unit and in total.
-/

namespace Tqsim

namespace TraceAnalyzer

variable {F : Type} {s s' t : State F} {p : Pipe F} {E : Env F} {base : ℕ} {T : List Inst}
variable {cfg : PerfmodelConfig}

/-! ## The queues -/

/-- A queue whose capacity is not zero stays within it. A negative capacity
leaves the queue empty. -/
def InstQueue.Within {α : Type} (q : InstQueue α) : Prop :=
  q.capacity ≠ 0 → (q.size : ℤ) ≤ max q.capacity 0

namespace InstQueue.Within

variable {α : Type} {q : InstQueue α}

theorem pushBackInst (h : q.Within) (x : α) : (q.pushBackInst x).1.Within := by
  unfold InstQueue.pushBackInst
  split
  next hroom =>
    intro hcap
    have hlt : (q.size : ℤ) < q.capacity := hroom.resolve_left hcap
    refine le_max_of_le_left ?_
    simp only [InstQueue.size, List.length_append, List.length_singleton] at hlt ⊢
    omega
  next => exact h

variable [DecidableEq α]

theorem removeFromList (h : q.Within) (x : α) : (q.removeFromList x).Within := by
  intro hcap
  have hle : (q.removeFromList x).size ≤ q.size := List.length_erase_le
  exact (Int.ofNat_le.2 hle).trans (h hcap)

theorem removeElem (h : q.Within) (x : Option α) : (q.removeElem x).Within := by
  cases x with
  | none => exact h
  | some x => exact h.removeFromList x

end InstQueue.Within

/-! ## A state -/

/-- What the steps keep of it, beside the invariant. -/
structure Bounded (p : Pipe F) : Prop where
  stages : ∀ f, (p.fu f).numActive ≤ (p.fu f).numStage
  iq : p.iq.Within
  ldq : p.ldq.Within
  stq : p.stq.Within

theorem tryFU_eq_some {fu unit : FU} (h : tryFU fu = some unit) :
    fu.numIssue < fu.capacity ∧ fu.numActive < fu.numStage ∧
      unit = { fu with numIssue := fu.numIssue + 1, numActive := fu.numActive + 1 } := by
  unfold tryFU at h
  split at h
  next hfree => exact ⟨hfree.1, hfree.2, (Option.some.inj h).symm⟩
  next => cases h

theorem Bounded.issueStep (h : Bounded s.pipe) {r : ℕ} {unit : FU}
    (hunit : tryFU (s.pipe.fu (instTypeFuTypeMap (s.pipe.heap r).type)) = some unit) :
    Bounded (issued s r unit).pipe := by
  refine ⟨fun f => ?_, h.iq.removeFromList r, h.ldq, h.stq⟩
  obtain ⟨-, hfree, rfl⟩ := tryFU_eq_some hunit
  simp only [issued, issueInst, Function.update_apply]
  split
  next => exact hfree
  next => exact h.stages f

theorem Bounded.dispatchStep (h : Bounded p) (inst : Inst) : Bounded (dispatchedPipe p inst) := by
  refine ⟨h.stages, h.iq.pushBackInst _, ?_, ?_⟩
  · simp only [dispatchedPipe, queuedPipe]
    split
    · exact h.ldq.pushBackInst _
    · exact h.ldq
  · simp only [dispatchedPipe, queuedPipe]
    split
    · exact h.stq.pushBackInst _
    · exact h.stq

theorem initAllFUs_nonneg (halu : 0 < cfg.intalu) (hmult : 0 < cfg.intmultdiv) (f : FUType) :
    0 ≤ (initAllFUs cfg f).capacity ∧ 0 ≤ (initAllFUs cfg f).numStage := by
  cases f <;> simp only [initAllFUs, initFU] <;> omega

/-- An analysis starts within its limits. -/
theorem Drained.bounded (hd : Drained E s) (halu : 0 < E.cfg.intalu)
    (hmult : 0 < E.cfg.intmultdiv) (trace : Trace) :
    Bounded (beginAnalysis E trace.queue s).pipe where
  stages f := (initAllFUs_nonneg halu hmult f).2.trans_eq (hd.fuNumStage f).symm
  iq := by simp [beginAnalysis, hd.iq, InstQueue.Within, InstQueue.size]
  ldq := by simp [beginAnalysis, hd.ldq, InstQueue.Within, InstQueue.size]
  stq := by simp [beginAnalysis, hd.stq, InstQueue.Within, InstQueue.size]

/-! ## A cycle -/

/-- The records of the unit buffer that it did not hold before. -/
def entered (s t : State F) : List ℕ :=
  t.pipe.fuBuffer.elems.filter (· ∉ s.pipe.fuBuffer.elems)

/-- What the issue stage has added to the unit buffer, as the units count
it. -/
structure Issues (b ids : List ℕ) (s : State F) : Prop where
  elems : s.pipe.fuBuffer.elems = b ++ ids
  counted : ∀ f, (s.pipe.fu f).numIssue =
    (ids.countP fun r => instTypeFuTypeMap (s.pipe.heap r).type = f : ℕ)
  within : ∀ f, (s.pipe.fu f).numIssue ≤ (s.pipe.fu f).capacity

theorem issued_type (s : State F) (r : ℕ) (unit : FU) (x : ℕ) :
    ((issued s r unit).pipe.heap x).type = (s.pipe.heap x).type := by
  by_cases hx : x = r
  · subst hx
    simp [issued, issueInst]
  · simp [issued, issueInst, hx]

theorem Issues.issueStep {b ids : List ℕ} (h : Issues b ids s)
    (hfub : s.pipe.fuBuffer.capacity = 0) {r : ℕ} {unit : FU}
    (hunit : tryFU (s.pipe.fu (instTypeFuTypeMap (s.pipe.heap r).type)) = some unit) :
    Issues b (ids ++ [r]) (issued s r unit) := by
  obtain ⟨hfree, -, rfl⟩ := tryFU_eq_some hunit
  constructor
  · have hroom : s.pipe.fuBuffer.HasRoom := .inl hfub
    simp [issued, issueInst, InstQueue.pushBackInst, hroom, h.elems]
  · intro f
    simp only [issued_type, List.countP_append, List.countP_singleton, decide_eq_true_eq]
    simp only [issued, issueInst, Function.update_apply]
    by_cases hf : f = instTypeFuTypeMap (s.pipe.heap r).type
    · rw [if_pos hf, if_pos hf.symm, ← hf]
      have := h.counted f
      push_cast
      omega
    · rw [if_neg hf, if_neg (Ne.symm hf), Nat.add_zero]
      exact h.counted f
  · intro f
    simp only [issued, issueInst, Function.update_apply]
    split
    next => exact hfree
    next => exact h.within f

/-- At a cycle boundary nothing has been issued in the cycle to come. -/
theorem Reaches.numIssue {trace : Trace} {n : ℕ} (h : Reaches E trace s n t) (f : FUType) :
    (t.pipe.fu f).numIssue = 0 := by
  cases n with
  | zero => rw [← Option.some.inj h]; rfl
  | succ n =>
    obtain ⟨u, -, hu⟩ := Run.exists_of_iterate_succ h
    obtain ⟨_, _, _, _, _, hsteps⟩ := cycle_steps hu
    rw [hsteps.finish]
    rfl

variable {s₁ s₄ s₅ : State F} {p₂ p₃ : Pipe F}

end TraceAnalyzer

end Tqsim
