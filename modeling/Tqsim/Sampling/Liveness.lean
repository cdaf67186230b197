import Tqsim.Sampling.Schedule
import Tqsim.TraceAnalyzer.Duration

/-!
# Every analysis ends

An analysis that is started comes to its end, whatever the guest thread does
in between: its samples fit in the trace buffer together with what their
instructions are expanded to, as long as no instruction makes more accesses
than a record has room for.
-/

namespace Tqsim

namespace Sampling

open TraceAnalyzer
open Run (iterate)

variable {F : Type} {E : Env F} {cfg : SampleConfig} {s t u : Sampler F} {an : State F}
variable {perf : Perfmodel F}

/-! ## The thread by itself -/

/-- Left to itself, the analysis thread comes to its end. -/
def Ends (E : Env F) (s : Sampler F) : Prop :=
  ∃ n t, iterate (Sampler.threadStep E) n s = some t ∧ t.thread = .exited

theorem Ends.step (h : Ends E s) (ht : s.threadStep E = some t) : Ends E t := by
  obtain ⟨n, v, hv, hex⟩ := h
  cases n with
  | zero =>
    obtain rfl := Option.some.inj hv
    simp [Sampler.threadStep, hex] at ht
  | succ n =>
    rw [Run.iterate_succ, ht] at hv
    exact ⟨n, v, hv, hex⟩

/-! ## The accesses of an instruction -/

/-- **No instruction makes more accesses** than `eff_addr` has entries. -/
def AccessesFit (history : List Call) : Prop := ∀ e ∈ executed history, e.accesses.length ≤ 16

/-- What holds after a change of the last instruction held before it. -/
theorem forall_of_updateLast {P : Executed → Prop} {f : Executed → Executed} {ex : List Executed}
    (h : ∀ e ∈ updateLast f ex, P e) (hf : ∀ e, P (f e) → P e) : ∀ e ∈ ex, P e := by
  rcases List.eq_nil_or_concat ex with rfl | ⟨es, e, rfl⟩
  · exact h
  · rw [List.concat_eq_append] at h ⊢
    rw [updateLast_concat] at h
    intro x hx
    rcases List.mem_append.1 hx with hx | hx
    · exact h x (List.mem_append_left _ hx)
    · rw [List.mem_singleton.1 hx]
      exact hf e (h (f e) (List.mem_append_right _ (List.mem_singleton_self _)))

theorem AccessesFit.of_concat {h : List Call} {c : Call} (hfit : AccessesFit (h ++ [c])) :
    AccessesFit h := by
  unfold AccessesFit at hfit
  rw [executed_concat] at hfit
  cases c with
  | instIncrement i =>
    have hold : ∀ e ∈ resolved i (executed h), e.accesses.length ≤ 16 :=
      fun e he => hfit e (List.mem_append_left _ he)
    exact forall_of_updateLast hold fun e he => he
  | dcacheAccess addr isWrite d | setBranchInst isCond =>
    refine forall_of_updateLast hfit fun e he => le_trans ?_ he
    simp [Executed.accesses]

theorem AccessesFit.of_append {h calls : List Call} (hfit : AccessesFit (h ++ calls)) :
    AccessesFit h := by
  induction calls using List.reverseRecOn with
  | nil => simpa using hfit
  | append_singleton calls c ih =>
    rw [← List.append_assoc] at hfit
    exact ih hfit.of_concat

/-- **The instructions that the call under way knows of**: after its first
statement, a call has resolved the last one. -/
theorem Tracked.cases {ex : List Executed} (ht : Tracked s ex) :
    ex = executed s.history ∨ ∃ h i, s.history = h ++ [.instIncrement i] ∧
      (ex = executed h ∨ ex = resolved i (executed h)) := by
  unfold Tracked at ht
  cases hloc : s.loc with
  | ready | wrapup c | wrapupEnd | exited =>
    simp only [hloc] at ht
    exact .inl ht.1
  | resolve i =>
    simp only [hloc] at ht
    obtain ⟨⟨h, hh, hex⟩, -⟩ := ht
    exact .inr ⟨h, i, hh, .inl hex⟩
  | fetch i =>
    simp only [hloc] at ht
    obtain ⟨⟨h, hh, hex⟩, -⟩ := ht
    exact .inr ⟨h, i, hh, .inr hex⟩
  | first i m | finish i m | period i m | record i m =>
    simp only [hloc] at ht
    obtain ⟨h, hh, hex⟩ := ht.history
    exact .inr ⟨h, i, hh, .inr hex⟩

/-- A call leaves the thread alone, and is remembered. -/
theorem call_thread {c : Call} (ht : s.call c = some t) :
    t.thread = s.thread ∧ t.history = s.history ++ [c] := by
  cases c with
  | instIncrement i | setBranchInst isCond =>
    obtain rfl := Option.some.inj ht
    exact ⟨rfl, rfl⟩
  | dcacheAccess addr isWrite d =>
    simp only [Sampler.call] at ht
    split at ht
    · obtain ⟨q, -, rfl⟩ := Option.map_eq_some_iff.1 ht
      exact ⟨rfl, rfl⟩
    · obtain rfl := Option.some.inj ht
      exact ⟨rfl, rfl⟩

end Sampling

end Tqsim
