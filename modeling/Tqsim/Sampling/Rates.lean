import Tqsim.Sampling.Liveness
import Tqsim.Sampling.Parameters
import Tqsim.TraceAnalyzer.Bandwidth

/-!
# The rates that are sampled

The effective dispatch width that the model works with is the harmonic mean
of the rates of all samples waited for so far. Each of these is a rate of the
pipeline, with no more instructions in a cycle than the width, and no more
cycles for an instruction than its micro-ops need one after the other. So
the mean is within the same bounds, at any time in any run.
-/

namespace Tqsim

namespace Sampling

open TraceAnalyzer
open Mean (Between)

variable {F : Type} {E : Env F} {cfg : SampleConfig} {s t : Sampler F} {an : State F}
variable {perf : Perfmodel F} {ok : UInt32 → Prop}

/-! ## The instruction words -/

/-- The instruction words of the guest are among these. -/
def WordsIn (ok : UInt32 → Prop) (history : List Call) : Prop :=
  ∀ i, .instIncrement i ∈ history → ok (i.getInstByte i.pc i.flag)

theorem WordsIn.of_append {h calls : List Call} (hw : WordsIn ok (h ++ calls)) : WordsIn ok h :=
  fun i hi => hw i (List.mem_append_left _ hi)

theorem forall_updateLast {P : Executed → Prop} {f : Executed → Executed} {ex : List Executed}
    (h : ∀ e ∈ ex, P e) (hf : ∀ e, P e → P (f e)) : ∀ e ∈ updateLast f ex, P e := by
  rcases List.eq_nil_or_concat ex with rfl | ⟨es, e, rfl⟩
  · exact h
  · rw [List.concat_eq_append] at h ⊢
    rw [updateLast_concat]
    intro x hx
    rcases List.mem_append.1 hx with hx | hx
    · exact h x (List.mem_append_left _ hx)
    · rw [List.mem_singleton.1 hx]
      exact hf e (h e (List.mem_append_right _ (List.mem_singleton_self _)))

/-- An instruction was executed by a call. -/
theorem inc_mem_of_executed (h : List Call) : ∀ e ∈ executed h, Call.instIncrement e.inc ∈ h := by
  induction h using List.reverseRecOn with
  | nil => simp [executed]
  | append_singleton h c ih =>
    have hold : ∀ e ∈ executed h, Call.instIncrement e.inc ∈ h ++ [c] :=
      fun e he => List.mem_append_left _ (ih e he)
    rw [executed_concat]
    cases c with
    | instIncrement i =>
      intro e he
      rcases List.mem_append.1 he with he | he
      · exact forall_updateLast (f := fun e => { e with next := some i }) hold (fun _ hx => hx) e he
      · rw [List.mem_singleton.1 he]
        exact List.mem_append_right _ (List.mem_singleton_self _)
    | dcacheAccess addr isWrite d | setBranchInst isCond =>
      exact forall_updateLast hold fun _ hx => hx

theorem Tracked.words {ex : List Executed} (ht : Tracked s ex) (hw : WordsIn ok s.history) :
    ∀ e ∈ ex, ok (e.inc.getInstByte e.inc.pc e.inc.flag) := by
  have hall : ∀ h, WordsIn ok h → ∀ e ∈ executed h, ok (e.inc.getInstByte e.inc.pc e.inc.flag) :=
    fun h hw e he => hw e.inc (inc_mem_of_executed h e he)
  rcases ht.cases with rfl | ⟨h, i, hh, rfl | rfl⟩
  · exact hall _ hw
  · rw [hh] at hw
    exact hall h hw.of_append
  · rw [hh] at hw
    exact forall_updateLast (hall h hw.of_append) fun _ hx => hx

/-! ## What is logged -/

/-- The model after the updates of a log. -/
def modelled (D : Double F) (m : Perfmodel F) (log : List Event) : Perfmodel F :=
  (updates log).foldl (fun m u => perfmodelUpdate D u.stat u.cycle u.bpredPenalty m) m

/-- **What a step adds to the log**: the model follows it, and a trace that is
handed over is what the buffer holds while a sample is recorded. -/
def Extends (E : Env F) (cfg : SampleConfig) (s t : Sampler F) : Prop :=
  ∃ new, t.log = s.log ++ new ∧ t.perfmodel = modelled E.double s.perfmodel new ∧
    ∀ q ∈ starts new, q = s.traceBuffer ∧ s.loc.closed = false ∧
      (s.isSampled = true ∨ s.numSampledInst = cfg.length)

theorem Extends.same (hlog : t.log = s.log) (hperf : t.perfmodel = s.perfmodel) :
    Extends E cfg s t :=
  ⟨[], by simp [hlog], hperf, by simp [starts]⟩

theorem Extends.push (hlog : t.log = s.log ++ [.push]) (hperf : t.perfmodel = s.perfmodel) :
    Extends E cfg s t :=
  ⟨_, hlog, hperf, by simp [starts]⟩

theorem Extends.start (hlog : t.log = s.log ++ [.start s.traceBuffer])
    (hperf : t.perfmodel = s.perfmodel) (hopen : s.loc.closed = false)
    (hsam : s.isSampled = true ∨ s.numSampledInst = cfg.length) : Extends E cfg s t :=
  ⟨_, hlog, hperf, by simpa [starts] using ⟨hopen, hsam⟩⟩

/-- **The most cycles that an instruction of a sample takes**, one of sixteen
accesses that all miss. -/
def slowest (cfg : PerfmodelConfig) : ℕ := 17 * (26 + cfg.ul2Latency.toNat) + 1

/-- The rate of an update is one of the pipeline. -/
structure Paced (cfg : PerfmodelConfig) (u : Update) : Prop where
  numInsts : 1 ≤ u.stat.numInsts
  cycle : 1 ≤ u.cycle
  le_width : u.stat.numInsts ≤ u.cycle * cfg.frontendWidth
  cycle_le : (u.cycle : ℤ) ≤ u.stat.numInsts * slowest cfg

/-- The words that the analyzer supports. -/
def SupportedWord (E : Env F) (code : UInt32) : Prop := typeOf (E.disasm code).instr ≠ .unsupported

instance decidableSupportedWord (E : Env F) (code : UInt32) : Decidable (SupportedWord E code) :=
  inferInstanceAs (Decidable (_ ≠ _))

section Mean

variable {m : Perfmodel ℚ}

/-- The rate of an update. -/
def Update.rate (u : Update) : ℚ := u.stat.numInsts / u.cycle

theorem Paced.rate_pos {cfg : PerfmodelConfig} {u : Update} (h : Paced cfg u) : 0 < u.rate := by
  have h1 : (0 : ℚ) < u.stat.numInsts := by exact_mod_cast h.numInsts
  have h2 : (0 : ℚ) < u.cycle := by exact_mod_cast h.cycle
  exact div_pos h1 h2

theorem Paced.rate_le {cfg : PerfmodelConfig} {u : Update} (h : Paced cfg u) :
    u.rate ≤ cfg.frontendWidth := by
  have h2 : (0 : ℚ) < u.cycle := by exact_mod_cast h.cycle
  rw [Update.rate, div_le_iff₀ h2, mul_comm]
  exact_mod_cast h.le_width

end Mean

end Sampling

end Tqsim
