import Tqsim.TraceAnalyzer.Helpers.Records
import Tqsim.Common.Run

/-!
# The invariant of the pipeline

`Inv` collects what every state of an analysis satisfies. The stages keep
it, and each stage's rule is stated again with the invariant at hand, so
that later results add only what they need. `Held` is what a write-back
latency of at least one adds: no freed record is left in the unit buffer.
-/

namespace Tqsim

namespace TraceAnalyzer

variable {F : Type} {base : ℕ} {s s' : State F} {p : Pipe F} {E : Env F} {T : List Inst}

/-- **The invariant.** -/
structure Inv (E : Env F) (base : ℕ) (T : List Inst) (s : State F) : Prop where
  window : Window E.cfg.robSize base s.pipe s.rob
  stages : Stages s.pipe
  memQueues : MemQueues s.pipe
  traced : Traced E.disasm T s.pipe
  units : Units E.cfg s.pipe

/-! ## Commit -/

theorem Inv.commitStep (h : Inv E base T s) (hready : CommitReady s.pipe) :
    Inv E base T (commitInst s s.pipe.oldest) where
  window := commitInst_window h.window hready.1
  stages := h.stages.commitStep hready
  memQueues := h.memQueues.commitStep hready
  traced := h.traced.commitStep
  units := h.units.commitStep

/-- **The commit stage**, for a property that a single commit keeps. -/
theorem Inv.commit {P : State F → Prop} (h : Inv E base T s) (hP : P s)
    (hstep : ∀ s, Inv E base T s → P s → CommitReady s.pipe → P (commitInst s s.pipe.oldest)) :
    ∃ s', commitInsts E s = some s' ∧ Inv E base T s' ∧ P s' := by
  have hrule := commitLoop_rule (P := fun s => Inv E base T s ∧ P s)
    (fun s _ hs hready => ⟨hs.1.commitStep hready, hstep s hs.1 hs.2 hready⟩)
    E.cfg.backendWidth.toNat h.window ⟨h, hP⟩
  obtain ⟨s', hs', -, hinv, hP'⟩ := hrule
  exact ⟨s', hs', hinv, hP'⟩

/-! ## Write-back and execute -/

/-- **The write-back stage.** -/
theorem Inv.writeback (h : Inv E base T s) (hp : writebackInsts E s.pipe = some p) :
    ∃ done, done <+: s.pipe.fuBuffer.elems ∧
      (E.cfg.backendWidth ≠ 0 → ∀ r ∈ s.pipe.fuBuffer.elems.head?, r ∈ done) ∧
      p = writtenBack done s.pipe ∧ (∀ r ∈ done, s.pipe.InFlight r) ∧
      Inv E base T { s with pipe := p } := by
  obtain ⟨done, hpre, hhead, rfl, hlive⟩ := writebackLoop_spec h.stages.fu_nodup h.stages.fu_nodup hp
  have hdone : ∀ r ∈ done, s.pipe.InFlight r := fun r hr => (h.window.live r).1 (hlive r hr)
  have hfields : ∀ r, ((writtenBack done s.pipe).heap r).type = (s.pipe.heap r).type ∧
      ((writtenBack done s.pipe).heap r).ldqElem = (s.pipe.heap r).ldqElem ∧
      ((writtenBack done s.pipe).heap r).stqElem = (s.pipe.heap r).stqElem ∧
      ((writtenBack done s.pipe).heap r).fixed = (s.pipe.heap r).fixed := by
    intro r
    obtain ⟨l, hl⟩ := heap_writtenBack done s.pipe r
    rw [hl]
    exact ⟨rfl, rfl, rfl, rfl⟩
  refine ⟨done, hpre, hhead, rfl, hdone, h.window.congr rfl rfl rfl, h.stages.writebackStep hdone,
    ?_, ?_, h.units.writebackStep done⟩
  · exact h.memQueues.congr rfl rfl rfl rfl fun r =>
      ⟨(hfields r).1, (hfields r).2.1, (hfields r).2.2.1⟩
  · exact h.traced.congr rfl rfl rfl rfl rfl rfl fun r => (hfields r).2.2.2

/-- **The execute stage.** -/
theorem Inv.execute (h : Inv E base T s) (hp : executeInsts E s.pipe = some p) :
    (∃ n avg, p = executedPipe E s.pipe.fuBuffer.elems s.pipe n avg) ∧
      (∀ r ∈ s.pipe.fuBuffer.elems, s.pipe.InFlight r) ∧ Inv E base T { s with pipe := p } := by
  obtain ⟨⟨n, avg, rfl⟩, hlive⟩ := executeLoop_spec h.stages.fu_nodup hp
  have hfields : ∀ r, (executedHeap E s.pipe.fuBuffer.elems s.pipe r).type = (s.pipe.heap r).type ∧
      (executedHeap E s.pipe.fuBuffer.elems s.pipe r).ldqElem = (s.pipe.heap r).ldqElem ∧
      (executedHeap E s.pipe.fuBuffer.elems s.pipe r).stqElem = (s.pipe.heap r).stqElem ∧
      (executedHeap E s.pipe.fuBuffer.elems s.pipe r).fixed = (s.pipe.heap r).fixed := by
    intro r
    obtain ⟨st, k, l, h⟩ := heap_executed E s.pipe.fuBuffer.elems s.pipe r
    rw [h]
    exact ⟨rfl, rfl, rfl, rfl⟩
  refine ⟨⟨n, avg, rfl⟩, fun r hr => (h.window.live r).1 (hlive r hr), h.window.congr rfl rfl rfl,
    h.stages.executeStep n avg, ?_, ?_, h.units.executeStep n avg⟩
  · exact h.memQueues.congr rfl rfl rfl rfl fun r =>
      ⟨(hfields r).1, (hfields r).2.1, (hfields r).2.2.1⟩
  · exact h.traced.congr rfl rfl rfl rfl rfl rfl fun r => (hfields r).2.2.2

/-! ## Issue -/

theorem Stages.not_mem_fuBuffer (h : Stages p) {r : ℕ} (hst : (p.heap r).state = .dispatch) :
    r ∉ p.fuBuffer.elems := by
  intro hmem
  rcases (h.fu_mem r hmem).2 with hs | hs <;> rw [hst] at hs <;> cases hs

theorem Inv.issueStep (h : Inv E base T s) {r : ℕ} (hr : s.pipe.InFlight r)
    (hst : (s.pipe.heap r).state = .dispatch) {unit : FU}
    (hunit : tryFU (s.pipe.fu (instTypeFuTypeMap (s.pipe.heap r).type)) = some unit) :
    Inv E base T (issued s r unit) := by
  have hfields : ∀ x, ((issued s r unit).pipe.heap x).type = (s.pipe.heap x).type ∧
      ((issued s r unit).pipe.heap x).ldqElem = (s.pipe.heap x).ldqElem ∧
      ((issued s r unit).pipe.heap x).stqElem = (s.pipe.heap x).stqElem ∧
      ((issued s r unit).pipe.heap x).fixed = (s.pipe.heap x).fixed := by
    intro x
    obtain ⟨st, c, l, hx⟩ := heap_issued s r unit x
    rw [hx]
    exact ⟨rfl, rfl, rfl, rfl⟩
  constructor
  · exact h.window.congr rfl rfl rfl
  · exact h.stages.issueStep h.units.fuBuffer hr.2 hst unit
  · exact h.memQueues.congr rfl rfl rfl rfl fun x =>
      ⟨(hfields x).1, (hfields x).2.1, (hfields x).2.2.1⟩
  · exact h.traced.congr rfl rfl rfl rfl rfl rfl fun x => (hfields x).2.2.2
  · exact h.units.issueStep (h.stages.not_mem_fuBuffer hst) hunit

/-- The loop of the issue stage, for a property that the issue of one record
keeps. -/
theorem Inv.issueLoop {P : State F → Prop} (h : Inv E base T s) (hP : P s) {rs : List ℕ}
    (hrs : ∀ r ∈ rs, s.pipe.InFlight r) (w : ℕ)
    (hstep : ∀ s r unit, Inv E base T s → P s → s.pipe.InFlight r →
      (s.pipe.heap r).state = .dispatch → ¬ Waits s r →
      tryFU (s.pipe.fu (instTypeFuTypeMap (s.pipe.heap r).type)) = some unit →
      P (issued s r unit)) :
    ∃ s', TraceAnalyzer.issueLoop rs w s = some s' ∧ Inv E base T s' ∧ P s' := by
  have hrule := issueLoop_rule (P := fun s => Inv E base T s ∧ P s)
    (fun s r unit _ hs _ hr hst hw hunit =>
      ⟨hs.1.issueStep hr hst hunit, hstep s r unit hs.1 hs.2 hr hst hw hunit⟩)
    w h.window hrs ⟨h, hP⟩
  obtain ⟨s', hs', -, hinv, hP'⟩ := hrule
  exact ⟨s', hs', hinv, hP'⟩

/-- **The issue stage.** -/
theorem Inv.issue {P : State F → Prop} (h : Inv E base T s) (hP : P s)
    (hstep : ∀ s r unit, Inv E base T s → P s → s.pipe.InFlight r →
      (s.pipe.heap r).state = .dispatch → ¬ Waits s r →
      tryFU (s.pipe.fu (instTypeFuTypeMap (s.pipe.heap r).type)) = some unit →
      P (issued s r unit)) :
    ∃ s', issueInsts E s = some s' ∧ Inv E base T s' ∧ P s' := by
  rw [issueInsts]
  split
  · exact ⟨s, rfl, h, hP⟩
  · exact h.issueLoop hP (fun r hr => h.stages.inFlight_of_mem_iq hr) _ hstep

/-! ## Dispatch -/

variable {inst : Inst} {rest : List Inst}

theorem Inv.prepareStep (h : Inv E base T s) (htb : s.pipe.traceBuffer.elems = inst :: rest) :
    Inv E base T (prepared E s inst) := by
  have htr := h.traced.prepareStep htb
  have heq : prepared E s inst = { s with pipe := _ } :=
    congrArg (fun p => { s with pipe := p }) (prepareFront_eq h.traced.stocked htb)
  rw [heq] at htr ⊢
  constructor
  · exact h.window.congr rfl rfl rfl
  · exact h.stages.congr rfl rfl rfl rfl rfl
  · exact h.memQueues.congr rfl rfl rfl rfl fun _ => ⟨rfl, rfl, rfl⟩
  · exact htr
  · exact h.units.congr (fun _ => ⟨rfl, rfl, rfl⟩) (fun _ => rfl) rfl rfl rfl rfl

theorem Inv.dropStep (h : Inv E base T s) (htb : s.pipe.traceBuffer.elems = inst :: rest)
    (hset : inst.Settled) (hsup : inst.type = .unsupported) : Inv E base T (dropped s) where
  window := h.window.congr rfl rfl rfl
  stages := h.stages.congr rfl rfl rfl rfl rfl
  memQueues := h.memQueues.congr rfl rfl rfl rfl fun _ => ⟨rfl, rfl, rfl⟩
  traced := h.traced.dropStep htb hset hsup
  units := h.units.congr (fun _ => ⟨rfl, rfl, rfl⟩) (fun _ => rfl) rfl rfl rfl rfl

theorem Inv.dispatchStep {t : State F} (h : Inv E base T s)
    (htb : s.pipe.traceBuffer.elems = inst :: rest) (hset : inst.Settled)
    (hsup : inst.type ≠ .unsupported) (hadm : Admits E.cfg.robSize s.pipe inst)
    (hto : DispatchedTo E.cfg.robSize base s inst t) : Inv E base T t := by
  have hold := h.window.oldest_le
  constructor
  · exact hto.window
  · rw [hto.pipe]
    exact h.stages.dispatchStep hold hadm.iq inst
  · rw [hto.pipe]
    exact h.memQueues.dispatchStep hold hset hadm
  · rw [hto.pipe]
    exact h.traced.dispatchStep htb hset hsup
  · rw [hto.pipe]
    exact h.units.dispatchStep (fun r hr => (h.stages.fu_mem r hr).1) inst

/-- **The loop of the dispatch stage**, for a property that its three kinds of
step keep. -/
theorem Inv.dispatch {P : State F → Prop} (h : Inv E base T s) (hP : P s)
    (hprep : ∀ s inst rest, Inv E base T s → P s →
      s.pipe.traceBuffer.elems = inst :: rest → P (prepared E s inst))
    (hdrop : ∀ s inst rest, Inv E base T s → P s → s.pipe.traceBuffer.elems = inst :: rest →
      inst.Settled → inst.type = .unsupported → P (dropped s))
    (hdisp : ∀ s t inst rest, Inv E base T s → P s → s.pipe.traceBuffer.elems = inst :: rest →
      inst.Settled → inst.type ≠ .unsupported → Admits E.cfg.robSize s.pipe inst →
      DispatchedTo E.cfg.robSize base s inst t → P t)
    {fuel w : ℕ} (hs' : dispatchLoop E fuel w s = some s') : Inv E base T s' ∧ P s' := by
  have hrule := dispatchLoop_rule (P := fun s => Inv E base T s ∧ P s)
    (fun s inst rest _ _ hs htb => ⟨hs.1.prepareStep htb, hprep s inst rest hs.1 hs.2 htb⟩)
    (fun s inst rest _ _ hs htb hset hsup =>
      ⟨hs.1.dropStep htb hset hsup, hdrop s inst rest hs.1 hs.2 htb hset hsup⟩)
    (fun s t inst rest _ _ hs htb hset hsup hadm hto =>
      ⟨hs.1.dispatchStep htb hset hsup hadm hto,
        hdisp s t inst rest hs.1 hs.2 htb hset hsup hadm hto⟩)
    h.window h.traced.stocked ⟨h, hP⟩ hs'
  exact hrule.2.2

theorem Inv.dispatch_total (h : Inv E base T s) (hcap : E.cfg.robSize ≤ robEntries) :
    ∃ s', dispatchInsts E s = some s' := by
  refine dispatchLoop_total hcap h.window h.traced.stocked ?_
  have := unsupportedLeft_le_size E.disasm s.pipe.traceBuffer
  omega

/-! ## A whole cycle -/

theorem Inv.tick (h : Inv E base T s) : Inv E base T { s with pipe := endCycle s.pipe } where
  window := h.window.congr rfl rfl rfl
  stages := h.stages.congr rfl rfl rfl rfl rfl
  memQueues := h.memQueues.congr rfl rfl rfl rfl fun _ => ⟨rfl, rfl, rfl⟩
  traced := h.traced.congr rfl rfl rfl rfl rfl rfl fun _ => rfl
  units := h.units.congr (fun _ => ⟨rfl, rfl, rfl⟩) (fun _ => rfl) rfl rfl rfl rfl

/-- The states a cycle goes through. -/
structure Steps (E : Env F) (s : State F) (afterCommit : State F) (afterWriteback : Pipe F)
    (afterExecute : Pipe F) (afterIssue afterDispatch s' : State F) : Prop where
  commit : commitInsts E s = some afterCommit
  writeback : writebackInsts E afterCommit.pipe = some afterWriteback
  execute : executeInsts E afterWriteback = some afterExecute
  issue : issueInsts E { afterCommit with pipe := afterExecute } = some afterIssue
  dispatch : dispatchInsts E afterIssue = some afterDispatch
  finish : s' = { afterDispatch with pipe := endCycle afterDispatch.pipe }

theorem cycle_steps (h : cycle E s = some s') : ∃ s₁ p₂ p₃ s₄ s₅, Steps E s s₁ p₂ p₃ s₄ s₅ s' := by
  obtain ⟨s₃, hs₃, hrest⟩ := Option.bind_eq_some_iff.1 h
  obtain ⟨s₁, hs₁, hs₃⟩ := Option.bind_eq_some_iff.1 hs₃
  obtain ⟨p₂, hp₂, hs₃⟩ := Option.bind_eq_some_iff.1 hs₃
  obtain ⟨p₃, hp₃, hs₃⟩ := Option.bind_eq_some_iff.1 hs₃
  obtain ⟨s₄, hs₄, hrest⟩ := Option.bind_eq_some_iff.1 hrest
  obtain ⟨s₅, hs₅, hlast⟩ := Option.bind_eq_some_iff.1 hrest
  rw [← Option.some.inj hs₃] at hs₄
  exact ⟨s₁, p₂, p₃, s₄, s₅, hs₁, hp₂, hp₃, hs₄, hs₅, (Option.some.inj hlast).symm⟩

theorem Steps.beforeIssue {s₁ s₄ s₅ : State F} {p₂ p₃ : Pipe F}
    (h : Steps E s s₁ p₂ p₃ s₄ s₅ s') : beforeIssue E s = some { s₁ with pipe := p₃ } := by
  simp only [TraceAnalyzer.beforeIssue, h.commit, Option.bind_eq_bind, Option.bind_some, h.writeback,
    h.execute]

theorem Steps.cycle {s₁ s₄ s₅ : State F} {p₂ p₃ : Pipe F}
    (h : Steps E s s₁ p₂ p₃ s₄ s₅ s') : cycle E s = some s' := by
  simp only [TraceAnalyzer.cycle, h.beforeIssue, Option.bind_eq_bind, Option.bind_some, h.issue,
    h.dispatch, h.finish]

/-- **What to show of a property that may change with the stages**: `PB` holds
up to the write-back of a cycle, `PW` after it, `PE` from the execution on,
and `PD` from the dispatch on. -/
structure Keeps (E : Env F) (base : ℕ) (T : List Inst) (PB PW PE PD : State F → Prop) : Prop where
  commit : ∀ s, Inv E base T s → PB s → CommitReady s.pipe → PB (commitInst s s.pipe.oldest)
  writeback : ∀ s done, Inv E base T s → PB s → (∀ r ∈ done, s.pipe.InFlight r) →
    (∀ r ∈ done, r ∈ s.pipe.fuBuffer.elems) → PW { s with pipe := writtenBack done s.pipe }
  execute : ∀ s n avg, Inv E base T s → PW s → (∀ r ∈ s.pipe.fuBuffer.elems, s.pipe.InFlight r) →
    PE { s with pipe := executedPipe E s.pipe.fuBuffer.elems s.pipe n avg }
  issue : ∀ s r unit, Inv E base T s → PE s → s.pipe.InFlight r →
    (s.pipe.heap r).state = .dispatch → ¬ Waits s r →
    tryFU (s.pipe.fu (instTypeFuTypeMap (s.pipe.heap r).type)) = some unit → PE (issued s r unit)
  enter : ∀ s, Inv E base T s → PE s → PD s
  prepare : ∀ s inst rest, Inv E base T s → PD s → s.pipe.traceBuffer.elems = inst :: rest →
    PD (prepared E s inst)
  drop : ∀ s inst rest, Inv E base T s → PD s → s.pipe.traceBuffer.elems = inst :: rest →
    inst.Settled → inst.type = .unsupported → PD (dropped s)
  dispatch : ∀ s t inst rest, Inv E base T s → PD s → s.pipe.traceBuffer.elems = inst :: rest →
    inst.Settled → inst.type ≠ .unsupported → Admits E.cfg.robSize s.pipe inst →
    DispatchedTo E.cfg.robSize base s inst t → PD t

/-- The stages before issue keep such a property, and the invariant. -/
theorem Keeps.beforeIssue {PB PW PE PD : State F → Prop} {s₁ : State F} {p₂ p₃ : Pipe F}
    (hk : Keeps E base T PB PW PE PD) (h : Inv E base T s) (hP : PB s)
    (hcommit : commitInsts E s = some s₁) (hwriteback : writebackInsts E s₁.pipe = some p₂)
    (hexecute : executeInsts E p₂ = some p₃) :
    (Inv E base T s₁ ∧ PB s₁) ∧ (Inv E base T { s₁ with pipe := p₂ } ∧ PW { s₁ with pipe := p₂ }) ∧
      Inv E base T { s₁ with pipe := p₃ } ∧ PE { s₁ with pipe := p₃ } := by
  obtain ⟨t₁, ht₁, h₁, hP₁⟩ := h.commit hP hk.commit
  obtain rfl : t₁ = s₁ := Option.some.inj (ht₁.symm.trans hcommit)
  obtain ⟨done, hpre, -, rfl, hdone, h₂⟩ := h₁.writeback hwriteback
  have hP₂ := hk.writeback t₁ done h₁ hP₁ hdone fun r hr => hpre.subset hr
  obtain ⟨⟨n, avg, rfl⟩, hin, h₃⟩ := h₂.execute hexecute
  exact ⟨⟨h₁, hP₁⟩, ⟨h₂, hP₂⟩, h₃, hk.execute _ n avg h₂ hP₂ hin⟩

/-- In the state in which `issue_insts` is called, what was shown of the
execution holds. -/
theorem Keeps.enterIssue {PB PW PE PD : State F → Prop} {u : State F}
    (hk : Keeps E base T PB PW PE PD) (h : Inv E base T s) (hP : PB s)
    (hu : TraceAnalyzer.beforeIssue E s = some u) : Inv E base T u ∧ PE u := by
  obtain ⟨s₁, hs₁, hu⟩ := Option.bind_eq_some_iff.1 hu
  obtain ⟨p₂, hp₂, hu⟩ := Option.bind_eq_some_iff.1 hu
  obtain ⟨p₃, hp₃, hu⟩ := Option.bind_eq_some_iff.1 hu
  obtain rfl := Option.some.inj hu
  exact (hk.beforeIssue h hP hs₁ hp₂ hp₃).2.2

/-- The issue stage keeps such a property too. -/
theorem Keeps.afterIssue {PB PW PE PD : State F → Prop} (hk : Keeps E base T PB PW PE PD)
    (h : Inv E base T s) (hP : PE s) (hissue : issueInsts E s = some s') :
    Inv E base T s' ∧ PE s' := by
  obtain ⟨t, ht, h', hP'⟩ := h.issue hP hk.issue
  obtain rfl : t = s' := Option.some.inj (ht.symm.trans hissue)
  exact ⟨h', hP'⟩

/-- **The stages of a cycle keep such a property**, and the invariant. -/
theorem Keeps.steps {PB PW PE PD : State F → Prop} {s₁ s₄ s₅ : State F} {p₂ p₃ : Pipe F}
    (hk : Keeps E base T PB PW PE PD) (h : Inv E base T s) (hP : PB s)
    (hsteps : Steps E s s₁ p₂ p₃ s₄ s₅ s') :
    (Inv E base T s₁ ∧ PB s₁) ∧ (Inv E base T { s₁ with pipe := p₂ } ∧ PW { s₁ with pipe := p₂ }) ∧
      (Inv E base T { s₁ with pipe := p₃ } ∧ PE { s₁ with pipe := p₃ }) ∧
      (Inv E base T s₄ ∧ PE s₄) ∧ Inv E base T s₅ ∧ PD s₅ := by
  obtain ⟨h₁, h₂, h₃, hP₃⟩ := hk.beforeIssue h hP hsteps.commit hsteps.writeback hsteps.execute
  obtain ⟨h₄, hP₄⟩ := hk.afterIssue h₃ hP₃ hsteps.issue
  have h₅ := h₄.dispatch (hk.enter s₄ h₄ hP₄) hk.prepare hk.drop hk.dispatch hsteps.dispatch
  exact ⟨h₁, h₂, ⟨h₃, hP₃⟩, ⟨h₄, hP₄⟩, h₅⟩

/-- **A cycle keeps such a property** up to the advance of the clock. -/
theorem Keeps.cycle {PB PW PE PD : State F → Prop} (hk : Keeps E base T PB PW PE PD)
    (h : Inv E base T s) (hP : PB s) (hs' : cycle E s = some s') :
    ∃ t, Inv E base T t ∧ PD t ∧ s' = { t with pipe := endCycle t.pipe } := by
  obtain ⟨s₁, p₂, p₃, s₄, s₅, hsteps⟩ := cycle_steps hs'
  obtain ⟨-, -, -, -, h₅, hP₅⟩ := hk.steps h hP hsteps
  exact ⟨s₅, h₅, hP₅, hsteps.finish⟩

theorem keeps_true (E : Env F) (base : ℕ) (T : List Inst) :
    Keeps E base T (fun _ => True) (fun _ => True) (fun _ => True) (fun _ => True) := by
  constructor <;> intros <;> trivial

/-- **A cycle keeps the invariant.** -/
theorem Inv.step (h : Inv E base T s) (hs' : TraceAnalyzer.cycle E s = some s') :
    Inv E base T s' := by
  obtain ⟨t, ht, -, rfl⟩ := (keeps_true E base T).cycle h trivial hs'
  exact ht.tick

/-! ## No freed record in the unit buffer -/

/-- The latencies count down to zero: a complete record in the unit buffer has
cycles left to wait, and no latency is negative. -/
structure Held (p : Pipe F) : Prop where
  left : ∀ r ∈ p.fuBuffer.elems, (p.heap r).state = .complete → 1 ≤ (p.heap r).remainingLatency
  nonneg : ∀ r < p.next, (p.heap r).state = .complete → 0 ≤ (p.heap r).remainingLatency

/-- So a record in the unit buffer is not committed. -/
theorem Held.inFlight (hheld : Held p) (h : Stages p) {r : ℕ} (hr : r ∈ p.fuBuffer.elems) :
    p.InFlight r := by
  refine ⟨Nat.le_of_not_lt fun hlt => ?_, (h.fu_mem r hr).1⟩
  obtain ⟨hst, hrem⟩ := h.committed r hlt
  have := hheld.left r hr hst
  omega

theorem Held.writebackStep (hheld : Held p) {done : List ℕ}
    (hdone : ∀ r ∈ done, r ∈ p.fuBuffer.elems) : Held (writtenBack done p) := by
  -- a visited complete record is one lower
  have hval : ∀ r, (p.heap r).state = .complete →
      (writebackInst (p.heap r)).remainingLatency = (p.heap r).remainingLatency - 1 :=
    fun r hst => by rw [writebackInst, if_pos hst]
  constructor
  · intro r hr hst
    simp only [writtenBack, List.mem_filter, decide_eq_true_eq] at hr hst ⊢
    obtain ⟨hmem, hnot⟩ := hr
    split at hst
    next hd =>
      rw [Stages.writebackInst_state] at hst
      have hrem := hheld.left r hmem hst
      have hne : (writebackInst (p.heap r)).remainingLatency ≠ 0 := fun h0 =>
        hnot ⟨hd, by rw [Stages.writebackInst_state]; exact hst, h0⟩
      have := hval r hst
      rw [if_pos hd]
      omega
    next hd =>
      rw [if_neg hd]
      exact hheld.left r hmem hst
  · intro r hr hst
    simp only [writtenBack] at hst ⊢
    split at hst
    next hd =>
      rw [Stages.writebackInst_state] at hst
      have hrem := hheld.left r (hdone r hd) hst
      rw [if_pos hd, hval r hst]
      omega
    next hd =>
      rw [if_neg hd]
      exact hheld.nonneg r hr hst

theorem writebackLatency_ge (hul2 : 0 ≤ E.cfg.ul2Latency) (inst : Inst) :
    2 ≤ writebackLatency E inst := by
  unfold writebackLatency
  split
  · split <;> omega
  · omega

theorem Held.executeStep (hheld : Held p) (hul2 : 0 ≤ E.cfg.ul2Latency) (n : ℕ) (avg : F) :
    Held (executedPipe E p.fuBuffer.elems p n avg) := by
  -- a record that completes gets its write-back latency
  have key : ∀ r (c : ℤ), c ≤ 2 → ((p.heap r).state = .complete → c ≤ (p.heap r).remainingLatency) →
      (executedHeap E p.fuBuffer.elems p r).state = .complete →
      c ≤ (executedHeap E p.fuBuffer.elems p r).remainingLatency := by
    intro r c hc hold hst
    simp only [executedHeap] at hst ⊢
    split at hst
    next hx =>
      rw [if_pos hx]
      simp only [executedInst] at hst ⊢
      split at hst
      next hdone =>
        rw [if_pos hdone]
        exact le_trans hc (writebackLatency_ge hul2 _)
      next => exact absurd (hx.2.symm.trans hst) (by simp)
    next hx =>
      rw [if_neg hx]
      exact hold hst
  exact ⟨fun r hr hst => key r 1 (by norm_num) (hheld.left r hr) hst,
    fun r hr hst => key r 0 (by norm_num) (hheld.nonneg r hr) hst⟩

theorem Held.issueStep (hheld : Held s.pipe) (hfu : s.pipe.fuBuffer.capacity = 0) (r : ℕ)
    (unit : FU) : Held (issued s r unit).pipe := by
  have hroom : s.pipe.fuBuffer.HasRoom := .inl hfu
  have hself : ((issued s r unit).pipe.heap r).state = .issue := by simp [issued, issueInst]
  have hother : ∀ x, x ≠ r → (issued s r unit).pipe.heap x = s.pipe.heap x := fun x hx => by
    simp [issued, issueInst, hx]
  constructor
  · intro x hx hst
    by_cases hxr : x = r
    · subst hxr
      exact absurd (hself.symm.trans hst) (by simp)
    · have hmem : x ∈ s.pipe.fuBuffer.elems := by
        simpa [issued, issueInst, InstQueue.pushBackInst, hroom, hxr] using hx
      rw [hother x hxr] at hst ⊢
      exact hheld.left x hmem hst
  · intro x hx hst
    by_cases hxr : x = r
    · subst hxr
      exact absurd (hself.symm.trans hst) (by simp)
    · rw [hother x hxr] at hst ⊢
      exact hheld.nonneg x hx hst

theorem Held.dispatchStep (hheld : Held p) (hst : Stages p) (inst : Inst) :
    Held (dispatchedPipe p inst) := by
  have hother : ∀ r, r ≠ p.next → (dispatchedPipe p inst).heap r = p.heap r :=
    fun r hr => Function.update_of_ne hr ..
  constructor
  · intro r hr hs
    have hlt := (hst.fu_mem r hr).1
    rw [hother r (Nat.ne_of_lt hlt)] at hs ⊢
    exact hheld.left r hr hs
  · intro r hr hs
    have hr : r < p.next + 1 := hr
    by_cases hrn : r = p.next
    · subst hrn
      simp [dispatchedPipe, dispatchedInst] at hs
    · rw [hother r hrn] at hs ⊢
      exact hheld.nonneg r (by omega) hs

theorem held_keeps (E : Env F) (base : ℕ) (T : List Inst) (hul2 : 0 ≤ E.cfg.ul2Latency) :
    Keeps E base T (fun s => Held s.pipe) (fun s => Held s.pipe) (fun s => Held s.pipe)
      (fun s => Held s.pipe) where
  commit s _ hP _ := by
    have hsame : ∀ r, ((commitInst s s.pipe.oldest).pipe.heap r).state = (s.pipe.heap r).state ∧
        ((commitInst s s.pipe.oldest).pipe.heap r).remainingLatency =
          (s.pipe.heap r).remainingLatency := by
      intro r
      obtain ⟨c, hc⟩ := heap_commitInst s s.pipe.oldest r
      rw [hc]
      exact ⟨rfl, rfl⟩
    constructor
    · intro r
      rw [(hsame r).1, (hsame r).2]
      exact hP.left r
    · intro r
      rw [(hsame r).1, (hsame r).2]
      exact hP.nonneg r
  writeback _ _ _ hP _ hdone := hP.writebackStep hdone
  execute _ n avg _ hP _ := hP.executeStep hul2 n avg
  issue _ r unit h hP _ _ _ _ := hP.issueStep h.units.fuBuffer r unit
  enter _ _ hP := hP
  prepare s inst rest h hP htb := by
    simp only [prepared, prepareFront_eq h.traced.stocked htb]
    exact ⟨hP.left, hP.nonneg⟩
  drop _ _ _ _ hP _ _ _ := ⟨hP.left, hP.nonneg⟩
  dispatch s t inst rest h hP _ _ _ _ hto := by
    rw [hto.pipe]
    exact hP.dispatchStep h.stages inst

/-- After execution, the unit buffer holds records in flight only, whatever
the latencies: a freed one would have faulted. -/
theorem fuBuffer_inFlight_keeps (E : Env F) (base : ℕ) (T : List Inst) :
    Keeps E base T (fun _ => True) (fun _ => True)
      (fun s => ∀ r ∈ s.pipe.fuBuffer.elems, s.pipe.InFlight r)
      (fun s => ∀ r ∈ s.pipe.fuBuffer.elems, s.pipe.InFlight r) where
  commit _ _ _ _ := trivial
  writeback _ _ _ _ _ _ := trivial
  execute _ _ _ _ _ hin := hin
  issue s r unit h hP hr _ _ _ := by
    intro x hx
    have hroom : s.pipe.fuBuffer.HasRoom := .inl h.units.fuBuffer
    have hmem : x ∈ s.pipe.fuBuffer.elems ∨ x = r := by
      simpa [issued, issueInst, InstQueue.pushBackInst, hroom] using hx
    rcases hmem with hx | rfl
    · exact hP x hx
    · exact hr
  enter _ _ hP := hP
  prepare s inst rest h hP htb := by
    simp only [prepared, prepareFront_eq h.traced.stocked htb]
    exact hP
  drop _ _ _ _ hP _ _ _ := hP
  dispatch s t inst rest _ hP _ _ _ _ hto := by
    rw [hto.pipe]
    intro r hr
    obtain ⟨h1, h2⟩ := hP r hr
    exact ⟨h1, Nat.lt_succ_of_lt h2⟩

/-- The stages do not touch the clock. -/
theorem curCycle_keeps (E : Env F) (base : ℕ) (T : List Inst) (c : ℕ) :
    Keeps E base T (fun s => s.pipe.curCycle = c) (fun s => s.pipe.curCycle = c)
      (fun s => s.pipe.curCycle = c) (fun s => s.pipe.curCycle = c) where
  commit _ _ hP _ := hP
  writeback _ _ _ hP _ _ := hP
  execute _ _ _ _ hP _ := hP
  issue _ _ _ _ hP _ _ _ _ := hP
  enter _ _ hP := hP
  prepare s inst rest h hP htb := by
    simp only [prepared, prepareFront_eq h.traced.stocked htb]
    exact hP
  drop _ _ _ _ hP _ _ _ := hP
  dispatch s t inst rest _ hP _ _ _ _ hto := by
    rw [hto.pipe]
    exact hP

/-- The stages do not change the capacity of the trace buffer. -/
theorem capacity_keeps (E : Env F) (base : ℕ) (T : List Inst) (c : ℤ) :
    Keeps E base T (fun s => s.pipe.traceBuffer.capacity = c)
      (fun s => s.pipe.traceBuffer.capacity = c) (fun s => s.pipe.traceBuffer.capacity = c)
      (fun s => s.pipe.traceBuffer.capacity = c) where
  commit _ _ hP _ := hP
  writeback _ _ _ hP _ _ := hP
  execute _ _ _ _ hP _ := hP
  issue _ _ _ _ hP _ _ _ _ := hP
  enter _ _ hP := hP
  prepare s inst rest h hP htb := by
    simp only [prepared, prepareFront_eq h.traced.stocked htb]
    exact hP
  drop _ _ _ _ hP _ _ _ := hP
  dispatch s t inst rest _ hP _ _ _ _ hto := by
    rw [hto.pipe]
    exact hP

/-- The stages lose no instruction of a trace that fits. -/
theorem lossless_keeps (E : Env F) (base : ℕ) (T : List Inst) :
    Keeps E base T (fun s => Lossless E.disasm s.pipe) (fun s => Lossless E.disasm s.pipe)
      (fun s => Lossless E.disasm s.pipe) (fun s => Lossless E.disasm s.pipe) where
  commit _ _ hP _ := hP.congr rfl rfl rfl
  writeback _ _ _ hP _ _ := hP.congr rfl rfl rfl
  execute _ _ _ _ hP _ := hP.congr rfl rfl rfl
  issue _ _ _ _ hP _ _ _ _ := hP.congr rfl rfl rfl
  enter _ _ hP := hP
  prepare _ _ _ h hP htb := hP.prepareStep h.traced.stocked htb
  drop _ _ _ _ hP htb _ _ := hP.tail htb rfl rfl rfl
  dispatch s t inst rest _ hP htb _ _ _ hto := by
    rw [hto.pipe]
    exact hP.tail htb rfl rfl rfl

/-- **The stages before issue do not fail.** -/
theorem Inv.beforeIssue_total (h : Inv E base T s) (hheld : Held s.pipe)
    (hul2 : 0 ≤ E.cfg.ul2Latency) : ∃ s₁ p₂ p₃, commitInsts E s = some s₁ ∧
      writebackInsts E s₁.pipe = some p₂ ∧ executeInsts E p₂ = some p₃ ∧
      Inv E base T { s₁ with pipe := p₃ } := by
  obtain ⟨s₁, hs₁, h₁, hheld₁⟩ := h.commit hheld (held_keeps E base T hul2).commit
  obtain ⟨p₂, hp₂⟩ : ∃ p₂, writebackInsts E s₁.pipe = some p₂ :=
    writebackLoop_total _ fun r hr => (h₁.window.live r).2 (hheld₁.inFlight h₁.stages hr)
  obtain ⟨done, hpre, -, rfl, -, h₂⟩ := h₁.writeback hp₂
  have hheld₂ : Held (writtenBack done s₁.pipe) :=
    hheld₁.writebackStep fun r hr => hpre.subset hr
  obtain ⟨p₃, hp₃⟩ : ∃ p₃, executeInsts E (writtenBack done s₁.pipe) = some p₃ :=
    executeLoop_total E fun r hr => (h₂.window.live r).2 (hheld₂.inFlight h₂.stages hr)
  exact ⟨s₁, _, p₃, hs₁, hp₂, hp₃, (h₂.execute hp₃).2.2⟩

/-- **A cycle does not fail.** -/
theorem Inv.cycle_total (h : Inv E base T s) (hheld : Held s.pipe) (hul2 : 0 ≤ E.cfg.ul2Latency)
    (hcap : E.cfg.robSize ≤ robEntries) : ∃ s', cycle E s = some s' := by
  obtain ⟨s₁, p₂, p₃, hs₁, hp₂, hp₃, h₃⟩ := h.beforeIssue_total hheld hul2
  obtain ⟨s₄, hs₄, h₄, -⟩ := h₃.issue (P := fun _ => True) trivial
    fun _ _ _ _ _ _ _ _ _ => trivial
  obtain ⟨s₅, hs₅⟩ := h₄.dispatch_total hcap
  exact ⟨_, Steps.cycle ⟨hs₁, hp₂, hp₃, hs₄, hs₅, rfl⟩⟩

end TraceAnalyzer

end Tqsim
