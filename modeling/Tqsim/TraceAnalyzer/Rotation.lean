import Tqsim.TraceAnalyzer.Dependence

/-!
# Where the window lies

A call of `trace_analysis` starts wherever the previous one left the window
of the reorder buffer, over whatever the dependency matrix held. Two calls
from different such states run in lockstep: `Alike` says that the pipelines
are the same and that the matrices agree on the records in flight. Every
stage keeps it but issue, which asks the order test of `dep_mat.c`. The
calls stay alike as long as that test hides the same dependences from both
(`SameAcross`): when the windows start at the same slot, or when neither
window lets a record pass one it waits for across the end of its array.
-/

namespace Tqsim

namespace TraceAnalyzer

variable {F : Type} {s s' t u u' : State F} {p : Pipe F} {E : Env F} {base base' : ℕ}
variable {T : List Inst}

/-- **Two states that a stage cannot tell apart**, but for the order test. -/
structure Alike (s s' : State F) : Prop where
  pipe : s'.pipe = s.pipe
  marks : ∀ a b, s.pipe.InFlight a → s.pipe.InFlight b → a < b → (s.Marked b a ↔ s'.Marked b a)

theorem Alike.symm (h : Alike s s') : Alike s' s :=
  ⟨h.pipe.symm, fun a b ha hb hab => (h.marks a b (h.pipe ▸ ha) (h.pipe ▸ hb) hab).symm⟩

theorem Alike.refl (s : State F) : Alike s s := ⟨rfl, fun _ _ _ _ _ => Iff.rfl⟩

/-- The same change of both pipelines, which lets no record enter. -/
theorem Alike.congr (h : Alike s s') (hold : s.pipe.oldest ≤ p.oldest)
    (hnext : p.next = s.pipe.next) :
    Alike { s with pipe := p } { s' with pipe := p } where
  pipe := rfl
  marks a b ha hb hab :=
    h.marks a b ⟨le_trans hold ha.1, hnext ▸ ha.2⟩ ⟨le_trans hold hb.1, hnext ▸ hb.2⟩ hab

/-- The order test hides the same dependences in both states. -/
def SameAcross (s s' : State F) : Prop :=
  ∀ b ∈ s.pipe.iq.elems, ∀ a < b, s.pipe.InFlight a → s.Marked b a →
    canForward (s.pipe.heap a) = false → (AcrossWrap s.rob a b ↔ AcrossWrap s'.rob a b)

/-! ## The stages -/

theorem Alike.commitLoop (ha : Alike s s') (h : Inv E base T s) (h' : Inv E base' T s') (w : ℕ)
    (ht : commitLoop w s = some t) : ∃ t', TraceAnalyzer.commitLoop w s' = some t' ∧ Alike t t' := by
  induction w generalizing s s' with
  | zero =>
    obtain rfl := Option.some.inj ht
    exact ⟨s', rfl, ha⟩
  | succ w ih =>
    rw [commitLoop_succ h.window] at ht
    rw [commitLoop_succ h'.window, ha.pipe]
    split at ht
    next hready =>
      rw [if_pos hready]
      have hready' : CommitReady s'.pipe := ha.pipe ▸ hready
      have hstep' := h'.commitStep hready'
      rw [ha.pipe] at hstep'
      refine ih ⟨?_, fun a b hia hib hab => ?_⟩ (h.commitStep hready) hstep' ht
      · simp only [commitInst, ha.pipe]
      · have hlow : s.pipe.oldest ≤ (commitInst s s.pipe.oldest).pipe.oldest := by
          rw [oldest_commitInst]
          exact Nat.le_succ _
        exact ha.marks a b ⟨le_trans hlow hia.1, hia.2⟩ ⟨le_trans hlow hib.1, hib.2⟩ hab
    next hready =>
      obtain rfl := Option.some.inj ht
      exact ⟨s', if_neg hready, ha⟩

/-- A record of the issue queue waits in both states or in none. -/
theorem Alike.waits_iff (ha : Alike s s') (hx : SameAcross s s') (h : Inv E base T s) {b : ℕ}
    (hb : b ∈ s.pipe.iq.elems) : Waits s b ↔ Waits s' b := by
  have hin := h.stages.inFlight_of_mem_iq hb
  simp only [Waits, ha.pipe]
  refine exists_congr fun a => ⟨?_, ?_⟩
  · rintro ⟨hold, hab, hnot, hmark, hfwd⟩
    have hia : s.pipe.InFlight a := ⟨hold, lt_trans hab hin.2⟩
    exact ⟨hold, hab, fun hc => hnot ((hx b hb a hab hia hmark hfwd).2 hc),
      (ha.marks a b hia hin hab).1 hmark, hfwd⟩
  · rintro ⟨hold, hab, hnot, hmark', hfwd⟩
    have hia : s.pipe.InFlight a := ⟨hold, lt_trans hab hin.2⟩
    have hmark := (ha.marks a b hia hin hab).2 hmark'
    exact ⟨hold, hab, fun hc => hnot ((hx b hb a hab hia hmark hfwd).1 hc), hmark, hfwd⟩

/-- The issue of a record uncovers no dependence. -/
theorem SameAcross.issueStep (hx : SameAcross s s') (h : Inv E base T s) {r : ℕ}
    (hst : (s.pipe.heap r).state = .dispatch) (unit : FU) :
    SameAcross (issued s r unit) (issued s' r unit) := by
  intro b hb a hab ha hmark hfwd
  refine hx b (List.mem_of_mem_erase hb) a hab ha hmark ?_
  by_cases har : a = r
  · rw [Bool.eq_false_iff, Ne, canForward_iff h.stages ha.2, har, hst]
    simp
  · simpa only [issued, issueInst, Function.update_of_ne har] using hfwd

theorem Alike.issueLoop (ha : Alike s s') (hx : SameAcross s s') (h : Inv E base T s)
    (h' : Inv E base' T s') {rs : List ℕ} (hrs : ∀ r ∈ rs, s.pipe.InFlight r) (w : ℕ)
    (ht : issueLoop rs w s = some t) :
    ∃ t', TraceAnalyzer.issueLoop rs w s' = some t' ∧ Alike t t' := by
  induction rs generalizing w s s' with
  | nil =>
    obtain rfl := Option.some.inj ht
    exact ⟨s', rfl, ha⟩
  | cons r rs ih =>
    have hr : s.pipe.InFlight r := hrs r (List.mem_cons_self ..)
    have hrest : ∀ x ∈ rs, s.pipe.InFlight x := fun x hx => hrs x (List.mem_cons_of_mem _ hx)
    have hr' : s'.pipe.InFlight r := ha.pipe ▸ hr
    cases w with
    | zero =>
      obtain rfl := Option.some.inj ht
      exact ⟨s', rfl, ha⟩
    | succ w =>
      obtain ⟨waits, hdep, hwaits⟩ := hasDependency_spec h.window hr
      obtain ⟨waits', hdep', hwaits'⟩ := hasDependency_spec h'.window hr'
      rw [TraceAnalyzer.issueLoop] at ht ⊢
      simp only [h.window.deref hr, hdep, Option.bind_eq_bind, Option.bind_some] at ht
      simp only [ha.pipe, h.window.deref hr, hdep', Option.bind_eq_bind, Option.bind_some]
      split at ht
      next hst =>
        -- both states answer the same
        obtain rfl : waits = waits' := by
          have hiff := ha.waits_iff hx h ((h.stages.iq_mem r).2 ⟨hr.2, hst⟩)
          rw [Bool.eq_iff_iff, hwaits, hwaits', hiff]
        rw [if_pos hst]
        split at ht
        next hw =>
          rw [if_pos hw]
          exact ih ha hx h h' hrest _ ht
        next hw =>
          rw [if_neg hw]
          split at ht
          next unit hunit =>
            have hstep := h.issueStep hr hst hunit
            have hunit' : tryFU (s'.pipe.fu (instTypeFuTypeMap (s'.pipe.heap r).type)) =
                some unit := by
              rw [ha.pipe]
              exact hunit
            have hstep' := h'.issueStep hr' (by rw [ha.pipe]; exact hst) hunit'
            have halike : Alike (issued s r unit) (issued s' r unit) := by
              simp only [issued, ha.pipe]
              exact ha.congr le_rfl rfl
            have hnext := ih halike (hx.issueStep h hst unit) hstep hstep' hrest w ht
            simpa only [issued, ha.pipe] using hnext
          next => exact ih ha hx h h' hrest _ ht
      next hst =>
        rw [if_neg hst]
        exact ih ha hx h h' hrest _ ht

/-- The dispatch of a record marks the same dependences. -/
theorem Alike.dispatchStep {cap : ℕ} {inst : Inst} {t' : State F} (ha : Alike s s')
    (hto : DispatchedTo cap base s inst t) (hto' : DispatchedTo cap base' s' inst t') :
    Alike t t' := by
  have hpipe : t'.pipe = t.pipe := by rw [hto'.pipe, hto.pipe, ha.pipe]
  refine ⟨hpipe, fun a b hia hib hab => ?_⟩
  rw [hto.marks a b hia hib hab, hto'.marks a b (hpipe ▸ hia) (hpipe ▸ hib) hab, ha.pipe]
  split
  next => exact Iff.rfl
  next hbn =>
    rw [hto.pipe] at hia hib
    have hb : b < s.pipe.next + 1 := hib.2
    exact ha.marks a b ⟨hia.1, by omega⟩ ⟨hib.1, by omega⟩ hab

/-- So does its preparation. -/
theorem Alike.prepareStep {inst : Inst} {rest : List Inst} (ha : Alike s s') (h : Inv E base T s)
    (htb : s.pipe.traceBuffer.elems = inst :: rest) :
    Alike (prepared E s inst) (prepared E s' inst) := by
  simp only [prepared, ha.pipe, prepareFront_eq h.traced.stocked htb]
  exact ha.congr le_rfl rfl

theorem Alike.dropStep (ha : Alike s s') : Alike (dropped s) (dropped s') := by
  simp only [dropped, ha.pipe]
  exact ha.congr le_rfl rfl

/-- The tests that end the loop look at the pipeline only. -/
theorem Alike.dispatchBlocked_eq (ha : Alike s s') (h : Inv E base T s) (h' : Inv E base' T s')
    (front : Inst) : dispatchBlocked s' front = dispatchBlocked s front := by
  have hiff : dispatchBlocked s' front = false ↔ _ := dispatchBlocked_eq_false_iff h'.window
  rw [ha.pipe, ← dispatchBlocked_eq_false_iff h.window] at hiff
  rw [← Bool.not_inj_iff, Bool.eq_iff_iff, Bool.not_eq_true', Bool.not_eq_true']
  exact hiff

theorem Alike.dispatchLoop (ha : Alike s s') (h : Inv E base T s) (h' : Inv E base' T s')
    {fuel w : ℕ} (ht : dispatchLoop E fuel w s = some t) :
    ∃ t', TraceAnalyzer.dispatchLoop E fuel w s' = some t' ∧ Alike t t' := by
  induction fuel generalizing w s s' with
  | zero =>
    cases w with
    | zero =>
      rw [TraceAnalyzer.dispatchLoop] at ht ⊢
      obtain rfl := Option.some.inj ht
      exact ⟨s', rfl, ha⟩
    | succ w => simp [TraceAnalyzer.dispatchLoop] at ht
  | succ fuel ih =>
    cases w with
    | zero =>
      rw [TraceAnalyzer.dispatchLoop] at ht ⊢
      obtain rfl := Option.some.inj ht
      exact ⟨s', rfl, ha⟩
    | succ w =>
      rcases htb : s.pipe.traceBuffer.elems with _ | ⟨inst, rest⟩
      · rw [dispatchLoop_nil fuel w htb] at ht
        obtain rfl := Option.some.inj ht
        exact ⟨s', dispatchLoop_nil fuel w (by rw [ha.pipe]; exact htb), ha⟩
      · have htb' : s'.pipe.traceBuffer.elems = inst :: rest := by rw [ha.pipe]; exact htb
        obtain ⟨front, rest', hfront, hset⟩ := prepared_front E h.traced.stocked htb
        have h₁ := h.prepareStep htb
        have h₁' := h'.prepareStep htb'
        have ha₁ := ha.prepareStep h htb
        have hfront' : (prepared E s' inst).pipe.traceBuffer.elems = front :: rest' := by
          rw [ha₁.pipe]
          exact hfront
        rw [dispatchLoop_succ fuel w htb hfront] at ht
        rw [dispatchLoop_succ fuel w htb' hfront', ha₁.dispatchBlocked_eq h₁ h₁']
        split at ht
        next hb =>
          obtain rfl := Option.some.inj ht
          exact ⟨prepared E s' inst, if_pos hb, ha₁⟩
        next hb =>
          rw [if_neg hb]
          have hadm := (dispatchBlocked_eq_false_iff h₁.window).1 (Bool.eq_false_iff.2 hb)
          have hadm' : Admits E.cfg.robSize (prepared E s' inst).pipe front := ha₁.pipe ▸ hadm
          split at ht
          next hsup =>
            rw [if_pos hsup]
            exact ih ha₁.dropStep (h₁.dropStep hfront hset hsup) (h₁'.dropStep hfront' hset hsup) ht
          next hsup =>
            rw [if_neg hsup]
            obtain ⟨v, hv, ht⟩ := Option.bind_eq_some_iff.1 ht
            have harray := array_of_dispatchFront h₁.window hv
            obtain ⟨v₁, hv₁, hto⟩ := dispatchFront_spec h₁.window hadm.rob harray front
            obtain rfl : v₁ = v := Option.some.inj (hv₁.symm.trans hv)
            obtain ⟨v', hv', hto'⟩ := dispatchFront_spec h₁'.window hadm'.rob harray front
            rw [hv', Option.bind_some]
            exact ih (ha₁.dispatchStep hto hto') (h₁.dispatchStep hfront hset hsup hadm hto)
              (h₁'.dispatchStep hfront' hset hsup hadm' hto') ht

/-! ## Cycles and calls -/

theorem Alike.beforeIssue (ha : Alike s s') (h : Inv E base T s) (h' : Inv E base' T s')
    (hu : beforeIssue E s = some u) : ∃ u', TraceAnalyzer.beforeIssue E s' = some u' ∧
      Inv E base T u ∧ Inv E base' T u' ∧ Alike u u' := by
  obtain ⟨s₁, hs₁, hu⟩ := Option.bind_eq_some_iff.1 hu
  obtain ⟨p₂, hp₂, hu⟩ := Option.bind_eq_some_iff.1 hu
  obtain ⟨p₃, hp₃, hu⟩ := Option.bind_eq_some_iff.1 hu
  obtain rfl := Option.some.inj hu
  obtain ⟨t₁, ht₁, h₁, -⟩ := h.commit (P := fun _ => True) trivial fun _ _ _ _ => trivial
  obtain rfl : t₁ = s₁ := Option.some.inj (ht₁.symm.trans hs₁)
  obtain ⟨t₁', ht₁', h₁', -⟩ := h'.commit (P := fun _ => True) trivial fun _ _ _ _ => trivial
  obtain ⟨v₁, hv₁, ha₁⟩ := ha.commitLoop h h' _ hs₁
  obtain rfl : t₁' = v₁ := Option.some.inj (ht₁'.symm.trans hv₁)
  have hp₂' : writebackInsts E t₁'.pipe = some p₂ := by rw [ha₁.pipe]; exact hp₂
  obtain ⟨done, -, -, rfl, -, h₂⟩ := h₁.writeback hp₂
  obtain ⟨-, -, -, -, -, h₂'⟩ := h₁'.writeback hp₂'
  obtain ⟨⟨n, avg, rfl⟩, -, h₃⟩ := h₂.execute hp₃
  refine ⟨_, ?_, h₃, (h₂'.execute hp₃).2.2, ha₁.congr le_rfl rfl⟩
  simp only [TraceAnalyzer.beforeIssue, ht₁', Option.bind_eq_bind, Option.bind_some, hp₂', hp₃]

/-- **Two cycles in lockstep**, if the order test hides the same dependences
from both. -/
theorem Alike.cycle (ha : Alike s s') (h : Inv E base T s) (h' : Inv E base' T s')
    (hx : ∀ u u', TraceAnalyzer.beforeIssue E s = some u → TraceAnalyzer.beforeIssue E s' = some u' →
      Inv E base T u → Inv E base' T u' → Alike u u' → SameAcross u u')
    (ht : cycle E s = some t) : ∃ t', TraceAnalyzer.cycle E s' = some t' ∧ Alike t t' := by
  obtain ⟨u, hu, ht⟩ := Option.bind_eq_some_iff.1 ht
  obtain ⟨s₄, hs₄, ht⟩ := Option.bind_eq_some_iff.1 ht
  obtain ⟨s₅, hs₅, ht⟩ := Option.bind_eq_some_iff.1 ht
  obtain rfl := Option.some.inj ht
  obtain ⟨u', hu', h₃, h₃', ha₃⟩ := ha.beforeIssue h h' hu
  have hx₃ := hx u u' hu hu' h₃ h₃' ha₃
  -- issue
  obtain ⟨t₄, ht₄, h₄, -⟩ := h₃.issue (P := fun _ => True) trivial fun _ _ _ _ _ _ _ _ _ => trivial
  obtain rfl : t₄ = s₄ := Option.some.inj (ht₄.symm.trans hs₄)
  obtain ⟨t₄', ht₄', h₄', -⟩ := h₃'.issue (P := fun _ => True) trivial
    fun _ _ _ _ _ _ _ _ _ => trivial
  have ha₄ : Alike t₄ t₄' := by
    rw [issueInsts, ha₃.pipe] at ht₄'
    rw [issueInsts] at hs₄
    split at hs₄
    next hemp =>
      rw [if_pos hemp] at ht₄'
      obtain rfl := Option.some.inj hs₄
      obtain rfl := Option.some.inj ht₄'
      exact ha₃
    next hemp =>
      rw [if_neg hemp] at ht₄'
      obtain ⟨v, hv, hav⟩ := ha₃.issueLoop hx₃ h₃ h₃'
        (fun r hr => h₃.stages.inFlight_of_mem_iq hr) _ hs₄
      obtain rfl : t₄' = v := Option.some.inj (ht₄'.symm.trans hv)
      exact hav
  -- dispatch
  obtain ⟨s₅', hs₅', ha₅⟩ := ha₄.dispatchLoop h₄ h₄' hs₅
  have hdisp' : dispatchInsts E t₄' = some s₅' := by
    simp only [dispatchInsts, ha₄.pipe]
    exact hs₅'
  refine ⟨{ s₅' with pipe := endCycle s₅'.pipe }, ?_, ?_⟩
  · simp only [TraceAnalyzer.cycle, hu', Option.bind_eq_bind, Option.bind_some, ht₄', hdisp']
  · rw [ha₅.pipe]
    exact ha₅.congr le_rfl rfl

/-- Along two runs, the order test hides the same dependences from both. -/
def HidesAlike (E : Env F) (base base' : ℕ) (T : List Inst) (s s' : State F) : Prop :=
  ∀ n t t' u u', Run.iterate (cycle E) n s = some t → Run.iterate (cycle E) n s' = some t' →
    beforeIssue E t = some u → beforeIssue E t' = some u' → Inv E base T u → Inv E base' T u' →
    Alike u u' → SameAcross u u'

theorem HidesAlike.tail {t t' : State F} (hx : HidesAlike E base base' T s s')
    (ht : cycle E s = some t) (ht' : cycle E s' = some t') : HidesAlike E base base' T t t' := by
  intro n v v' u u' hv hv'
  exact hx (n + 1) v v' u u' (by rw [Run.iterate_succ, ht]; exact hv)
    (by rw [Run.iterate_succ, ht']; exact hv')

/-- **Two calls in lockstep** return the same. -/
theorem Alike.analysisLoop {maxCycle : ℤ} {fuel c last : ℕ} {a : Analysis F} (ha : Alike s s')
    (h : Inv E base T s) (h' : Inv E base' T s') (hx : HidesAlike E base base' T s s')
    (hres : analysisLoop E maxCycle fuel c last s = some a) :
    ∃ a', TraceAnalyzer.analysisLoop E maxCycle fuel c last s' = some a' ∧
      a'.outputs = a.outputs := by
  have hfinish : ∀ {t t' : State F} (last c : ℕ), Alike t t' →
      (finishAnalysis E t' last c).outputs = (finishAnalysis E t last c).outputs :=
    fun last c ht => by simp only [finishAnalysis, Analysis.outputs, ht.pipe]
  induction fuel generalizing c last s s' with
  | zero => cases hres
  | succ fuel ih =>
    rw [TraceAnalyzer.analysisLoop] at hres ⊢
    split at hres
    next hmax =>
      obtain rfl := Option.some.inj hres
      exact ⟨_, if_pos hmax, hfinish last c ha⟩
    next hmax =>
      rw [if_neg hmax]
      obtain ⟨t, ht, hres⟩ := Option.bind_eq_some_iff.1 hres
      obtain ⟨t', ht', hat⟩ := ha.cycle h h' (fun u u' => hx 0 s s' u u' rfl rfl) ht
      simp only [ht', Option.bind_eq_bind, Option.bind_some, hat.pipe]
      simp only at hres
      split at hres
      next hdone =>
        obtain rfl := Option.some.inj hres
        exact ⟨_, if_pos hdone, hfinish _ _ hat⟩
      next hdone =>
        rw [if_neg hdone]
        exact ih hat (h.step ht) (h'.step ht') (hx.tail ht ht') hres

/-! ## From one sample to the next -/

/-- All that a call finds of earlier ones is where the window lies and what
the matrix holds. -/
theorem Drained.alike (hd : Drained E s) (hd' : Drained E s') (trace : Trace) :
    Alike (beginAnalysis E trace.queue s) (beginAnalysis E trace.queue s') where
  pipe := by
    have hfu : ∀ f, resetFU (s'.pipe.fu f) = resetFU (s.pipe.fu f) := fun f => by
      simp only [resetFU, hd.fuCapacity f, hd.fuNumStage f, hd'.fuCapacity f, hd'.fuNumStage f]
    simp only [beginAnalysis, hfu, hd.iq, hd'.iq, hd.ldq, hd'.ldq, hd.stq, hd'.stq, hd.fuBuffer,
      hd'.fuBuffer]
  marks _ b _ hb := absurd hb.2 (Nat.not_lt_zero b)

/-- In no cycle of the analysis does a record wait, across the end of the
array, for one that cannot forward yet. -/
def NeverWaitsAcross (E : Env F) (trace : Trace) (s : State F) : Prop :=
  ∀ n t u, Reaches E trace s n t → beforeIssue E t = some u → NoWaitAcross u

/-- Windows that start at the same slot have the same end of the array. -/
theorem sameAcross_of_base (h : Inv E base T u) (h' : Inv E base T u') (ha : Alike u u') :
    SameAcross u u' := by
  intro b hb a hab hia _ _
  have hib := h.stages.inFlight_of_mem_iq hb
  have hia' : u'.pipe.InFlight a := ha.pipe ▸ hia
  have hib' : u'.pipe.InFlight b := ha.pipe ▸ hib
  rw [AcrossWrap, AcrossWrap, h.window.idx a hia, h.window.idx b hib, h.window.start,
    h'.window.idx a hia', h'.window.idx b hib', h'.window.start, ha.pipe]

/-- Where no record waits across the end of the array, nothing is hidden. -/
theorem sameAcross_of_noWait (h : Inv E base T u) (hno : NoWaitAcross u) (hno' : NoWaitAcross u')
    (ha : Alike u u') : SameAcross u u' := by
  intro b hb a hab hia hmark hfwd
  have hib := h.stages.inFlight_of_mem_iq hb
  refine ⟨fun hx => ?_, fun hx => ?_⟩
  · exact absurd (hno b hb a hab hia hmark hx) (by simp [hfwd])
  · have hfwd' := hno' b (by rw [ha.pipe]; exact hb) a hab (ha.pipe ▸ hia)
      ((ha.marks a b hia hib hab).1 hmark) hx
    rw [ha.pipe, hfwd] at hfwd'
    exact absurd hfwd' Bool.false_ne_true

variable {trace : Trace}

/-- Two calls that start at the same slot, or that never wait across the end
of the array. -/
def Comparable (E : Env F) (trace : Trace) (s s' : State F) : Prop :=
  s.rob.startIdx = s'.rob.startIdx ∨ (NeverWaitsAcross E trace s ∧ NeverWaitsAcross E trace s')

theorem Comparable.symm (h : Comparable E trace s s') : Comparable E trace s' s :=
  h.imp Eq.symm And.symm

theorem Comparable.hidesAlike (h : Comparable E trace s s') :
    HidesAlike E s.rob.startIdx s'.rob.startIdx T (beginAnalysis E trace.queue s)
      (beginAnalysis E trace.queue s') := by
  intro n t t' u u' ht ht' hu hu' hinv hinv' ha
  rcases h with hbase | ⟨hno, hno'⟩
  · rw [← hbase] at hinv'
    exact sameAcross_of_base hinv hinv' ha
  · exact sameAcross_of_noWait hinv (hno n t u ht hu) (hno' n t' u' ht' hu') ha

theorem traceAnalysis_outputs (hd : Drained E s) (hd' : Drained E s')
    (hwhen : Comparable E trace s s') {maxCycle : ℤ} {fuel : ℕ} {a : Analysis F}
    (h : traceAnalysis E fuel trace.queue maxCycle s = some a) :
    ∃ a', traceAnalysis E fuel trace.queue maxCycle s' = some a' ∧ a'.outputs = a.outputs :=
  (hd.alike hd' trace).analysisLoop (hd.inv trace) (hd'.inv trace) hwhen.hidesAlike h

/-- **Samples are independent**, where the order test of the dependency matrix
hides nothing from either or the same from both: whatever earlier samples
left, a call returns the same. -/
theorem samples_independent (E : Env F) (trace : Trace) (s s' : State F) (hd : Drained E s)
    (hd' : Drained E s') (hwhen : Comparable E trace s s') (maxCycle : ℤ) (fuel : ℕ) :
    (traceAnalysis E fuel trace.queue maxCycle s).map Analysis.outputs =
      (traceAnalysis E fuel trace.queue maxCycle s').map Analysis.outputs := by
  cases hs : traceAnalysis E fuel trace.queue maxCycle s with
  | some a =>
    obtain ⟨a', ha', hout⟩ := traceAnalysis_outputs hd hd' hwhen hs
    rw [ha', Option.map_some, Option.map_some, hout]
  | none =>
    cases hs' : traceAnalysis E fuel trace.queue maxCycle s' with
    | none => rfl
    | some a' =>
      obtain ⟨a, ha, -⟩ := traceAnalysis_outputs hd' hd hwhen.symm hs'
      exact absurd (hs.symm.trans ha) (by simp)

/-- A trace of a single instruction has nothing to wait for. -/
theorem neverWaitsAcross_of_length (hd : Drained E s)
    (hlen : (robTrace E.disasm trace.queue).length ≤ 1) : NeverWaitsAcross E trace s := by
  intro n t u ht hu b hb a hab _ _ _
  have hinv := Reaches.inv hd ht
  obtain ⟨-, -, hinvu, -, -⟩ := (Alike.refl t).beforeIssue hinv hinv hu
  have hlt := hinvu.traced.lt_length (hinvu.stages.inFlight_of_mem_iq hb).2
  omega

/-! ## Two samples in a row -/

/-- A single addition. -/
def shortTrace : Trace where
  queue := ⟨[initInst 0 0 0xE0810002], 1000001⟩
  fits := by decide
  recorded := by
    intro inst h
    obtain rfl := List.mem_singleton.1 h
    exact ⟨_, _, _, rfl⟩

/-- The three instructions of the sample, and two more that are dispatched
when these are committed. -/
def longTrace : Trace where
  queue := ⟨[initInst 0 0 0xE0810002,
    setInstEffAddr (initInst 1 4 0xE5943000) 0x1000 .l1Miss,
    initInst 2 8 0xE0835006, initInst 3 12 0xE0810002, initInst 4 16 0xE0810002], 1000001⟩
  fits := by decide
  recorded := by
    intro inst h
    simp only [List.mem_cons, List.not_mem_nil, or_false] at h
    rcases h with rfl | rfl | rfl | rfl | rfl <;> exact ⟨_, _, _, rfl⟩

/-- A drained state whose window starts at the second slot, over a matrix full
of old marks. -/
def turnedState : State ℚ :=
  { initTraceAnalyzer (sampleEnv 2) blankState with
    rob := { (initTraceAnalyzer (sampleEnv 2) blankState).rob with startIdx := 1, endIdx := 1 }
    depMat := fun _ _ => true }

theorem turnedState_drained : Drained (sampleEnv 2) turnedState :=
  ⟨rfl, rfl, rfl, rfl, fun _ => rfl, fun _ => rfl, rfl, rfl, rfl, rfl⟩

/-- A single addition, from the first slot and from the second. -/
theorem samples_independent_short :
    (traceAnalysis (sampleEnv 2) 100 shortTrace.queue 0
      (initTraceAnalyzer (sampleEnv 2) blankState)).map Analysis.outputs =
    (traceAnalysis (sampleEnv 2) 100 shortTrace.queue 0 turnedState).map Analysis.outputs :=
  samples_independent (sampleEnv 2) shortTrace _ _ (initTraceAnalyzer_drained _ _)
    turnedState_drained
    (.inr ⟨neverWaitsAcross_of_length (initTraceAnalyzer_drained _ _) (by decide),
      neverWaitsAcross_of_length turnedState_drained (by decide)⟩) 0 100

/-- **Samples are not independent**: the long trace takes two cycles more when
the short one was analyzed before it, for only then does its third
instruction wait for the load. -/
theorem samples_dependent_long : ∃ a,
    traceAnalysis (sampleEnv 2) 100 shortTrace.queue 0
      (initTraceAnalyzer (sampleEnv 2) blankState) = some a ∧
    Drained (sampleEnv 2) (initTraceAnalyzer (sampleEnv 2) blankState) ∧
    Drained (sampleEnv 2) a.state ∧
    (traceAnalysis (sampleEnv 2) 100 longTrace.queue 0
      (initTraceAnalyzer (sampleEnv 2) blankState)).map Analysis.lastCycle = some 18 ∧
    (traceAnalysis (sampleEnv 2) 100 longTrace.queue 0 a.state).map Analysis.lastCycle =
      some 20 := by
  have hsome : ((traceAnalysis (sampleEnv 2) 100 shortTrace.queue 0
      (initTraceAnalyzer (sampleEnv 2) blankState)).bind fun a =>
        (traceAnalysis (sampleEnv 2) 100 longTrace.queue 0 a.state).map Analysis.lastCycle) =
      some 20 := by decide +kernel
  obtain ⟨a, ha, hlong⟩ := Option.bind_eq_some_iff.1 hsome
  exact ⟨a, ha, initTraceAnalyzer_drained _ _,
    traceAnalysis_drained (initTraceAnalyzer_drained _ _) ha, by decide +kernel, hlong⟩

end TraceAnalyzer

end Tqsim
