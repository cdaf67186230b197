import Tqsim.TraceAnalyzer.Limits

/-!
# The order of issue

`issue_insts` walks the issue queue from its oldest record on, removes what
it issues from the queue it walks, and shares a width and the counters of the
units among all candidates. A record it leaves in the queue has a reason, and
no younger record overtakes it at its unit. `Tried` is the state in which the
walk reaches a record; up to there the units only fill.
-/

namespace Tqsim

namespace TraceAnalyzer

variable {F : Type} {s t u v x : State F} {E : Env F} {base n : ℕ} {T : List Inst}
variable {trace : Trace}

/-! ## A visit -/

theorem issueLoop_zero (rs : List ℕ) (s : State F) : issueLoop rs 0 s = some s := by
  cases rs <;> rfl

/-- **What the walk does with a record it reaches**: it is issued, or it stays
for one of two reasons. -/
theorem issueLoop_visit (h : Inv E base T s) {r : ℕ} (hr : r ∈ s.pipe.iq.elems) :
    (∃ unit, tryFU (s.pipe.fu (instTypeFuTypeMap (s.pipe.heap r).type)) = some unit ∧
        ¬ Waits s r ∧
        ∀ rs w, issueLoop (r :: rs) (w + 1) s = issueLoop rs w (issued s r unit)) ∨
      (hasDependency s r = some true ∨
          tryFU (s.pipe.fu (instTypeFuTypeMap (s.pipe.heap r).type)) = none) ∧
        ∀ rs w, issueLoop (r :: rs) (w + 1) s = issueLoop rs (w + 1) s := by
  have hin := h.stages.inFlight_of_mem_iq hr
  have hst := ((h.stages.iq_mem r).1 hr).2
  obtain ⟨waits, hdep, hwaits⟩ := hasDependency_spec h.window hin
  -- the body of the loop, up to the test of the unit
  have hbody : ∀ rs w, waits = false → issueLoop (r :: rs) (w + 1) s =
      (tryFU (s.pipe.fu (instTypeFuTypeMap (s.pipe.heap r).type))).elim
        (issueLoop rs (w + 1) s) fun unit => issueLoop rs w (issued s r unit) := by
    intro rs w hwait
    rw [issueLoop]
    simp only [h.window.deref hin, hdep, hst, if_true, Option.bind_eq_bind, Option.bind_some, hwait,
      Bool.false_eq_true, if_false]
    cases tryFU (s.pipe.fu (instTypeFuTypeMap (s.pipe.heap r).type)) <;> rfl
  cases waits with
  | true =>
    refine .inr ⟨.inl hdep, fun rs w => ?_⟩
    rw [issueLoop]
    simp only [h.window.deref hin, hdep, hst, if_true, Option.bind_eq_bind, Option.bind_some]
  | false =>
    have hnot : ¬ Waits s r := fun hw => Bool.false_ne_true (hwaits.2 hw)
    cases hunit : tryFU (s.pipe.fu (instTypeFuTypeMap (s.pipe.heap r).type)) with
    | some unit =>
      refine .inl ⟨unit, rfl, hnot, fun rs w => ?_⟩
      rw [hbody rs w rfl, hunit]
      rfl
    | none =>
      refine .inr ⟨.inr rfl, fun rs w => ?_⟩
      rw [hbody rs w rfl, hunit]
      rfl

/-! ## The walk up to a record -/

/-- The walk over a part of the queue, and the width it leaves for the
rest. -/
theorem issueLoop_append {P : State F → Prop} (h : Inv E base T s) (hP : P s)
    (hstep : ∀ s r unit, Inv E base T s → P s → s.pipe.InFlight r →
      (s.pipe.heap r).state = .dispatch → ¬ Waits s r →
      tryFU (s.pipe.fu (instTypeFuTypeMap (s.pipe.heap r).type)) = some unit →
      P (issued s r unit))
    {pre post : List ℕ} (hnd : (pre ++ post).Nodup)
    (hmem : ∀ r ∈ pre ++ post, r ∈ s.pipe.iq.elems) (w : ℕ) :
    ∃ x w', issueLoop pre w s = some x ∧ issueLoop (pre ++ post) w s = issueLoop post w' x ∧
      Inv E base T x ∧ P x ∧ (∀ r ∈ post, r ∈ x.pipe.iq.elems) ∧
      w' + s.pipe.iq.size = w + x.pipe.iq.size := by
  induction pre generalizing s w with
  | nil => exact ⟨s, w, rfl, rfl, h, hP, hmem, rfl⟩
  | cons r pre ih =>
    have hr : r ∈ s.pipe.iq.elems := hmem r (List.mem_cons_self ..)
    obtain ⟨hnot, hnd⟩ := List.nodup_cons.1 hnd
    have hrest : ∀ y ∈ pre ++ post, y ∈ s.pipe.iq.elems := fun y hy =>
      hmem y (List.mem_cons_of_mem _ hy)
    cases w with
    | zero =>
      refine ⟨s, 0, rfl, ?_, h, hP, fun y hy => hrest y (List.mem_append_right _ hy), rfl⟩
      rw [issueLoop_zero, issueLoop_zero]
    | succ w =>
      rcases issueLoop_visit h hr with ⟨unit, hunit, hwait, hloop⟩ | ⟨-, hloop⟩
      · have hin := h.stages.inFlight_of_mem_iq hr
        have hst := ((h.stages.iq_mem r).1 hr).2
        have hkeep : ∀ y ∈ pre ++ post, y ∈ (issued s r unit).pipe.iq.elems := by
          intro y hy
          have hne : y ≠ r := fun heq => hnot (heq ▸ hy)
          exact (List.mem_erase_of_ne hne).2 (hrest y hy)
        have hsize : (issued s r unit).pipe.iq.size + 1 = s.pipe.iq.size :=
          List.length_erase_add_one hr
        obtain ⟨x, w', h1, h2, hx, hPx, hpost, hcount⟩ :=
          ih (h.issueStep hin hst hunit) (hstep s r unit h hP hin hst hwait hunit) hnd hkeep w
        refine ⟨x, w', (hloop pre w).trans h1, (hloop (pre ++ post) w).trans h2, hx, hPx, hpost, ?_⟩
        omega
      · obtain ⟨x, w', h1, h2, hx⟩ := ih h hP hnd hrest (w + 1)
        exact ⟨x, w', (hloop pre w).trans h1, (hloop (pre ++ post) w).trans h2, hx⟩

/-! ## The units -/

/-- The counters of a unit stay within what it has; a negative number of
units or stages is as good as none. -/
structure FU.Within (unit : FU) : Prop where
  nonneg : 0 ≤ unit.numIssue
  issue : unit.numIssue ≤ max unit.capacity 0
  active : unit.numActive ≤ max unit.numStage 0

/-- A unit that takes no more records: as many were issued to it in this cycle
as it has, or all its stages are busy. -/
def FU.Exhausted (unit : FU) : Prop :=
  unit.numIssue = max unit.capacity 0 ∨ unit.numActive = max unit.numStage 0

theorem FU.Within.exhausted {unit : FU} (h : unit.Within) (hactive : 0 ≤ unit.numActive)
    (hnone : tryFU unit = none) : unit.Exhausted := by
  obtain ⟨hnonneg, hissue, hstage⟩ := h
  unfold tryFU at hnone
  split at hnone
  next => cases hnone
  next hfull =>
    unfold FU.Exhausted
    omega

/-- The unit of a record. -/
def unitOf (s : State F) (r : ℕ) : FUType := instTypeFuTypeMap (s.pipe.heap r).type

theorem unitOf_issued (s : State F) (r : ℕ) (unit : FU) (y : ℕ) :
    unitOf (issued s r unit) y = unitOf s y := by
  rw [unitOf, issued_type, unitOf]

theorem fu_issued_of_ne {r : ℕ} {f : FUType} (unit : FU) (hf : f ≠ unitOf s r) :
    (issued s r unit).pipe.fu f = s.pipe.fu f := by
  simp only [issued, issueInst, Function.update_apply]
  exact if_neg hf

theorem FU.Within.issueStep {r : ℕ} {unit : FU} (h : ∀ f, (s.pipe.fu f).Within)
    (hunit : tryFU (s.pipe.fu (instTypeFuTypeMap (s.pipe.heap r).type)) = some unit) (f : FUType) :
    ((issued s r unit).pipe.fu f).Within := by
  by_cases hf : f = unitOf s r
  · subst hf
    obtain ⟨hfree, hstage, rfl⟩ := tryFU_eq_some hunit
    have hnonneg := (h (unitOf s r)).nonneg
    simp only [issued, issueInst, unitOf, Function.update_self] at hnonneg ⊢
    exact ⟨Int.le_add_one hnonneg, le_max_of_le_left hfree, le_max_of_le_left hstage⟩
  · rw [fu_issued_of_ne unit hf]
    exact h f

theorem unitsWithin_keeps (E : Env F) (base : ℕ) (T : List Inst) :
    Keeps E base T (fun s => ∀ f, (s.pipe.fu f).Within) (fun s => ∀ f, (s.pipe.fu f).Within)
      (fun s => ∀ f, (s.pipe.fu f).Within) (fun s => ∀ f, (s.pipe.fu f).Within) where
  commit _ _ hP _ := hP
  writeback _ _ _ hP _ _ := hP
  execute s _ _ _ hP _ f := by
    -- records only leave the units
    obtain ⟨hnonneg, hissue, hactive⟩ := hP f
    refine ⟨hnonneg, hissue, ?_⟩
    simp only [executedPipe, executedFU]
    omega
  issue _ _ _ _ hP _ _ _ hunit := FU.Within.issueStep hP hunit
  enter _ _ hP := hP
  prepare s inst rest h hP htb := by
    simp only [prepared, prepareFront_eq h.traced.stocked htb]
    exact hP
  drop _ _ _ _ hP _ _ _ := hP
  dispatch s t inst rest _ hP _ _ _ _ hto := by
    rw [hto.pipe]
    exact hP

theorem Reaches.unitsWithin (hd : Drained E s) (h : Reaches E trace s n t) (f : FUType) :
    (t.pipe.fu f).Within := by
  refine Reaches.keeps hd (unitsWithin_keeps E _ _) (fun _ _ hP f => ?_) (fun f => ?_) h f
  · exact ⟨le_rfl, le_max_right _ _, (hP f).active⟩
  · exact ⟨le_rfl, le_max_right _ _, le_max_right _ _⟩

/-! ## The order of issue -/

/-- `x` is the state in which the walk of `issue_insts` from `u` reaches the
record: it has gone over the records before it in the queue. -/
def Tried (E : Env F) (u : State F) (r : ℕ) (x : State F) : Prop :=
  ∃ pre post, u.pipe.iq.elems = pre ++ r :: post ∧
    issueLoop pre E.cfg.backendWidth.toNat u = some x

/-- **Issue is work-conserving**: of a record that stays in the queue, the
state in which it was tried tells why. The records issued before are those
that have left the queue. -/
def WorkConserving (E : Env F) (u v : State F) : Prop :=
  ∀ r ∈ u.pipe.iq.elems, r ∈ v.pipe.iq.elems → ∃ x, Tried E u r x ∧
    (hasDependency x r = some true ∨ (x.pipe.fu (unitOf u r)).Exhausted ∨
      E.cfg.backendWidth ≤ (u.pipe.iq.size : ℤ) - x.pipe.iq.size)

/-- **Issue is oldest-first at each unit**: a record without a dependence that
stays in the queue keeps every younger one of its unit there. -/
def OldestFirst (E : Env F) (u v : State F) : Prop :=
  ∀ r x, Tried E u r x → hasDependency x r = some false → r ∈ v.pipe.iq.elems →
    ∀ r' ∈ u.pipe.iq.elems, r < r' → unitOf u r' = unitOf u r → r' ∈ v.pipe.iq.elems

/-- A record that is not in the queue does not get there. -/
theorem not_mem_of_issueLoop (h : Inv E base T s) {rs : List ℕ} {w r : ℕ}
    (hrs : ∀ y ∈ rs, s.pipe.InFlight y) (hr : r ∉ s.pipe.iq.elems)
    (hv : issueLoop rs w s = some v) : r ∉ v.pipe.iq.elems := by
  obtain ⟨v', hv', -, hP⟩ := h.issueLoop (P := fun y => r ∉ y.pipe.iq.elems) hr hrs w
    fun _ _ _ _ hP _ _ _ _ hmem => hP (List.mem_of_mem_erase hmem)
  rwa [Option.some.inj (hv'.symm.trans hv)] at hP

/-- A unit that is exhausted stays so, and its records stay in the queue. -/
theorem mem_of_issueLoop (h : Inv E base T s) {rs : List ℕ} {w r : ℕ} {f : FUType}
    (hrs : ∀ y ∈ rs, s.pipe.InFlight y) (hr : r ∈ s.pipe.iq.elems) (hf : unitOf s r = f)
    (hnone : tryFU (s.pipe.fu f) = none) (hv : issueLoop rs w s = some v) :
    r ∈ v.pipe.iq.elems := by
  let P : State F → Prop := fun y =>
    r ∈ y.pipe.iq.elems ∧ unitOf y r = f ∧ tryFU (y.pipe.fu f) = none
  have hstep : ∀ y r' unit, P y →
      tryFU (y.pipe.fu (instTypeFuTypeMap (y.pipe.heap r').type)) = some unit →
      P (issued y r' unit) := by
    rintro y r' unit ⟨hr, hf, hnone⟩ hunit
    have hne : f ≠ unitOf y r' := by
      rintro rfl
      exact absurd (hunit.symm.trans hnone) (by simp)
    have hrr : r ≠ r' := by
      rintro rfl
      exact hne hf.symm
    refine ⟨(List.mem_erase_of_ne hrr).2 hr, ?_, ?_⟩
    · rw [unitOf_issued, hf]
    · rw [fu_issued_of_ne unit hne, hnone]
  obtain ⟨v', hv', -, hP, -⟩ := h.issueLoop (P := P) ⟨hr, hf, hnone⟩ hrs w
    fun y r' unit _ hP _ _ _ hunit => hstep y r' unit hP hunit
  rwa [Option.some.inj (hv'.symm.trans hv)] at hP

/-- The walk from the state in which it reaches a record. -/
structure Reached (E : Env F) (base : ℕ) (T : List Inst) (u v x : State F) (r : ℕ)
    (post : List ℕ) (w : ℕ) : Prop where
  inv : Inv E base T x
  within : ∀ f, (x.pipe.fu f).Within
  unit : ∀ y, unitOf x y = unitOf u y
  mem : ∀ y ∈ r :: post, y ∈ x.pipe.iq.elems
  width : w + u.pipe.iq.size = E.cfg.backendWidth.toNat + x.pipe.iq.size
  rest : issueLoop (r :: post) w x = some v

theorem exists_reached (h : Inv E base T u) (hunits : ∀ f, (u.pipe.fu f).Within)
    (hv : issueInsts E u = some v) {pre post : List ℕ} {r : ℕ}
    (heq : u.pipe.iq.elems = pre ++ r :: post) :
    ∃ x w, issueLoop pre E.cfg.backendWidth.toNat u = some x ∧
      Reached E base T u v x r post w := by
  have hnd : u.pipe.iq.elems.Nodup := h.stages.iq_sorted.imp Nat.ne_of_lt
  have hloop : issueLoop u.pipe.iq.elems E.cfg.backendWidth.toNat u = some v := by
    rw [issueInsts, if_neg (by simp [InstQueue.isEmptyQueue, InstQueue.size, heq])] at hv
    exact hv
  obtain ⟨x, w, h1, h2, hx, ⟨hwithin, hunit⟩, hmem, hwidth⟩ := issueLoop_append
    (P := fun y => (∀ f, (y.pipe.fu f).Within) ∧ ∀ z, unitOf y z = unitOf u z) h
    ⟨hunits, fun _ => rfl⟩
    (fun y r' unit _ hP _ _ _ hunit => ⟨FU.Within.issueStep hP.1 hunit, fun z =>
      (unitOf_issued y r' unit z).trans (hP.2 z)⟩)
    (heq ▸ hnd) (fun y hy => heq ▸ hy) E.cfg.backendWidth.toNat
  rw [heq, h2] at hloop
  exact ⟨x, w, h1, hx, hwithin, hunit, hmem, hwidth, hloop⟩

/-- Why a record that was reached stays in the queue. -/
theorem Reached.refused {r w : ℕ} {post : List ℕ} (h : Reached E base T u v x r post w)
    (hr : r ∈ v.pipe.iq.elems) : w = 0 ∨ hasDependency x r = some true ∨
      tryFU (x.pipe.fu (unitOf u r)) = none ∧ issueLoop post w x = some v := by
  cases w with
  | zero => exact .inl rfl
  | succ w =>
    have hmem := h.mem r (List.mem_cons_self ..)
    rcases issueLoop_visit h.inv hmem with ⟨unit, hunit, -, hloop⟩ | ⟨hdep | hnone, hloop⟩
    · -- an issued record would have left the queue
      have hin := h.inv.stages.inFlight_of_mem_iq hmem
      have hst := ((h.inv.stages.iq_mem r).1 hmem).2
      have hnd : x.pipe.iq.elems.Nodup := h.inv.stages.iq_sorted.imp Nat.ne_of_lt
      refine absurd hr (not_mem_of_issueLoop (h.inv.issueStep hin hst hunit) ?_
        hnd.not_mem_erase ((hloop post w).symm.trans h.rest))
      exact fun y hy => h.inv.stages.inFlight_of_mem_iq (h.mem y (List.mem_cons_of_mem _ hy))
    · exact .inr (.inl hdep)
    · refine .inr (.inr ⟨?_, (hloop post w).symm.trans h.rest⟩)
      rw [← h.unit r]
      exact hnone

theorem Inv.workConserving (h : Inv E base T u) (hunits : ∀ f, (u.pipe.fu f).Within)
    (hv : issueInsts E u = some v) : WorkConserving E u v := by
  intro r hr hrv
  obtain ⟨pre, post, heq⟩ := List.append_of_mem hr
  obtain ⟨x, w, hx, hreached⟩ := exists_reached h hunits hv heq
  refine ⟨x, ⟨pre, post, heq, hx⟩, ?_⟩
  rcases hreached.refused hrv with rfl | hdep | ⟨hnone, -⟩
  · have := hreached.width
    exact .inr (.inr (by omega))
  · exact .inl hdep
  · refine .inr (.inl ((hreached.within _).exhausted ?_ hnone))
    rw [hreached.inv.units.active]
    exact Int.natCast_nonneg _

theorem Inv.oldestFirst (h : Inv E base T u) (hunits : ∀ f, (u.pipe.fu f).Within)
    (hv : issueInsts E u = some v) : OldestFirst E u v := by
  rintro r x ⟨pre, post, heq, hx⟩ hdep hrv r' hr' hlt hunit
  obtain ⟨x', w, hx', hreached⟩ := exists_reached h hunits hv heq
  obtain rfl := Option.some.inj (hx'.symm.trans hx)
  -- the younger record stands behind the older one
  have hpost : r' ∈ post := by
    rw [heq, List.mem_append, List.mem_cons] at hr'
    have hsorted := h.stages.iq_sorted
    rw [heq, List.pairwise_append] at hsorted
    rcases hr' with hr' | rfl | hr'
    · exact absurd (hsorted.2.2 r' hr' r (List.mem_cons_self ..)) (by omega)
    · exact absurd hlt (lt_irrefl _)
    · exact hr'
  have hmem := hreached.mem r' (List.mem_cons_of_mem _ hpost)
  rcases hreached.refused hrv with rfl | hdep' | ⟨hnone, hrest⟩
  · have hstop := hreached.rest
    rw [issueLoop_zero] at hstop
    exact Option.some.inj hstop ▸ hmem
  · exact absurd (hdep'.symm.trans hdep) (by simp)
  · refine mem_of_issueLoop hreached.inv (fun y hy => ?_) hmem ?_ hnone hrest
    · exact hreached.inv.stages.inFlight_of_mem_iq (hreached.mem y (List.mem_cons_of_mem _ hy))
    · rw [hreached.unit, hunit]

/-- **Issue is work-conserving and oldest-first per unit** in every cycle of
every analysis. -/
theorem issue_in_every_cycle (E : Env F) (trace : Trace) (s : State F) (hd : Drained E s) (n : ℕ)
    (t u : State F) (ht : Reaches E trace s n t) (hu : beforeIssue E t = some u) :
    ∃ v, issueInsts E u = some v ∧ WorkConserving E u v ∧ OldestFirst E u v := by
  obtain ⟨hinv, hunits⟩ := (unitsWithin_keeps E _ _).enterIssue (ht.inv hd)
    (fun f => ht.unitsWithin hd f) hu
  obtain ⟨v, hv, -, -⟩ := hinv.issue (P := fun _ => True) trivial fun _ _ _ _ _ _ _ _ _ => trivial
  exact ⟨v, hv, hinv.workConserving hunits hv, hinv.oldestFirst hunits hv⟩

/-- The sample, in its second cycle. -/
theorem issue_sample : ∃ t u v, Reaches (sampleEnv 2) sampleTrace
      (initTraceAnalyzer (sampleEnv 2) blankState) 1 t ∧ beforeIssue (sampleEnv 2) t = some u ∧
      issueInsts (sampleEnv 2) u = some v ∧ WorkConserving (sampleEnv 2) u v ∧
      OldestFirst (sampleEnv 2) u v := by
  have hd := initTraceAnalyzer_drained (sampleEnv 2) blankState
  obtain ⟨t, ht, hinv, hheld⟩ : ∃ t, Reaches (sampleEnv 2) sampleTrace _ 1 t ∧ _ :=
    exists_reaches hd (by decide) (by decide) 1
  obtain ⟨t', ht'⟩ := hinv.cycle_total hheld (by decide) (by decide)
  obtain ⟨s₁, p₂, p₃, s₄, s₅, hsteps⟩ := cycle_steps ht'
  obtain ⟨v, hv⟩ := issue_in_every_cycle (sampleEnv 2) sampleTrace _ hd 1 t _ ht hsteps.beforeIssue
  exact ⟨t, _, v, ht, hsteps.beforeIssue, hv⟩

end TraceAnalyzer

end Tqsim
