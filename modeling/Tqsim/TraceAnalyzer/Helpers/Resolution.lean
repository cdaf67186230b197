import Tqsim.TraceAnalyzer.Helpers.Invariant

/-!
# The branches a cycle resolves

`execute_inst` counts a mispredicted branch when it completes, and keeps the
average of the penalties as it goes. `Counts` is what one cycle does to the
accounts, over exact rationals: the branches it resolves are those that were
about to complete, each is counted once, and its penalty enters the average.
Only the execute stage touches them (`SameCounts`, `SamePending`).
-/

namespace Tqsim

namespace TraceAnalyzer

variable {F : Type} {s s' t : State F} {p q : Pipe F} {E : Env F} {base : ℕ} {T : List Inst}

/-! ## Branches, before and after they are resolved -/

/-- A mispredicted branch. -/
def Inst.Mispredicted (inst : Inst) : Prop :=
  inst.type = .branch ∧ inst.bpredMispred = true

instance (inst : Inst) : Decidable inst.Mispredicted :=
  inferInstanceAs (Decidable (_ ∧ _))

/-- A mispredicted branch in the last cycle of its execution. -/
def Inst.Resolves (inst : Inst) : Prop :=
  inst.state = .issue ∧ inst.remainingLatency ≤ 1 ∧ inst.Mispredicted

instance (inst : Inst) : Decidable inst.Resolves :=
  inferInstanceAs (Decidable (_ ∧ _ ∧ _))

/-- The mispredicted branches that are complete. -/
def resolved (p : Pipe F) : Finset ℕ :=
  (Finset.range p.next).filter fun r => (p.heap r).Mispredicted ∧ (p.heap r).state = .complete

/-- The mispredicted branches that complete in this cycle. -/
def resolving (p : Pipe F) : Finset ℕ :=
  (Finset.range p.next).filter fun r => (p.heap r).Resolves

theorem mem_resolved {r : ℕ} :
    r ∈ resolved p ↔ r < p.next ∧ (p.heap r).Mispredicted ∧ (p.heap r).state = .complete := by
  simp [resolved]

theorem mem_resolving {r : ℕ} : r ∈ resolving p ↔ r < p.next ∧ (p.heap r).Resolves := by
  simp [resolving]

theorem disjoint_resolving (p : Pipe F) : Disjoint (resolved p) (resolving p) := by
  refine Finset.disjoint_left.2 fun r h1 h2 => ?_
  have hc := (mem_resolved.1 h1).2.2
  rw [(mem_resolving.1 h2).2.1] at hc
  cases hc

/-! ## Execution -/

/-- A record once it was executed. -/
theorem executedInst_complete_iff {inst : Inst} (hst : inst.state = .issue) (c : ℕ) :
    (executedInst E c inst).state = .complete ↔ inst.remainingLatency ≤ 1 := by
  simp only [executedInst]
  split
  · simp only [true_iff]
    omega
  · simp only [hst, reduceCtorEq, false_iff]
    omega

theorem executedInst_mispredicted (inst : Inst) (c : ℕ) :
    (executedInst E c inst).Mispredicted ↔ inst.Mispredicted := by
  obtain ⟨st, k, l, h⟩ := executedInst_eq E c inst
  rw [h]
  rfl

theorem executedInst_dispatchedCycle (inst : Inst) (c : ℕ) :
    (executedInst E c inst).dispatchedCycle = inst.dispatchedCycle := by
  obtain ⟨st, k, l, h⟩ := executedInst_eq E c inst
  rw [h]

/-- The stamp of a record that its execution completes. -/
theorem executedInst_completedCycle {inst : Inst} (h : inst.remainingLatency ≤ 1) (c : ℕ) :
    (executedInst E c inst).completedCycle = c := by
  rw [executedInst, if_pos (by simp only; omega)]

section Average

variable {E : Env ℚ} {p p' : Pipe ℚ}

/-- **One record**: a branch that resolves is counted and averaged in, and
nothing else is. -/
theorem executeInst_average (hE : E.double = exactDouble) {r : ℕ}
    (hst : (p.heap r).state = .issue) :
    (executeInst E p r (p.heap r)).numMispredInsts =
        p.numMispredInsts + (if (p.heap r).Resolves then 1 else 0) ∧
      (executeInst E p r (p.heap r)).avgMispredPenalty =
        if (p.heap r).Resolves then
          (p.avgMispredPenalty * p.numMispredInsts +
            mispredPenalty p.curCycle (p.heap r).dispatchedCycle) / (p.numMispredInsts + 1)
        else p.avgMispredPenalty := by
  have hcond : ((executedInst E p.curCycle (p.heap r)).type = .branch ∧
      (executedInst E p.curCycle (p.heap r)).state = .complete ∧
      (executedInst E p.curCycle (p.heap r)).bpredMispred) ↔ (p.heap r).Resolves := by
    have h1 := executedInst_complete_iff (E := E) hst p.curCycle
    have h2 := executedInst_mispredicted (E := E) (p.heap r) p.curCycle
    simp only [Inst.Mispredicted] at h2
    simp only [Inst.Resolves, hst, true_and, ← h1, Inst.Mispredicted, ← h2]
    tauto
  simp only [executeInst, countMispred, hcond, executedInst_dispatchedCycle, hE, exactDouble]
  by_cases hr : (p.heap r).Resolves
  · simp only [if_pos hr]
    split <;> exact ⟨rfl, by push_cast; rfl⟩
  · simp only [if_neg hr]
    split <;> exact ⟨rfl, rfl⟩

/-- **The execute stage**: the branches that resolve are counted, and their
penalties enter the average. -/
theorem executeLoop_average (hE : E.double = exactDouble) {rs : List ℕ} (hrs : rs.Nodup)
    (h : executeLoop E rs p = some p') :
    p'.numMispredInsts = p.numMispredInsts + (rs.filter fun r => (p.heap r).Resolves).length ∧
      p'.avgMispredPenalty * p'.numMispredInsts = p.avgMispredPenalty * p.numMispredInsts +
        ((rs.filter fun r => (p.heap r).Resolves).map fun r =>
          (mispredPenalty p.curCycle (p.heap r).dispatchedCycle : ℚ)).sum ∧
      (rs.filter (fun r => (p.heap r).Resolves) = [] →
        p'.avgMispredPenalty = p.avgMispredPenalty) := by
  induction rs generalizing p with
  | nil =>
    obtain rfl : p = p' := by simpa [executeLoop] using h
    simp
  | cons r rs ih =>
    obtain ⟨hr, hrs⟩ := List.nodup_cons.1 hrs
    rw [executeLoop_cons] at h
    split at h
    case isFalse => cases h
    split at h
    next hst =>
      obtain ⟨hn, ha⟩ := executeInst_average hE hst
      obtain ⟨n, avg, heq⟩ := executeInst_eq E p r
      -- the records behind this one are not touched by its execution
      have hheap : ∀ x ∈ rs, (executeInst E p r (p.heap r)).heap x = p.heap x := by
        intro x hx
        have hxr : x ≠ r := fun h => hr (h ▸ hx)
        rw [heq]
        exact Function.update_of_ne hxr ..
      have hcyc : (executeInst E p r (p.heap r)).curCycle = p.curCycle := by rw [heq]
      obtain ⟨h1, h2, h3⟩ := ih hrs h
      have hfilter : (rs.filter fun x => ((executeInst E p r (p.heap r)).heap x).Resolves) =
          rs.filter fun x => (p.heap x).Resolves :=
        List.filter_congr fun x hx => by rw [hheap x hx]
      have hmap : ((rs.filter fun x => (p.heap x).Resolves).map fun x =>
            (mispredPenalty p.curCycle
              ((executeInst E p r (p.heap r)).heap x).dispatchedCycle : ℚ)) =
          (rs.filter fun x => (p.heap x).Resolves).map fun x =>
            (mispredPenalty p.curCycle (p.heap x).dispatchedCycle : ℚ) :=
        List.map_congr_left fun x hx => by rw [hheap x (List.mem_of_mem_filter hx)]
      rw [hfilter] at h1 h2 h3
      rw [hcyc, hmap] at h2
      by_cases hres : (p.heap r).Resolves
      · rw [if_pos hres] at hn ha
        rw [List.filter_cons_of_pos (by simpa using hres)]
        refine ⟨by rw [h1, hn, List.length_cons]; omega, ?_, fun h => absurd h (by simp)⟩
        have hne : (p.numMispredInsts : ℚ) + 1 ≠ 0 := by positivity
        rw [h2, hn, ha, List.map_cons, List.sum_cons, Nat.cast_add, Nat.cast_one,
          div_mul_cancel₀ _ hne, add_assoc]
      · rw [if_neg hres] at hn ha
        rw [List.filter_cons_of_neg (by simpa using hres)]
        rw [hn, Nat.add_zero] at h1 h2
        rw [ha] at h2 h3
        exact ⟨h1, h2, h3⟩
    next hst =>
      have hres : ¬ (p.heap r).Resolves := fun h => hst h.1
      rw [List.filter_cons_of_neg (by simpa using hres)]
      exact ih hrs h

end Average

/-! ## The other stages -/

/-- What the stages other than execution leave of the accounts. -/
structure SameCounts (p q : Pipe F) : Prop where
  count : q.numMispredInsts = p.numMispredInsts
  average : q.avgMispredPenalty = p.avgMispredPenalty
  branches : resolved q = resolved p
  stamps : ∀ r ∈ resolved p, (q.heap r).completedCycle = (p.heap r).completedCycle ∧
    (q.heap r).dispatchedCycle = (p.heap r).dispatchedCycle

theorem SameCounts.refl (p : Pipe F) : SameCounts p p :=
  ⟨rfl, rfl, rfl, fun _ _ => ⟨rfl, rfl⟩⟩

theorem SameCounts.trans {o : Pipe F} (h : SameCounts p q) (h' : SameCounts q o) :
    SameCounts p o where
  count := h'.count.trans h.count
  average := h'.average.trans h.average
  branches := h'.branches.trans h.branches
  stamps r hr := by
    obtain ⟨h1, h2⟩ := h.stamps r hr
    obtain ⟨h3, h4⟩ := h'.stamps r (h.branches ▸ hr)
    exact ⟨h3.trans h1, h4.trans h2⟩

/-- What the stages before execution leave of the branches that are about to
complete. -/
structure SamePending (p q : Pipe F) : Prop where
  clock : q.curCycle = p.curCycle
  branches : resolving q = resolving p
  stamps : ∀ r ∈ resolving p, (q.heap r).dispatchedCycle = (p.heap r).dispatchedCycle

theorem SamePending.refl (p : Pipe F) : SamePending p p :=
  ⟨rfl, rfl, fun _ _ => rfl⟩

theorem SamePending.trans {o : Pipe F} (h : SamePending p q) (h' : SamePending q o) :
    SamePending p o where
  clock := h'.clock.trans h.clock
  branches := h'.branches.trans h.branches
  stamps r hr := (h'.stamps r (h.branches ▸ hr)).trans (h.stamps r hr)

/-- What commit and write-back leave of a record. -/
structure Inst.Kept (a b : Inst) : Prop where
  mispredicted : b.Mispredicted ↔ a.Mispredicted
  state : b.state = a.state
  completedCycle : b.completedCycle = a.completedCycle
  dispatchedCycle : b.dispatchedCycle = a.dispatchedCycle
  latency : a.state = .issue → b.remainingLatency = a.remainingLatency

/-- Where every record is kept, the accounts and the pending branches are. -/
theorem same_of_kept (hcount : q.numMispredInsts = p.numMispredInsts)
    (havg : q.avgMispredPenalty = p.avgMispredPenalty) (hclock : q.curCycle = p.curCycle)
    (hnext : q.next = p.next) (h : ∀ r, (p.heap r).Kept (q.heap r)) :
    SameCounts p q ∧ SamePending p q := by
  have hresolves : ∀ r, (q.heap r).Resolves ↔ (p.heap r).Resolves := by
    intro r
    simp only [Inst.Resolves, (h r).state, (h r).mispredicted]
    refine and_congr_right fun hst => ?_
    rw [(h r).latency hst]
  refine ⟨⟨hcount, havg, ?_, fun r _ => ⟨(h r).completedCycle, (h r).dispatchedCycle⟩⟩,
    ⟨hclock, ?_, fun r _ => (h r).dispatchedCycle⟩⟩
  · ext r
    rw [mem_resolved, mem_resolved, hnext, (h r).mispredicted, (h r).state]
  · ext r
    rw [mem_resolving, mem_resolving, hnext, hresolves]

theorem same_commit (s : State F) :
    SameCounts s.pipe (commitInst s s.pipe.oldest).pipe ∧
      SamePending s.pipe (commitInst s s.pipe.oldest).pipe := by
  refine same_of_kept rfl rfl rfl rfl fun r => ?_
  obtain ⟨c, hc⟩ := heap_commitInst s s.pipe.oldest r
  rw [hc]
  exact ⟨Iff.rfl, rfl, rfl, rfl, fun _ => rfl⟩

theorem same_writeback (done : List ℕ) (p : Pipe F) :
    SameCounts p (writtenBack done p) ∧ SamePending p (writtenBack done p) := by
  refine same_of_kept rfl rfl rfl rfl fun r => ?_
  simp only [writtenBack, writebackInst]
  split
  · split
    next hst => exact ⟨Iff.rfl, rfl, rfl, rfl, fun h => absurd (hst.symm.trans h) (by simp)⟩
    next => exact ⟨Iff.rfl, rfl, rfl, rfl, fun _ => rfl⟩
  · exact ⟨Iff.rfl, rfl, rfl, rfl, fun _ => rfl⟩

/-- A record that is not complete may be replaced by another such. -/
theorem SameCounts.update {r : ℕ} {inst : Inst} (hcount : q.numMispredInsts = p.numMispredInsts)
    (havg : q.avgMispredPenalty = p.avgMispredPenalty)
    (hheap : q.heap = Function.update p.heap r inst) (hinst : inst.state ≠ .complete)
    (hnext : ∀ x, x ≠ r → (x < q.next ↔ x < p.next)) (hr : r ∉ resolved p) :
    SameCounts p q := by
  refine ⟨hcount, havg, ?_, fun x hx => ?_⟩
  · ext x
    by_cases hxr : x = r
    · subst hxr
      refine iff_of_false (fun hx => hinst ?_) hr
      have hst := (mem_resolved.1 hx).2.2
      rwa [hheap, Function.update_self] at hst
    · rw [mem_resolved, mem_resolved, hheap, Function.update_of_ne hxr, hnext x hxr]
  · have hxr : x ≠ r := fun h => hr (h ▸ hx)
    rw [hheap, Function.update_of_ne hxr]
    exact ⟨rfl, rfl⟩

theorem SameCounts.issueStep {r : ℕ} (hst : (s.pipe.heap r).state = .dispatch) (unit : FU) :
    SameCounts s.pipe (issued s r unit).pipe := by
  refine SameCounts.update rfl rfl rfl (by simp) (fun _ _ => Iff.rfl) fun hr => ?_
  exact absurd (hst.symm.trans (mem_resolved.1 hr).2.2) (by simp)

theorem SameCounts.dispatchStep (p : Pipe F) (inst : Inst) :
    SameCounts p (dispatchedPipe p inst) := by
  refine SameCounts.update (r := p.next) rfl rfl rfl (by simp [dispatchedInst]) (fun x hx => ?_)
    fun hr => absurd (mem_resolved.1 hr).1 (lt_irrefl _)
  show x < p.next + 1 ↔ x < p.next
  omega

/-! ## A cycle -/

/-- **What a cycle does to the accounts.** The branches that were about to
complete are resolved; each is stamped with the clock and counted, and its
penalty enters the average. -/
structure Counts (p q : Pipe ℚ) : Prop where
  branches : resolved q = resolved p ∪ resolving p
  kept : ∀ r ∈ resolved p, (q.heap r).completedCycle = (p.heap r).completedCycle ∧
    (q.heap r).dispatchedCycle = (p.heap r).dispatchedCycle
  stamped : ∀ r ∈ resolving p, (q.heap r).completedCycle = p.curCycle ∧
    (q.heap r).dispatchedCycle = (p.heap r).dispatchedCycle
  count : q.numMispredInsts = p.numMispredInsts + (resolving p).card
  total : q.avgMispredPenalty * q.numMispredInsts = p.avgMispredPenalty * p.numMispredInsts +
    ∑ r ∈ resolving p, (mispredPenalty p.curCycle (p.heap r).dispatchedCycle : ℚ)
  idle : resolving p = ∅ → q.avgMispredPenalty = p.avgMispredPenalty

section Cycle

variable {s s' : State ℚ} {p p' q : Pipe ℚ} {E : Env ℚ}

theorem Counts.before (h : Counts p' q) (hcounts : SameCounts p p') (hpending : SamePending p p') :
    Counts p q where
  branches := by rw [h.branches, hcounts.branches, hpending.branches]
  kept r hr := by
    obtain ⟨h1, h2⟩ := hcounts.stamps r hr
    obtain ⟨h3, h4⟩ := h.kept r (hcounts.branches ▸ hr)
    exact ⟨h3.trans h1, h4.trans h2⟩
  stamped r hr := by
    obtain ⟨h1, h2⟩ := h.stamped r (hpending.branches ▸ hr)
    exact ⟨h1.trans hpending.clock, h2.trans (hpending.stamps r hr)⟩
  count := by rw [h.count, hcounts.count, hpending.branches]
  total := by
    rw [h.total, hcounts.average, hcounts.count, hpending.branches, hpending.clock]
    congr 1
    exact Finset.sum_congr rfl fun r hr => by rw [hpending.stamps r hr]
  idle hidle := (h.idle (hpending.branches.trans hidle)).trans hcounts.average

theorem Counts.after (h : Counts p p') (hcounts : SameCounts p' q) : Counts p q where
  branches := hcounts.branches.trans h.branches
  kept r hr := by
    obtain ⟨h1, h2⟩ := h.kept r hr
    obtain ⟨h3, h4⟩ := hcounts.stamps r (h.branches ▸ Finset.mem_union_left _ hr)
    exact ⟨h3.trans h1, h4.trans h2⟩
  stamped r hr := by
    obtain ⟨h1, h2⟩ := h.stamped r hr
    obtain ⟨h3, h4⟩ := hcounts.stamps r (h.branches ▸ Finset.mem_union_right _ hr)
    exact ⟨h3.trans h1, h4.trans h2⟩
  count := hcounts.count.trans h.count
  total := by rw [hcounts.average, hcounts.count, h.total]
  idle hidle := hcounts.average.trans (h.idle hidle)

/-- The records of the unit buffer that resolve are all that do. -/
theorem toFinset_resolving (h : Stages p) :
    (p.fuBuffer.elems.filter fun r => (p.heap r).Resolves).toFinset = resolving p := by
  ext r
  simp only [List.mem_toFinset, List.mem_filter, decide_eq_true_eq, mem_resolving]
  refine and_congr_left fun hr => ⟨fun hmem => (h.fu_mem r hmem).1, fun hlt => ?_⟩
  exact h.issue_mem r hlt hr.1

/-- **The execute stage.** -/
theorem Inv.counts_execute (h : Inv E base T s) (hE : E.double = exactDouble)
    (hp : executeInsts E s.pipe = some p) : Counts s.pipe p := by
  have hnd := h.stages.fu_nodup
  obtain ⟨hcount, htotal, hidle⟩ := executeLoop_average hE hnd hp
  obtain ⟨⟨n, avg, hpipe⟩, -, -⟩ := h.execute hp
  have hset := toFinset_resolving h.stages
  have hheap : ∀ r, p.heap r = executedHeap E s.pipe.fuBuffer.elems s.pipe r := by
    rw [hpipe]
    exact fun _ => rfl
  -- an issued record is executed, any other stays as it is
  have hissue : ∀ r < s.pipe.next, (s.pipe.heap r).state = .issue →
      p.heap r = executedInst E s.pipe.curCycle (s.pipe.heap r) := by
    intro r hr hst
    rw [hheap, executedHeap, if_pos ⟨h.stages.issue_mem r hr hst, hst⟩]
  have hother : ∀ r, (s.pipe.heap r).state ≠ .issue → p.heap r = s.pipe.heap r := by
    intro r hst
    rw [hheap, executedHeap, if_neg fun hx => hst hx.2]
  have hnext : p.next = s.pipe.next := by rw [hpipe]; rfl
  constructor
  · ext r
    rw [Finset.mem_union, mem_resolved, mem_resolved, mem_resolving, hnext]
    by_cases hst : (s.pipe.heap r).state = .issue
    · constructor
      · rintro ⟨hlt, hmis, hc⟩
        rw [hissue r hlt hst] at hmis hc
        exact .inr ⟨hlt, hst, (executedInst_complete_iff hst _).1 hc,
          (executedInst_mispredicted _ _).1 hmis⟩
      · rintro (hx | ⟨hlt, -, hrem, hmis⟩)
        · exact absurd (hst.symm.trans hx.2.2) (by simp)
        · rw [hissue r hlt hst]
          exact ⟨hlt, (executedInst_mispredicted _ _).2 hmis,
            (executedInst_complete_iff hst _).2 hrem⟩
    · rw [hother r hst]
      exact ⟨.inl, fun hx => hx.resolve_right fun hx => hst hx.2.1⟩
  · intro r hr
    rw [hother r (by rw [(mem_resolved.1 hr).2.2]; simp)]
    exact ⟨rfl, rfl⟩
  · intro r hr
    obtain ⟨hlt, hst, hrem, -⟩ := mem_resolving.1 hr
    rw [hissue r hlt hst]
    exact ⟨executedInst_completedCycle hrem _, executedInst_dispatchedCycle _ _⟩
  · rw [hcount, ← hset, List.toFinset_card_of_nodup (hnd.filter _)]
  · rw [htotal, ← hset, List.sum_toFinset _ (hnd.filter _)]
  · intro hempty
    rw [← hset, List.toFinset_eq_empty_iff] at hempty
    exact hidle hempty

/-- **A cycle.** -/
theorem Inv.counts (h : Inv E base T s) (hE : E.double = exactDouble)
    (hs' : cycle E s = some s') : Counts s.pipe s'.pipe := by
  obtain ⟨s₁, p₂, p₃, s₄, s₅, hsteps⟩ := cycle_steps hs'
  obtain ⟨t₁, ht₁, h₁, hsame₁, hpend₁⟩ := h.commit
    (P := fun t => SameCounts s.pipe t.pipe ∧ SamePending s.pipe t.pipe)
    ⟨.refl _, .refl _⟩ fun t _ ht _ =>
      ⟨ht.1.trans (same_commit t).1, ht.2.trans (same_commit t).2⟩
  obtain rfl : t₁ = s₁ := Option.some.inj (ht₁.symm.trans hsteps.commit)
  obtain ⟨done, -, -, rfl, -, h₂⟩ := h₁.writeback hsteps.writeback
  obtain ⟨hsame₂, hpend₂⟩ := same_writeback done t₁.pipe
  have hcounts := (h₂.counts_execute hE hsteps.execute).before (hsame₁.trans hsame₂)
    (hpend₁.trans hpend₂)
  obtain ⟨-, -, h₃⟩ := h₂.execute hsteps.execute
  obtain ⟨t₄, ht₄, h₄, hsame₄⟩ := h₃.issue (P := fun t => SameCounts p₃ t.pipe) (.refl _)
    fun t r unit _ ht _ hst _ _ => ht.trans (.issueStep hst unit)
  obtain rfl : t₄ = s₄ := Option.some.inj (ht₄.symm.trans hsteps.issue)
  obtain ⟨-, hsame₅⟩ := h₄.dispatch (P := fun t => SameCounts p₃ t.pipe) hsame₄
    (fun t inst rest ht hP htb => by
      simp only [prepared, prepareFront_eq ht.traced.stocked htb]
      exact hP.trans ⟨rfl, rfl, rfl, fun _ _ => ⟨rfl, rfl⟩⟩)
    (fun _ _ _ _ hP _ _ _ => hP.trans ⟨rfl, rfl, rfl, fun _ _ => ⟨rfl, rfl⟩⟩)
    (fun t u inst rest _ hP _ _ _ _ hto => by
      rw [hto.pipe]
      exact hP.trans (.dispatchStep t.pipe inst)) hsteps.dispatch
  rw [hsteps.finish]
  exact hcounts.after (hsame₅.trans ⟨rfl, rfl, rfl, fun _ _ => ⟨rfl, rfl⟩⟩)

end Cycle

end TraceAnalyzer

end Tqsim
