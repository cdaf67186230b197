import Tqsim.TraceAnalyzer.Bounds
import Tqsim.TraceAnalyzer.Dependence
import Tqsim.TraceAnalyzer.Progress
import Tqsim.TraceAnalyzer.Helpers.Resolution

/-!
# The accounting of mispredicted branches

The accounts of a run are those of the branches it has resolved: as many are
counted, and the average is the mean of their penalties.

The penalty is a 64-bit difference of two clocks that is stored in an `int`
before it is capped. `PenaltyFits` says of one branch that nothing is lost
there; the average is that of the capped penalties just where it holds of
every branch a run resolves.
-/

namespace Tqsim

namespace TraceAnalyzer

variable {F : Type} {p : Pipe F} {T : List Inst}

/-! ## The penalty -/

/-- The penalty of a branch that was dispatched in cycle `d` and completed in
cycle `c`: the cycles since it was fetched, and at most 40. -/
def cappedPenalty (c d : ℕ) : ℤ := min 40 ((12 : ℤ) + c - d)

/-- The clocks' difference is below the range of `int`, or its conversion to
`int` reaches the cap nevertheless. -/
def PenaltyFits (c d : ℕ) : Prop :=
  (12 : ℤ) + c - d < 2 ^ 31 ∨ 40 ≤ ((12 : ℤ) + c - d).bmod (2 ^ 32)

instance (c d : ℕ) : Decidable (PenaltyFits c d) :=
  inferInstanceAs (Decidable (_ ∨ _))

variable {c d : ℕ}

/-- The conversion never raises a penalty. -/
theorem mispredPenalty_le (h : d ≤ c) : mispredPenalty c d ≤ cappedPenalty c d := by
  simp only [mispredPenalty, cappedPenalty, Int.bmod_def]
  split <;> split at * <;> omega

theorem mispredPenalty_eq_iff (h : d ≤ c) :
    mispredPenalty c d = cappedPenalty c d ↔ PenaltyFits c d := by
  simp only [mispredPenalty, cappedPenalty, PenaltyFits, Int.bmod_def]
  split <;> split at * <;> omega

/-- The mean of a penalty over the branches that are resolved, which is zero
where there is none. -/
def meanPenalty (f : ℕ → ℕ → ℤ) (p : Pipe F) : ℚ :=
  (∑ r ∈ resolved p, (f (p.heap r).completedCycle (p.heap r).dispatchedCycle : ℚ)) /
    (resolved p).card

/-- The sum that a mean is made of. -/
theorem meanPenalty_mul_card (f : ℕ → ℕ → ℤ) (p : Pipe F) :
    meanPenalty f p * (resolved p).card =
      ∑ r ∈ resolved p, (f (p.heap r).completedCycle (p.heap r).dispatchedCycle : ℚ) := by
  rcases (resolved p).eq_empty_or_nonempty with hempty | hne
  · simp [hempty]
  · exact div_mul_cancel₀ _ (by exact_mod_cast hne.card_pos.ne')

/-- **Two means agree just where the terms do**, if those of one are below
those of the other. -/
theorem meanPenalty_eq_iff {f g : ℕ → ℕ → ℤ}
    (hle : ∀ r ∈ resolved p, f (p.heap r).completedCycle (p.heap r).dispatchedCycle ≤
      g (p.heap r).completedCycle (p.heap r).dispatchedCycle) :
    meanPenalty f p = meanPenalty g p ↔
      ∀ r ∈ resolved p, f (p.heap r).completedCycle (p.heap r).dispatchedCycle =
        g (p.heap r).completedCycle (p.heap r).dispatchedCycle := by
  constructor
  · intro heq
    have hsum := congrArg (· * ((resolved p).card : ℚ)) heq
    simp only [meanPenalty_mul_card] at hsum
    have hall := (Finset.sum_eq_sum_iff_of_le fun r hr => by exact_mod_cast hle r hr).1 hsum
    exact fun r hr => by exact_mod_cast hall r hr
  · intro hall
    unfold meanPenalty
    congr 1
    exact Finset.sum_congr rfl fun r hr => by rw [hall r hr]

theorem meanPenalty_mem {f : ℕ → ℕ → ℤ} {lo hi : ℤ} (hne : (resolved p).Nonempty)
    (h : ∀ r ∈ resolved p, lo ≤ f (p.heap r).completedCycle (p.heap r).dispatchedCycle ∧
      f (p.heap r).completedCycle (p.heap r).dispatchedCycle ≤ hi) :
    (lo : ℚ) ≤ meanPenalty f p ∧ meanPenalty f p ≤ hi := by
  have hpos : (0 : ℚ) < (resolved p).card := by exact_mod_cast hne.card_pos
  constructor
  · rw [meanPenalty, le_div_iff₀ hpos, mul_comm, ← nsmul_eq_mul]
    exact Finset.card_nsmul_le_sum _ _ _ fun r hr => by exact_mod_cast (h r hr).1
  · rw [meanPenalty, div_le_iff₀ hpos, mul_comm, ← nsmul_eq_mul]
    exact Finset.sum_le_card_nsmul _ _ _ fun r hr => by exact_mod_cast (h r hr).2

/-! ## The accounts of a run -/

/-- **The accounts as the code keeps them.** -/
structure Tallied (p : Pipe ℚ) : Prop where
  count : p.numMispredInsts = (resolved p).card
  average : p.avgMispredPenalty = meanPenalty mispredPenalty p

/-- A cycle that counts right keeps the accounts. -/
theorem Counts.tallied {p q : Pipe ℚ} (h : Counts p q) (hp : Tallied p) : Tallied q := by
  have hcard : q.numMispredInsts = (resolved q).card := by
    rw [h.count, hp.count, h.branches, Finset.card_union_of_disjoint (disjoint_resolving p)]
  refine ⟨hcard, ?_⟩
  have hsum : ∑ r ∈ resolved q,
        (mispredPenalty (q.heap r).completedCycle (q.heap r).dispatchedCycle : ℚ) =
      q.avgMispredPenalty * q.numMispredInsts := by
    rw [h.total, hp.average, hp.count, meanPenalty_mul_card, h.branches,
      Finset.sum_union (disjoint_resolving p)]
    congr 1
    · refine Finset.sum_congr rfl fun r hr => ?_
      rw [(h.kept r hr).1, (h.kept r hr).2]
    · refine Finset.sum_congr rfl fun r hr => ?_
      rw [(h.stamped r hr).1, (h.stamped r hr).2]
  rcases (resolved q).eq_empty_or_nonempty with hempty | hne
  · -- nothing is resolved, and nothing was
    obtain ⟨h1, h2⟩ := Finset.union_eq_empty.1 (h.branches.symm.trans hempty)
    rw [h.idle h2, hp.average, meanPenalty, meanPenalty, h1, hempty]
    rfl
  · rw [meanPenalty, hsum, hcard, mul_div_cancel_right₀]
    exact_mod_cast hne.card_pos.ne'

section Run

variable {E : Env ℚ} {trace : Trace} {s t t' : State ℚ} {n : ℕ}

/-- **In every state of an analysis the accounts are those of the branches
resolved so far.** -/
theorem Reaches.tallied (hd : Drained E s) (hE : E.double = exactDouble)
    (h : Reaches E trace s n t) : Tallied t.pipe := by
  induction n generalizing t with
  | zero =>
    obtain rfl := Option.some.inj h
    have hempty : resolved (beginAnalysis E trace.queue s).pipe = ∅ := rfl
    refine ⟨by rw [hempty]; rfl, ?_⟩
    rw [meanPenalty, hempty]
    simp [beginAnalysis, hE, exactDouble]
  | succ n ih =>
    obtain ⟨u, hu, ht⟩ := Run.exists_of_iterate_succ h
    exact ((Reaches.inv hd hu).counts hE ht).tallied (ih hu)

/-- A branch takes two cycles at least, and those that are resolved took
theirs. -/
theorem Reaches.stays (hd : Drained E s) (h : Reaches E trace s n t) :
    ∀ r ∈ resolved t.pipe, (t.pipe.heap r).dispatchedCycle + 2 ≤ (t.pipe.heap r).completedCycle ∧
      (t.pipe.heap r).completedCycle < t.pipe.curCycle := by
  intro r hr
  obtain ⟨hlt, ⟨htype, -⟩, hst⟩ := mem_resolved.1 hr
  obtain ⟨h1, h2, h3, -⟩ := ((Reaches.timed hd h).records r hlt).complete hst
  have hlat : typeLatency (t.pipe.heap r).type = 1 := by rw [htype]; rfl
  omega

/-- Every branch that this cycle resolves fits. -/
def ResolvesFitting (p : Pipe F) : Prop :=
  ∀ r ∈ resolving p, PenaltyFits p.curCycle (p.heap r).dispatchedCycle

/-- **Where every cycle resolves fitting branches only**, all that are
resolved fit. -/
theorem Reaches.fits (hd : Drained E s) (hE : E.double = exactDouble)
    (hfit : ∀ n t, Reaches E trace s n t → (cycle E t).isSome → ResolvesFitting t.pipe)
    (h : Reaches E trace s n t) :
    ∀ r ∈ resolved t.pipe,
      PenaltyFits (t.pipe.heap r).completedCycle (t.pipe.heap r).dispatchedCycle := by
  induction n generalizing t with
  | zero =>
    obtain rfl := Option.some.inj h
    exact fun r hr => absurd (mem_resolved.1 hr).1 (Nat.not_lt_zero r)
  | succ n ih =>
    obtain ⟨u, hu, ht⟩ := Run.exists_of_iterate_succ h
    have hcounts := (Reaches.inv hd hu).counts hE ht
    intro r hr
    rcases Finset.mem_union.1 (hcounts.branches ▸ hr) with hr | hr
    · rw [(hcounts.kept r hr).1, (hcounts.kept r hr).2]
      exact ih hu r hr
    · rw [(hcounts.stamped r hr).1, (hcounts.stamped r hr).2]
      exact hfit n u hu (by rw [ht]; rfl) r hr

/-- **The accounts as one expects them**: the average is that of the capped
penalties, and each of these is between 14 and 40. -/
structure Accounted (p : Pipe ℚ) : Prop where
  count : p.numMispredInsts = (resolved p).card
  average : p.avgMispredPenalty = meanPenalty cappedPenalty p
  range : ∀ r ∈ resolved p,
    14 ≤ cappedPenalty (p.heap r).completedCycle (p.heap r).dispatchedCycle ∧
      cappedPenalty (p.heap r).completedCycle (p.heap r).dispatchedCycle ≤ 40

/-- **The two accounts agree just where every branch fits.** -/
theorem Reaches.accounted_iff (hd : Drained E s) (hE : E.double = exactDouble)
    (h : Reaches E trace s n t) :
    Accounted t.pipe ↔ ∀ r ∈ resolved t.pipe,
      PenaltyFits (t.pipe.heap r).completedCycle (t.pipe.heap r).dispatchedCycle := by
  have htally := Reaches.tallied hd hE h
  have hstays := Reaches.stays hd h
  have hle : ∀ r ∈ resolved t.pipe,
      (t.pipe.heap r).dispatchedCycle ≤ (t.pipe.heap r).completedCycle := fun r hr => by
    have := (hstays r hr).1
    omega
  have hmean : t.pipe.avgMispredPenalty = meanPenalty cappedPenalty t.pipe ↔ _ :=
    htally.average ▸ meanPenalty_eq_iff fun r hr => mispredPenalty_le (hle r hr)
  constructor
  · exact fun hacc r hr => (mispredPenalty_eq_iff (hle r hr)).1 (hmean.1 hacc.average r hr)
  · refine fun hfits => ⟨htally.count, hmean.2 fun r hr => ?_, fun r hr => ?_⟩
    · exact (mispredPenalty_eq_iff (hle r hr)).2 (hfits r hr)
    · have := (hstays r hr).1
      simp only [cappedPenalty]
      omega

end Run

/-! ## The branches of a trace -/

section Branches

variable {disasm : UInt32 → Darm} {inst : Inst} {rest : List Inst} {cap : ℤ}

/-- The mispredicted branches of a trace, decoded. -/
def mispredicted (disasm : UInt32 → Darm) (l : List Inst) : List Inst :=
  (l.map (decodeInst disasm)).filter fun inst => inst.Mispredicted

theorem bpredMispred_decodeInst (disasm : UInt32 → Darm) (inst : Inst) :
    (decodeInst disasm inst).bpredMispred = inst.bpredMispred :=
  decodeInst_field Inst.bpredMispred _ _ (fun _ _ => rfl) (fun _ _ => rfl) fun _ _ _ => rfl

/-- No micro-op of a `PUSH` or a `POP` is a branch. -/
theorem filter_expandInst (hfits : InstQueue.Fits ⟨inst :: rest, cap⟩) (i : Inst) :
    ((expandInst cap rest.length i).filter fun m => m.Mispredicted) =
      if i.Mispredicted then [i] else [] := by
  by_cases hstack : i.type = .pop ∨ i.type = .push
  · have hnot : ¬ i.Mispredicted := by
      intro h
      rcases hstack with htype | htype <;> exact absurd (htype.symm.trans h.1) (by simp)
    rw [if_neg hnot]
    refine List.filter_eq_nil_iff.2 fun m hm hmis => ?_
    have hbranch : m.type = .branch := (of_decide_eq_true hmis).1
    rcases type_of_mem_microops (List.mem_of_mem_drop hm) with htype | htype | htype | h
    · exact absurd (htype.symm.trans hbranch) (by simp)
    · exact absurd (htype.symm.trans hbranch) (by simp)
    · exact absurd (htype.symm.trans hbranch) (by simp)
    · exact hstack.elim h.2.1 h.2.2
  · obtain ⟨hpop, hpush⟩ := not_or.1 hstack
    have hlost := lost_lt hfits Nat.one_pos
    rw [expandInst, microops_of_not_stack hpop hpush, List.length_singleton,
      Nat.lt_one_iff.1 hlost, List.drop_zero, List.filter_singleton]
    by_cases h : i.Mispredicted <;> simp [h]

/-- **The expansion of a trace keeps its mispredicted branches**, and makes
no new ones. -/
theorem filter_expandTrace {l : List Inst} (hfits : InstQueue.Fits ⟨l, cap⟩) :
    ((expandTrace disasm cap l).filter fun m => m.Mispredicted) = mispredicted disasm l := by
  induction l with
  | nil => rfl
  | cons inst rest ih =>
    rw [expandTrace, List.filter_append, filter_expandInst hfits, ih hfits.tail, mispredicted,
      mispredicted, List.map_cons, List.filter_cons]
    by_cases h : (decodeInst disasm inst).Mispredicted <;> simp [h]

/-- So does the choice of the instructions that go through the reorder
buffer. -/
theorem filter_robTrace (disasm : UInt32 → Darm) (trace : Trace) :
    ((robTrace disasm trace.queue).filter fun m => m.Mispredicted) =
      mispredicted disasm trace.queue.elems := by
  rw [← filter_expandTrace trace.fits, robTrace, supported, List.filter_filter]
  refine List.filter_congr fun m _ => ?_
  by_cases h : m.Mispredicted
  · simp [h, h.1]
  · simp [h]

end Branches

/-! ## What a call reports -/

/-- An integer is converted to itself. -/
theorem exactDouble_toInt_intCast (z : ℤ) : exactDouble.toInt (z : ℚ) = z := by
  simp [exactDouble]

section Exit

variable {E : Env ℚ} {trace : Trace} {s t : State ℚ} {n : ℕ}

/-- **What `trace_analysis` reports.** -/
structure Reported (disasm : UInt32 → Darm) (trace : Trace) (a : Analysis ℚ) : Prop where
  /-- The branches resolved are all the mispredicted ones among the records. -/
  resolved : resolved a.state.pipe =
    (Finset.range a.state.pipe.next).filter fun r => (a.state.pipe.heap r).Mispredicted
  /-- These are the mispredicted branches of the trace, in order. -/
  branches : (((List.range a.state.pipe.next).filter fun r =>
      (a.state.pipe.heap r).Mispredicted).map fun r => (a.state.pipe.heap r).fixed) =
    (mispredicted disasm trace.queue.elems).map Inst.fixed
  count : a.state.pipe.numMispredInsts = trace.queue.elems.countP fun inst =>
    (decodeInst disasm inst).type = .branch ∧ inst.bpredMispred = true
  none : a.state.pipe.numMispredInsts = 0 → a.bpredPenalty = 0
  mean : a.state.pipe.numMispredInsts ≠ 0 →
    a.bpredPenalty = ⌊meanPenalty cappedPenalty a.state.pipe⌋ ∧
      14 ≤ a.bpredPenalty ∧ a.bpredPenalty ≤ 40

/-- The state of a call that returns has only complete records. -/
theorem Reaches.resolved_done (hd : Drained E s) (h : Reaches E trace s n t)
    (hdone : t.pipe.numCommittedInsts = t.pipe.numFetchedInsts) :
    resolved t.pipe =
      (Finset.range t.pipe.next).filter fun r => (t.pipe.heap r).Mispredicted := by
  have hinv := Reaches.inv hd h
  obtain ⟨hall, -, -⟩ := hinv.traced.done hinv.window.oldest_le hdone
  refine Finset.filter_congr fun r hr => and_iff_left ?_
  exact (hinv.stages.committed r (by rw [hall]; exact Finset.mem_range.1 hr)).1

/-- Its mispredicted branches are those of the trace. -/
theorem Reaches.branches_done (hd : Drained E s) (h : Reaches E trace s n t)
    (hdone : t.pipe.numCommittedInsts = t.pipe.numFetchedInsts) :
    (((List.range t.pipe.next).filter fun r => (t.pipe.heap r).Mispredicted).map fun r =>
        (t.pipe.heap r).fixed) =
      (mispredicted E.disasm trace.queue.elems).map Inst.fixed := by
  have hinv := Reaches.inv hd h
  obtain ⟨hall, -, -⟩ := hinv.traced.done hinv.window.oldest_le hdone
  have hlog := Reaches.commitLog_done hd h hdone
  rw [hinv.traced.log, hall] at hlog
  -- whether a branch was mispredicted is part of what is fixed
  have hfixed : ∀ l : List Inst, (l.map Inst.fixed).filter (fun m => m.Mispredicted) =
      (l.filter fun m => m.Mispredicted).map Inst.fixed := fun l => List.filter_map
  rw [← filter_robTrace, ← hfixed, ← hlog, List.filter_map]
  rfl

/-- What is returned where the accounts are the expected ones. -/
theorem Accounted.reported (hd : Drained E s) (hE : E.double = exactDouble) {fuel : ℕ}
    {a : Analysis ℚ} (h : traceAnalysis E fuel trace.queue 0 s = some a)
    (hacc : Accounted a.state.pipe) : Reported E.disasm trace a := by
  obtain ⟨hreach, hdone⟩ := traceAnalysis_reaches h
  have hresolved := Reaches.resolved_done hd hreach hdone
  have hbranches := Reaches.branches_done hd hreach hdone
  have hpen : a.bpredPenalty = exactDouble.toInt (meanPenalty cappedPenalty a.state.pipe) := by
    rw [analysisLoop_bpredPenalty h, hE, hacc.average]
  refine ⟨hresolved, hbranches, ?_, fun hzero => ?_, fun hne => ?_⟩
  · have hlen := congrArg List.length hbranches
    simp only [List.length_map, mispredicted, ← List.countP_eq_length_filter,
      List.countP_map] at hlen
    have hcard : ((Finset.range a.state.pipe.next).filter fun r =>
        (a.state.pipe.heap r).Mispredicted).card = (List.range a.state.pipe.next).countP fun r =>
        (a.state.pipe.heap r).Mispredicted := List.countP_eq_length_filter.symm
    rw [hacc.count, hresolved, hcard, hlen]
    refine List.countP_congr fun inst _ => ?_
    simp [Inst.Mispredicted, bpredMispred_decodeInst]
  · have hempty : TraceAnalyzer.resolved a.state.pipe = ∅ :=
      Finset.card_eq_zero.1 (hacc.count.symm.trans hzero)
    rw [hpen, meanPenalty, hempty]
    simp [exactDouble]
  · have hne : (TraceAnalyzer.resolved a.state.pipe).Nonempty :=
      Finset.card_pos.1 (Nat.pos_of_ne_zero (hacc.count ▸ hne))
    obtain ⟨hlo, hhi⟩ := meanPenalty_mem hne hacc.range
    have hfloor : a.bpredPenalty = ⌊meanPenalty cappedPenalty a.state.pipe⌋ := by
      rw [hpen]
      exact if_pos (le_trans (by norm_num) hlo)
    refine ⟨hfloor, ?_, ?_⟩
    · rw [hfloor]
      exact Int.le_floor.2 hlo
    · rw [hfloor]
      exact Int.floor_le_iff.2 (lt_of_le_of_lt hhi (by norm_num))

/-- **The accounts of all analyses of a trace**: in every state, over every
cycle, and when a call returns. -/
structure AccountsFor (E : Env ℚ) (trace : Trace) (s : State ℚ) : Prop where
  states : ∀ n t, Reaches E trace s n t → Accounted t.pipe
  /-- Each branch is counted once, in the cycle whose stamp it is given. -/
  cycles : ∀ n t t', Reaches E trace s n t → cycle E t = some t' →
    t'.pipe.numMispredInsts = t.pipe.numMispredInsts + (resolving t.pipe).card ∧
      resolved t'.pipe = resolved t.pipe ∪ resolving t.pipe ∧
      Disjoint (resolved t.pipe) (resolving t.pipe) ∧
      ∀ r ∈ resolving t.pipe, (t'.pipe.heap r).completedCycle = t.pipe.curCycle
  returns : ∀ fuel a, traceAnalysis E fuel trace.queue 0 s = some a → Reported E.disasm trace a

/-- **Mispredictions are accounted for as expected** just where every branch
fits in the cycle it is resolved in. -/
theorem accountsFor_iff (E : Env ℚ) (hE : E.double = exactDouble) (trace : Trace) (s : State ℚ)
    (hd : Drained E s) :
    AccountsFor E trace s ↔
      ∀ n t, Reaches E trace s n t → (cycle E t).isSome → ResolvesFitting t.pipe := by
  constructor
  · intro h n t ht hsome r hr
    obtain ⟨t', ht'⟩ := Option.isSome_iff_exists.1 hsome
    have hreach : Reaches E trace s (n + 1) t' := by
      rw [Reaches, Run.iterate_succ_last, ht]
      exact ht'
    have hcounts := (Reaches.inv hd ht).counts hE ht'
    have hfits := (Reaches.accounted_iff hd hE hreach).1 (h.states (n + 1) t' hreach) r
      (hcounts.branches ▸ Finset.mem_union_right _ hr)
    rwa [(hcounts.stamped r hr).1, (hcounts.stamped r hr).2] at hfits
  · intro hfit
    have hacc : ∀ n t, Reaches E trace s n t → Accounted t.pipe := fun n t ht =>
      (Reaches.accounted_iff hd hE ht).2 (Reaches.fits hd hE hfit ht)
    refine ⟨hacc, fun n t t' ht ht' => ?_, fun fuel a ha => ?_⟩
    · have hcounts := (Reaches.inv hd ht).counts hE ht'
      exact ⟨hcounts.count, hcounts.branches, disjoint_resolving _,
        fun r hr => (hcounts.stamped r hr).1⟩
    · exact (hacc _ _ (traceAnalysis_reaches ha).1).reported hd hE ha

/-! ## Analyses that end in time -/

/-- Whether a record is a mispredicted branch is fixed with the trace. -/
theorem Traced.mispredicted_iff {disasm : UInt32 → Darm} (h : Traced disasm T p) {r : ℕ}
    (hr : r < p.next) :
    (p.heap r).Mispredicted ↔ ∃ inst, T[r]? = some inst ∧ inst.Mispredicted := by
  obtain ⟨inst, hT, hfix⟩ := h.fixed r hr
  have hiff : (p.heap r).fixed.Mispredicted ↔ inst.fixed.Mispredicted := by rw [hfix]
  simp only [hT, Option.some.injEq, exists_eq_left']
  exact hiff

/-- All instructions of the trace are dispatched when a call returns. -/
theorem Reaches.length_le_next (hd : Drained E s) (h : Reaches E trace s n t)
    (hdone : t.pipe.numCommittedInsts = t.pipe.numFetchedInsts) :
    (robTrace E.disasm trace.queue).length ≤ t.pipe.next := by
  have hinv := Reaches.inv hd h
  obtain ⟨-, htb, -⟩ := hinv.traced.done hinv.window.oldest_le hdone
  refine List.drop_eq_nil_iff.1 ?_
  rw [hinv.traced.left, robTrace, htb, expandTrace]
  rfl

/-- What is resolved stays resolved. -/
theorem resolved_mono (hd : Drained E s) (hE : E.double = exactDouble) {m : ℕ} {u : State ℚ}
    (hu : Reaches E trace s m u) (hmn : m ≤ n) (ht : Reaches E trace s n t) :
    resolved u.pipe ⊆ resolved t.pipe := by
  induction n, hmn using Nat.le_induction generalizing t with
  | base =>
    obtain rfl := Option.some.inj (hu.symm.trans ht)
    exact Finset.Subset.refl _
  | succ n _ ih =>
    obtain ⟨v, hv, ht⟩ := Run.exists_of_iterate_succ ht
    rw [((Reaches.inv hd hv).counts hE ht).branches]
    exact (ih hv).trans Finset.subset_union_left

/-- After the cycle in which a call returns there is no branch left to be
resolved. -/
theorem resolving_eq_empty (hd : Drained E s) (hE : E.double = exactDouble) {m : ℕ} {u : State ℚ}
    (hu : Reaches E trace s m u)
    (hdone : u.pipe.numCommittedInsts = u.pipe.numFetchedInsts) (hmn : m ≤ n)
    (ht : Reaches E trace s n t) : resolving t.pipe = ∅ := by
  refine Finset.eq_empty_of_forall_notMem fun r hr => ?_
  obtain ⟨hlt, -, -, hmis⟩ := mem_resolving.1 hr
  obtain ⟨inst, hT, hinst⟩ := ((Reaches.inv hd ht).traced.mispredicted_iff hlt).1 hmis
  have hu_lt : r < u.pipe.next :=
    lt_of_lt_of_le (List.getElem?_eq_some_iff.1 hT).1 (Reaches.length_le_next hd hu hdone)
  have hmem : r ∈ resolved u.pipe := by
    rw [Reaches.resolved_done hd hu hdone, Finset.mem_filter, Finset.mem_range]
    exact ⟨hu_lt, ((Reaches.inv hd hu).traced.mispredicted_iff hu_lt).2 ⟨inst, hT, hinst⟩⟩
  exact Finset.disjoint_left.1 (disjoint_resolving t.pipe) (resolved_mono hd hE hu hmn ht hmem) hr

/-- **An analysis that returns within the range of `int` fits.** -/
theorem resolvesFitting_of_cycles_le (hd : Drained E s) (hE : E.double = exactDouble) {fuel : ℕ}
    {a : Analysis ℚ} (h : traceAnalysis E fuel trace.queue 0 s = some a)
    (hcycles : a.cycles ≤ 2 ^ 31 - 12) (ht : Reaches E trace s n t) : ResolvesFitting t.pipe := by
  intro r hr
  obtain ⟨hreach, hdone⟩ := traceAnalysis_reaches h
  by_cases hn : n < a.cycles
  · rw [Reaches.curCycle hd ht]
    exact .inl (by omega)
  · rw [resolving_eq_empty hd hE hreach hdone (Nat.le_of_not_lt hn) ht] at hr
    exact absurd hr (Finset.notMem_empty r)

end Exit

/-! ## A branch behind a load -/

/-- `ldr r3, [r4]`, which misses, and the mispredicted `bxne r3` behind
it. -/
def branchTrace : Trace where
  queue := ⟨[setInstEffAddr (initInst 0 0 0xE5943000) 0x1000 .l1Miss,
    setInstBpredMispred (initInst 1 4 0x112FFF13) true], 1000001⟩
  fits := by decide
  recorded := by
    intro inst h
    simp only [List.mem_cons, List.not_mem_nil, or_false] at h
    rcases h with rfl | rfl
    · exact ⟨_, _, _, rfl⟩
    · exact ⟨_, _, _, rfl⟩

/-- A core with an L1 miss latency of `latency` cycles. -/
def missEnv (latency : ℤ) : Env ℚ :=
  { addEnv 40 with cfg := { (addEnv 40).cfg with ul2Latency := latency } }

/-- The two records as they are decoded. -/
theorem robTrace_branchTrace : ∃ load branch : Inst,
    robTrace disasm branchTrace.queue = [load, branch] ∧
      (load.type = .memRead ∧ load.cacheMiss = .l1Miss ∧ load.dstReg = [3]) ∧
      branch.Mispredicted ∧ 3 ∈ branch.srcReg := by
  refine ⟨_, _, rfl, ?_⟩
  decide

section Branch

variable {latency : ℤ} {s t : State ℚ} {n : ℕ}

/-- With both records in the array from its start on, none wraps around. -/
theorem noWaitAcross_branchTrace
    (h : Inv (missEnv latency) 0 (robTrace disasm branchTrace.queue) s) : NoWaitAcross s := by
  obtain ⟨load, branch, hT, -⟩ := robTrace_branchTrace
  intro b hb a _ ha _ hacross
  have hbin := h.stages.inFlight_of_mem_iq hb
  have hnext : s.pipe.next ≤ 2 := by
    by_contra hlt
    obtain ⟨inst, hinst, -⟩ := h.traced.fixed 2 (by omega)
    rw [hT] at hinst
    cases hinst
  have hslot : ∀ r, r ≤ 2 → Circular.slot (missEnv latency).cfg.robSize 0 r = r := by
    intro r hr
    rw [Circular.slot, Nat.zero_add]
    exact Nat.mod_eq_of_lt (lt_of_le_of_lt hr (show 2 < 40 by decide))
  have hold := hbin.1
  have hlt := hbin.2
  rw [AcrossWrap, h.window.idx b hbin, h.window.start, hslot b (by omega),
    hslot _ (by omega)] at hacross
  omega

/-- The two records when a call returns. -/
theorem branchTrace_done (hd : Drained (missEnv latency) s)
    (h : Reaches (missEnv latency) branchTrace s n t)
    (hdone : t.pipe.numCommittedInsts = t.pipe.numFetchedInsts) :
    2 ≤ t.pipe.next ∧ (∀ r < 2, (t.pipe.heap r).state = .complete) ∧
      ((t.pipe.heap 0).type = .memRead ∧ (t.pipe.heap 0).cacheMiss = .l1Miss) ∧
      (t.pipe.heap 1).Mispredicted := by
  obtain ⟨load, branch, hT, ⟨htype, hmiss, -⟩, hmis, -⟩ := robTrace_branchTrace
  have hT : robTrace (missEnv latency).disasm branchTrace.queue = [load, branch] := hT
  have hinv := Reaches.inv hd h
  obtain ⟨hall, -, -⟩ := hinv.traced.done hinv.window.oldest_le hdone
  have hnext : 2 ≤ t.pipe.next := by
    have hlen := Reaches.length_le_next hd h hdone
    rwa [hT] at hlen
  obtain ⟨inst, hinst, hfix⟩ := hinv.traced.fixed 0 (by omega)
  rw [hT] at hinst
  obtain rfl := Option.some.inj hinst
  have htype0 : (t.pipe.heap 0).fixed.type = load.fixed.type := congrArg Inst.type hfix
  have hmiss0 : (t.pipe.heap 0).fixed.cacheMiss = load.fixed.cacheMiss :=
    congrArg Inst.cacheMiss hfix
  refine ⟨hnext, fun r hr => (hinv.stages.committed r (by omega)).1,
    ⟨htype0.trans htype, hmiss0.trans hmiss⟩, ?_⟩
  exact (hinv.traced.mispredicted_iff hnext).2 ⟨branch, by rw [hT]; rfl, hmis⟩

/-- The branch is the only one. -/
theorem resolved_branchTrace (hd : Drained (missEnv latency) s)
    (h : Reaches (missEnv latency) branchTrace s n t)
    (hdone : t.pipe.numCommittedInsts = t.pipe.numFetchedInsts) : resolved t.pipe = {1} := by
  obtain ⟨hnext, -, ⟨htype, -⟩, hmis⟩ := branchTrace_done hd h hdone
  obtain ⟨load, branch, hT, -⟩ := robTrace_branchTrace
  have hT : robTrace (missEnv latency).disasm branchTrace.queue = [load, branch] := hT
  ext r
  rw [Reaches.resolved_done hd h hdone, Finset.mem_filter, Finset.mem_range, Finset.mem_singleton]
  constructor
  · rintro ⟨hr, hrmis⟩
    obtain ⟨inst, hinst, -⟩ := (Reaches.inv hd h).traced.fixed r hr
    rw [hT] at hinst
    have hlt : r < 2 := (List.getElem?_eq_some_iff.1 hinst).1
    have hne : r ≠ 0 := by
      rintro rfl
      exact absurd (htype.symm.trans hrmis.1) (by simp)
    omega
  · rintro rfl
    exact ⟨hnext, hmis⟩

/-- The branch is never short of what the load owes it. -/
theorem branchTrace_respectsRegs (hd : Drained (missEnv latency) s) (hstart : s.rob.startIdx = 0)
    (h : Reaches (missEnv latency) branchTrace s n t) :
    RespectsRegs (missEnv latency) (robTrace disasm branchTrace.queue) t.pipe := by
  induction n generalizing t with
  | zero =>
    rw [← Option.some.inj h]
    exact fun i j _ _ hj _ => absurd hj (Nat.not_lt_zero j)
  | succ n ih =>
    obtain ⟨u, hu, ht⟩ := Run.exists_of_iterate_succ h
    have hmarked : DepsMarked (robTrace (missEnv latency).disasm branchTrace.queue) u :=
      Reaches.keeps hd (depsMarked_keeps _ _ _) (fun _ _ hP => hP)
        (fun i _ _ _ hi _ => absurd hi.2 (Nat.not_lt_zero i)) hu
    refine respectsRegs_cycle (Reaches.inv hd hu) (ih hu) hmarked (Reaches.timed hd hu)
      (fun v hv => ?_) ht
    have hv := ((keeps_true _ _ _).enterIssue (Reaches.inv hd hu) trivial hv).1
    rw [hstart] at hv
    exact noWaitAcross_branchTrace hv

/-- **The branch waits for the load**, and completes no sooner than the miss
latency says. -/
theorem branchTrace_late (hd : Drained (missEnv latency) s) (hstart : s.rob.startIdx = 0)
    (h : Reaches (missEnv latency) branchTrace s n t)
    (hdone : t.pipe.numCommittedInsts = t.pipe.numFetchedInsts) :
    latency + 6 ≤ (t.pipe.heap 1).completedCycle := by
  obtain ⟨hnext, hcomplete, ⟨htype, hmiss⟩, hmis⟩ := branchTrace_done hd h hdone
  obtain ⟨load, branch, hT, ⟨-, -, hdst⟩, -, hsrc⟩ := robTrace_branchTrace
  have hdep : RegDep (robTrace disasm branchTrace.queue) 0 1 3 := by
    rw [hT]
    refine ⟨by decide, by decide, ⟨branch, rfl, hsrc⟩, ⟨load, rfl, by simp [hdst]⟩, ?_⟩
    intro k c h1 h2
    omega
  have hresp := branchTrace_respectsRegs hd hstart h
  have hwait := (hresp 0 1 3 hdep hnext (.inr (hcomplete 1 (by decide)))).2.2 htype
  have hwb : writebackLatency (missEnv latency) (t.pipe.heap 0) = latency + 3 := by
    rw [writebackLatency, if_pos htype, if_pos (by simp [hmiss])]
    show 2 + (latency + 1) = latency + 3
    omega
  -- the load is issued in the second cycle at the earliest, and takes two cycles
  have htimed := Reaches.timed hd h
  obtain ⟨hd0, hc0, -, -⟩ := (htimed.records 0 (by omega)).complete (hcomplete 0 (by decide))
  obtain ⟨-, hc1, -, -⟩ := (htimed.records 1 hnext).complete (hcomplete 1 (by decide))
  have hlat0 : typeLatency (t.pipe.heap 0).type = 2 := by rw [htype]; rfl
  have hlat1 : typeLatency (t.pipe.heap 1).type = 1 := by rw [hmis.1]; rfl
  omega

/-- A record keeps its dispatch stamp. -/
theorem dispatched_keeps (E : Env F) (base : ℕ) (T : List Inst) (r c : ℕ) :
    Keeps E base T (fun s => r < s.pipe.next ∧ (s.pipe.heap r).dispatchedCycle = c)
      (fun s => r < s.pipe.next ∧ (s.pipe.heap r).dispatchedCycle = c)
      (fun s => r < s.pipe.next ∧ (s.pipe.heap r).dispatchedCycle = c)
      (fun s => r < s.pipe.next ∧ (s.pipe.heap r).dispatchedCycle = c) where
  commit s _ hP _ := by
    obtain ⟨k, h⟩ := heap_commitInst s s.pipe.oldest r
    rw [h]
    exact hP
  writeback s done _ hP _ _ := by
    obtain ⟨l, h⟩ := heap_writtenBack done s.pipe r
    rw [h]
    exact hP
  execute s n avg _ hP _ := by
    obtain ⟨st, k, l, h⟩ := heap_executed E s.pipe.fuBuffer.elems s.pipe r
    simp only [executedPipe, h]
    exact hP
  issue s x unit _ hP _ _ _ _ := by
    obtain ⟨st, k, l, h⟩ := heap_issued s x unit r
    rw [h]
    exact hP
  enter _ _ hP := hP
  prepare s inst rest h hP htb := by
    simp only [prepared, prepareFront_eq h.traced.stocked htb]
    exact hP
  drop _ _ _ _ hP _ _ _ := hP
  dispatch s t inst rest _ hP _ _ _ _ hto := by
    have hne : r ≠ s.pipe.next := Nat.ne_of_lt hP.1
    rw [hto.pipe]
    exact ⟨Nat.lt_succ_of_lt hP.1, by simpa [dispatchedPipe, hne] using hP.2⟩

/-- What a record was stamped with in the first cycle, it is stamped with in
every later state. -/
theorem dispatched_of_first {E : Env F} {trace : Trace} {s u t : State F} {n r c : ℕ}
    (hd : Drained E s) (hu : cycle E (beginAnalysis E trace.queue s) = some u)
    (hr : r < u.pipe.next ∧ (u.pipe.heap r).dispatchedCycle = c)
    (h : Reaches E trace s (n + 1) t) : (t.pipe.heap r).dispatchedCycle = c := by
  rw [Reaches, Run.iterate_succ, hu] at h
  let P := fun v : State F => Inv E s.rob.startIdx (robTrace E.disasm trace.queue) v ∧
    r < v.pipe.next ∧ (v.pipe.heap r).dispatchedCycle = c
  have hrun : P t := by
    refine Run.invariant (P := P) (fun v w hv hw => ?_) ⟨(hd.inv trace).step hu, hr⟩ h
    obtain ⟨x, hx, hP, rfl⟩ := (dispatched_keeps E _ _ r c).cycle hv.1 hv.2 hw
    exact ⟨hx.tick, hP⟩
  exact hrun.2.2

end Branch

/-- The mispredicted branch with an ordinary miss latency. -/
theorem accountsFor_branchTrace :
    AccountsFor (missEnv 10) branchTrace (initTraceAnalyzer (missEnv 10) blankState) := by
  have hd := initTraceAnalyzer_drained (missEnv 10) blankState
  have hrun : ((traceAnalysis (missEnv 10) 100 branchTrace.queue 0
      (initTraceAnalyzer (missEnv 10) blankState)).map Analysis.cycles) = some 20 := by
    decide
  obtain ⟨a, ha, hcycles⟩ := Option.map_eq_some_iff.1 hrun
  refine (accountsFor_iff (missEnv 10) rfl branchTrace _ hd).2 fun n t ht _ => ?_
  exact resolvesFitting_of_cycles_le hd rfl ha (by rw [hcycles]; norm_num) ht

/-- **With a miss latency of 2147483630 cycles** the branch completes `2 ^ 31`
cycles after it was fetched, and the penalty is negative. -/
theorem penalty_of_slow_load : ∃ (N : ℕ) (a : Analysis ℚ),
    (∀ fuel, N ≤ fuel → traceAnalysis (missEnv 2147483630) fuel branchTrace.queue 0
      (initTraceAnalyzer (missEnv 2147483630) blankState) = some a) ∧
    a.state.pipe.numMispredInsts = 1 ∧ a.bpredPenalty < 0 := by
  have hd := initTraceAnalyzer_drained (missEnv 2147483630) blankState
  have hfits : ExpansionFits (missEnv 2147483630).disasm branchTrace.queue.capacity
      branchTrace.queue.elems := by decide
  have hcfg : RunnableConfig (missEnv 2147483630).cfg :=
    ⟨by decide, by decide, by decide, by decide, by decide, by decide, by decide, by decide⟩
  obtain ⟨a, ha⟩ := (hd.running branchTrace hfits).exits hcfg 0 0
  refine ⟨_, a, ha, ?_⟩
  have hret := ha _ (Nat.lt_succ_self _)
  have hcycles := analysisLoop_cycles_le hret
  have hpot : potential (missEnv 2147483630)
      (robTrace (missEnv 2147483630).disasm branchTrace.queue)
      (beginAnalysis (missEnv 2147483630) branchTrace.queue
        (initTraceAnalyzer (missEnv 2147483630) blankState)).pipe < 2147483700 := by decide
  obtain ⟨hreach, hdone⟩ := traceAnalysis_reaches hret
  have hresolved := resolved_branchTrace hd hreach hdone
  have hlate := branchTrace_late hd rfl hreach hdone
  have hmem : 1 ∈ resolved a.state.pipe := by simp [hresolved]
  have hearly := (Reaches.stays hd hreach 1 hmem).2
  rw [Reaches.curCycle hd hreach] at hearly
  have htally := Reaches.tallied hd rfl hreach
  -- the branch is dispatched in the first cycle
  have hstamp : (a.state.pipe.heap 1).dispatchedCycle = 0 := by
    have hfirst : ((cycle (missEnv 2147483630) (beginAnalysis (missEnv 2147483630)
        branchTrace.queue (initTraceAnalyzer (missEnv 2147483630) blankState))).map fun u =>
          (u.pipe.next, (u.pipe.heap 1).dispatchedCycle)) = some (2, 0) := by decide
    obtain ⟨u, hu, hvals⟩ := Option.map_eq_some_iff.1 hfirst
    obtain ⟨hnext, hzero⟩ := Prod.mk.inj hvals
    obtain ⟨m, hm⟩ : ∃ m, a.cycles = m + 1 := ⟨a.cycles - 1, by omega⟩
    exact dispatched_of_first hd hu ⟨by omega, hzero⟩ (hm ▸ hreach)
  refine ⟨by rw [htally.count, hresolved]; rfl, ?_⟩
  have havg : a.state.pipe.avgMispredPenalty =
      mispredPenalty (a.state.pipe.heap 1).completedCycle 0 := by
    rw [htally.average, meanPenalty, hresolved]
    simp [hstamp]
  have hneg : mispredPenalty (a.state.pipe.heap 1).completedCycle 0 < 0 := by
    simp only [mispredPenalty, Int.bmod_def]
    split <;> split at * <;> omega
  rw [analysisLoop_bpredPenalty hret, havg]
  exact (exactDouble_toInt_intCast _).trans_lt hneg

end TraceAnalyzer

end Tqsim
