import Tqsim.TraceAnalyzer.Structure

/-!
# Every analysis ends

The loop of `trace_analysis` has no visible measure. `potential` is one: the
cycles that each instruction of the trace may still need, were it never
delayed, summed up. No stage raises it, and every cycle that does not end
the analysis lowers it: the oldest record commits, or the first record of
the unit buffer comes one cycle closer to leaving it, or, the buffer being
empty, the oldest record issues, or, nothing being in flight, a record is
dispatched.
-/

namespace Tqsim

namespace TraceAnalyzer

variable {F : Type} {s s' : State F} {p q : Pipe F} {E : Env F} {base : ℕ} {T : List Inst}

/-! ## The potential -/

/-- The steps that the latencies of an instruction account for. -/
def latencies (E : Env F) (inst : Inst) : ℕ :=
  (typeLatency inst.type).toNat + (writebackLatency E inst).toNat

/-- The steps a record still needs. -/
def recordCost (E : Env F) (inst : Inst) : ℕ :=
  match inst.state with
  | .dispatch => latencies E inst + 3
  | .issue => inst.remainingLatency.toNat + (writebackLatency E inst).toNat + 2
  | .complete => inst.remainingLatency.toNat + 1
  | .ready | .retire => 0

/-- The steps that instruction `r` of the trace still needs. -/
def costAt (E : Env F) (T : List Inst) (p : Pipe F) (r : ℕ) : ℕ :=
  if r < p.oldest then 0
  else if r < p.next then recordCost E (p.heap r)
  else (T[r]?.map (latencies E)).getD 0 + 4

/-- **The potential.** -/
def potential (E : Env F) (T : List Inst) (p : Pipe F) : ℕ :=
  ∑ r ∈ Finset.range T.length, costAt E T p r

theorem potential_le (h : ∀ r, costAt E T q r ≤ costAt E T p r) :
    potential E T q ≤ potential E T p :=
  Finset.sum_le_sum fun r _ => h r

theorem potential_lt (h : ∀ r, costAt E T q r ≤ costAt E T p r) {r : ℕ} (hr : r < T.length)
    (hlt : costAt E T q r < costAt E T p r) : potential E T q < potential E T p :=
  Finset.sum_lt_sum (fun r _ => h r) ⟨r, Finset.mem_range.2 hr, hlt⟩

theorem costAt_inFlight {r : ℕ} (hr : p.InFlight r) : costAt E T p r = recordCost E (p.heap r) := by
  rw [costAt, if_neg (Nat.not_lt.2 hr.1), if_pos hr.2]

/-- Where the same records are in flight, only their costs matter. -/
theorem costAt_le_of_heap (hold : q.oldest = p.oldest) (hnext : q.next = p.next)
    (h : ∀ r, p.InFlight r → recordCost E (q.heap r) ≤ recordCost E (p.heap r)) (r : ℕ) :
    costAt E T q r ≤ costAt E T p r := by
  simp only [costAt, hold, hnext]
  split
  · exact le_rfl
  · split
    · exact h r ⟨Nat.le_of_not_lt ‹_›, ‹_›⟩
    · exact le_rfl

/-! ## What each step does to it -/

theorem potential_commit (h : Inv E base T s) (hready : CommitReady s.pipe) :
    potential E T (commitInst s s.pipe.oldest).pipe < potential E T s.pipe := by
  obtain ⟨hne, hst, -⟩ := hready
  set q := (commitInst s s.pipe.oldest).pipe with hq
  have hold : q.oldest = s.pipe.oldest + 1 := oldest_commitInst s _
  have hnext : q.next = s.pipe.next := rfl
  have hself : costAt E T q s.pipe.oldest = 0 := by
    rw [costAt, if_pos (by omega)]
  have hbefore : costAt E T s.pipe s.pipe.oldest ≠ 0 := by
    rw [costAt_inFlight ⟨le_rfl, hne⟩, recordCost, hst]
    exact Nat.succ_ne_zero _
  refine potential_lt (fun r => ?_) (h.traced.lt_length hne) (by omega)
  by_cases hr : r = s.pipe.oldest
  · rw [hr, hself]
    exact Nat.zero_le _
  · have hheap : q.heap r = s.pipe.heap r := by simp [hq, commitInst, hr]
    have hlow : r < q.oldest ↔ r < s.pipe.oldest := by omega
    simp only [costAt, hlow, hnext, hheap, le_refl]

theorem recordCost_writeback (E : Env F) (inst : Inst) :
    recordCost E (writebackInst inst) ≤ recordCost E inst := by
  unfold writebackInst
  split
  next hst =>
    simp only [recordCost, hst]
    omega
  next => exact le_rfl

theorem recordCost_writeback_lt {inst : Inst} (hst : inst.state = .complete)
    (hrem : 1 ≤ inst.remainingLatency) :
    recordCost E (writebackInst inst) < recordCost E inst := by
  rw [writebackInst, if_pos hst]
  simp only [recordCost, hst]
  omega

theorem costAt_writeback (E : Env F) (T : List Inst) (p : Pipe F) (done : List ℕ) (r : ℕ) :
    costAt E T (writtenBack done p) r ≤ costAt E T p r := by
  refine costAt_le_of_heap (p := p) (q := writtenBack done p) rfl rfl (fun r _ => ?_) r
  simp only [writtenBack]
  split
  · exact recordCost_writeback E _
  · exact le_rfl

theorem recordCost_execute (c : ℕ) {inst : Inst} (hst : inst.state = .issue) :
    recordCost E (executedInst E c inst) < recordCost E inst := by
  have hbefore : recordCost E inst =
      inst.remainingLatency.toNat + (writebackLatency E inst).toNat + 2 := by
    simp only [recordCost, hst]
  simp only [executedInst]
  split
  next =>
    show (writebackLatency E inst).toNat + 1 < _
    omega
  next hdone =>
    have hafter : recordCost E { inst with remainingLatency := inst.remainingLatency - 1 } =
        (inst.remainingLatency - 1).toNat + (writebackLatency E inst).toNat + 2 := by
      simp only [recordCost, hst]
      rfl
    omega

theorem costAt_execute (E : Env F) (T : List Inst) (p : Pipe F) (n : ℕ) (avg : F) (r : ℕ) :
    costAt E T (executedPipe E p.fuBuffer.elems p n avg) r ≤ costAt E T p r := by
  refine costAt_le_of_heap (p := p) (q := executedPipe E p.fuBuffer.elems p n avg) rfl rfl
    (fun r _ => ?_) r
  simp only [executedPipe, executedHeap]
  split
  next hx => exact (recordCost_execute _ hx.2).le
  next => exact le_rfl

theorem potential_issue (h : Inv E base T s) {r : ℕ} (hr : s.pipe.InFlight r)
    (hst : (s.pipe.heap r).state = .dispatch) (unit : FU) :
    potential E T (issued s r unit).pipe < potential E T s.pipe := by
  have hself : recordCost E ((issued s r unit).pipe.heap r) < recordCost E (s.pipe.heap r) := by
    have hlat : ∀ c l, writebackLatency E { s.pipe.heap r with
        issuedCycle := c, state := .issue, remainingLatency := l } =
        writebackLatency E (s.pipe.heap r) := fun _ _ => rfl
    simp only [issued, issueInst, Function.update_self, recordCost, hst, hlat, latencies]
    omega
  refine potential_lt (costAt_le_of_heap rfl rfl fun x _ => ?_) (h.traced.lt_length hr.2) ?_
  · by_cases hx : x = r
    · exact hx ▸ hself.le
    · simp only [issued, issueInst, Function.update_of_ne hx, le_refl]
  · have hr' : (issued s r unit).pipe.InFlight r := hr
    rw [costAt_inFlight hr, costAt_inFlight hr']
    exact hself

theorem potential_dispatch (h : Inv E base T s) {inst : Inst} {rest : List Inst}
    (htb : s.pipe.traceBuffer.elems = inst :: rest) (hset : inst.Settled)
    (hsup : inst.type ≠ .unsupported) :
    potential E T (dispatchedPipe s.pipe inst) < potential E T s.pipe := by
  obtain ⟨hT, -⟩ := h.traced.front htb hset hsup
  have hold := h.window.oldest_le
  have holdq : (dispatchedPipe s.pipe inst).oldest = s.pipe.oldest := rfl
  have hnextq : (dispatchedPipe s.pipe inst).next = s.pipe.next + 1 := rfl
  have hself : costAt E T (dispatchedPipe s.pipe inst) s.pipe.next <
      costAt E T s.pipe s.pipe.next := by
    have hlat : latencies E (dispatchedInst s.pipe inst) = latencies E inst := rfl
    have hin : (dispatchedPipe s.pipe inst).InFlight s.pipe.next := ⟨hold, Nat.lt_succ_self _⟩
    rw [costAt_inFlight hin, costAt, if_neg (by omega), if_neg (by omega), hT]
    simp only [dispatchedPipe, Function.update_self, Option.map_some, Option.getD_some]
    have hst : (dispatchedInst s.pipe inst).state = .dispatch := rfl
    simp only [recordCost, hst, hlat]
    omega
  refine potential_lt (fun r => ?_) (List.getElem?_eq_some_iff.1 hT).1 hself
  by_cases hr : r = s.pipe.next
  · exact hr ▸ hself.le
  · have hheap : (dispatchedPipe s.pipe inst).heap r = s.pipe.heap r :=
      Function.update_of_ne hr ..
    have hlow : r < s.pipe.next + 1 ↔ r < s.pipe.next := by omega
    simp only [costAt, holdq, hnextq, hheap, hlow, le_refl]

/-- **No stage raises the potential.** -/
theorem potential_keeps (E : Env F) (base : ℕ) (T : List Inst) (c : ℕ) :
    Keeps E base T (fun s => potential E T s.pipe ≤ c) (fun s => potential E T s.pipe ≤ c)
      (fun s => potential E T s.pipe ≤ c) (fun s => potential E T s.pipe ≤ c) where
  commit _ h hP hready := le_trans (potential_commit h hready).le hP
  writeback s done _ hP _ _ := le_trans (potential_le (costAt_writeback E T s.pipe done)) hP
  execute s n avg _ hP _ := le_trans (potential_le (costAt_execute E T s.pipe n avg)) hP
  issue _ _ unit h hP hr hst _ _ := le_trans (potential_issue h hr hst unit).le hP
  enter _ _ hP := hP
  prepare s inst rest h hP htb := by
    simp only [prepared, prepareFront_eq h.traced.stocked htb]
    exact hP
  drop _ _ _ _ hP _ _ _ := hP
  dispatch s t inst rest h hP htb hset hsup _ hto := by
    rw [hto.pipe]
    exact le_trans (potential_dispatch h htb hset hsup).le hP

/-! ## Each cycle makes progress -/

/-- The configurations for which an analysis is meant to end. -/
structure RunnableConfig (cfg : PerfmodelConfig) : Prop where
  frontendWidth : 1 ≤ cfg.frontendWidth
  backendWidth : 1 ≤ cfg.backendWidth
  robSize : 1 ≤ cfg.robSize
  robArray : cfg.robSize ≤ robEntries
  iqSize : 0 ≤ cfg.iqSize
  intalu : 1 ≤ cfg.intalu
  intmultdiv : 1 ≤ cfg.intmultdiv
  ul2Latency : 0 ≤ cfg.ul2Latency

/-- Every unit takes at least one record. -/
theorem RunnableConfig.fu_pos {cfg : PerfmodelConfig} (h : RunnableConfig cfg) (f : FUType) :
    0 < (initAllFUs cfg f).capacity ∧ 0 < (initAllFUs cfg f).numStage := by
  have h1 := h.intalu
  have h2 := h.intmultdiv
  cases f <;> simp only [initAllFUs, initFU] <;> omega

/-- No unit was used in this cycle yet. -/
def Fresh (p : Pipe F) : Prop := ∀ f, (p.fu f).numIssue = 0

/-- A cycle that commits. -/
theorem progress_of_commit (h : Inv E base T s) (hcfg : RunnableConfig E.cfg)
    (hready : CommitReady s.pipe) {s₁ : State F} (hs₁ : commitInsts E s = some s₁) :
    potential E T s₁.pipe < potential E T s.pipe := by
  have hw := hcfg.backendWidth
  obtain ⟨w, hw⟩ : ∃ w, E.cfg.backendWidth.toNat = w + 1 :=
    ⟨E.cfg.backendWidth.toNat - 1, by omega⟩
  rw [commitInsts, hw, commitLoop_succ h.window, if_pos hready] at hs₁
  have hlt := potential_commit h hready
  obtain ⟨t, ht, -, -, hle⟩ := commitLoop_rule
    (P := fun t => Inv E base T t ∧
      potential E T t.pipe ≤ potential E T (commitInst s s.pipe.oldest).pipe)
    (fun t _ hP hr => ⟨hP.1.commitStep hr, (potential_keeps E base T _).commit t hP.1 hP.2 hr⟩) w
    (h.commitStep hready).window ⟨h.commitStep hready, le_rfl⟩
  obtain rfl : t = s₁ := Option.some.inj (ht.symm.trans hs₁)
  omega

/-- A cycle that commits nothing, with a record in the unit buffer: the first
one moves. -/
theorem progress_of_fuBuffer (h : Inv E base T s) (hheld : Held s.pipe)
    (hcfg : RunnableConfig E.cfg) {r : ℕ} {rs : List ℕ} (hfu : s.pipe.fuBuffer.elems = r :: rs)
    {p₂ p₃ : Pipe F} (hp₂ : writebackInsts E s.pipe = some p₂) (hp₃ : executeInsts E p₂ = some p₃) :
    potential E T p₃ < potential E T s.pipe := by
  have hmem : r ∈ s.pipe.fuBuffer.elems := hfu ▸ List.mem_cons_self ..
  have hin := hheld.inFlight h.stages hmem
  obtain ⟨done, -, hhead, rfl, -, h₂⟩ := h.writeback hp₂
  have hdone : r ∈ done := hhead (by have := hcfg.backendWidth; omega) r (by simp [hfu])
  obtain ⟨⟨n, avg, rfl⟩, -, -⟩ := h₂.execute hp₃
  have hle₂ := costAt_writeback E T s.pipe done
  have hle₃ := costAt_execute E T (writtenBack done s.pipe) n avg
  have hheap : (writtenBack done s.pipe).heap r = writebackInst (s.pipe.heap r) := if_pos hdone
  have hin₂ : (writtenBack done s.pipe).InFlight r := hin
  refine potential_lt (fun x => le_trans (hle₃ x) (hle₂ x)) (h.traced.lt_length hin.2) ?_
  rcases (h.stages.fu_mem r hmem).2 with hst | hst
  · -- an issued record is executed
    have hst₂ : ((writtenBack done s.pipe).heap r).state = .issue := by
      rw [hheap, Stages.writebackInst_state]
      exact hst
    refine lt_of_lt_of_le ?_ (hle₂ r)
    have hin₃ : (executedPipe E (writtenBack done s.pipe).fuBuffer.elems (writtenBack done s.pipe)
      n avg).InFlight r := hin
    rw [costAt_inFlight hin₃, costAt_inFlight hin₂]
    have hexec : (executedPipe E (writtenBack done s.pipe).fuBuffer.elems (writtenBack done s.pipe)
        n avg).heap r = executedInst E _ ((writtenBack done s.pipe).heap r) :=
      if_pos ⟨h₂.stages.issue_mem r hin.2 hst₂, hst₂⟩
    rw [hexec]
    exact recordCost_execute _ hst₂
  · -- a complete one is written back
    refine lt_of_le_of_lt (hle₃ r) ?_
    rw [costAt_inFlight hin₂, costAt_inFlight hin, hheap]
    exact recordCost_writeback_lt hst (hheld.left r hmem hst)

/-- The oldest record heads the issue queue, if it is there at all. -/
theorem Stages.iq_head (h : Stages p) (hne : p.oldest < p.next)
    (hst : (p.heap p.oldest).state = .dispatch) : ∃ rest, p.iq.elems = p.oldest :: rest := by
  have hmem : p.oldest ∈ p.iq.elems := (h.iq_mem _).2 ⟨hne, hst⟩
  rcases hiq : p.iq.elems with _ | ⟨x, rest⟩
  · simp [hiq] at hmem
  · have hx : p.oldest ≤ x := (h.inFlight_of_mem_iq (hiq ▸ List.mem_cons_self ..)).1
    have hsorted := h.iq_sorted
    rw [hiq] at hsorted hmem
    rcases List.mem_cons.1 hmem with rfl | hmem
    · exact ⟨rest, rfl⟩
    · have := (List.pairwise_cons.1 hsorted).1 _ hmem
      omega

/-- With the unit buffer empty, the oldest record issues. -/
theorem progress_of_issue (h : Inv E base T s) (hcfg : RunnableConfig E.cfg) (hfresh : Fresh s.pipe)
    (hfu : s.pipe.fuBuffer.elems = []) (hne : s.pipe.oldest < s.pipe.next)
    (hst : (s.pipe.heap s.pipe.oldest).state = .dispatch) {s₄ : State F}
    (hs₄ : issueInsts E s = some s₄) : potential E T s₄.pipe < potential E T s.pipe := by
  have hin : s.pipe.InFlight s.pipe.oldest := ⟨le_rfl, hne⟩
  obtain ⟨rest, hiq⟩ := h.stages.iq_head hne hst
  have hbw := hcfg.backendWidth
  obtain ⟨w, hw⟩ : ∃ w, E.cfg.backendWidth.toNat = w + 1 :=
    ⟨E.cfg.backendWidth.toNat - 1, by omega⟩
  obtain ⟨waits, hdep, hwaits⟩ := hasDependency_spec h.window hin
  obtain rfl : waits = false := Bool.eq_false_iff.2 fun e => not_waits_oldest s (hwaits.1 e)
  -- its unit is idle
  set f := instTypeFuTypeMap (s.pipe.heap s.pipe.oldest).type with hf
  obtain ⟨unit, hunit⟩ : ∃ unit, tryFU (s.pipe.fu f) = some unit := by
    have hact := h.units.active f
    rw [hfu, List.countP_nil, Nat.cast_zero] at hact
    obtain ⟨hcap, hstage⟩ := hcfg.fu_pos f
    refine ⟨_, if_pos ⟨?_, ?_⟩⟩
    · rw [hfresh f, h.units.capacity f]
      exact hcap
    · rw [hact, h.units.numStage f]
      exact hstage
  have hempty : ¬ s.pipe.iq.isEmptyQueue = true := by
    simp [InstQueue.isEmptyQueue, InstQueue.size, hiq]
  rw [issueInsts, if_neg hempty, hiq, hw, issueLoop] at hs₄
  simp only [h.window.deref hin, hdep, Option.bind_eq_bind, Option.bind_some, hst, if_true,
    Bool.false_eq_true, if_false, ← hf, hunit] at hs₄
  have hlt := potential_issue h hin hst unit
  have hrest : ∀ r ∈ rest, (issued s s.pipe.oldest unit).pipe.InFlight r := fun r hr =>
    h.stages.inFlight_of_mem_iq (hiq ▸ List.mem_cons_of_mem _ hr)
  obtain ⟨t, ht, -, hle⟩ := (h.issueStep hin hst hunit).issueLoop
    (P := fun t => potential E T t.pipe ≤ potential E T (issued s s.pipe.oldest unit).pipe)
    le_rfl hrest w (potential_keeps E base T _).issue
  obtain rfl : t = s₄ := Option.some.inj (ht.symm.trans hs₄)
  omega

/-- With nothing in flight, every instruction is admitted. -/
theorem Inv.admits_of_idle (h : Inv E base T s) (hcfg : RunnableConfig E.cfg)
    (hidle : s.pipe.oldest = s.pipe.next) (inst : Inst) :
    Admits E.cfg.robSize s.pipe inst := by
  have hnone : ∀ r, ¬ s.pipe.InFlight r := fun r hr => by
    have := hr.1
    have := hr.2
    omega
  -- a queue has room, for a record is in a queue only while it is in flight
  have hroom : ∀ q : InstQueue ℕ, (∀ r ∈ q.elems, s.pipe.InFlight r) →
      0 ≤ q.capacity → q.HasRoom := by
    intro q hq hcap
    have hsize : q.size = 0 := by
      rw [InstQueue.size, List.length_eq_zero_iff]
      exact List.eq_nil_iff_forall_not_mem.2 fun r hr => hnone r (hq r hr)
    rw [InstQueue.HasRoom, hsize]
    omega
  refine ⟨?_, hroom _ (fun r hr => h.stages.inFlight_of_mem_iq hr) ?_,
    fun _ => hroom _ (fun r hr => ((h.memQueues.ldq_mem r).1 hr).1) ?_,
    fun _ => hroom _ (fun r hr => ((h.memQueues.stq_mem r).1 hr).1) ?_⟩
  · have := hcfg.robSize
    omega
  · rw [h.units.iq]
    exact hcfg.iqSize
  · rw [h.units.ldq]
    decide
  · rw [h.units.stq]
    decide

/-- With nothing in flight, a record is dispatched, or the trace buffer holds
none that could be. -/
theorem progress_of_dispatch (h : Inv E base T s) (hcfg : RunnableConfig E.cfg)
    (hidle : s.pipe.oldest = s.pipe.next) {fuel w : ℕ}
    (hs' : dispatchLoop E fuel (w + 1) s = some s') :
    potential E T s'.pipe < potential E T s.pipe ∨
      (s'.pipe.traceBuffer.elems = [] ∧ s'.pipe.oldest = s'.pipe.next) := by
  induction fuel generalizing s with
  | zero => simp [dispatchLoop] at hs'
  | succ fuel ih =>
    rcases htb : s.pipe.traceBuffer.elems with _ | ⟨inst, rest⟩
    · rw [dispatchLoop_nil fuel w htb] at hs'
      obtain rfl := Option.some.inj hs'
      exact .inr ⟨htb, hidle⟩
    · obtain ⟨front, rest', hfront, hset⟩ := prepared_front E h.traced.stocked htb
      have h₁ := h.prepareStep htb
      have hidle₁ : (prepared E s inst).pipe.oldest = (prepared E s inst).pipe.next := by
        simp only [prepared, prepareFront_eq h.traced.stocked htb]
        exact hidle
      have hpot : potential E T (prepared E s inst).pipe = potential E T s.pipe := by
        simp only [prepared, prepareFront_eq h.traced.stocked htb]
        rfl
      have hadm := h₁.admits_of_idle hcfg hidle₁ front
      rw [dispatchLoop_succ fuel w htb hfront,
        if_neg (by rw [(dispatchBlocked_eq_false_iff h₁.window).2 hadm]; exact Bool.false_ne_true)]
        at hs'
      split at hs'
      next hsup =>
        rw [← hpot]
        exact ih (s := dropped (prepared E s inst)) (h₁.dropStep hfront hset hsup) hidle₁ hs'
      next hsup =>
        obtain ⟨t, ht, hs'⟩ := Option.bind_eq_some_iff.1 hs'
        obtain ⟨t', ht', hto⟩ := dispatchFront_spec h₁.window hadm.rob hcfg.robArray front
        obtain rfl : t' = t := Option.some.inj (ht'.symm.trans ht)
        have hlt := potential_dispatch h₁ hfront hset hsup
        rw [← hto.pipe, hpot] at hlt
        have hk := potential_keeps E base T (potential E T t'.pipe)
        obtain ⟨-, hle⟩ := (h₁.dispatchStep hfront hset hsup hadm hto).dispatch
          (P := fun t => potential E T t.pipe ≤ potential E T t'.pipe) le_rfl hk.prepare hk.drop
          hk.dispatch hs'
        exact .inl (lt_of_le_of_lt hle hlt)

/-- What a cycle takes from one boundary to the next for the argument. -/
structure Running (E : Env F) (base : ℕ) (T : List Inst) (s : State F) : Prop where
  inv : Inv E base T s
  held : Held s.pipe
  lossless : Lossless E.disasm s.pipe
  fresh : Fresh s.pipe

theorem Running.step (h : Running E base T s) (hul2 : 0 ≤ E.cfg.ul2Latency)
    (hs' : cycle E s = some s') : Running E base T s' := by
  obtain ⟨t, ht, hheld, rfl⟩ := (held_keeps E base T hul2).cycle h.inv h.held hs'
  obtain ⟨u, -, hloss, hu⟩ := (lossless_keeps E base T).cycle h.inv h.lossless hs'
  have hpipe : endCycle t.pipe = endCycle u.pipe := congrArg State.pipe hu
  refine ⟨ht.tick, ⟨hheld.left, hheld.nonneg⟩, ?_, fun f => rfl⟩
  show Lossless E.disasm (endCycle t.pipe)
  rw [hpipe]
  exact hloss.congr rfl rfl rfl

/-- The issue and dispatch stages do not raise the potential. -/
theorem potential_afterExecute {t s₄ s₅ : State F} (h : Inv E base T t)
    (hs₄ : issueInsts E t = some s₄) (hs₅ : dispatchInsts E s₄ = some s₅) :
    Inv E base T s₄ ∧ potential E T s₄.pipe ≤ potential E T t.pipe ∧
      potential E T s₅.pipe ≤ potential E T s₄.pipe := by
  obtain ⟨u, hu, h₄, hle₄⟩ := h.issue (P := fun s => potential E T s.pipe ≤ potential E T t.pipe)
    le_rfl (potential_keeps E base T _).issue
  obtain rfl : u = s₄ := Option.some.inj (hu.symm.trans hs₄)
  have hk := potential_keeps E base T (potential E T u.pipe)
  exact ⟨h₄, hle₄, (h₄.dispatch (P := fun s => potential E T s.pipe ≤ potential E T u.pipe)
    le_rfl hk.prepare hk.drop hk.dispatch hs₅).2⟩

/-- In a pipeline that neither commits nor has a record in the unit buffer,
the oldest record waits to be issued. -/
theorem Running.oldest_dispatch (h : Running E base T s) (hready : ¬ CommitReady s.pipe)
    (hfu : s.pipe.fuBuffer.elems = []) (hne : s.pipe.oldest < s.pipe.next) :
    (s.pipe.heap s.pipe.oldest).state = .dispatch := by
  have hnot : s.pipe.oldest ∉ s.pipe.fuBuffer.elems := by simp [hfu]
  rcases h.inv.stages.stage _ hne with hst | hst | hst
  · exact hst
  · exact absurd (h.inv.stages.issue_mem _ hne hst) hnot
  · have hnn := h.held.nonneg _ hne hst
    have hrem : (s.pipe.heap s.pipe.oldest).remainingLatency ≠ 0 := fun h0 => hready ⟨hne, hst, h0⟩
    exact absurd (h.inv.stages.left_mem _ hne hst (by omega)) hnot

theorem commitInsts_of_not_ready (h : Inv E base T s) (hready : ¬ CommitReady s.pipe) :
    commitInsts E s = some s := by
  rw [commitInsts]
  cases E.cfg.backendWidth.toNat with
  | zero => rfl
  | succ w => rw [commitLoop_succ h.window, if_neg hready]

theorem issueInsts_of_idle (h : Inv E base T s) (hidle : s.pipe.oldest = s.pipe.next) :
    issueInsts E s = some s := by
  have hnone : s.pipe.iq.elems = [] := List.eq_nil_iff_forall_not_mem.2 fun r hr => by
    have hin := h.stages.inFlight_of_mem_iq hr
    have := hin.1
    have := hin.2
    omega
  rw [issueInsts, if_pos (by simp [InstQueue.isEmptyQueue, InstQueue.size, hnone])]

/-- With the trace buffer empty and nothing in flight, the counters agree. -/
theorem Running.counters (h : Running E base T s) (htb : s.pipe.traceBuffer.elems = [])
    (hidle : s.pipe.oldest = s.pipe.next) :
    s.pipe.numCommittedInsts = s.pipe.numFetchedInsts := by
  have hfetched := h.lossless.fetched
  have hdone := h.inv.traced.dispatched
  rw [InstQueue.size, htb, List.length_nil] at hfetched
  omega

/-- **A cycle lowers the potential, or it is the last one.** -/
theorem Running.progress (h : Running E base T s) (hcfg : RunnableConfig E.cfg)
    (hs' : cycle E s = some s') :
    potential E T s'.pipe < potential E T s.pipe ∨
      s'.pipe.numCommittedInsts = s'.pipe.numFetchedInsts := by
  have h' := h.step hcfg.ul2Latency hs'
  obtain ⟨s₁, p₂, p₃, s₄, s₅, hsteps⟩ := cycle_steps hs'
  obtain ⟨t₁, ht₁, h₁, -⟩ := h.inv.commit (P := fun _ => True) trivial fun _ _ _ _ => trivial
  obtain rfl : t₁ = s₁ := Option.some.inj (ht₁.symm.trans hsteps.commit)
  obtain ⟨done, -, -, hp₂, -, h₂⟩ := h₁.writeback hsteps.writeback
  obtain ⟨⟨n, avg, hp₃⟩, -, h₃⟩ := h₂.execute hsteps.execute
  obtain ⟨h₄, hle₄, hle₅⟩ := potential_afterExecute h₃ hsteps.issue hsteps.dispatch
  have hend : potential E T s'.pipe = potential E T s₅.pipe := by rw [hsteps.finish]; rfl
  by_cases hready : CommitReady s.pipe
  · have hlt := progress_of_commit h.inv hcfg hready hsteps.commit
    have hle₂ : potential E T p₂ ≤ potential E T t₁.pipe := by
      rw [hp₂]
      exact potential_le (costAt_writeback E T _ done)
    have hle₃ : potential E T p₃ ≤ potential E T p₂ := by
      rw [hp₃]
      exact potential_le (costAt_execute E T _ n avg)
    simp only at hle₄
    exact .inl (by omega)
  obtain rfl : s = t₁ :=
    Option.some.inj ((commitInsts_of_not_ready h.inv hready).symm.trans hsteps.commit)
  rcases hfu : s.pipe.fuBuffer.elems with _ | ⟨r, rs⟩
  · -- nothing is written back or executed
    have hwb := hsteps.writeback
    rw [writebackInsts, hfu, writebackLoop] at hwb
    obtain rfl := Option.some.inj hwb
    have hex := hsteps.execute
    rw [executeInsts, hfu, executeLoop] at hex
    obtain rfl := Option.some.inj hex
    by_cases hne : s.pipe.oldest < s.pipe.next
    · have hst := h.oldest_dispatch hready hfu hne
      have hlt := progress_of_issue h.inv hcfg h.fresh hfu hne hst hsteps.issue
      exact .inl (by omega)
    · -- nothing is issued either
      have hidle : s.pipe.oldest = s.pipe.next := by
        have := h.inv.window.oldest_le
        omega
      obtain rfl : s = s₄ :=
        Option.some.inj ((issueInsts_of_idle h.inv hidle).symm.trans hsteps.issue)
      obtain ⟨w, hw⟩ : ∃ w, E.cfg.frontendWidth.toNat = w + 1 := by
        have := hcfg.frontendWidth
        exact ⟨E.cfg.frontendWidth.toNat - 1, by omega⟩
      have hdisp := hsteps.dispatch
      simp only [dispatchInsts, hw] at hdisp
      rcases progress_of_dispatch h.inv hcfg hidle hdisp with hlt | ⟨htb, hidle₅⟩
      · exact .inl (hend ▸ hlt)
      · rw [hsteps.finish] at h' ⊢
        exact .inr (h'.counters htb hidle₅)
  · have hlt := progress_of_fuBuffer h.inv h.held hcfg hfu hsteps.writeback hsteps.execute
    simp only at hle₄
    exact .inl (by omega)

/-! ## The run -/

/-- **The loop of `trace_analysis` exits**, after at most one cycle more than
the potential. -/
theorem Running.exits (h : Running E base T s) (hcfg : RunnableConfig E.cfg) (c last : ℕ) :
    ∃ a : Analysis F, ∀ fuel, potential E T s.pipe < fuel →
      analysisLoop E 0 fuel c last s = some a := by
  induction hm : potential E T s.pipe using Nat.strong_induction_on generalizing s c last with
  | _ m ih =>
    obtain ⟨t, ht⟩ := h.inv.cycle_total h.held hcfg.ul2Latency hcfg.robArray
    by_cases hdone : t.pipe.numCommittedInsts = t.pipe.numFetchedInsts
    · refine ⟨finishAnalysis E t (lastCycleAfter last t.pipe) (c + 1), fun fuel hfuel => ?_⟩
      obtain ⟨fuel, rfl⟩ := Nat.exists_eq_add_of_lt hfuel
      rw [analysisLoop_succ ht, if_pos hdone]
    · have hlt := (h.progress hcfg ht).resolve_right hdone
      obtain ⟨a, ha⟩ := ih _ (hm ▸ hlt) (h.step hcfg.ul2Latency ht) (c + 1)
        (lastCycleAfter last t.pipe) rfl
      refine ⟨a, fun fuel hfuel => ?_⟩
      obtain ⟨fuel, rfl⟩ := Nat.exists_eq_add_of_lt hfuel
      rw [analysisLoop_succ ht, if_neg hdone]
      exact ha (m + fuel) (by omega)

/-- No more cycles are simulated than there is fuel. -/
theorem analysisLoop_cycles_le {fuel c last : ℕ} {a : Analysis F}
    (h : analysisLoop E 0 fuel c last s = some a) : a.cycles ≤ c + fuel := by
  induction fuel generalizing c last s with
  | zero => cases h
  | succ fuel ih =>
    obtain ⟨t, ht⟩ := cycle_of_analysisLoop h
    rw [analysisLoop_succ ht] at h
    split at h
    next =>
      obtain rfl := Option.some.inj h
      simp only [finishAnalysis]
      omega
    next =>
      have := ih h
      omega

/-- The cycle that is returned is one of those simulated. -/
theorem analysisLoop_lastCycle {fuel c last : ℕ} {a : Analysis F} (h : Inv E base T s)
    (hc : s.pipe.curCycle = c) (hlast : last ≤ c)
    (ha : analysisLoop E 0 fuel c last s = some a) : 1 ≤ a.lastCycle ∧ a.lastCycle ≤ a.cycles := by
  induction fuel generalizing c last s with
  | zero => cases ha
  | succ fuel ih =>
    obtain ⟨t, ht⟩ := cycle_of_analysisLoop ha
    rw [analysisLoop_succ ht] at ha
    have hinv := h.step ht
    have hcur : t.pipe.curCycle = c + 1 := by
      obtain ⟨u, -, hu, rfl⟩ := (curCycle_keeps E base T c).cycle h hc ht
      exact congrArg (· + 1) hu
    split at ha
    next hdone =>
      obtain rfl := Option.some.inj ha
      obtain ⟨-, -, hdisp⟩ := hinv.traced.done hinv.window.oldest_le hdone
      simp only [finishAnalysis, lastCycleAfter, hdisp, hcur, if_true]
      split <;> omega
    next =>
      refine ih hinv hcur ?_ ha
      simp only [lastCycleAfter, hcur]
      split
      · split <;> omega
      · omega

/-- An analysis starts in such a state. -/
theorem Drained.running (hd : Drained E s) (trace : Trace)
    (hfits : ExpansionFits E.disasm trace.queue.capacity trace.queue.elems) :
    Running E s.rob.startIdx (robTrace E.disasm trace.queue) (beginAnalysis E trace.queue s) := by
  refine ⟨hd.inv trace, ⟨?_, fun r hr => absurd hr (Nat.not_lt_zero r)⟩,
    ⟨hfits, by simp [beginAnalysis]⟩, fun f => rfl⟩
  simp [beginAnalysis, hd.fuBuffer]

end TraceAnalyzer

end Tqsim
