import Tqsim.TraceAnalyzer.Analysis

/-!
# The time stamps of a record

How the time stamps of a record and its remaining latency are related while
it moves through the pipeline. The stages run in reverse order inside a
cycle, so that the relation shifts by one at the write-back and at the
execution: `Timed` has a bound for each.
-/

namespace Tqsim

namespace TraceAnalyzer

variable {F : Type} {s s' : State F} {p : Pipe F} {E : Env F} {base : ℕ} {T : List Inst}
variable {d e w d' e' w' : ℤ} {inst : Inst}

/-- **The stamps of one record.** `d` bounds the cycle of a dispatch, `e` is
the last cycle whose execution is done, and `w` the last one whose
write-back is. -/
structure Timed (E : Env F) (d e w : ℤ) (inst : Inst) : Prop where
  dispatch : inst.state = .dispatch → inst.dispatchedCycle ≤ d
  issue : inst.state = .issue → inst.dispatchedCycle < inst.issuedCycle ∧ inst.issuedCycle ≤ e ∧
    inst.remainingLatency = inst.issuedCycle + typeLatency inst.type - e ∧
    0 < inst.remainingLatency
  complete : inst.state = .complete → inst.dispatchedCycle < inst.issuedCycle ∧
    inst.completedCycle = inst.issuedCycle + typeLatency inst.type ∧ inst.completedCycle ≤ e ∧
    inst.completedCycle + writebackLatency E inst - inst.remainingLatency ≤ w

namespace Timed

/-- Write-back. -/
theorem writeback (h : Timed E d e w inst) : Timed E d e (w + 1) (writebackInst inst) := by
  unfold writebackInst
  split
  next hst =>
    refine ⟨fun h' => ?_, fun h' => ?_, fun _ => ?_⟩
    · exact absurd (hst.symm.trans h') (by simp)
    · exact absurd (hst.symm.trans h') (by simp)
    · obtain ⟨h1, h2, h3, h4⟩ := h.complete hst
      refine ⟨h1, h2, h3, ?_⟩
      have hw : writebackLatency E { inst with remainingLatency := inst.remainingLatency - 1 } =
        writebackLatency E inst := rfl
      simp only [hw]
      omega
  next hst => exact ⟨h.dispatch, h.issue, fun h' => absurd h' hst⟩

/-- Looser bounds, where nothing is being executed. -/
theorem mono (h : Timed E d e w inst) (hst : inst.state ≠ .issue) (hd : d ≤ d') (he : e ≤ e')
    (hw : w ≤ w') : Timed E d' e' w' inst := by
  refine ⟨fun h' => le_trans (h.dispatch h') hd, fun h' => absurd h' hst, fun h' => ?_⟩
  obtain ⟨h1, h2, h3, h4⟩ := h.complete h'
  exact ⟨h1, h2, le_trans h3 he, le_trans h4 hw⟩

theorem mono_dispatch (h : Timed E d e w inst) (hd : d ≤ d') : Timed E d' e w inst :=
  ⟨fun h' => le_trans (h.dispatch h') hd, h.issue, h.complete⟩

theorem mono_writeback (h : Timed E d e w inst) (hw : w ≤ w') : Timed E d e w' inst := by
  refine ⟨h.dispatch, h.issue, fun h' => ?_⟩
  obtain ⟨h1, h2, h3, h4⟩ := h.complete h'
  exact ⟨h1, h2, h3, le_trans h4 hw⟩

/-- Execution: the remaining latency reaches zero in the very cycle it was
issued for. -/
theorem execute {c : ℕ} (h : Timed E d e w inst) (hst : inst.state = .issue) (hc : (c : ℤ) = e + 1)
    (hw : e + 1 ≤ w) : Timed E d (e + 1) w (executedInst E c inst) := by
  obtain ⟨h1, h2, h3, h4⟩ := h.issue hst
  simp only [executedInst]
  split
  next hdone =>
    refine ⟨fun h' => absurd h' (by simp), fun h' => absurd h' (by simp), fun _ => ?_⟩
    refine ⟨h1, ?_, by simp only; omega, ?_⟩
    · simp only
      omega
    · have hlat : ∀ l, writebackLatency E { inst with
          remainingLatency := l, state := .complete, completedCycle := c } =
          writebackLatency E { inst with remainingLatency := inst.remainingLatency - 1 } :=
        fun _ => rfl
      simp only [hlat]
      omega
  next hdone =>
    refine ⟨fun h' => absurd (hst.symm.trans h') (by simp), fun _ => ?_,
      fun h' => absurd (hst.symm.trans h') (by simp)⟩
    simp only
    omega

end Timed

/-- The stamps of all records, and the commit stamps of those committed. -/
structure TimedPipe (E : Env F) (d e w : ℤ) (p : Pipe F) : Prop where
  records : ∀ r < p.next, Timed E d e w (p.heap r)
  committed : ∀ r < p.oldest, (p.heap r).completedCycle + writebackLatency E (p.heap r) + 1 ≤
    (p.heap r).committedCycle

theorem TimedPipe.commitStep {d e : ℤ} (h : TimedPipe E d e (s.pipe.curCycle - 1) s.pipe)
    (hready : CommitReady s.pipe) :
    TimedPipe E d e (s.pipe.curCycle - 1) (commitInst s s.pipe.oldest).pipe := by
  obtain ⟨hne, hst, hrem⟩ := hready
  constructor
  · intro r hr
    have hr' := h.records r hr
    by_cases hx : r = s.pipe.oldest
    · subst hx
      simp only [commitInst, Function.update_self]
      exact ⟨hr'.dispatch, hr'.issue, hr'.complete⟩
    · simp only [commitInst, Function.update_of_ne hx]
      exact hr'
  · intro r hr
    rw [oldest_commitInst] at hr
    by_cases hx : r = s.pipe.oldest
    · subst hx
      obtain ⟨-, -, -, h4⟩ := (h.records _ hne).complete hst
      simp only [commitInst, Function.update_self]
      have hlat : writebackLatency E { s.pipe.heap s.pipe.oldest with
          committedCycle := s.pipe.curCycle } = writebackLatency E (s.pipe.heap s.pipe.oldest) := rfl
      rw [hlat]
      omega
    · simp only [commitInst, Function.update_of_ne hx]
      exact h.committed r (by omega)

theorem TimedPipe.writebackStep (h : TimedPipe E d e w p) {done : List ℕ}
    (hdone : ∀ r ∈ done, p.InFlight r) : TimedPipe E d e (w + 1) (writtenBack done p) := by
  constructor
  · intro r hr
    simp only [writtenBack]
    split
    · exact (h.records r hr).writeback
    · exact (h.records r hr).mono_writeback (by omega)
  · intro r hr
    have hr : r < p.oldest := hr
    have hnot : r ∉ done := fun hx => absurd (hdone r hx).1 (Nat.not_le.2 hr)
    simp only [writtenBack, if_neg hnot]
    exact h.committed r hr

theorem TimedPipe.executeStep (hst : Stages p) {d : ℤ}
    (h : TimedPipe E d (p.curCycle - 1) p.curCycle p) (n : ℕ) (avg : F) :
    TimedPipe E d p.curCycle p.curCycle (executedPipe E p.fuBuffer.elems p n avg) := by
  constructor
  · intro r hr
    have hr' := h.records r hr
    simp only [executedPipe, executedHeap]
    by_cases hs : (p.heap r).state = .issue
    · rw [if_pos ⟨hst.issue_mem r hr hs, hs⟩]
      have := hr'.execute hs (c := p.curCycle) (by omega) (by omega)
      simpa using this
    · rw [if_neg (fun hx => hs hx.2)]
      exact hr'.mono hs le_rfl (by omega) le_rfl
  · intro r hr
    have hr : r < p.oldest := hr
    have hs : (p.heap r).state ≠ .issue := by
      rw [(hst.committed r hr).1]
      simp
    simp only [executedPipe, executedHeap, if_neg (fun hx : _ ∧ _ => hs hx.2)]
    exact h.committed r hr

theorem TimedPipe.issueStep (hinv : Inv E base T s) {r : ℕ} (hr : s.pipe.InFlight r)
    (hst : (s.pipe.heap r).state = .dispatch) {w : ℤ}
    (h : TimedPipe E (s.pipe.curCycle - 1) s.pipe.curCycle w s.pipe) (unit : FU) :
    TimedPipe E (s.pipe.curCycle - 1) s.pipe.curCycle w (issued s r unit).pipe := by
  have hlat := hinv.traced.typeLatency_pos hr.2
  constructor
  · intro x hx
    by_cases hxr : x = r
    · subst hxr
      have hd := (h.records x hr.2).dispatch hst
      simp only [issued, issueInst, Function.update_self]
      refine ⟨fun h' => absurd h' (by simp), fun _ => ?_, fun h' => absurd h' (by simp)⟩
      simp only
      omega
    · simp only [issued, issueInst, Function.update_of_ne hxr]
      exact h.records x hx
  · intro x hx
    have hxr : x ≠ r := fun e => absurd hr.1 (Nat.not_le.2 (e ▸ hx))
    simp only [issued, issueInst, Function.update_of_ne hxr]
    exact h.committed x hx

theorem TimedPipe.dispatchStep (hold : p.oldest ≤ p.next)
    (h : TimedPipe E p.curCycle e w p) (inst : Inst) :
    TimedPipe E p.curCycle e w (dispatchedPipe p inst) := by
  constructor
  · intro r hr
    have hr : r < p.next + 1 := hr
    by_cases hx : r = p.next
    · subst hx
      simp only [dispatchedPipe, Function.update_self]
      exact ⟨fun _ => le_rfl, fun h' => absurd h' (by simp [dispatchedInst]),
        fun h' => absurd h' (by simp [dispatchedInst])⟩
    · simp only [dispatchedPipe, Function.update_of_ne hx]
      exact h.records r (by omega)
  · intro r hr
    have hr : r < p.oldest := hr
    simp only [dispatchedPipe, Function.update_of_ne (show r ≠ p.next by omega)]
    exact h.committed r hr

/-- **The stages keep the stamps in step with the clock.** -/
theorem timed_keeps (E : Env F) (base : ℕ) (T : List Inst) :
    Keeps E base T
      (fun s => TimedPipe E (s.pipe.curCycle - 1) (s.pipe.curCycle - 1) (s.pipe.curCycle - 1) s.pipe)
      (fun s => TimedPipe E (s.pipe.curCycle - 1) (s.pipe.curCycle - 1) s.pipe.curCycle s.pipe)
      (fun s => TimedPipe E (s.pipe.curCycle - 1) s.pipe.curCycle s.pipe.curCycle s.pipe)
      (fun s => TimedPipe E s.pipe.curCycle s.pipe.curCycle s.pipe.curCycle s.pipe) where
  commit _ _ hP hready := hP.commitStep hready
  writeback s done _ hP hdone _ := by
    have := hP.writebackStep hdone
    rwa [sub_add_cancel] at this
  execute _ n avg h hP _ := hP.executeStep h.stages n avg
  issue _ _ unit h hP hr hst _ _ := hP.issueStep h hr hst unit
  enter _ _ hP := ⟨fun r hr => (hP.records r hr).mono_dispatch (by omega), hP.committed⟩
  prepare s inst rest h hP htb := by
    simp only [prepared, prepareFront_eq h.traced.stocked htb]
    exact ⟨hP.records, hP.committed⟩
  drop _ _ _ _ hP _ _ _ := ⟨hP.records, hP.committed⟩
  dispatch s t inst rest h hP _ _ _ _ hto := by
    rw [hto.pipe]
    exact hP.dispatchStep h.window.oldest_le inst

/-- The stamps at the end of every cycle. -/
theorem Reaches.timed {trace : Trace} {n : ℕ} (hd : Drained E s) (h : Reaches E trace s n s') :
    TimedPipe E (s'.pipe.curCycle - 1) (s'.pipe.curCycle - 1) (s'.pipe.curCycle - 1) s'.pipe := by
  refine Reaches.keeps hd (timed_keeps E _ _) (fun t _ ht => ?_) ?_ h
  · have hclock : (((endCycle t.pipe).curCycle : ℕ) : ℤ) - 1 = t.pipe.curCycle := by
      simp [endCycle]
    rw [hclock]
    exact ⟨ht.records, ht.committed⟩
  · exact ⟨fun r hr => absurd hr (Nat.not_lt_zero r), fun r hr => absurd hr (Nat.not_lt_zero r)⟩

/-! ## Commit in order, with exact timing -/

/-- The committed records are the first instructions of `T`, each once and in
order, and their stamps are those of a pipeline with these latencies. -/
structure CommitsInOrder (E : Env F) (T : List Inst) (p : Pipe F) : Prop where
  once : p.commitLog.Nodup
  order : (p.commitLog.map fun r => (p.heap r).fixed) <+: T.map Inst.fixed
  issued : ∀ r ∈ p.commitLog, (p.heap r).dispatchedCycle + 1 ≤ (p.heap r).issuedCycle
  latency : ∀ r ∈ p.commitLog, 1 ≤ typeLatency (p.heap r).type
  completed : ∀ r ∈ p.commitLog,
    ((p.heap r).completedCycle : ℤ) = (p.heap r).issuedCycle + typeLatency (p.heap r).type
  committed : ∀ r ∈ p.commitLog,
    (p.heap r).completedCycle + writebackLatency E (p.heap r) + 1 ≤ (p.heap r).committedCycle

/-- The fixed parts of the committed records. -/
theorem Traced.commitLog_fixed {disasm : UInt32 → Darm} (h : Traced disasm T p)
    (hold : p.oldest ≤ p.next) :
    (p.commitLog.map fun r => (p.heap r).fixed) = (T.take p.oldest).map Inst.fixed := by
  rw [h.log]
  refine List.ext_getElem? fun i => ?_
  by_cases hi : i < p.oldest
  · obtain ⟨inst, hT, hfix⟩ := h.fixed i (by omega)
    simp [hi, hT, hfix]
  · have h1 : ((List.range p.oldest).map fun r => (p.heap r).fixed).length ≤ i := by
      simpa using Nat.le_of_not_lt hi
    have h2 : ((T.take p.oldest).map Inst.fixed).length ≤ i := by
      simp only [List.length_map, List.length_take]
      omega
    rw [List.getElem?_eq_none h1, List.getElem?_eq_none h2]

theorem Reaches.commitsInOrder {trace : Trace} {n : ℕ} (hd : Drained E s)
    (h : Reaches E trace s n s') : CommitsInOrder E (robTrace E.disasm trace.queue) s'.pipe := by
  have hinv := Reaches.inv hd h
  have htimed := Reaches.timed hd h
  have hold := hinv.window.oldest_le
  have hmem : ∀ r ∈ s'.pipe.commitLog, r < s'.pipe.oldest := fun r hr => by
    rw [hinv.traced.log] at hr
    exact List.mem_range.1 hr
  have hcomplete := fun r hr => (htimed.records r (lt_of_lt_of_le (hmem r hr) hold)).complete
    (hinv.stages.committed r (hmem r hr)).1
  constructor
  · rw [hinv.traced.log]
    exact List.nodup_range
  · rw [hinv.traced.commitLog_fixed hold]
    exact (List.take_prefix _ _).map _
  · exact fun r hr => by have := (hcomplete r hr).1; omega
  · exact fun r hr => hinv.traced.typeLatency_pos (lt_of_lt_of_le (hmem r hr) hold)
  · exact fun r hr => (hcomplete r hr).2.1
  · exact fun r hr => htimed.committed r (hmem r hr)

/-- When as many instructions are committed as were fetched, the committed
records are the whole trace. -/
theorem Reaches.commitLog_done {trace : Trace} {n : ℕ} (hd : Drained E s)
    (h : Reaches E trace s n s') (hdone : s'.pipe.numCommittedInsts = s'.pipe.numFetchedInsts) :
    (s'.pipe.commitLog.map fun r => (s'.pipe.heap r).fixed) =
      (robTrace E.disasm trace.queue).map Inst.fixed := by
  have hinv := Reaches.inv hd h
  have hold := hinv.window.oldest_le
  obtain ⟨hall, htb, -⟩ := hinv.traced.done hold hdone
  -- nothing is left in the trace buffer, so the whole trace was dispatched
  have hleft : (robTrace E.disasm trace.queue).drop s'.pipe.oldest = [] := by
    rw [hall, hinv.traced.left]
    simp [robTrace, htb, expandTrace, supported]
  rw [hinv.traced.commitLog_fixed hold, List.take_of_length_le (List.drop_eq_nil_iff.1 hleft)]

/-- **In-order commit, exactly once, with exact stage timing**: in every state
an analysis reaches, the committed records are the first instructions of the
expanded trace, and when it returns they are all of them. -/
theorem commits_in_order_with_exact_timing (E : Env F) (trace : Trace) (s : State F)
    (hd : Drained E s) :
    (∀ n s', Reaches E trace s n s' →
      CommitsInOrder E (robTrace E.disasm trace.queue) s'.pipe) ∧
    ∀ fuel a, traceAnalysis E fuel trace.queue 0 s = some a →
      CommitsInOrder E (robTrace E.disasm trace.queue) a.state.pipe ∧
        (a.state.pipe.commitLog.map fun r => (a.state.pipe.heap r).fixed) =
          (robTrace E.disasm trace.queue).map Inst.fixed := by
  refine ⟨fun n s' h => Reaches.commitsInOrder hd h, fun fuel a h => ?_⟩
  obtain ⟨hreach, hdone⟩ := traceAnalysis_reaches h
  exact ⟨Reaches.commitsInOrder hd hreach, Reaches.commitLog_done hd hreach hdone⟩

/-- The sample, whose analysis returns with all of its instructions
committed. -/
theorem commits_in_order_sample : ∃ a,
    traceAnalysis (sampleEnv 2) 100 sampleTrace.queue 0 (initTraceAnalyzer (sampleEnv 2) blankState) =
      some a ∧
    CommitsInOrder (sampleEnv 2) (robTrace sampleDisasm sampleTrace.queue) a.state.pipe ∧
    (a.state.pipe.commitLog.map fun r => (a.state.pipe.heap r).fixed) =
      (robTrace sampleDisasm sampleTrace.queue).map Inst.fixed := by
  have hsome : (traceAnalysis (sampleEnv 2) 100 sampleTrace.queue 0
      (initTraceAnalyzer (sampleEnv 2) blankState)).isSome = true := by decide
  obtain ⟨a, ha⟩ := Option.isSome_iff_exists.1 hsome
  exact ⟨a, ha, (commits_in_order_with_exact_timing (sampleEnv 2) sampleTrace _
    (initTraceAnalyzer_drained _ _)).2 100 a ha⟩

end TraceAnalyzer

end Tqsim
