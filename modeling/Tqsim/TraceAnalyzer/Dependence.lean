import Tqsim.TraceAnalyzer.Timing

/-!
# Register dependences

An instruction reads a register that an earlier one wrote last. The search
at dispatch marks that earlier instruction if it is still in flight, and the
mark keeps the younger one from issuing before the value can be forwarded,
unless the end of the array lies between the two: the order test of
`dep_mat.c` answers wrongly there (`Window.inOrder_iff`), and the mark is
not seen.

`RespectsRegs` is what one expects of the stamps. It holds along every run
in which no record is held back by an unseen mark only (`NoWaitAcross`), and
it fails in the sample, where one is.
-/

namespace Tqsim

namespace TraceAnalyzer

variable {F : Type} {s s' : State F} {p : Pipe F} {E : Env F} {base : ℕ} {T : List Inst}
variable {i j : ℕ} {reg : ℤ}

/-- Instruction `j` reads a register that `i` is the last to write before
it. -/
structure RegDep (T : List Inst) (i j : ℕ) (reg : ℤ) : Prop where
  isReg : reg ≠ -1
  lt : i < j
  reads : ∃ b, T[j]? = some b ∧ reg ∈ b.srcReg
  writes : ∃ a, T[i]? = some a ∧ reg ∈ a.dstReg
  last : ∀ k c, i < k → k < j → T[k]? = some c → reg ∉ c.dstReg

/-- **Register dependences are respected**: a record that was issued waited
for the last writer of each register it reads, and for its write-back but
one cycle if it is a load. -/
def RespectsRegs (E : Env F) (T : List Inst) (p : Pipe F) : Prop :=
  ∀ i j reg, RegDep T i j reg → j < p.next →
    (p.heap j).state = .issue ∨ (p.heap j).state = .complete →
    (p.heap i).state = .complete ∧ (p.heap i).completedCycle ≤ (p.heap j).issuedCycle ∧
      ((p.heap i).type = .memRead →
        (p.heap i).completedCycle + writebackLatency E (p.heap i) - 1 ≤ (p.heap j).issuedCycle)

/-- No record of the issue queue is marked as waiting, across the end of the
array, for one that cannot forward yet. -/
def NoWaitAcross (s : State F) : Prop :=
  ∀ b ∈ s.pipe.iq.elems, ∀ a < b, s.pipe.InFlight a → s.Marked b a → AcrossWrap s.rob a b →
    canForward (s.pipe.heap a) = true

instance (s : State F) : Decidable (NoWaitAcross s) :=
  inferInstanceAs (Decidable (∀ b ∈ s.pipe.iq.elems, ∀ a < b, _))

/-! ## The marks -/

/-- Every dependence between two records in flight is marked. -/
def DepsMarked (T : List Inst) (s : State F) : Prop :=
  ∀ i j reg, RegDep T i j reg → s.pipe.InFlight i → s.pipe.InFlight j → s.Marked j i

/-- The destinations of a record are those of its instruction. -/
theorem Traced.dstReg {disasm : UInt32 → Darm} (h : Traced disasm T p) {r : ℕ} (hr : r < p.next) :
    ∃ inst, T[r]? = some inst ∧ (p.heap r).dstReg = inst.dstReg := by
  obtain ⟨inst, hT, hfix⟩ := h.fixed r hr
  have hdst : (p.heap r).fixed.dstReg = inst.fixed.dstReg := congrArg Inst.dstReg hfix
  exact ⟨inst, hT, hdst⟩

/-- A missing destination is only ever the first one. -/
theorem Traced.dstReg_tail {disasm : UInt32 → Darm} (h : Traced disasm T p) {r : ℕ}
    (hr : r < p.next) : (-1 : ℤ) ∉ (p.heap r).dstReg.tail := by
  obtain ⟨inst, hT, hdst⟩ := h.dstReg hr
  rw [hdst]
  exact (h.settled inst (List.mem_of_getElem? hT)).1.dstReg

/-- **Dispatch marks the last writers in flight.** -/
theorem mem_dispatchMarks (h : Inv E base T s) {inst : Inst} {rest : List Inst}
    (htb : s.pipe.traceBuffer.elems = inst :: rest) (hset : inst.Settled)
    (hsup : inst.type ≠ .unsupported) (hdep : RegDep T i s.pipe.next reg)
    (hi : s.pipe.InFlight i) : i ∈ dispatchMarks s.pipe inst := by
  have htr := h.traced
  obtain ⟨hT, -⟩ := htr.front htb hset hsup
  obtain ⟨b, hb, hreads⟩ := hdep.reads
  obtain rfl : inst = b := Option.some.inj (hT.symm.trans hb)
  obtain ⟨a, ha, hwrites⟩ := hdep.writes
  refine List.mem_append_left _ (scanOlder_complete regsScan_exact (older_sorted _ _)
    (wanted_le_length _ _) hreads hdep.isReg (mem_inFlight.2 hi) ?_ (fun x hx hix => ?_)
    fun x hx _ _ => ?_)
  · obtain ⟨c, hc, hdst⟩ := htr.dstReg hi.2
    obtain rfl : a = c := Option.some.inj (ha.symm.trans hc)
    show reg ∈ (s.pipe.heap i).dstReg
    exact hdst ▸ hwrites
  · have hx := mem_inFlight.1 hx
    obtain ⟨c, hc, hdst⟩ := htr.dstReg hx.2
    show reg ∉ (s.pipe.heap x).dstReg
    exact hdst ▸ hdep.last x c hix hx.2 hc
  · exact htr.dstReg_tail (mem_inFlight.1 hx).2

/-- The stages keep the dependences marked. -/
theorem depsMarked_keeps (E : Env F) (base : ℕ) (T : List Inst) :
    Keeps E base T (DepsMarked T) (DepsMarked T) (DepsMarked T) (DepsMarked T) where
  commit s _ hP _ := by
    intro i j reg hdep hi hj
    have hold : ∀ r, (commitInst s s.pipe.oldest).pipe.InFlight r → s.pipe.InFlight r := by
      rintro r ⟨h1, h2⟩
      rw [oldest_commitInst] at h1
      exact ⟨by omega, h2⟩
    exact hP i j reg hdep (hold i hi) (hold j hj)
  writeback _ _ _ hP _ _ := hP
  execute _ _ _ _ hP _ := hP
  issue _ _ _ _ hP _ _ _ _ := hP
  enter _ _ hP := hP
  prepare s inst rest h hP htb := by
    simp only [prepared, prepareFront_eq h.traced.stocked htb]
    exact hP
  drop _ _ _ _ hP _ _ _ := hP
  dispatch s t inst rest h hP htb hset hsup _ hto := by
    intro i j reg hdep hi hj
    rw [hto.marks i j hi hj hdep.lt]
    have hin : ∀ r, t.pipe.InFlight r → s.pipe.oldest ≤ r ∧ r < s.pipe.next + 1 := by
      intro r hr
      rw [hto.pipe] at hr
      exact hr
    have hlt := hdep.lt
    obtain ⟨hi1, hi2⟩ := hin i hi
    obtain ⟨hj1, hj2⟩ := hin j hj
    split
    next hjn =>
      subst hjn
      exact mem_dispatchMarks h htb hset hsup hdep ⟨hi1, hlt⟩
    next hjn => exact hP i j reg hdep ⟨hi1, by omega⟩ ⟨hj1, by omega⟩

/-! ## The stamps -/

/-- What matters of the stamps: a record once issued keeps its issue stamp,
and a complete one keeps everything. -/
theorem RespectsRegs.frame {q : Pipe F} (h : RespectsRegs E T p)
    (hissued : ∀ j < q.next, (q.heap j).state = .issue ∨ (q.heap j).state = .complete →
      j < p.next ∧ ((p.heap j).state = .issue ∨ (p.heap j).state = .complete) ∧
        (q.heap j).issuedCycle = (p.heap j).issuedCycle)
    (hcomplete : ∀ i, (p.heap i).state = .complete → (q.heap i).state = .complete ∧
      (q.heap i).completedCycle = (p.heap i).completedCycle ∧ (q.heap i).type = (p.heap i).type ∧
      writebackLatency E (q.heap i) = writebackLatency E (p.heap i)) : RespectsRegs E T q := by
  intro i j reg hdep hj hst
  obtain ⟨hj', hst', hcyc⟩ := hissued j hj hst
  obtain ⟨h1, h2, h3⟩ := h i j reg hdep hj' hst'
  obtain ⟨g1, g2, g3, g4⟩ := hcomplete i h1
  refine ⟨g1, ?_, fun ht => ?_⟩
  · rw [g2, hcyc]
    exact h2
  · rw [g2, g4, hcyc]
    exact h3 (g3 ▸ ht)

theorem RespectsRegs.commitStep (h : RespectsRegs E T s.pipe) :
    RespectsRegs E T (commitInst s s.pipe.oldest).pipe := by
  refine h.frame (fun j hj hst => ?_) (fun i hst => ?_)
  · obtain ⟨c, hc⟩ := heap_commitInst s s.pipe.oldest j
    rw [hc] at hst ⊢
    exact ⟨hj, hst, rfl⟩
  · obtain ⟨c, hc⟩ := heap_commitInst s s.pipe.oldest i
    rw [hc]
    exact ⟨hst, rfl, rfl, rfl⟩

theorem RespectsRegs.writebackStep (h : RespectsRegs E T p) (done : List ℕ) :
    RespectsRegs E T (writtenBack done p) := by
  refine h.frame (fun j hj hst => ?_) (fun i hst => ?_)
  · obtain ⟨l, hl⟩ := heap_writtenBack done p j
    rw [hl] at hst ⊢
    exact ⟨hj, hst, rfl⟩
  · obtain ⟨l, hl⟩ := heap_writtenBack done p i
    rw [hl]
    exact ⟨hst, rfl, rfl, rfl⟩

theorem RespectsRegs.executeStep (h : RespectsRegs E T p) (n : ℕ) (avg : F) :
    RespectsRegs E T (executedPipe E p.fuBuffer.elems p n avg) := by
  refine h.frame (fun j hj hst => ?_) (fun i hst => ?_)
  · simp only [executedPipe, executedHeap] at hst ⊢
    split at hst
    next hx =>
      rw [if_pos hx]
      refine ⟨hj, .inl hx.2, ?_⟩
      simp only [executedInst]
      split <;> rfl
    next hx =>
      rw [if_neg hx]
      exact ⟨hj, hst, rfl⟩
  · have hnot : ¬ (i ∈ p.fuBuffer.elems ∧ (p.heap i).state = .issue) := by
      rw [hst]
      simp
    have hsame : (executedPipe E p.fuBuffer.elems p n avg).heap i = p.heap i := if_neg hnot
    rw [hsame]
    exact ⟨hst, rfl, rfl, rfl⟩

theorem RespectsRegs.dispatchStep (h : RespectsRegs E T p) (inst : Inst) :
    RespectsRegs E T (dispatchedPipe p inst) := by
  intro i j reg hdep hj hs
  have hj : j < p.next + 1 := hj
  have hlt := hdep.lt
  have hjn : j ≠ p.next := by
    rintro rfl
    simp [dispatchedPipe, dispatchedInst] at hs
  simp only [dispatchedPipe, Function.update_of_ne hjn,
    Function.update_of_ne (show i ≠ p.next by omega)] at hs ⊢
  exact h i j reg hdep (by omega) hs

/-- What `can_forward` says of a record in the pipeline. -/
theorem canForward_iff (hst : Stages p) {r : ℕ} (hr : r < p.next) :
    canForward (p.heap r) = true ↔ (p.heap r).state = .complete ∧
      ((p.heap r).type = .memRead → (p.heap r).remainingLatency ≤ 1) := by
  unfold canForward
  rcases hst.stage r hr with h | h | h
  · simp [h, InstState.toNat]
  · simp [h, InstState.toNat]
  · simp [h, InstState.toNat, imp_iff_not_or]

/-- **A record that can forward has waited out its latency but one cycle.** -/
theorem Timed.forward {d c : ℤ} {inst : Inst} (h : Timed E d c c inst)
    (hst : inst.state = .complete) (hrem : inst.type = .memRead → inst.remainingLatency ≤ 1) :
    inst.completedCycle ≤ c ∧
      (inst.type = .memRead → inst.completedCycle + writebackLatency E inst - 1 ≤ c) := by
  obtain ⟨-, -, h3, h4⟩ := h.complete hst
  refine ⟨h3, fun ht => ?_⟩
  have := hrem ht
  omega

/-- **Issue respects the dependences**: the last writer is committed, or it is
marked and the record does not wait for it. -/
theorem RespectsRegs.issueStep (hinv : Inv E base T s) (h : RespectsRegs E T s.pipe)
    (htimed : TimedPipe E (s.pipe.curCycle - 1) s.pipe.curCycle s.pipe.curCycle s.pipe)
    (hmarked : DepsMarked T s) (hacross : NoWaitAcross s) {r : ℕ} (hr : s.pipe.InFlight r)
    (hst : (s.pipe.heap r).state = .dispatch) (hwait : ¬ Waits s r) (unit : FU) :
    RespectsRegs E T (issued s r unit).pipe := by
  intro i j reg hdep hj hs
  have hj : j < s.pipe.next := hj
  have hlt := hdep.lt
  by_cases hjr : j = r
  · subst hjr
    have hforward : (s.pipe.heap i).state = .complete ∧
        ((s.pipe.heap i).type = .memRead → (s.pipe.heap i).remainingLatency ≤ 1) := by
      by_cases hi : s.pipe.oldest ≤ i
      · have hin : s.pipe.InFlight i := ⟨hi, by omega⟩
        have hmark := hmarked i j reg hdep hin hr
        refine (canForward_iff hinv.stages hin.2).1 ?_
        by_cases hx : AcrossWrap s.rob i j
        · exact hacross j ((hinv.stages.iq_mem j).2 ⟨hr.2, hst⟩) i hlt hin hmark hx
        · by_contra hno
          exact hwait ⟨i, hi, hlt, hx, hmark, by simpa using hno⟩
      · obtain ⟨h1, h2⟩ := hinv.stages.committed i (by omega)
        exact ⟨h1, fun _ => by omega⟩
    have hir : i ≠ j := Nat.ne_of_lt hlt
    obtain ⟨h1, h2⟩ := (htimed.records i (by omega)).forward hforward.1 hforward.2
    simp only [issued, issueInst, Function.update_self, Function.update_of_ne hir]
    exact ⟨hforward.1, by exact_mod_cast h1, h2⟩
  · simp only [issued, issueInst, Function.update_of_ne hjr] at hs ⊢
    have hrec := h i j reg hdep hj hs
    have hir : i ≠ r := by
      rintro rfl
      exact absurd (hst.symm.trans hrec.1) (by simp)
    simp only [Function.update_of_ne hir]
    exact hrec

/-- Issuing a record unblocks no mark across the end of the array. -/
theorem NoWaitAcross.issueStep (hinv : Inv E base T s) (h : NoWaitAcross s) {r : ℕ}
    (hst : (s.pipe.heap r).state = .dispatch) (hr : r < s.pipe.next) (unit : FU) :
    NoWaitAcross (issued s r unit) := by
  intro b hb a hab ha hmark hx
  have hb' : b ∈ s.pipe.iq.elems := List.mem_of_mem_erase hb
  have hfwd := h b hb' a hab ha hmark hx
  have har : a ≠ r := by
    rintro rfl
    have := (canForward_iff hinv.stages hr).1 hfwd
    exact absurd (hst.symm.trans this.1) (by simp)
  simp only [issued, issueInst, Function.update_of_ne har]
  exact hfwd

/-- **One cycle.** -/
theorem respectsRegs_cycle (h : Inv E base T s) (hP : RespectsRegs E T s.pipe)
    (hmarked : DepsMarked T s)
    (htimed : TimedPipe E (s.pipe.curCycle - 1) (s.pipe.curCycle - 1) (s.pipe.curCycle - 1) s.pipe)
    (hacross : ∀ u, beforeIssue E s = some u → NoWaitAcross u) (hs' : cycle E s = some s') :
    RespectsRegs E T s'.pipe := by
  obtain ⟨s₁, p₂, p₃, s₄, s₅, hsteps⟩ := cycle_steps hs'
  have hT := timed_keeps E base T
  have hM := depsMarked_keeps E base T
  obtain ⟨t₁, ht₁, h₁, hP₁, hM₁, hT₁⟩ := h.commit (P := fun s => RespectsRegs E T s.pipe ∧
      DepsMarked T s ∧ TimedPipe E (s.pipe.curCycle - 1) (s.pipe.curCycle - 1)
        (s.pipe.curCycle - 1) s.pipe) ⟨hP, hmarked, htimed⟩
    fun s hi hs hr => ⟨hs.1.commitStep, hM.commit s hi hs.2.1 hr, hT.commit s hi hs.2.2 hr⟩
  obtain rfl : t₁ = s₁ := Option.some.inj (ht₁.symm.trans hsteps.commit)
  have hbefore := hacross _ hsteps.beforeIssue
  obtain ⟨done, hpre, -, rfl, hdone, h₂⟩ := h₁.writeback hsteps.writeback
  have hT₂ := hT.writeback t₁ done h₁ hT₁ hdone fun r hr => hpre.subset hr
  obtain ⟨⟨n, avg, rfl⟩, hin, h₃⟩ := h₂.execute hsteps.execute
  have hT₃ := hT.execute _ n avg h₂ hT₂ hin
  have hP₃ := (hP₁.writebackStep done).executeStep (E := E) n avg
  obtain ⟨t₄, ht₄, h₄, hP₄, -⟩ := h₃.issue (P := fun s => RespectsRegs E T s.pipe ∧
      DepsMarked T s ∧ TimedPipe E (s.pipe.curCycle - 1) s.pipe.curCycle s.pipe.curCycle s.pipe ∧
      NoWaitAcross s) ⟨hP₃, hM₁, hT₃, hbefore⟩
    fun s r unit hi hs hr hst hw hu =>
      ⟨hs.1.issueStep hi hs.2.2.1 hs.2.1 hs.2.2.2 hr hst hw unit,
        hM.issue s r unit hi hs.2.1 hr hst hw hu, hT.issue s r unit hi hs.2.2.1 hr hst hw hu,
        hs.2.2.2.issueStep hi hst hr.2 unit⟩
  obtain rfl : t₄ = s₄ := Option.some.inj (ht₄.symm.trans hsteps.issue)
  obtain ⟨-, hP₅⟩ := h₄.dispatch (P := fun s => RespectsRegs E T s.pipe) hP₄
    (fun s inst rest hi hs htb => by
      simp only [prepared, prepareFront_eq hi.traced.stocked htb]
      exact hs)
    (fun _ _ _ _ hs _ _ _ => hs)
    (fun s t inst rest _ hs _ _ _ _ hto => by
      rw [hto.pipe]
      exact hs.dispatchStep inst) hsteps.dispatch
  rw [hsteps.finish]
  exact hP₅

/-- **Where no record waits across the end of the array, register dependences
are respected**, in every state of every analysis. -/
theorem respectsRegs_of_noWaitAcross (E : Env F) (trace : Trace) (s : State F)
    (hd : Drained E s) (n : ℕ)
    (hacross : ∀ k < n, ∀ t u, Reaches E trace s k t → beforeIssue E t = some u → NoWaitAcross u)
    (s' : State F) (h : Reaches E trace s n s') :
    RespectsRegs E (robTrace E.disasm trace.queue) s'.pipe := by
  induction n generalizing s' with
  | zero =>
    rw [← Option.some.inj h]
    exact fun i j _ _ hj _ => absurd hj (Nat.not_lt_zero j)
  | succ n ih =>
    obtain ⟨t, ht, hs'⟩ := Run.exists_of_iterate_succ h
    have hmarked : DepsMarked (robTrace E.disasm trace.queue) t :=
      Reaches.keeps hd (depsMarked_keeps E _ _) (fun _ _ hP => hP)
        (fun i _ _ _ hi _ => absurd hi.2 (Nat.not_lt_zero i)) ht
    exact respectsRegs_cycle (Reaches.inv hd ht) (ih (fun k hk => hacross k (by omega)) t ht) hmarked
      (Reaches.timed hd ht) (fun u hu => hacross n (Nat.lt_succ_self n) t u ht hu) hs'

/-- The states before issue of the first `n` cycles, checked one after the
other. -/
def noWaitAcrossFor (E : Env F) : ℕ → State F → Bool
  | 0, _ => true
  | n + 1, s =>
    (match beforeIssue E s with
      | none => true
      | some u => decide (NoWaitAcross u)) &&
    match cycle E s with
      | none => true
      | some t => noWaitAcrossFor E n t

theorem noWaitAcross_of_for {n : ℕ} {s₀ : State F} (h : noWaitAcrossFor E n s₀ = true) :
    ∀ k < n, ∀ t u, Run.iterate (cycle E) k s₀ = some t → beforeIssue E t = some u →
      NoWaitAcross u := by
  induction n generalizing s₀ with
  | zero => exact fun k hk => absurd hk (Nat.not_lt_zero k)
  | succ n ih =>
    rw [noWaitAcrossFor, Bool.and_eq_true] at h
    intro k hk t u ht hu
    cases k with
    | zero =>
      obtain rfl := Option.some.inj ht
      simpa [hu] using h.1
    | succ k =>
      obtain ⟨v, hv, ht⟩ := Option.bind_eq_some_iff.1 ht
      rw [hv] at h
      exact ih h.2 k (by omega) t u ht hu

/-- The sample with room for all three instructions: nothing wraps, and the
last one issues as soon as the load can forward. -/
theorem respectsRegs_sample : ∃ s', Reaches (sampleEnv 4) sampleTrace
      (initTraceAnalyzer (sampleEnv 4) blankState) 17 s' ∧ (s'.pipe.heap 2).issuedCycle = 15 ∧
      RespectsRegs (sampleEnv 4) (robTrace sampleDisasm sampleTrace.queue) s'.pipe := by
  have hrun : ((Run.iterate (cycle (sampleEnv 4)) 17 (beginAnalysis (sampleEnv 4) sampleTrace.queue
      (initTraceAnalyzer (sampleEnv 4) blankState))).map fun s' => (s'.pipe.heap 2).issuedCycle) =
      some 15 := by decide
  obtain ⟨s', hs', hissued⟩ := Option.map_eq_some_iff.1 hrun
  refine ⟨s', hs', hissued, respectsRegs_of_noWaitAcross (sampleEnv 4) sampleTrace _
    (initTraceAnalyzer_drained _ _) 17 (noWaitAcross_of_for ?_) s' hs'⟩
  decide

/-- **The sample with two slots**: the load is the second record and the
instruction that reads its register wraps around to the first slot. It
issues in cycle 6, although the load completes in cycle 3 and has a
write-back latency of 13. -/
theorem not_respectsRegs_sample : ∃ a,
    traceAnalysis (sampleEnv 2) 100 sampleTrace.queue 0 (initTraceAnalyzer (sampleEnv 2) blankState) =
      some a ∧
    ¬ RespectsRegs (sampleEnv 2) (robTrace sampleDisasm sampleTrace.queue) a.state.pipe := by
  have hrun : ((traceAnalysis (sampleEnv 2) 100 sampleTrace.queue 0
      (initTraceAnalyzer (sampleEnv 2) blankState)).map fun a =>
        (a.state.pipe.next, a.state.pipe.heap 1, a.state.pipe.heap 2)).map
      (fun x => (x.1, x.2.1.completedCycle, x.2.1.type, writebackLatency (sampleEnv 2) x.2.1,
        x.2.2.state, x.2.2.issuedCycle)) = some (3, 3, .memRead, 13, .complete, 6) := by
    decide
  obtain ⟨x, hx, hvals⟩ := Option.map_eq_some_iff.1 hrun
  obtain ⟨a, ha, rfl⟩ := Option.map_eq_some_iff.1 hx
  simp only [Prod.mk.injEq] at hvals
  obtain ⟨hnext, hcompleted, htype, hlat, hstate, hissued⟩ := hvals
  refine ⟨a, ha, fun hresp => ?_⟩
  have hdep : RegDep (robTrace sampleDisasm sampleTrace.queue) 1 2 3 := by
    refine ⟨by decide, by decide, ⟨_, rfl, by decide⟩, ⟨_, rfl, by decide⟩, ?_⟩
    intro k c h1 h2
    omega
  have hlate := (hresp 1 2 3 hdep (by omega) (.inr hstate)).2.2 htype
  rw [hcompleted, hlat, hissued] at hlate
  exact absurd hlate (by decide)

end TraceAnalyzer

end Tqsim
