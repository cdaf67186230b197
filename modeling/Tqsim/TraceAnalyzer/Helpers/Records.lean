import Tqsim.TraceAnalyzer.Helpers.Queues

/-!
# The records, the trace and the units

`Traced` says which instruction of the trace each record is, and keeps the
counts of fetched, dispatched and committed instructions; `Lossless` is the
part of it that needs the trace buffer to be large enough. `Units` says how
many records each functional unit holds.
-/

namespace Tqsim

namespace TraceAnalyzer

variable {F : Type} {cap base : ℕ} {s : State F} {p q : Pipe F} {E : Env F}
variable {disasm : UInt32 → Darm} {T : List Inst} {inst : Inst} {rest : List Inst}

/-- The records dispatched so far are the first instructions of `T`, and the
trace buffer holds the others. -/
structure Traced (disasm : UInt32 → Darm) (T : List Inst) (p : Pipe F) : Prop where
  settled : ∀ inst ∈ T, inst.Settled ∧ inst.type ≠ .unsupported
  log : p.commitLog = List.range p.oldest
  stocked : Stocked p.traceBuffer
  left : T.drop p.next = robTrace disasm p.traceBuffer
  fixed : ∀ r < p.next, ∃ inst, T[r]? = some inst ∧ (p.heap r).fixed = inst.fixed
  dispatched : p.numDispatchedInsts + p.oldest = p.numCommittedInsts + p.next
  fetched : p.numDispatchedInsts + p.traceBuffer.size ≤ p.numFetchedInsts

/-- No instruction was lost, and none will be. -/
structure Lossless (disasm : UInt32 → Darm) (p : Pipe F) : Prop where
  fits : ExpansionFits disasm p.traceBuffer.capacity p.traceBuffer.elems
  fetched : p.numFetchedInsts = p.numDispatchedInsts + p.traceBuffer.size

namespace Traced

/-- Only the fixed part of the records, the trace buffer and the counts
matter. -/
theorem congr (h : Traced disasm T p) (hlog : q.commitLog = p.commitLog) (hnext : q.next = p.next)
    (htb : q.traceBuffer = p.traceBuffer) (hf : q.numFetchedInsts = p.numFetchedInsts)
    (hd : q.numDispatchedInsts = p.numDispatchedInsts)
    (hc : q.numCommittedInsts = p.numCommittedInsts)
    (hheap : ∀ r, (q.heap r).fixed = (p.heap r).fixed) : Traced disasm T q := by
  have hold : q.oldest = p.oldest := by simp only [Pipe.oldest, hlog]
  constructor
  · exact h.settled
  · rw [hlog, hold]; exact h.log
  · rw [htb]; exact h.stocked
  · rw [hnext, htb]; exact h.left
  · intro r hr
    rw [hheap r]
    exact h.fixed r (hnext ▸ hr)
  · rw [hd, hc, hold, hnext]; exact h.dispatched
  · rw [hd, hf, htb]; exact h.fetched

/-- No more records are dispatched than the trace has. -/
theorem lt_length (h : Traced disasm T p) {r : ℕ} (hr : r < p.next) : r < T.length := by
  obtain ⟨inst, hT, -⟩ := h.fixed r hr
  exact (List.getElem?_eq_some_iff.1 hT).1

/-- The type of a record in the pipeline is one of those that are executed. -/
theorem type (h : Traced disasm T p) {r : ℕ} (hr : r < p.next) :
    (p.heap r).type ≠ .pop ∧ (p.heap r).type ≠ .push ∧ (p.heap r).type ≠ .unsupported := by
  obtain ⟨inst, hT, hfix⟩ := h.fixed r hr
  obtain ⟨hset, hsup⟩ := h.settled inst (List.mem_of_getElem? hT)
  have htype : (p.heap r).fixed.type = inst.fixed.type := congrArg Inst.type hfix
  rw [show (p.heap r).type = inst.type from htype]
  exact ⟨hset.not_pop, hset.not_push, hsup⟩

theorem typeLatency_pos (h : Traced disasm T p) {r : ℕ} (hr : r < p.next) :
    1 ≤ typeLatency (p.heap r).type := by
  obtain ⟨h1, h2, h3⟩ := h.type hr
  cases htype : (p.heap r).type <;> simp_all [typeLatency]

/-- The record at the front of a prepared trace buffer is the next of the
trace. -/
theorem front (h : Traced disasm T p) (htb : p.traceBuffer.elems = inst :: rest)
    (hset : inst.Settled) (hsup : inst.type ≠ .unsupported) :
    T[p.next]? = some inst ∧ T.drop (p.next + 1) = robTrace disasm p.traceBuffer.popFrontInst := by
  have hleft := h.left
  rw [robTrace, htb, expandTrace_cons_settled hset (h.stocked.fits_cons htb), supported,
    List.filter_cons_of_pos (by simpa using hsup)] at hleft
  constructor
  · rw [← List.head?_drop, hleft]
    rfl
  · rw [← List.tail_drop, hleft]
    simp [robTrace, supported, InstQueue.popFrontInst, htb]

theorem commitStep (h : Traced disasm T s.pipe) :
    Traced disasm T (commitInst s s.pipe.oldest).pipe := by
  set q := (commitInst s s.pipe.oldest).pipe with hq
  have hold : q.oldest = s.pipe.oldest + 1 := oldest_commitInst s _
  constructor
  · exact h.settled
  · rw [hold, List.range_succ, ← h.log]
    rfl
  · exact h.stocked
  · exact h.left
  · intro r hr
    obtain ⟨c, hc⟩ := heap_commitInst s s.pipe.oldest r
    rw [hq, hc]
    exact h.fixed r hr
  · have := h.dispatched
    have hd : q.numDispatchedInsts = s.pipe.numDispatchedInsts := rfl
    have hc : q.numCommittedInsts = s.pipe.numCommittedInsts + 1 := rfl
    have hn : q.next = s.pipe.next := rfl
    omega
  · exact h.fetched

theorem prepareStep (h : Traced E.disasm T s.pipe) (htb : s.pipe.traceBuffer.elems = inst :: rest) :
    Traced E.disasm T (prepared E s inst).pipe := by
  have hin : inst.Buffered := h.stocked.buffered inst (htb ▸ List.mem_cons_self ..)
  have hst := h.stocked.prepareStep (E := E) htb
  have hfetched := h.fetched
  simp only [prepared, prepareFront_eq h.stocked htb] at hst ⊢
  refine ⟨h.settled, h.log, hst, ?_, h.fixed, h.dispatched, ?_⟩
  · rw [h.left, robTrace, robTrace, htb, expandTrace_prepared hin (h.stocked.fits_cons htb)]
  · simp only [InstQueue.size, htb, List.length_cons, List.length_append, expandInst_length]
      at hfetched ⊢
    have hpos : 0 < (microops (decodeInst E.disasm inst)).length :=
      List.length_pos_of_ne_nil (microops_ne_nil _)
    omega

theorem dropStep (h : Traced disasm T s.pipe) (htb : s.pipe.traceBuffer.elems = inst :: rest)
    (hset : inst.Settled) (hsup : inst.type = .unsupported) :
    Traced disasm T (dropped s).pipe := by
  have hfetched := h.fetched
  refine ⟨h.settled, h.log, h.stocked.tail htb, ?_, h.fixed, ?_, ?_⟩
  · have hleft := h.left
    rw [robTrace, htb, expandTrace_cons_settled hset (h.stocked.fits_cons htb), supported,
      List.filter_cons_of_neg (by simpa using hsup)] at hleft
    simp only [dropped, dropUnsupported]
    rw [hleft]
    simp [robTrace, supported, InstQueue.popFrontInst, htb]
  · have := h.dispatched
    simp only [dropped, dropUnsupported]
    have : (dropUnsupported s.pipe).oldest = s.pipe.oldest := rfl
    simp only [dropUnsupported] at this
    omega
  · simp only [dropped, dropUnsupported, InstQueue.popFrontInst, InstQueue.size, htb,
      List.length_cons, List.tail_cons] at hfetched ⊢
    omega

theorem dispatchStep (h : Traced disasm T p) (htb : p.traceBuffer.elems = inst :: rest)
    (hset : inst.Settled) (hsup : inst.type ≠ .unsupported) :
    Traced disasm T (dispatchedPipe p inst) := by
  obtain ⟨hT, hleft⟩ := h.front htb hset hsup
  have hfetched := h.fetched
  refine ⟨h.settled, h.log, h.stocked.tail htb, hleft, fun r hr => ?_, ?_, ?_⟩
  · have hr : r < p.next + 1 := hr
    by_cases hrn : r = p.next
    · subst hrn
      refine ⟨inst, hT, ?_⟩
      simp [dispatchedPipe, dispatchedInst, queuedInst, Inst.fixed]
    · obtain ⟨i, hi, hfix⟩ := h.fixed r (by omega)
      refine ⟨i, hi, ?_⟩
      rw [← hfix]
      exact congrArg Inst.fixed (Function.update_of_ne hrn ..)
  · have := h.dispatched
    have hold : (dispatchedPipe p inst).oldest = p.oldest := rfl
    have hn : (dispatchedPipe p inst).next = p.next + 1 := rfl
    have hd : (dispatchedPipe p inst).numDispatchedInsts =
      p.numDispatchedInsts + 1 := rfl
    have hc : (dispatchedPipe p inst).numCommittedInsts = p.numCommittedInsts := rfl
    omega
  · simp only [dispatchedPipe, queuedPipe, InstQueue.popFrontInst, InstQueue.size, htb,
      List.length_cons, List.tail_cons] at hfetched ⊢
    omega

end Traced

/-! ## No loss -/

namespace Lossless

theorem congr (h : Lossless disasm p) (htb : q.traceBuffer = p.traceBuffer)
    (hf : q.numFetchedInsts = p.numFetchedInsts)
    (hd : q.numDispatchedInsts = p.numDispatchedInsts) : Lossless disasm q :=
  ⟨htb ▸ h.fits, by rw [hf, hd, htb]; exact h.fetched⟩

theorem prepareStep (h : Lossless E.disasm s.pipe) (hst : Stocked s.pipe.traceBuffer)
    (htb : s.pipe.traceBuffer.elems = inst :: rest) : Lossless E.disasm (prepared E s inst).pipe := by
  have hin : inst.Buffered := hst.buffered inst (htb ▸ List.mem_cons_self ..)
  have hfits := h.fits
  have hfetched := h.fetched
  rw [htb] at hfits
  simp only [prepared, prepareFront_eq hst htb]
  refine ⟨expansionFits_prepared hin (hst.fits_cons htb) hfits, ?_⟩
  have hpos : 0 < (microops (decodeInst E.disasm inst)).length :=
    List.length_pos_of_ne_nil (microops_ne_nil _)
  simp only [InstQueue.size, htb, List.length_cons, List.length_append, expandInst_length, hfits.1]
    at hfetched ⊢
  omega

/-- Taking the settled front off the buffer and counting it as dispatched. -/
theorem tail (h : Lossless disasm p) (htb : p.traceBuffer.elems = inst :: rest)
    (hq : q.traceBuffer = p.traceBuffer.popFrontInst)
    (hf : q.numFetchedInsts = p.numFetchedInsts)
    (hd : q.numDispatchedInsts = p.numDispatchedInsts + 1) : Lossless disasm q := by
  have hfits := h.fits
  have hfetched := h.fetched
  rw [htb] at hfits
  refine ⟨?_, ?_⟩
  · rw [hq]
    simpa [InstQueue.popFrontInst, htb] using hfits.2
  · rw [hf, hd, hq]
    simp only [InstQueue.size, InstQueue.popFrontInst, htb, List.length_cons, List.tail_cons]
      at hfetched ⊢
    omega

end Lossless

/-! ## The units -/

/-- The record occupies the unit `f`. -/
def Occupies (f : FUType) (inst : Inst) : Prop :=
  inst.state = .issue ∧ instTypeFuTypeMap inst.type = f

instance (f : FUType) (inst : Inst) : Decidable (Occupies f inst) :=
  inferInstanceAs (Decidable (_ ∧ _))

/-- The units are those of the configuration, each with as many records as
are issued to it, and the queues have the capacities of the configuration. -/
structure Units (cfg : PerfmodelConfig) (p : Pipe F) : Prop where
  capacity : ∀ f, (p.fu f).capacity = (initAllFUs cfg f).capacity
  numStage : ∀ f, (p.fu f).numStage = (initAllFUs cfg f).numStage
  active : ∀ f, (p.fu f).numActive = (p.fuBuffer.elems.countP fun r => Occupies f (p.heap r) : ℕ)
  iq : p.iq.capacity = cfg.iqSize
  ldq : p.ldq.capacity = 16
  stq : p.stq.capacity = 16
  fuBuffer : p.fuBuffer.capacity = 0

namespace Units

variable {cfg : PerfmodelConfig}

/-- Only who occupies which unit matters. -/
theorem congr (h : Units cfg p)
    (hfu : ∀ f, (q.fu f).capacity = (p.fu f).capacity ∧ (q.fu f).numStage = (p.fu f).numStage ∧
      (q.fu f).numActive = (p.fu f).numActive)
    (hcount : ∀ f, (q.fuBuffer.elems.countP fun r => Occupies f (q.heap r)) =
      p.fuBuffer.elems.countP fun r => Occupies f (p.heap r))
    (hiq : q.iq.capacity = p.iq.capacity) (hldq : q.ldq.capacity = p.ldq.capacity)
    (hstq : q.stq.capacity = p.stq.capacity) (hfub : q.fuBuffer.capacity = p.fuBuffer.capacity) :
    Units cfg q := by
  constructor
  · exact fun f => (hfu f).1.trans (h.capacity f)
  · exact fun f => (hfu f).2.1.trans (h.numStage f)
  · intro f
    rw [(hfu f).2.2, hcount f]
    exact h.active f
  · exact hiq.trans h.iq
  · exact hldq.trans h.ldq
  · exact hstq.trans h.stq
  · exact hfub.trans h.fuBuffer

theorem capacity_removeElem (l : InstQueue ℕ) (elem : Option ℕ) :
    (l.removeElem elem).capacity = l.capacity := by
  cases elem <;> rfl

theorem commitStep (h : Units cfg s.pipe) : Units cfg (commitInst s s.pipe.oldest).pipe := by
  refine h.congr (fun f => ⟨rfl, rfl, rfl⟩) (fun f => ?_) rfl (capacity_removeElem _ _)
    (capacity_removeElem _ _) rfl
  refine List.countP_congr fun r _ => ?_
  obtain ⟨c, hc⟩ := heap_commitInst s s.pipe.oldest r
  rw [hc]
  rfl

theorem writebackStep (h : Units cfg p) (done : List ℕ) : Units cfg (writtenBack done p) := by
  refine h.congr (fun f => ⟨rfl, rfl, rfl⟩) (fun f => ?_) rfl rfl rfl rfl
  have hocc : ∀ r, Occupies f ((writtenBack done p).heap r) ↔
      Occupies f (p.heap r) := by
    intro r
    obtain ⟨l, hl⟩ := heap_writtenBack done p r
    rw [hl]
    rfl
  simp only [hocc]
  -- a record that leaves the buffer occupied no unit
  simp only [writtenBack, List.countP_filter]
  refine List.countP_congr fun r _ => ?_
  simp only [Bool.and_eq_true, decide_eq_true_eq]
  refine ⟨And.left, fun ho => ⟨ho, fun hw => ?_⟩⟩
  have := hw.2.1
  rw [Stages.writebackInst_state, ho.1] at this
  cases this

/-- A count splits along two exclusive cases. -/
theorem countP_split {α : Type} {P Q R : α → Prop} [DecidablePred P] [DecidablePred Q]
    [DecidablePred R] {l : List α} (h : ∀ x ∈ l, P x ↔ Q x ∨ R x) (hex : ∀ x ∈ l, ¬ (Q x ∧ R x)) :
    (l.countP fun x => P x) = (l.countP fun x => Q x) + l.countP fun x => R x := by
  induction l with
  | nil => rfl
  | cons x l ih =>
    have hx := h x (List.mem_cons_self ..)
    have hne := hex x (List.mem_cons_self ..)
    have := ih (fun y hy => h y (List.mem_cons_of_mem _ hy))
      (fun y hy => hex y (List.mem_cons_of_mem _ hy))
    simp only [List.countP_cons, decide_eq_true_eq]
    split_ifs <;> first | omega | tauto

theorem executeStep (h : Units cfg p) (n : ℕ) (avg : F) :
    Units cfg (executedPipe E p.fuBuffer.elems p n avg) := by
  refine ⟨h.capacity, h.numStage, fun f => ?_, h.iq, h.ldq, h.stq, h.fuBuffer⟩
  have hsplit : (p.fuBuffer.elems.countP fun r => Occupies f (p.heap r)) =
      (p.fuBuffer.elems.countP fun r => Occupies f (executedHeap E p.fuBuffer.elems p r)) +
        p.fuBuffer.elems.countP fun r => Finishes f (p.heap r) := by
    refine countP_split (fun r hr => ?_) (fun r hr => ?_)
    · by_cases hst : (p.heap r).state = .issue
      · simp only [Occupies, Finishes, executedHeap, hr, hst, true_and, and_self, if_true,
          executedInst_type]
        simp only [executedInst]
        split <;> simp_all
      · simp [Occupies, Finishes, executedHeap, hst]
    · rintro ⟨ho, hf⟩
      simp only [executedHeap, hr, hf.1, true_and, if_true, Occupies, executedInst, hf.2.1,
        if_true] at ho
      exact absurd ho.1 (by simp)
  have hact := (h.active f).trans (congrArg Nat.cast hsplit)
  rw [Nat.cast_add] at hact
  exact sub_eq_of_eq_add hact

theorem issueStep (h : Units cfg s.pipe) {r : ℕ} (hr : r ∉ s.pipe.fuBuffer.elems) {unit : FU}
    (hunit : tryFU (s.pipe.fu (instTypeFuTypeMap (s.pipe.heap r).type)) = some unit) :
    Units cfg (issued s r unit).pipe := by
  set f₀ := instTypeFuTypeMap (s.pipe.heap r).type with hf₀
  have hu : unit = { s.pipe.fu f₀ with
      numIssue := (s.pipe.fu f₀).numIssue + 1, numActive := (s.pipe.fu f₀).numActive + 1 } := by
    unfold tryFU at hunit
    split at hunit
    · exact (Option.some.inj hunit).symm
    · cases hunit
  have hroom : s.pipe.fuBuffer.HasRoom := .inl h.fuBuffer
  have hfub : (s.pipe.fuBuffer.pushBackInst r).1 =
      ⟨s.pipe.fuBuffer.elems ++ [r], s.pipe.fuBuffer.capacity⟩ := by
    rw [InstQueue.pushBackInst, if_pos hroom]
  have hfu : ∀ f, (issued s r unit).pipe.fu f =
      if f = f₀ then unit else s.pipe.fu f := by
    intro f
    simp only [issued, issueInst, Function.update_apply, ← hf₀]
  constructor
  · intro f
    rw [hfu]
    split
    next hf => rw [hu, hf]; exact h.capacity f₀
    next => exact h.capacity f
  · intro f
    rw [hfu]
    split
    next hf => rw [hu, hf]; exact h.numStage f₀
    next => exact h.numStage f
  · intro f
    have hcount : ((s.pipe.fuBuffer.elems ++ [r]).countP fun x =>
        decide (Occupies f ((issued s r unit).pipe.heap x))) =
        (s.pipe.fuBuffer.elems.countP fun x => decide (Occupies f (s.pipe.heap x))) +
          if f = f₀ then 1 else 0 := by
      rw [List.countP_append]
      congr 1
      · refine List.countP_congr fun x hx => ?_
        have hxr : x ≠ r := fun e => hr (e ▸ hx)
        simp [issued, issueInst, hxr]
      · by_cases hf : f = f₀
        · subst hf
          simp [issued, issueInst, Occupies, hf₀]
        · simp [issued, issueInst, Occupies, hf, ← hf₀, Ne.symm hf]
    have hbuf : (issued s r unit).pipe.fuBuffer.elems =
        s.pipe.fuBuffer.elems ++ [r] := by
      simp only [issued, issueInst, hfub]
    rw [hbuf, hcount, hfu]
    have hact := h.active f
    split
    next hf =>
      subst hf
      rw [hu]
      push_cast
      omega
    next => simpa using hact
  · exact h.iq
  · exact h.ldq
  · exact h.stq
  · simp only [issued, issueInst, hfub]
    exact h.fuBuffer

theorem capacity_pushBack (l : InstQueue ℕ) (n : ℕ) :
    (l.pushBackInst n).1.capacity = l.capacity := by
  unfold InstQueue.pushBackInst
  split <;> rfl

theorem dispatchStep (h : Units cfg p) (hmem : ∀ r ∈ p.fuBuffer.elems, r < p.next)
    (inst : Inst) : Units cfg (dispatchedPipe p inst) := by
  refine h.congr (fun f => ⟨rfl, rfl, rfl⟩) (fun f => ?_) (capacity_pushBack _ _) ?_ ?_ rfl
  · refine List.countP_congr fun r hr => ?_
    have : (dispatchedPipe p inst).heap r = p.heap r :=
      Function.update_of_ne (Nat.ne_of_lt (hmem r hr)) ..
    rw [this]
  · simp only [dispatchedPipe, queuedPipe]
    split
    · exact capacity_pushBack _ _
    · rfl
  · simp only [dispatchedPipe, queuedPipe]
    split
    · exact capacity_pushBack _ _
    · rfl

end Units

end TraceAnalyzer

end Tqsim
