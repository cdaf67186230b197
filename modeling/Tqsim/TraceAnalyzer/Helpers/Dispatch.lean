import Tqsim.TraceAnalyzer.Helpers.Stages
import Tqsim.TraceAnalyzer.Helpers.Matching

/-!
# What dispatch can do

The loop of `dispatch_insts` takes three kinds of step: it prepares the
front of the trace buffer, drops an unsupported record, or moves the front
into the pipeline. The last one is described by `dispatchedPipe` and
`dispatchMarks`, which depend on the pipe alone and not on where the window
lies in the reorder buffer.
-/

namespace Tqsim

namespace TraceAnalyzer

open Circular (slot)

variable {F : Type} {cap base a b : ℕ} {s s' : State F} {p : Pipe F} {E : Env F} {inst : Inst}

/-! ## Moving the front into the pipeline -/

/-- The record as it enters the queues. -/
def queuedInst (p : Pipe F) (inst : Inst) : Inst :=
  { inst with
    iqElem := (p.iq.pushBackInst p.next).2
    ldqElem := if inst.type = .memRead then (p.ldq.pushBackInst p.next).2 else inst.ldqElem
    stqElem := if inst.type = .memWrite then (p.stq.pushBackInst p.next).2 else inst.stqElem }

/-- The records in flight, youngest first. -/
def inFlight (p : Pipe F) : List ℕ := older p.oldest (p.next - p.oldest)

@[simp] theorem mem_inFlight : a ∈ inFlight p ↔ p.InFlight a := by
  rw [inFlight, mem_older, Pipe.InFlight]
  omega

/-- The search for the registers of a new record. -/
def regsFound (p : Pipe F) (inst : Inst) : List ℤ × List ℕ :=
  scanOlder regsScan p.heap (inFlight p) inst.srcReg.length inst.srcReg

/-- The search for the addresses of a new record. -/
def memsFound (p : Pipe F) (inst : Inst) : List UInt32 × List ℕ :=
  scanOlder memsScan p.heap (inFlight p) inst.effAddr.length inst.effAddr

/-- The record after its dispatch. -/
def dispatchedInst (p : Pipe F) (inst : Inst) : Inst :=
  { queuedInst p inst with
    srcReg := (regsFound p inst).1
    effAddr := (memsFound p inst).1
    state := .dispatch
    dispatchedCycle := p.curCycle }

/-- The records the new one is marked as waiting for. -/
def dispatchMarks (p : Pipe F) (inst : Inst) : List ℕ :=
  (regsFound p inst).2 ++ (memsFound p inst).2

/-- The pipe once the record is in the queues. -/
def queuedPipe (p : Pipe F) (inst : Inst) : Pipe F :=
  { p with
    traceBuffer := p.traceBuffer.popFrontInst
    heap := Function.update p.heap p.next (queuedInst p inst)
    live := Function.update p.live p.next true
    next := p.next + 1
    iq := (p.iq.pushBackInst p.next).1
    ldq := if inst.type = .memRead then (p.ldq.pushBackInst p.next).1 else p.ldq
    stq := if inst.type = .memWrite then (p.stq.pushBackInst p.next).1 else p.stq
    numDispatchedInsts := p.numDispatchedInsts + 1 }

/-- The pipe after the dispatch of a record. -/
def dispatchedPipe (p : Pipe F) (inst : Inst) : Pipe F :=
  { queuedPipe p inst with heap := Function.update p.heap p.next (dispatchedInst p inst) }

/-- Entering the queues cleans the row of the new record and leaves the rows
of the others in flight. -/
theorem enterQueues_spec (hW : Window cap base s.pipe s.rob)
    (hroom : s.pipe.next < s.pipe.oldest + cap) (hcap : cap ≤ robEntries) (inst : Inst) :
    ∃ t, enterQueues s inst = some t ∧ t.pipe = queuedPipe s.pipe inst ∧
      Window cap base t.pipe t.rob ∧
      (∀ a, t.pipe.InFlight a → ¬ t.Marked s.pipe.next a) ∧
      ∀ a b, s.pipe.InFlight a → s.pipe.InFlight b → (t.Marked b a ↔ s.Marked b a) := by
  obtain ⟨rob, hrob, hW', hidx, -⟩ := hW.insertInst (queuedPipe s.pipe inst) hroom hcap rfl rfl rfl
  have hnew : rob.robIdx s.pipe.next = slot cap base s.pipe.next := by
    rw [hidx, Function.update_self]
  have hpos : 0 < cap := by have := hW.oldest_le; omega
  obtain ⟨d, hclean, hd⟩ : ∃ d, cleanDependency rob s.depMat s.pipe.next = some d ∧
      d = Function.update s.depMat (slot cap base s.pipe.next) fun idxA =>
        if idxA < cap then false else s.depMat (slot cap base s.pipe.next) idxA := by
    rw [cleanDependency, hnew, hW'.capacity,
      if_pos ⟨lt_of_lt_of_le (Circular.slot_lt hpos) hcap, hcap⟩]
    exact ⟨_, rfl, rfl⟩
  refine ⟨⟨queuedPipe s.pipe inst, rob, d⟩, ?_, rfl, hW', ?_, ?_⟩
  · simp only [enterQueues, hrob, hclean, Option.bind_eq_bind, Option.bind_some]
    simp only [queuedPipe, queuedInst]
    split <;> split <;> rfl
  · intro a ha
    have hlt : rob.robIdx a < cap := by
      rw [hW'.idx a ha]
      exact Circular.slot_lt hpos
    simp [State.Marked, hd, hnew, hlt]
  · intro a b ha hb
    have hlow : ∀ r, s.pipe.InFlight r → rob.robIdx r = s.rob.robIdx r := by
      intro r hr
      rw [hidx, Function.update_of_ne (show r ≠ s.pipe.next from Nat.ne_of_lt hr.2)]
    have hne : s.rob.robIdx b ≠ slot cap base s.pipe.next := by
      have hb2 := hb.2
      rw [hW.idx b hb, Ne, Circular.slot_inj hb.1 hW.oldest_le (hW.lt_cap hb) hroom]
      omega
    simp only [State.Marked, hd, hlow a ha, hlow b hb, Function.update_of_ne hne]

/-- Either search for the newest record, from the records that were in flight
before it. -/
theorem findDependency_newest {α : Type} [DecidableEq α] {K : ScanKind α} (hK : K.Lawful)
    (hW : Window cap base s.pipe s.rob) (hnew : s.pipe.InFlight p.next)
    (hold : s.pipe.oldest = p.oldest) (hheap : ∀ a ∈ inFlight p, s.pipe.heap a = p.heap a) :
    findDependency K s p.next = some (scanned K s p.next
      (scanOlder K p.heap (inFlight p) (K.sources (s.pipe.heap p.next)).length
        (K.sources (s.pipe.heap p.next)))) := by
  rw [findDependency_eq hK hW hnew, hold]
  exact congrArg (fun x => some (scanned K s p.next x)) (scanOlder_congr K hheap _ _)

/-- The state `t` after the dispatch of a record: the window grew by the new
record, and its row of the matrix holds just the dependences that were
found. -/
structure DispatchedTo (cap base : ℕ) (s : State F) (inst : Inst) (t : State F) : Prop where
  pipe : t.pipe = dispatchedPipe s.pipe inst
  window : Window cap base t.pipe t.rob
  marks : ∀ a b, t.pipe.InFlight a → t.pipe.InFlight b → a < b →
    (t.Marked b a ↔ if b = s.pipe.next then a ∈ dispatchMarks s.pipe inst else s.Marked b a)

/-- A search adds to the row of its record the records it marked. -/
theorem Window.marked_scanned {α : Type} {K : ScanKind α} (hW : Window cap base s.pipe s.rob)
    {c : ℕ} (hc : s.pipe.InFlight c) {found : List α × List ℕ}
    (hfound : ∀ x ∈ found.2, s.pipe.InFlight x) (ha : s.pipe.InFlight a) (hb : s.pipe.InFlight b) :
    (scanned K s c found).Marked b a ↔ s.Marked b a ∨ (b = c ∧ a ∈ found.2) := by
  simp only [State.Marked, scanned, markAll_apply]
  refine or_congr_right (and_congr (hW.idx_inj hb hc) ?_)
  constructor
  · rintro ⟨x, hx, hxa⟩
    exact (hW.idx_inj (hfound x hx) ha).1 hxa ▸ hx
  · exact fun h => ⟨a, h, rfl⟩

/-- The state after the search for registers. -/
def regsSearched (s t : State F) (inst : Inst) : State F :=
  scanned regsScan t s.pipe.next (regsFound s.pipe inst)

/-- The state after both searches. -/
def searched (s t : State F) (inst : Inst) : State F :=
  scanned memsScan (regsSearched s t inst) s.pipe.next (memsFound s.pipe inst)

/-- **The searches of a new record** do not fail, and compare it with the
records that were in flight before it. -/
theorem searches_eq {t : State F} (hpipe : t.pipe = queuedPipe s.pipe inst)
    (hold : s.pipe.oldest ≤ s.pipe.next) (htW : Window cap base t.pipe t.rob) :
    findRegsDependency t s.pipe.next = some (regsSearched s t inst) ∧
      findMemsDependency (regsSearched s t inst) s.pipe.next = some (searched s t inst) := by
  have hnew : t.pipe.InFlight s.pipe.next := by
    rw [hpipe]
    exact ⟨hold, Nat.lt_succ_self _⟩
  have htold : t.pipe.oldest = s.pipe.oldest := by rw [hpipe]; rfl
  have hheapn : t.pipe.heap s.pipe.next = queuedInst s.pipe inst := by
    rw [hpipe]
    exact Function.update_self ..
  have holder : ∀ a ∈ inFlight s.pipe, t.pipe.heap a = s.pipe.heap a := by
    intro a ha
    rw [hpipe]
    exact Function.update_of_ne (Nat.ne_of_lt (mem_inFlight.1 ha).2) ..
  constructor
  · have hregs := findDependency_newest regsScan_lawful htW hnew htold holder
    rw [hheapn] at hregs
    exact hregs
  · -- the first search changed the new record only
    have huheap : ∀ a ∈ inFlight s.pipe,
        (regsSearched s t inst).pipe.heap a = s.pipe.heap a := by
      intro a ha
      rw [← holder a ha]
      exact Function.update_of_ne (Nat.ne_of_lt (mem_inFlight.1 ha).2) ..
    have huheapn : (regsSearched s t inst).pipe.heap s.pipe.next =
        { queuedInst s.pipe inst with srcReg := (regsFound s.pipe inst).1 } := by
      simp only [regsSearched, scanned, Pipe.setInst, Function.update_self, hheapn]
      rfl
    have huW : Window cap base (regsSearched s t inst).pipe (regsSearched s t inst).rob :=
      htW.congr rfl rfl rfl
    have hmems := findDependency_newest memsScan_lawful huW
      (show (regsSearched s t inst).pipe.InFlight s.pipe.next from hnew) htold huheap
    rw [huheapn] at hmems
    exact hmems

theorem inFlight_queued {t : State F} (hpipe : t.pipe = queuedPipe s.pipe inst) (r : ℕ) :
    t.pipe.InFlight r ↔ s.pipe.oldest ≤ r ∧ r < s.pipe.next + 1 := by
  rw [hpipe]
  rfl

/-- The row of the new record after the search for registers. -/
theorem marked_regsSearched {t : State F} (hpipe : t.pipe = queuedPipe s.pipe inst)
    (hold : s.pipe.oldest ≤ s.pipe.next) (htW : Window cap base t.pipe t.rob)
    (ha : t.pipe.InFlight a) (hb : t.pipe.InFlight b) :
    (regsSearched s t inst).Marked b a ↔
      t.Marked b a ∨ (b = s.pipe.next ∧ a ∈ (regsFound s.pipe inst).2) := by
  have hin := inFlight_queued hpipe
  refine htW.marked_scanned ((hin _).2 ⟨hold, Nat.lt_succ_self _⟩) (fun x hx => ?_) ha hb
  obtain ⟨h1, h2⟩ := mem_inFlight.1 (scanOlder_marks_subset x hx)
  exact (hin x).2 ⟨h1, Nat.lt_succ_of_lt h2⟩

/-- The row of the new record after both searches. -/
theorem marked_searched {t : State F} (hpipe : t.pipe = queuedPipe s.pipe inst)
    (hold : s.pipe.oldest ≤ s.pipe.next) (htW : Window cap base t.pipe t.rob)
    (ha : t.pipe.InFlight a) (hb : t.pipe.InFlight b) :
    (searched s t inst).Marked b a ↔
      t.Marked b a ∨ (b = s.pipe.next ∧ a ∈ dispatchMarks s.pipe inst) := by
  have hin := inFlight_queued hpipe
  have huW : Window cap base (regsSearched s t inst).pipe (regsSearched s t inst).rob :=
    htW.congr rfl rfl rfl
  have hmems : (searched s t inst).Marked b a ↔ (regsSearched s t inst).Marked b a ∨
      (b = s.pipe.next ∧ a ∈ (memsFound s.pipe inst).2) := by
    refine huW.marked_scanned ((hin _).2 ⟨hold, Nat.lt_succ_self _⟩) (fun x hx => ?_) ha hb
    obtain ⟨h1, h2⟩ := mem_inFlight.1 (scanOlder_marks_subset x hx)
    exact (hin x).2 ⟨h1, Nat.lt_succ_of_lt h2⟩
  rw [hmems, marked_regsSearched hpipe hold htW ha hb, dispatchMarks, List.mem_append]
  tauto

theorem searched_pipe {t : State F} (hpipe : t.pipe = queuedPipe s.pipe inst) :
    dispatchInst (searched s t inst).pipe s.pipe.next = dispatchedPipe s.pipe inst := by
  simp only [dispatchInst, searched, regsSearched, scanned, Pipe.setInst, hpipe, queuedPipe,
    dispatchedPipe, dispatchedInst, Function.update_self, Function.update_idem]
  rfl

/-- **Dispatch of one record** does not fail. -/
theorem dispatchFront_spec (hW : Window cap base s.pipe s.rob)
    (hroom : s.pipe.next < s.pipe.oldest + cap) (hcap : cap ≤ robEntries) (inst : Inst) :
    ∃ t, dispatchFront s inst = some t ∧ DispatchedTo cap base s inst t := by
  obtain ⟨t, ht, hpipe, htW, hclean, hkeep⟩ := enterQueues_spec hW hroom hcap inst
  have hold := hW.oldest_le
  obtain ⟨hregs, hmems⟩ := searches_eq hpipe hold htW
  refine ⟨{ searched s t inst with pipe := dispatchInst (searched s t inst).pipe s.pipe.next },
    ?_, searched_pipe hpipe, htW.congr rfl rfl rfl, ?_⟩
  · simp only [dispatchFront, ht, hregs, hmems, Option.bind_eq_bind, Option.bind_some]
  · intro a b ha hb hab
    have ha : t.pipe.InFlight a := ha
    have hb : t.pipe.InFlight b := hb
    refine (marked_searched hpipe hold htW ha hb).trans ?_
    have hlow : ∀ r, t.pipe.InFlight r → r ≠ s.pipe.next → s.pipe.InFlight r := by
      intro r hr hne
      obtain ⟨h1, h2⟩ := (inFlight_queued hpipe r).1 hr
      exact ⟨h1, by omega⟩
    split
    next hbn =>
      subst hbn
      exact ⟨fun h => (h.resolve_left (hclean a ha)).2, fun h => .inr ⟨rfl, h⟩⟩
    next hbn =>
      have hsb := hlow b hb hbn
      have hsa := hlow a ha (by have := hsb.2; omega)
      rw [← hkeep a b hsa hsb]
      exact ⟨fun h => h.resolve_right fun hx => hbn hx.1, .inl⟩

/-- A reorder buffer larger than the array faults on the first dispatch. -/
theorem array_of_dispatchFront (hW : Window cap base s.pipe s.rob) {t : State F}
    (h : dispatchFront s inst = some t) : cap ≤ robEntries := by
  obtain ⟨u, hu, -⟩ := Option.bind_eq_some_iff.1 h
  obtain ⟨rob, hrob, hu⟩ := Option.bind_eq_some_iff.1 hu
  obtain ⟨d, hd, -⟩ := Option.bind_eq_some_iff.1 hu
  have hcap : rob.capacity = cap := by
    unfold ROB.insertInst at hrob
    split at hrob
    · rw [← Option.some.inj hrob]
      exact hW.capacity
    · cases hrob
  unfold cleanDependency at hd
  split at hd
  · exact hcap ▸ ‹_ ∧ _›.2
  · cases hd

/-! ## The front of the trace buffer -/

/-- The trace buffer of a running analysis. -/
structure Stocked (q : InstQueue Inst) : Prop where
  fits : q.Fits
  buffered : ∀ inst ∈ q.elems, inst.Buffered

/-- The state once the front of the trace buffer is decoded and expanded. -/
def prepared (E : Env F) (s : State F) (inst : Inst) : State F :=
  { s with pipe := prepareFront E s.pipe inst }

/-- The state once an unsupported record is dropped. -/
def dropped (s : State F) : State F :=
  { s with pipe := dropUnsupported s.pipe }

variable {rest : List Inst}

theorem prepareFront_eq (hst : Stocked p.traceBuffer) (htb : p.traceBuffer.elems = inst :: rest) :
    prepareFront E p inst = { p with
      traceBuffer := ⟨expandInst p.traceBuffer.capacity rest.length (decodeInst E.disasm inst) ++ rest,
        p.traceBuffer.capacity⟩
      numFetchedInsts := p.numFetchedInsts + ((microops (decodeInst E.disasm inst)).length - 1) } := by
  have hfits : InstQueue.Fits ⟨decodeInst E.disasm inst :: rest, p.traceBuffer.capacity⟩ := by
    have := hst.fits
    simpa [InstQueue.Fits, InstQueue.size, htb] using this
  simp only [prepareFront, htb, List.tail_cons, convertMicroop_eq _ _ hfits]

theorem Stocked.fits_cons {q : InstQueue Inst} (hst : Stocked q) (htb : q.elems = inst :: rest) :
    InstQueue.Fits ⟨inst :: rest, q.capacity⟩ := htb ▸ hst.fits

theorem Stocked.tail {q : InstQueue Inst} (hst : Stocked q) (htb : q.elems = inst :: rest) :
    Stocked q.popFrontInst where
  fits := by
    have := (hst.fits_cons htb).tail
    simpa [InstQueue.Fits, InstQueue.size, InstQueue.popFrontInst, htb] using this
  buffered := fun x hx => hst.buffered x (List.mem_of_mem_tail hx)

theorem Stocked.prepareStep (hst : Stocked s.pipe.traceBuffer)
    (htb : s.pipe.traceBuffer.elems = inst :: rest) :
    Stocked (prepared E s inst).pipe.traceBuffer := by
  have hin : inst.Buffered := hst.buffered inst (htb ▸ List.mem_cons_self ..)
  simp only [prepared, prepareFront_eq hst htb]
  refine ⟨fits_expandInst (hst.fits_cons htb) _, fun x hx => ?_⟩
  rcases List.mem_append.1 hx with hx | hx
  · exact .inr (expandInst_settled hin x hx)
  · exact hst.buffered x (htb ▸ List.mem_cons_of_mem _ hx)

/-- The prepared front is settled. -/
theorem prepared_front (E : Env F) (hst : Stocked s.pipe.traceBuffer)
    (htb : s.pipe.traceBuffer.elems = inst :: rest) :
    ∃ front rest', (prepared E s inst).pipe.traceBuffer.elems = front :: rest' ∧ front.Settled := by
  have hin : inst.Buffered := hst.buffered inst (htb ▸ List.mem_cons_self ..)
  simp only [prepared, prepareFront_eq hst htb]
  obtain ⟨front, ms, hms⟩ := List.exists_cons_of_ne_nil
    (expandInst_ne_nil (hst.fits_cons htb) (decodeInst E.disasm inst))
  refine ⟨front, ms ++ rest, by rw [hms]; rfl, ?_⟩
  exact expandInst_settled hin front (hms ▸ List.mem_cons_self ..)

/-! ## The loop -/

/-- The tests that end the loop let the record pass. -/
structure Admits (cap : ℕ) (p : Pipe F) (inst : Inst) : Prop where
  rob : p.next < p.oldest + cap
  iq : p.iq.HasRoom
  ldq : inst.type = .memRead → p.ldq.HasRoom
  stq : inst.type = .memWrite → p.stq.HasRoom

theorem dispatchBlocked_eq_false_iff (hW : Window cap base s.pipe s.rob) :
    dispatchBlocked s inst = false ↔ Admits cap s.pipe inst := by
  have hle := hW.next_le
  have hfull : s.rob.isFull = false ↔ s.pipe.next < s.pipe.oldest + cap := by
    rw [Bool.eq_false_iff, Ne, hW.isFull_iff]
    omega
  simp only [dispatchBlocked, Bool.or_eq_false_iff, Bool.and_eq_false_iff, beq_eq_false_iff_ne,
    isFullQueue_eq_false_iff, hfull]
  constructor
  · rintro ⟨⟨⟨hr, hi⟩, hl⟩, hs⟩
    exact ⟨hr, hi, fun h => hl.resolve_left (not_not.2 h), fun h => hs.resolve_left (not_not.2 h)⟩
  · intro h
    refine ⟨⟨⟨h.rob, h.iq⟩, ?_⟩, ?_⟩
    · exact (em (inst.type = .memRead)).elim (fun ht => .inr (h.ldq ht)) .inl
    · exact (em (inst.type = .memWrite)).elim (fun ht => .inr (h.stq ht)) .inl

/-- One turn of the dispatch loop, on a buffer that is not empty. -/
theorem dispatchLoop_succ {front : Inst} {rest' : List Inst} (fuel w : ℕ)
    (htb : s.pipe.traceBuffer.elems = inst :: rest)
    (hfront : (prepared E s inst).pipe.traceBuffer.elems = front :: rest') :
    dispatchLoop E (fuel + 1) (w + 1) s =
      if dispatchBlocked (prepared E s inst) front then some (prepared E s inst)
      else if front.type = .unsupported then
        dispatchLoop E fuel (w + 1) (dropped (prepared E s inst))
      else (dispatchFront (prepared E s inst) front).bind (dispatchLoop E fuel w) := by
  have hfront' : (prepareFront E s.pipe inst).traceBuffer.elems = front :: rest' := hfront
  rw [dispatchLoop]
  simp only [InstQueue.frontInstElem, htb, hfront', List.head?_cons]
  rfl

theorem dispatchLoop_nil (fuel w : ℕ) (htb : s.pipe.traceBuffer.elems = []) :
    dispatchLoop E (fuel + 1) (w + 1) s = some s := by
  rw [dispatchLoop]
  simp only [InstQueue.frontInstElem, htb, List.head?_nil]

/-- **Dispatch.** What its three kinds of step keep, the stage keeps. -/
theorem dispatchLoop_rule {P : State F → Prop}
    (hprep : ∀ s inst rest, Window cap base s.pipe s.rob → Stocked s.pipe.traceBuffer → P s →
      s.pipe.traceBuffer.elems = inst :: rest → P (prepared E s inst))
    (hdrop : ∀ s inst rest, Window cap base s.pipe s.rob → Stocked s.pipe.traceBuffer → P s →
      s.pipe.traceBuffer.elems = inst :: rest → inst.Settled → inst.type = .unsupported →
      P (dropped s))
    (hdisp : ∀ s t inst rest, Window cap base s.pipe s.rob → Stocked s.pipe.traceBuffer → P s →
      s.pipe.traceBuffer.elems = inst :: rest → inst.Settled → inst.type ≠ .unsupported →
      Admits cap s.pipe inst → DispatchedTo cap base s inst t → P t)
    {fuel w : ℕ} (hW : Window cap base s.pipe s.rob) (hst : Stocked s.pipe.traceBuffer) (hP : P s)
    (h : dispatchLoop E fuel w s = some s') :
    Window cap base s'.pipe s'.rob ∧ Stocked s'.pipe.traceBuffer ∧ P s' := by
  induction fuel generalizing w s with
  | zero =>
    cases w with
    | zero =>
      obtain rfl : s = s' := by simpa [dispatchLoop] using h
      exact ⟨hW, hst, hP⟩
    | succ w => simp [dispatchLoop] at h
  | succ fuel ih =>
    cases w with
    | zero =>
      obtain rfl : s = s' := by simpa [dispatchLoop] using h
      exact ⟨hW, hst, hP⟩
    | succ w =>
      rcases htb : s.pipe.traceBuffer.elems with _ | ⟨inst, rest⟩
      · obtain rfl : s = s' := by simpa [dispatchLoop_nil fuel w htb] using h
        exact ⟨hW, hst, hP⟩
      · obtain ⟨front, rest', hfront, hset⟩ := prepared_front E hst htb
        have hW1 : Window cap base (prepared E s inst).pipe (prepared E s inst).rob := by
          refine hW.congr ?_ ?_ ?_ <;> simp only [prepared, prepareFront_eq hst htb]
        have hst1 := hst.prepareStep (E := E) htb
        have hP1 := hprep s inst rest hW hst hP htb
        rw [dispatchLoop_succ fuel w htb hfront] at h
        split at h
        next =>
          obtain rfl := Option.some.inj h
          exact ⟨hW1, hst1, hP1⟩
        next hblock =>
          have hadm := (dispatchBlocked_eq_false_iff hW1).1 (Bool.eq_false_iff.2 hblock)
          split at h
          next htype =>
            refine ih ?_ ?_ (hdrop _ front rest' hW1 hst1 hP1 hfront hset htype) h
            · exact hW1.congr rfl rfl rfl
            · exact hst1.tail hfront
          next htype =>
            obtain ⟨t, ht, h⟩ := Option.bind_eq_some_iff.1 h
            obtain ⟨t', ht', hto⟩ :=
              dispatchFront_spec hW1 hadm.rob (array_of_dispatchFront hW1 ht) front
            obtain rfl : t' = t := Option.some.inj (ht'.symm.trans ht)
            refine ih hto.window ?_ (hdisp _ t' front rest' hW1 hst1 hP1 hfront hset htype hadm hto) h
            rw [hto.pipe]
            exact hst1.tail hfront

/-- How many records of an unsupported type the buffer will still give. -/
def unsupportedLeft (disasm : UInt32 → Darm) (q : InstQueue Inst) : ℕ :=
  (expandTrace disasm q.capacity q.elems).countP fun inst => inst.type = .unsupported

/-- A record gives at most one unsupported record. -/
theorem unsupportedLeft_le_size (disasm : UInt32 → Darm) (q : InstQueue Inst) :
    unsupportedLeft disasm q ≤ q.size := by
  obtain ⟨elems, c⟩ := q
  simp only [unsupportedLeft, InstQueue.size]
  induction elems with
  | nil => simp [expandTrace]
  | cons inst rest ih =>
    have hone : (expandInst c rest.length (decodeInst disasm inst)).countP
        (fun inst => inst.type = .unsupported) ≤ 1 := by
      refine le_trans ((List.drop_sublist _ _).countP_le) ?_
      unfold microops
      split
      · simp [List.countP_append, List.countP_map, Function.comp_def, popMicroop_type, spMicroop]
      · simp [List.countP_append, List.countP_map, Function.comp_def, pushMicroop_type, spMicroop]
      · simp only [List.countP_cons, List.countP_nil]
        split <;> simp
    rw [expandTrace, List.countP_append, List.length_cons]
    omega

theorem unsupportedLeft_prepared (hst : Stocked s.pipe.traceBuffer)
    (htb : s.pipe.traceBuffer.elems = inst :: rest) :
    unsupportedLeft E.disasm (prepared E s inst).pipe.traceBuffer =
      unsupportedLeft E.disasm s.pipe.traceBuffer := by
  have hin : inst.Buffered := hst.buffered inst (htb ▸ List.mem_cons_self ..)
  simp only [prepared, prepareFront_eq hst htb, unsupportedLeft, htb,
    expandTrace_prepared hin (hst.fits_cons htb)]

theorem unsupportedLeft_tail {q : InstQueue Inst} (disasm : UInt32 → Darm) (hst : Stocked q)
    (htb : q.elems = inst :: rest) (hset : inst.Settled) :
    unsupportedLeft disasm q = unsupportedLeft disasm q.popFrontInst +
      if inst.type = .unsupported then 1 else 0 := by
  simp only [unsupportedLeft, htb, expandTrace_cons_settled hset (hst.fits_cons htb),
    InstQueue.popFrontInst, List.tail_cons, List.countP_cons, decide_eq_true_eq]

/-- **Dispatch does not fail** if the reorder buffer fits its array. -/
theorem dispatchLoop_total (hcap : cap ≤ robEntries) {fuel w : ℕ}
    (hW : Window cap base s.pipe s.rob) (hst : Stocked s.pipe.traceBuffer)
    (hfuel : w + unsupportedLeft E.disasm s.pipe.traceBuffer ≤ fuel) :
    ∃ s', dispatchLoop E fuel w s = some s' := by
  induction fuel generalizing w s with
  | zero =>
    obtain rfl : w = 0 := by omega
    exact ⟨s, by rw [dispatchLoop]⟩
  | succ fuel ih =>
    cases w with
    | zero => exact ⟨s, by rw [dispatchLoop]⟩
    | succ w =>
      rcases htb : s.pipe.traceBuffer.elems with _ | ⟨inst, rest⟩
      · exact ⟨s, dispatchLoop_nil fuel w htb⟩
      · obtain ⟨front, rest', hfront, hset⟩ := prepared_front E hst htb
        have hW1 : Window cap base (prepared E s inst).pipe (prepared E s inst).rob := by
          refine hW.congr ?_ ?_ ?_ <;> simp only [prepared, prepareFront_eq hst htb]
        have hst1 := hst.prepareStep (E := E) htb
        have hleft := unsupportedLeft_tail E.disasm hst1 hfront hset
        rw [unsupportedLeft_prepared hst htb] at hleft
        rw [dispatchLoop_succ fuel w htb hfront]
        split
        next => exact ⟨_, rfl⟩
        next hblock =>
          have hadm := (dispatchBlocked_eq_false_iff hW1).1 (Bool.eq_false_iff.2 hblock)
          split
          next htype =>
            rw [if_pos htype] at hleft
            refine ih (hW1.congr rfl rfl rfl) (hst1.tail hfront) ?_
            show w + 1 + unsupportedLeft E.disasm
              (prepared E s inst).pipe.traceBuffer.popFrontInst ≤ fuel
            omega
          next htype =>
            rw [if_neg htype] at hleft
            obtain ⟨t, ht, hto⟩ := dispatchFront_spec hW1 hadm.rob hcap front
            rw [ht, Option.bind_some]
            have htt : t.pipe.traceBuffer = (prepared E s inst).pipe.traceBuffer.popFrontInst := by
              rw [hto.pipe]
              rfl
            exact ih hto.window (htt ▸ hst1.tail hfront) (by rw [htt]; omega)

end TraceAnalyzer

end Tqsim
