import Tqsim.TraceAnalyzer.Helpers.Scan
import Tqsim.TraceAnalyzer.Helpers.Expansion

/-!
# What each stage can do

One rule for each loop of the pipeline. Commit and issue take some number of
single steps, so that a property kept by one step is kept by the stage;
write-back and execute visit each record of the unit buffer at most once, so
that they are described record by record.
-/

namespace Tqsim

namespace TraceAnalyzer

open Circular (slot)

variable {F : Type} {cap base : ℕ} {s s' : State F} {p p' : Pipe F} {E : Env F}

/-! ## Commit -/

theorem commitInst_window (hW : Window cap base s.pipe s.rob) (hne : s.pipe.oldest < s.pipe.next) :
    Window cap base (commitInst s s.pipe.oldest).pipe (commitInst s s.pipe.oldest).rob :=
  hW.removeInst hne rfl rfl rfl

/-- A commit writes its stamp. -/
theorem heap_commitInst (s : State F) (o r : ℕ) :
    ∃ c, (commitInst s o).pipe.heap r = { s.pipe.heap r with committedCycle := c } := by
  by_cases hr : r = o
  · subst hr
    exact ⟨s.pipe.curCycle, by simp [commitInst]⟩
  · exact ⟨(s.pipe.heap r).committedCycle, by simp [commitInst, hr]⟩

theorem oldest_commitInst (s : State F) (o : ℕ) :
    (commitInst s o).pipe.oldest = s.pipe.oldest + 1 := by
  simp [commitInst, Pipe.oldest]

/-- The oldest record is ready to be committed. -/
def CommitReady (p : Pipe F) : Prop :=
  p.oldest < p.next ∧ (p.heap p.oldest).state = .complete ∧
    (p.heap p.oldest).remainingLatency = 0

instance (p : Pipe F) : Decidable (CommitReady p) :=
  inferInstanceAs (Decidable (_ ∧ _ ∧ _))

/-- One turn of the commit loop. -/
theorem commitLoop_succ (hW : Window cap base s.pipe s.rob) (w : ℕ) :
    commitLoop (w + 1) s =
      if CommitReady s.pipe then commitLoop w (commitInst s s.pipe.oldest) else some s := by
  rw [commitLoop]
  by_cases hne : s.pipe.oldest < s.pipe.next
  · have hin : s.pipe.InFlight s.pipe.oldest := ⟨le_rfl, hne⟩
    have hemp : ¬ s.rob.isEmpty = true := fun h => absurd (hW.isEmpty_iff.1 h) (by omega)
    simp only [if_neg hemp, hW.getOldestInst hne, hW.deref hin, Option.bind_eq_bind,
      Option.bind_some, CommitReady, hne, true_and]
  · have hle := hW.oldest_le
    rw [if_pos (hW.isEmpty_iff.2 (by omega)), if_neg (fun h => hne h.1)]

/-- **Commit.** What a single commit keeps, the stage keeps, and the stage
does not fail. -/
theorem commitLoop_rule {P : State F → Prop}
    (hstep : ∀ s, Window cap base s.pipe s.rob → P s → CommitReady s.pipe →
      P (commitInst s s.pipe.oldest))
    (w : ℕ) (hW : Window cap base s.pipe s.rob) (hP : P s) :
    ∃ s', commitLoop w s = some s' ∧ Window cap base s'.pipe s'.rob ∧ P s' := by
  induction w generalizing s with
  | zero => exact ⟨s, rfl, hW, hP⟩
  | succ w ih =>
    rw [commitLoop_succ hW]
    split
    · exact ih (commitInst_window hW ‹CommitReady s.pipe›.1) (hstep s hW hP ‹_›)
    · exact ⟨s, rfl, hW, hP⟩

/-! ## Write-back -/

/-- The record leaves the unit buffer with this write-back. -/
def WritesBack (inst : Inst) : Prop :=
  (writebackInst inst).state = .complete ∧ (writebackInst inst).remainingLatency = 0

instance (inst : Inst) : Decidable (WritesBack inst) :=
  inferInstanceAs (Decidable (_ ∧ _))

/-- The pipe after the visit of one record. -/
def visited (p : Pipe F) (r : ℕ) : Pipe F :=
  { p.setInst r (writebackInst (p.heap r)) with
    fuBuffer := if WritesBack (p.heap r) then p.fuBuffer.removeFromList r else p.fuBuffer }

/-- One turn of the write-back loop. -/
theorem writebackLoop_cons (r : ℕ) (rs : List ℕ) (w : ℤ) (p : Pipe F) :
    writebackLoop (r :: rs) w p =
      if w = 0 then some p
      else if p.live r = true then
        writebackLoop rs (if WritesBack (p.heap r) then w - 1 else w) (visited p r)
      else none := by
  rw [writebackLoop]
  by_cases hlive : p.live r = true
  · simp only [Pipe.deref, hlive, if_true, Option.bind_eq_bind, Option.bind_some]
    by_cases hw : WritesBack (p.heap r)
    · simp only [visited, if_pos hw]
      rw [if_pos (show _ ∧ _ from hw)]
      rfl
    · simp only [visited, if_neg hw]
      rw [if_neg (show ¬ (_ ∧ _) from hw)]
      rfl
  · simp [Pipe.deref, hlive]

/-- The pipe after a write-back of the records in `done`. -/
def writtenBack (done : List ℕ) (p : Pipe F) : Pipe F :=
  { p with
    heap := fun r => if r ∈ done then writebackInst (p.heap r) else p.heap r
    fuBuffer := { p.fuBuffer with
      elems := p.fuBuffer.elems.filter fun r => ¬ (r ∈ done ∧ WritesBack (p.heap r)) } }

/-- A write-back writes the remaining latency. -/
theorem heap_writtenBack (done : List ℕ) (p : Pipe F) (r : ℕ) :
    ∃ l, (writtenBack done p).heap r = { p.heap r with remainingLatency := l } := by
  simp only [writtenBack, writebackInst]
  split
  · split
    · exact ⟨_, rfl⟩
    · exact ⟨_, rfl⟩
  · exact ⟨_, rfl⟩

theorem writtenBack_nil (p : Pipe F) : writtenBack [] p = p := by
  simp [writtenBack]

/-- Visiting one record more, at the front. -/
theorem writtenBack_visited {r : ℕ} {done : List ℕ} (hr : r ∉ done)
    (hnd : p.fuBuffer.elems.Nodup) : writtenBack done (visited p r) = writtenBack (r :: done) p := by
  have hheap : ∀ x, (if x ∈ done then writebackInst ((visited p r).heap x)
      else (visited p r).heap x) =
      if x ∈ r :: done then writebackInst (p.heap x) else p.heap x := by
    intro x
    by_cases hx : x = r
    · subst hx
      simp [visited, Pipe.setInst, hr]
    · simp [visited, Pipe.setInst, hx]
  have hwb : ∀ x, (x ∈ done ∧ WritesBack ((visited p r).heap x)) ↔
      x ∈ done ∧ WritesBack (p.heap x) := by
    intro x
    refine and_congr_right fun hx => ?_
    have hxr : x ≠ r := fun h => hr (h ▸ hx)
    simp [visited, Pipe.setInst, hxr]
  have hfu : (visited p r).fuBuffer =
      ⟨p.fuBuffer.elems.filter fun x => ¬ (x = r ∧ WritesBack (p.heap x)), p.fuBuffer.capacity⟩ := by
    simp only [visited, InstQueue.removeFromList, hnd.erase_eq_filter]
    split
    next hw =>
      congr 1
      refine List.filter_congr fun x _ => ?_
      by_cases hx : x = r <;> simp [hx, hw]
    next hw =>
      have : ∀ x ∈ p.fuBuffer.elems, decide (¬ (x = r ∧ WritesBack (p.heap x))) = true := by
        intro x _
        by_cases hx : x = r <;> simp [hx, hw]
      rw [List.filter_eq_self.2 this]
  simp only [writtenBack, hheap, hwb, hfu, List.filter_filter]
  simp only [visited, Pipe.setInst]
  congr 2
  refine List.filter_congr fun x _ => ?_
  by_cases hx : x = r
  · subst hx
    simp [hr]
  · simp [hx]

/-- **Write-back.** The stage visits records from the front of the unit
buffer, at least the first one if its width is not zero. -/
theorem writebackLoop_spec {rs : List ℕ} {w : ℤ} (hrs : rs.Nodup) (hnd : p.fuBuffer.elems.Nodup)
    (h : writebackLoop rs w p = some p') :
    ∃ done, done <+: rs ∧ (w ≠ 0 → ∀ r ∈ rs.head?, r ∈ done) ∧ p' = writtenBack done p ∧
      ∀ r ∈ done, p.live r = true := by
  induction rs generalizing w p with
  | nil =>
    obtain rfl : p = p' := by simpa [writebackLoop] using h
    exact ⟨[], List.nil_prefix, by simp, (writtenBack_nil p).symm, by simp⟩
  | cons r rs ih =>
    obtain ⟨hr, hrs⟩ := List.nodup_cons.1 hrs
    rw [writebackLoop_cons] at h
    split at h
    · obtain rfl := Option.some.inj h
      exact ⟨[], List.nil_prefix, fun hw => absurd ‹w = 0› hw, (writtenBack_nil p).symm, by simp⟩
    · split at h
      next hlive =>
        have hvnd : (visited p r).fuBuffer.elems.Nodup := by
          simp only [visited]
          split
          · exact hnd.erase r
          · exact hnd
        obtain ⟨done, hpre, -, hp', hdone⟩ := ih hrs hvnd h
        have hrd : r ∉ done := fun h => hr (hpre.subset h)
        refine ⟨r :: done, List.cons_prefix_cons.2 ⟨rfl, hpre⟩, ?_, ?_, ?_⟩
        · intro _ x hx
          simp only [List.head?_cons, Option.mem_some_iff] at hx
          exact hx ▸ List.mem_cons_self ..
        · rw [hp', writtenBack_visited hrd hnd]
        · intro x hx
          rcases List.mem_cons.1 hx with rfl | hx
          · exact hlive
          · exact hdone x hx
      next => cases h

/-- Write-back does not fail as long as the unit buffer holds no freed
record. -/
theorem writebackLoop_total {rs : List ℕ} (w : ℤ) (hlive : ∀ r ∈ rs, p.live r = true) :
    ∃ p', writebackLoop rs w p = some p' := by
  induction rs generalizing w p with
  | nil => exact ⟨p, rfl⟩
  | cons r rs ih =>
    have hr : p.live r = true := hlive r (List.mem_cons_self ..)
    have hrest : ∀ x ∈ rs, p.live x = true := fun x hx => hlive x (List.mem_cons_of_mem _ hx)
    rw [writebackLoop_cons, if_pos hr]
    split
    · exact ⟨p, rfl⟩
    · exact ih _ hrest

/-! ## Execute -/

/-- The record leaves the unit `f` with this execution. -/
def Finishes (f : FUType) (inst : Inst) : Prop :=
  inst.state = .issue ∧ inst.remainingLatency - 1 ≤ 0 ∧ instTypeFuTypeMap inst.type = f

instance (f : FUType) (inst : Inst) : Decidable (Finishes f inst) :=
  inferInstanceAs (Decidable (_ ∧ _ ∧ _))

/-- The records after the execution of those in `rs`. -/
def executedHeap (E : Env F) (rs : List ℕ) (p : Pipe F) (r : ℕ) : Inst :=
  if r ∈ rs ∧ (p.heap r).state = .issue then executedInst E p.curCycle (p.heap r) else p.heap r

/-- The units after the execution of the records in `rs`. -/
def executedFU (rs : List ℕ) (p : Pipe F) (f : FUType) : FU :=
  { p.fu f with
    numActive := (p.fu f).numActive - (rs.countP fun r => Finishes f (p.heap r) : ℕ) }

/-- The pipe after the execution of the records in `rs`, with the statistics
of mispredictions it may have updated. -/
def executedPipe (E : Env F) (rs : List ℕ) (p : Pipe F) (n : ℕ) (avg : F) : Pipe F :=
  { p with
    heap := executedHeap E rs p
    fu := executedFU rs p
    numMispredInsts := n
    avgMispredPenalty := avg }

theorem executedInst_eq (E : Env F) (c : ℕ) (inst : Inst) :
    ∃ st k l, executedInst E c inst =
      { inst with state := st, completedCycle := k, remainingLatency := l } := by
  simp only [executedInst]
  split <;> exact ⟨_, _, _, rfl⟩

/-- An execution writes the state, the completion stamp and the remaining
latency. -/
theorem heap_executed (E : Env F) (rs : List ℕ) (p : Pipe F) (r : ℕ) :
    ∃ st k l, executedHeap E rs p r =
      { p.heap r with state := st, completedCycle := k, remainingLatency := l } := by
  rw [executedHeap]
  split
  · exact executedInst_eq E p.curCycle (p.heap r)
  · exact ⟨_, _, _, rfl⟩

theorem executedInst_type (E : Env F) (c : ℕ) (inst : Inst) :
    (executedInst E c inst).type = inst.type := by
  obtain ⟨st, k, l, h⟩ := executedInst_eq E c inst
  rw [h]

theorem executeInst_eq (E : Env F) (p : Pipe F) (r : ℕ) :
    ∃ n avg, executeInst E p r (p.heap r) =
      { p with
        heap := Function.update p.heap r (executedInst E p.curCycle (p.heap r))
        fu := if (p.heap r).remainingLatency - 1 ≤ 0 then
            Function.update p.fu (instTypeFuTypeMap (p.heap r).type)
              (releaseFU (p.fu (instTypeFuTypeMap (p.heap r).type)))
          else p.fu
        numMispredInsts := n
        avgMispredPenalty := avg } := by
  simp only [executeInst, countMispred, executedInst_type]
  split <;> split <;> exact ⟨_, _, rfl⟩

/-- Executing one issued record more, at the front: the records. -/
theorem executedHeap_cons {q : Pipe F} {r : ℕ} {rs : List ℕ} (hr : r ∉ rs)
    (hst : (p.heap r).state = .issue) (hcyc : q.curCycle = p.curCycle)
    (hheap : q.heap = Function.update p.heap r (executedInst E p.curCycle (p.heap r))) :
    executedHeap E rs q = executedHeap E (r :: rs) p := by
  funext x
  simp only [executedHeap, List.mem_cons, hheap, hcyc]
  by_cases hx : x = r
  · subst hx
    simp [hr, hst]
  · simp [hx]

/-- Executing one issued record more, at the front: the units. -/
theorem executedFU_cons {q : Pipe F} {r : ℕ} {rs : List ℕ} (hr : r ∉ rs)
    (hst : (p.heap r).state = .issue)
    (hheap : q.heap = Function.update p.heap r (executedInst E p.curCycle (p.heap r)))
    (hfu : q.fu = if (p.heap r).remainingLatency - 1 ≤ 0 then
        Function.update p.fu (instTypeFuTypeMap (p.heap r).type)
          (releaseFU (p.fu (instTypeFuTypeMap (p.heap r).type)))
      else p.fu) :
    executedFU rs q = executedFU (r :: rs) p := by
  funext f
  have hcount : (rs.countP fun x => decide (Finishes f (q.heap x))) =
      rs.countP fun x => decide (Finishes f (p.heap x)) := by
    refine List.countP_congr fun x hx => ?_
    have hxr : x ≠ r := fun h => hr (h ▸ hx)
    rw [hheap, Function.update_of_ne hxr]
  simp only [executedFU, List.countP_cons, hcount, hfu]
  by_cases hdone : (p.heap r).remainingLatency - 1 ≤ 0
  · rw [if_pos hdone]
    by_cases hf : f = instTypeFuTypeMap (p.heap r).type
    · subst hf
      have hfin : Finishes (instTypeFuTypeMap (p.heap r).type) (p.heap r) := ⟨hst, hdone, rfl⟩
      simp only [Function.update_self, releaseFU, hfin, decide_true, if_true]
      congr 1
      push_cast
      omega
    · have hfin : ¬ Finishes f (p.heap r) := fun h => hf h.2.2.symm
      simp [Function.update_of_ne hf, hfin]
  · have hfin : ¬ Finishes f (p.heap r) := fun h => hdone h.2.1
    rw [if_neg hdone]
    simp [hfin]

/-- One turn of the execute loop. -/
theorem executeLoop_cons (r : ℕ) (rs : List ℕ) (p : Pipe F) :
    executeLoop E (r :: rs) p =
      if p.live r = true then
        executeLoop E rs (if (p.heap r).state = .issue then executeInst E p r (p.heap r) else p)
      else none := by
  rw [executeLoop]
  by_cases hlive : p.live r = true
  · simp only [Pipe.deref, hlive, if_true, Option.bind_eq_bind, Option.bind_some]
    split <;> rfl
  · simp [Pipe.deref, hlive]

/-- **Execute.** The stage executes each issued record of the unit buffer
once. -/
theorem executeLoop_spec {rs : List ℕ} (hrs : rs.Nodup) (h : executeLoop E rs p = some p') :
    (∃ n avg, p' = executedPipe E rs p n avg) ∧ ∀ r ∈ rs, p.live r = true := by
  induction rs generalizing p with
  | nil =>
    obtain rfl : p = p' := by simpa [executeLoop] using h
    refine ⟨⟨p.numMispredInsts, p.avgMispredPenalty, ?_⟩, by simp⟩
    have hh : executedHeap E [] p = p.heap := by
      funext r
      simp [executedHeap]
    have hf : executedFU [] p = p.fu := by
      funext f
      simp [executedFU]
    rw [executedPipe, hh, hf]
  | cons r rs ih =>
    obtain ⟨hr, hrs⟩ := List.nodup_cons.1 hrs
    rw [executeLoop_cons] at h
    split at h
    next hlive =>
      split at h
      next hst =>
        obtain ⟨n, avg, hq⟩ := executeInst_eq E p r
        generalize executeInst E p r (p.heap r) = q at h hq
        obtain ⟨⟨n', avg', hp'⟩, hlives⟩ := ih hrs h
        have hheap := congrArg Pipe.heap hq
        have hh := executedHeap_cons hr hst (by rw [hq]) hheap
        have hf := executedFU_cons hr hst hheap (by rw [hq])
        subst hq
        refine ⟨⟨n', avg', ?_⟩, List.forall_mem_cons.2 ⟨hlive, hlives⟩⟩
        rw [hp', executedPipe, hh, hf, executedPipe]
      next hst =>
        obtain ⟨⟨n', avg', hp'⟩, hlives⟩ := ih hrs h
        have hh : executedHeap E (r :: rs) p = executedHeap E rs p := by
          funext x
          simp only [executedHeap, List.mem_cons]
          by_cases hx : x = r
          · subst hx
            simp [hst]
          · simp [hx]
        have hf : executedFU (r :: rs) p = executedFU rs p := by
          funext f
          have hfin : ¬ Finishes f (p.heap r) := fun h => hst h.1
          simp [executedFU, hfin]
        exact ⟨⟨n', avg', by rw [hp', executedPipe, executedPipe, hh, hf]⟩,
          List.forall_mem_cons.2 ⟨hlive, hlives⟩⟩
    next => cases h

theorem executeInst_live (E : Env F) (p : Pipe F) (r : ℕ) :
    (executeInst E p r (p.heap r)).live = p.live := by
  obtain ⟨n, avg, h⟩ := executeInst_eq E p r
  rw [h]

/-- Execute does not fail as long as the unit buffer holds no freed record. -/
theorem executeLoop_total (E : Env F) {rs : List ℕ} (hlive : ∀ r ∈ rs, p.live r = true) :
    ∃ p', executeLoop E rs p = some p' := by
  induction rs generalizing p with
  | nil => exact ⟨p, rfl⟩
  | cons r rs ih =>
    have hr : p.live r = true := hlive r (List.mem_cons_self ..)
    have hrest : ∀ x ∈ rs, p.live x = true := fun x hx => hlive x (List.mem_cons_of_mem _ hx)
    rw [executeLoop_cons, if_pos hr]
    split
    · exact ih (by rw [executeInst_live]; exact hrest)
    · exact ih hrest

/-! ## Issue -/

/-- The state after the issue of one record. -/
def issued (s : State F) (r : ℕ) (unit : FU) : State F :=
  { s with pipe := issueInst s.pipe r (s.pipe.heap r) unit }

/-- An issue writes the state, its stamp and the remaining latency. -/
theorem heap_issued (s : State F) (r : ℕ) (unit : FU) (x : ℕ) :
    ∃ st c l, (issued s r unit).pipe.heap x =
      { s.pipe.heap x with state := st, issuedCycle := c, remainingLatency := l } := by
  by_cases hx : x = r
  · subst hx
    exact ⟨.issue, s.pipe.curCycle, typeLatency (s.pipe.heap x).type, by simp [issued, issueInst]⟩
  · simp only [issued, issueInst, Function.update_of_ne hx]
    exact ⟨_, _, _, rfl⟩

/-- **Issue.** What the issue of one record keeps, the stage keeps, and the
stage does not fail. -/
theorem issueLoop_rule {P : State F → Prop} {rs : List ℕ}
    (hstep : ∀ s r unit, Window cap base s.pipe s.rob → P s → r ∈ rs → s.pipe.InFlight r →
      (s.pipe.heap r).state = .dispatch → ¬ Waits s r →
      tryFU (s.pipe.fu (instTypeFuTypeMap (s.pipe.heap r).type)) = some unit →
      P (issued s r unit))
    (w : ℕ) (hW : Window cap base s.pipe s.rob) (hin : ∀ r ∈ rs, s.pipe.InFlight r) (hP : P s) :
    ∃ s', issueLoop rs w s = some s' ∧ Window cap base s'.pipe s'.rob ∧ P s' := by
  induction rs generalizing w s with
  | nil => exact ⟨s, rfl, hW, hP⟩
  | cons r rs ih =>
    have hr : s.pipe.InFlight r := hin r (List.mem_cons_self ..)
    have hrest : ∀ x ∈ rs, s.pipe.InFlight x := fun x hx => hin x (List.mem_cons_of_mem _ hx)
    have hstep' := fun s x unit hW hP hx => hstep s x unit hW hP (List.mem_cons_of_mem r hx)
    cases w with
    | zero => exact ⟨s, rfl, hW, hP⟩
    | succ w =>
      obtain ⟨waits, hdep, hwaits⟩ := hasDependency_spec hW hr
      rw [issueLoop]
      simp only [hW.deref hr, hdep, Option.bind_eq_bind, Option.bind_some]
      split
      next hst =>
        split
        · exact ih hstep' _ hW hrest hP
        next hnot =>
          split
          next unit hunit =>
            have hP' : P (issued s r unit) :=
              hstep s r unit hW hP (List.mem_cons_self ..) hr hst (fun h => hnot (hwaits.2 h)) hunit
            exact ih hstep' w (hW.congr rfl rfl rfl) hrest hP'
          next => exact ih hstep' _ hW hrest hP
      next => exact ih hstep' _ hW hrest hP

end TraceAnalyzer

end Tqsim
