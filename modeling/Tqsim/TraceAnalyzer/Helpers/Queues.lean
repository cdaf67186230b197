import Tqsim.TraceAnalyzer.Helpers.Dispatch

/-!
# The queues and the records

`Stages` ties the issue queue and the unit buffer to the states of the
records, and `MemQueues` the load and store queues to their types. Each kind
of step of the pipeline keeps both.
-/

namespace Tqsim

namespace TraceAnalyzer

variable {F : Type} {cap base : ℕ} {s : State F} {p q : Pipe F} {E : Env F}

/-- Where a record is, by its state. -/
structure Stages (p : Pipe F) : Prop where
  committed : ∀ r < p.oldest, (p.heap r).state = .complete ∧ (p.heap r).remainingLatency = 0
  stage : ∀ r < p.next, (p.heap r).state = .dispatch ∨ (p.heap r).state = .issue ∨
    (p.heap r).state = .complete
  iq_mem : ∀ r, r ∈ p.iq.elems ↔ r < p.next ∧ (p.heap r).state = .dispatch
  iq_sorted : p.iq.elems.Pairwise (· < ·)
  fu_nodup : p.fuBuffer.elems.Nodup
  fu_mem : ∀ r ∈ p.fuBuffer.elems, r < p.next ∧
    ((p.heap r).state = .issue ∨ (p.heap r).state = .complete)
  issue_mem : ∀ r < p.next, (p.heap r).state = .issue → r ∈ p.fuBuffer.elems
  left_mem : ∀ r < p.next, (p.heap r).state = .complete → 1 ≤ (p.heap r).remainingLatency →
    r ∈ p.fuBuffer.elems

/-- What the load and store queues hold. -/
structure MemQueues (p : Pipe F) : Prop where
  ldq_mem : ∀ r, r ∈ p.ldq.elems ↔ p.InFlight r ∧ (p.heap r).type = .memRead
  ldq_nodup : p.ldq.elems.Nodup
  stq_mem : ∀ r, r ∈ p.stq.elems ↔ p.InFlight r ∧ (p.heap r).type = .memWrite
  stq_nodup : p.stq.elems.Nodup
  ldqElem : ∀ r, p.InFlight r →
    (p.heap r).ldqElem = if (p.heap r).type = .memRead then some r else none
  stqElem : ∀ r, p.InFlight r →
    (p.heap r).stqElem = if (p.heap r).type = .memWrite then some r else none

/-! ## The states -/

namespace Stages

/-- A record that is not complete is in flight. -/
theorem inFlight_of_state (h : Stages p) {r : ℕ} (hr : r < p.next)
    (hst : (p.heap r).state ≠ .complete) : p.InFlight r :=
  ⟨Nat.le_of_not_lt fun hlt => hst (h.committed r hlt).1, hr⟩

theorem inFlight_of_mem_iq (h : Stages p) {r : ℕ} (hr : r ∈ p.iq.elems) : p.InFlight r := by
  obtain ⟨hlt, hst⟩ := (h.iq_mem r).1 hr
  exact h.inFlight_of_state hlt (by simp [hst])

/-- Commit writes a time stamp and frees the record. -/
theorem commitStep (h : Stages s.pipe) (hready : CommitReady s.pipe) :
    Stages (commitInst s s.pipe.oldest).pipe := by
  obtain ⟨hne, hst, hrem⟩ := hready
  set q := (commitInst s s.pipe.oldest).pipe with hq
  have hold : q.oldest = s.pipe.oldest + 1 := oldest_commitInst s _
  have hheap : ∀ r, (q.heap r).state = (s.pipe.heap r).state ∧
      (q.heap r).remainingLatency = (s.pipe.heap r).remainingLatency := by
    intro r
    obtain ⟨c, hc⟩ := heap_commitInst s s.pipe.oldest r
    rw [hq, hc]
    exact ⟨rfl, rfl⟩
  constructor
  · intro r hr
    rw [(hheap r).1, (hheap r).2]
    by_cases hr' : r = s.pipe.oldest
    · exact hr' ▸ ⟨hst, hrem⟩
    · exact h.committed r (by omega)
  · intro r
    rw [(hheap r).1]
    exact h.stage r
  · intro r
    rw [(hheap r).1]
    exact h.iq_mem r
  · exact h.iq_sorted
  · exact h.fu_nodup
  · intro r
    rw [(hheap r).1]
    exact h.fu_mem r
  · intro r
    rw [(hheap r).1]
    exact h.issue_mem r
  · intro r
    rw [(hheap r).1, (hheap r).2]
    exact h.left_mem r

theorem writebackInst_state (inst : Inst) : (writebackInst inst).state = inst.state := by
  unfold writebackInst
  split <;> rfl

/-- Write-back counts down complete records, and lets go of those that reach
zero. -/
theorem writebackStep (h : Stages p) {done : List ℕ} (hdone : ∀ r ∈ done, p.InFlight r) :
    Stages (writtenBack done p) := by
  set q := writtenBack done p with hq
  have hheap : ∀ r, q.heap r = if r ∈ done then writebackInst (p.heap r) else p.heap r :=
    fun _ => rfl
  have hstate : ∀ r, (q.heap r).state = (p.heap r).state := by
    intro r
    rw [hheap]
    split
    · exact writebackInst_state _
    · rfl
  have hmem : ∀ r, r ∈ q.fuBuffer.elems ↔
      r ∈ p.fuBuffer.elems ∧ ¬ (r ∈ done ∧ WritesBack (p.heap r)) := by
    intro r
    simp only [hq, writtenBack, List.mem_filter, decide_eq_true_eq]
  constructor
  · intro r hr
    have hnot : r ∉ done := fun hd => absurd (hdone r hd).1 (Nat.not_le.2 hr)
    rw [hheap, if_neg hnot]
    exact h.committed r hr
  · intro r
    rw [hstate]
    exact h.stage r
  · intro r
    rw [hstate]
    exact h.iq_mem r
  · exact h.iq_sorted
  · exact h.fu_nodup.filter _
  · intro r hr
    rw [hstate]
    exact h.fu_mem r ((hmem r).1 hr).1
  · intro r hr hst
    rw [hstate] at hst
    refine (hmem r).2 ⟨h.issue_mem r hr hst, fun hw => ?_⟩
    have := hw.2.1
    rw [writebackInst_state, hst] at this
    cases this
  · intro r hr hst hrem
    rw [hstate] at hst
    rw [hheap] at hrem
    split at hrem
    next hd =>
      have hval : (writebackInst (p.heap r)).remainingLatency = (p.heap r).remainingLatency - 1 := by
        rw [writebackInst, if_pos hst]
      rw [hval] at hrem
      refine (hmem r).2 ⟨h.left_mem r hr hst (by omega), fun hw => ?_⟩
      have := hw.2.2
      rw [hval] at this
      omega
    next hd => exact (hmem r).2 ⟨h.left_mem r hr hst hrem, fun hw => hd hw.1⟩

theorem executedInst_state (E : Env F) (c : ℕ) {inst : Inst} (hst : inst.state = .issue) :
    (executedInst E c inst).state = .issue ∨ (executedInst E c inst).state = .complete := by
  simp only [executedInst]
  split
  · exact .inr rfl
  · exact .inl hst

/-- Execute turns issued records into complete ones, in place. -/
theorem executeStep (h : Stages p) (n : ℕ) (avg : F) :
    Stages (executedPipe E p.fuBuffer.elems p n avg) := by
  set q := executedPipe E p.fuBuffer.elems p n avg with hq
  have hheap : ∀ r, q.heap r = if r ∈ p.fuBuffer.elems ∧ (p.heap r).state = .issue
      then executedInst E p.curCycle (p.heap r) else p.heap r := fun _ => rfl
  have hkeep : ∀ r, (p.heap r).state ≠ .issue → q.heap r = p.heap r := by
    intro r hst
    rw [hheap, if_neg (fun h => hst h.2)]
  have hmove : ∀ r, (p.heap r).state = .issue →
      (q.heap r).state = .issue ∨ (q.heap r).state = .complete := by
    intro r hst
    rw [hheap]
    split
    · exact executedInst_state E _ hst
    · exact .inl hst
  constructor
  · intro r hr
    rw [hkeep r (by simp [(h.committed r hr).1])]
    exact h.committed r hr
  · intro r hr
    by_cases hst : (p.heap r).state = .issue
    · exact .inr (hmove r hst)
    · rw [hkeep r hst]
      exact h.stage r hr
  · intro r
    by_cases hst : (p.heap r).state = .issue
    · have h1 : r ∉ p.iq.elems := fun hr => by
        have := ((h.iq_mem r).1 hr).2
        rw [hst] at this
        cases this
      refine ⟨fun hr => absurd hr h1, fun hr => ?_⟩
      rcases hmove r hst with hm | hm
      · exact absurd (hm.symm.trans hr.2) (by simp)
      · exact absurd (hm.symm.trans hr.2) (by simp)
    · rw [hkeep r hst]
      exact h.iq_mem r
  · exact h.iq_sorted
  · exact h.fu_nodup
  · intro r hr
    refine ⟨(h.fu_mem r hr).1, ?_⟩
    by_cases hst : (p.heap r).state = .issue
    · exact hmove r hst
    · rw [hkeep r hst]
      exact (h.fu_mem r hr).2
  · intro r hr hs
    by_cases hst : (p.heap r).state = .issue
    · exact h.issue_mem r hr hst
    · rw [hkeep r hst] at hs
      exact absurd hs hst
  · intro r hr hs hrem
    by_cases hst : (p.heap r).state = .issue
    · exact h.issue_mem r hr hst
    · rw [hkeep r hst] at hs hrem
      exact h.left_mem r hr hs hrem

/-- Issue moves a record from the issue queue to the unit buffer. -/
theorem issueStep (h : Stages s.pipe) (hcap : s.pipe.fuBuffer.capacity = 0) {r : ℕ}
    (hr : r < s.pipe.next) (hst : (s.pipe.heap r).state = .dispatch) (unit : FU) :
    Stages (issued s r unit).pipe := by
  set q := (issued s r unit).pipe with hq
  have hfu : q.fuBuffer.elems = s.pipe.fuBuffer.elems ++ [r] := by
    have hroom : s.pipe.fuBuffer.HasRoom := .inl hcap
    simp [hq, issued, issueInst, InstQueue.pushBackInst, hroom]
  have hself : (q.heap r).state = .issue := by
    simp [hq, issued, issueInst]
  have hother : ∀ x, x ≠ r → q.heap x = s.pipe.heap x := by
    intro x hx
    simp [hq, issued, issueInst, hx]
  have hnot : r ∉ s.pipe.fuBuffer.elems := by
    intro hmem
    rcases (h.fu_mem r hmem).2 with hs | hs <;> rw [hst] at hs <;> cases hs
  have hiqnd : s.pipe.iq.elems.Nodup := h.iq_sorted.imp Nat.ne_of_lt
  constructor
  · intro x hx
    have hxr : x ≠ r := by
      rintro rfl
      have := (h.committed x hx).1
      rw [hst] at this
      cases this
    rw [hother x hxr]
    exact h.committed x hx
  · intro x hx
    by_cases hxr : x = r
    · exact .inr (.inl (hxr ▸ hself))
    · rw [hother x hxr]
      exact h.stage x hx
  · intro x
    have hmem : x ∈ q.iq.elems ↔ x ≠ r ∧ x ∈ s.pipe.iq.elems := hiqnd.mem_erase_iff
    rw [hmem]
    by_cases hxr : x = r
    · subst hxr
      simp [hself]
    · rw [hother x hxr, h.iq_mem x]
      exact and_iff_right hxr
  · exact h.iq_sorted.sublist List.erase_sublist
  · rw [hfu]
    exact List.nodup_append.2 ⟨h.fu_nodup, List.nodup_singleton r, fun x hx y hy => by
      rintro rfl
      exact hnot (List.mem_singleton.1 hy ▸ hx)⟩
  · intro x hx
    rw [hfu, List.mem_append, List.mem_singleton] at hx
    by_cases hxr : x = r
    · exact hxr ▸ ⟨hr, .inl hself⟩
    · rw [hother x hxr]
      exact h.fu_mem x (hx.resolve_right hxr)
  · intro x hx hs
    rw [hfu, List.mem_append, List.mem_singleton]
    by_cases hxr : x = r
    · exact .inr hxr
    · rw [hother x hxr] at hs
      exact .inl (h.issue_mem x hx hs)
  · intro x hx hs hrem
    rw [hfu, List.mem_append, List.mem_singleton]
    by_cases hxr : x = r
    · exact .inr hxr
    · rw [hother x hxr] at hs hrem
      exact .inl (h.left_mem x hx hs hrem)

/-- Dispatch adds a record to the issue queue. -/
theorem dispatchStep (h : Stages p) (hold : p.oldest ≤ p.next) (hroom : p.iq.HasRoom)
    (inst : Inst) : Stages (dispatchedPipe p inst) := by
  set q := dispatchedPipe p inst with hq
  have hnext : q.next = p.next + 1 := rfl
  have hiq : q.iq.elems = p.iq.elems ++ [p.next] := by
    simp [hq, dispatchedPipe, queuedPipe, InstQueue.pushBackInst, hroom]
  have hself : (q.heap p.next).state = .dispatch := by
    simp [hq, dispatchedPipe, dispatchedInst]
  have hother : ∀ r, r < p.next → q.heap r = p.heap r := by
    intro r hr
    exact Function.update_of_ne (Nat.ne_of_lt hr) ..
  have hcases : ∀ r, r < q.next → r < p.next ∨ r = p.next := by
    intro r hr
    rw [hnext] at hr
    omega
  constructor
  · intro r hr
    have hr : r < p.oldest := hr
    rw [hother r (by omega)]
    exact h.committed r hr
  · intro r hr
    rcases hcases r hr with hlt | rfl
    · rw [hother r hlt]
      exact h.stage r hlt
    · exact .inl hself
  · intro r
    rw [hiq, List.mem_append, List.mem_singleton, h.iq_mem r]
    constructor
    · rintro (⟨hlt, hs⟩ | rfl)
      · exact ⟨by rw [hnext]; omega, by rw [hother r hlt]; exact hs⟩
      · exact ⟨by rw [hnext]; omega, hself⟩
    · rintro ⟨hlt, hs⟩
      rcases hcases r hlt with hlt | rfl
      · rw [hother r hlt] at hs
        exact .inl ⟨hlt, hs⟩
      · exact .inr rfl
  · rw [hiq]
    refine List.pairwise_append.2 ⟨h.iq_sorted, List.pairwise_singleton .., fun x hx y hy => ?_⟩
    rw [List.mem_singleton.1 hy]
    exact ((h.iq_mem x).1 hx).1
  · exact h.fu_nodup
  · intro r hr
    obtain ⟨hlt, hs⟩ := h.fu_mem r hr
    exact ⟨by rw [hnext]; omega, by rw [hother r hlt]; exact hs⟩
  · intro r hr hs
    rcases hcases r hr with hlt | rfl
    · rw [hother r hlt] at hs
      exact h.issue_mem r hlt hs
    · rw [hself] at hs
      cases hs
  · intro r hr hs hrem
    rcases hcases r hr with hlt | rfl
    · rw [hother r hlt] at hs hrem
      exact h.left_mem r hlt hs hrem
    · rw [hself] at hs
      cases hs

/-- Only the records and the two queues matter. -/
theorem congr (h : Stages p) (hlog : q.commitLog = p.commitLog) (hnext : q.next = p.next)
    (hheap : q.heap = p.heap) (hiq : q.iq = p.iq) (hfu : q.fuBuffer = p.fuBuffer) : Stages q := by
  have hold : q.oldest = p.oldest := by simp only [Pipe.oldest, hlog]
  constructor
  · rw [hold, hheap]; exact h.committed
  · rw [hnext, hheap]; exact h.stage
  · rw [hiq, hnext, hheap]; exact h.iq_mem
  · rw [hiq]; exact h.iq_sorted
  · rw [hfu]; exact h.fu_nodup
  · rw [hfu, hnext, hheap]; exact h.fu_mem
  · rw [hfu, hnext, hheap]; exact h.issue_mem
  · rw [hfu, hnext, hheap]; exact h.left_mem

end Stages

/-! ## The load and store queues -/

namespace MemQueues

/-- Only the types, the element pointers and the two queues matter. -/
theorem congr (h : MemQueues p) (hlog : q.commitLog = p.commitLog) (hnext : q.next = p.next)
    (hldq : q.ldq = p.ldq) (hstq : q.stq = p.stq)
    (hheap : ∀ r, (q.heap r).type = (p.heap r).type ∧ (q.heap r).ldqElem = (p.heap r).ldqElem ∧
      (q.heap r).stqElem = (p.heap r).stqElem) : MemQueues q := by
  have hin : ∀ r, q.InFlight r ↔ p.InFlight r := fun r => by
    simp only [Pipe.InFlight, Pipe.oldest, hlog, hnext]
  constructor
  · intro r
    rw [hldq, hin, (hheap r).1]
    exact h.ldq_mem r
  · exact hldq ▸ h.ldq_nodup
  · intro r
    rw [hstq, hin, (hheap r).1]
    exact h.stq_mem r
  · exact hstq ▸ h.stq_nodup
  · intro r hr
    rw [(hheap r).1, (hheap r).2.1]
    exact h.ldqElem r ((hin r).1 hr)
  · intro r hr
    rw [(hheap r).1, (hheap r).2.2]
    exact h.stqElem r ((hin r).1 hr)

/-- Removing the element of a record from the queue of the records of one
type. -/
theorem mem_removeElem {l : InstQueue ℕ} (hnd : l.elems.Nodup) {r x : ℕ} {isType : Prop}
    [Decidable isType] {elem : Option ℕ} (helem : elem = if isType then some r else none)
    (hmem : r ∈ l.elems → isType) :
    x ∈ (l.removeElem elem).elems ↔ x ∈ l.elems ∧ x ≠ r := by
  by_cases ht : isType
  · rw [if_pos ht] at helem
    subst helem
    simp only [InstQueue.removeElem, InstQueue.removeFromList, hnd.mem_erase_iff]
    exact and_comm
  · rw [if_neg ht] at helem
    subst helem
    refine ⟨fun hx => ⟨hx, ?_⟩, And.left⟩
    rintro rfl
    exact ht (hmem hx)

theorem nodup_removeElem {l : InstQueue ℕ} (hnd : l.elems.Nodup) (elem : Option ℕ) :
    (l.removeElem elem).elems.Nodup := by
  cases elem with
  | none => exact hnd
  | some e => exact hnd.erase e

theorem commitStep (h : MemQueues s.pipe) (hready : CommitReady s.pipe) :
    MemQueues (commitInst s s.pipe.oldest).pipe := by
  have hne := hready.1
  have hin : s.pipe.InFlight s.pipe.oldest := ⟨le_rfl, hne⟩
  set q := (commitInst s s.pipe.oldest).pipe with hq
  have hheap : ∀ r, (q.heap r).type = (s.pipe.heap r).type ∧
      (q.heap r).ldqElem = (s.pipe.heap r).ldqElem ∧
      (q.heap r).stqElem = (s.pipe.heap r).stqElem := by
    intro r
    obtain ⟨c, hc⟩ := heap_commitInst s s.pipe.oldest r
    rw [hq, hc]
    exact ⟨rfl, rfl, rfl⟩
  have hflight : ∀ r, q.InFlight r ↔ s.pipe.InFlight r ∧ r ≠ s.pipe.oldest := by
    intro r
    have hold : q.oldest = s.pipe.oldest + 1 := oldest_commitInst s _
    have hnext : q.next = s.pipe.next := rfl
    simp only [Pipe.InFlight, hold, hnext]
    omega
  constructor
  · intro r
    rw [(hheap r).1, hflight, and_right_comm, ← h.ldq_mem r]
    exact mem_removeElem h.ldq_nodup (h.ldqElem _ hin) fun hx => ((h.ldq_mem _).1 hx).2
  · exact nodup_removeElem h.ldq_nodup _
  · intro r
    rw [(hheap r).1, hflight, and_right_comm, ← h.stq_mem r]
    exact mem_removeElem h.stq_nodup (h.stqElem _ hin) fun hx => ((h.stq_mem _).1 hx).2
  · exact nodup_removeElem h.stq_nodup _
  · intro r hr
    rw [(hheap r).1, (hheap r).2.1]
    exact h.ldqElem r ((hflight r).1 hr).1
  · intro r hr
    rw [(hheap r).1, (hheap r).2.2]
    exact h.stqElem r ((hflight r).1 hr).1

/-- Adding a new record to the queue of the records of one type. -/
theorem mem_pushBack {l : InstQueue ℕ} {n x : ℕ} {isType : Prop} [Decidable isType]
    (hroom : isType → l.HasRoom) :
    x ∈ (if isType then (l.pushBackInst n).1 else l).elems ↔ x ∈ l.elems ∨ (x = n ∧ isType) := by
  by_cases ht : isType
  · simp [ht, InstQueue.pushBackInst, hroom ht]
  · simp [ht]

theorem nodup_pushBack {l : InstQueue ℕ} {n : ℕ} {isType : Prop} [Decidable isType]
    (hnd : l.elems.Nodup) (hn : n ∉ l.elems) :
    (if isType then (l.pushBackInst n).1 else l).elems.Nodup := by
  split
  · simp only [InstQueue.pushBackInst]
    split
    · exact List.nodup_append.2 ⟨hnd, List.nodup_singleton n, fun x hx y hy => by
        rintro rfl
        exact hn (List.mem_singleton.1 hy ▸ hx)⟩
    · exact hnd
  · exact hnd

theorem dispatchStep (h : MemQueues p) (hold : p.oldest ≤ p.next) {inst : Inst}
    (hset : inst.Settled) (hadm : Admits cap p inst) : MemQueues (dispatchedPipe p inst) := by
  set q := dispatchedPipe p inst with hq
  have hflight : ∀ r, q.InFlight r ↔ p.InFlight r ∨ r = p.next := by
    intro r
    have holdq : q.oldest = p.oldest := rfl
    have hnext : q.next = p.next + 1 := rfl
    simp only [Pipe.InFlight, holdq, hnext]
    omega
  have htype : (q.heap p.next).type = inst.type := by
    simp [hq, dispatchedPipe, dispatchedInst, queuedInst]
  have hother : ∀ r, p.InFlight r → q.heap r = p.heap r := fun r hr =>
    Function.update_of_ne (Nat.ne_of_lt hr.2) ..
  -- membership, for a queue that takes the records whose type is `t`
  have hmem : ∀ (l : InstQueue ℕ) (t : InstTypeName),
      (∀ r, r ∈ l.elems ↔ p.InFlight r ∧ (p.heap r).type = t) → ∀ r,
      (r ∈ l.elems ∨ (r = p.next ∧ inst.type = t)) ↔ q.InFlight r ∧ (q.heap r).type = t := by
    intro l t hl r
    rw [hl r, hflight]
    constructor
    · rintro (⟨hr, ht⟩ | ⟨rfl, ht⟩)
      · exact ⟨.inl hr, by rw [hother r hr]; exact ht⟩
      · exact ⟨.inr rfl, by rw [htype]; exact ht⟩
    · rintro ⟨hr | rfl, ht⟩
      · rw [hother r hr] at ht
        exact .inl ⟨hr, ht⟩
      · rw [htype] at ht
        exact .inr ⟨rfl, ht⟩
  have hnew : ¬ p.InFlight p.next := fun hr => Nat.lt_irrefl _ hr.2
  constructor
  · intro r
    rw [← hmem p.ldq .memRead h.ldq_mem r]
    exact mem_pushBack hadm.ldq
  · exact nodup_pushBack h.ldq_nodup fun hx => hnew ((h.ldq_mem _).1 hx).1
  · intro r
    rw [← hmem p.stq .memWrite h.stq_mem r]
    exact mem_pushBack hadm.stq
  · exact nodup_pushBack h.stq_nodup fun hx => hnew ((h.stq_mem _).1 hx).1
  · intro r hr
    rcases (hflight r).1 hr with hr | rfl
    · rw [hother r hr]
      exact h.ldqElem r hr
    · rw [htype]
      by_cases ht : inst.type = .memRead
      · simp [hq, dispatchedPipe, dispatchedInst, queuedInst, ht,
          InstQueue.pushBackInst, hadm.ldq ht]
      · simp [hq, dispatchedPipe, dispatchedInst, queuedInst, ht, hset.ldqElem]
  · intro r hr
    rcases (hflight r).1 hr with hr | rfl
    · rw [hother r hr]
      exact h.stqElem r hr
    · rw [htype]
      by_cases ht : inst.type = .memWrite
      · simp [hq, dispatchedPipe, dispatchedInst, queuedInst, ht,
          InstQueue.pushBackInst, hadm.stq ht]
      · simp [hq, dispatchedPipe, dispatchedInst, queuedInst, ht, hset.stqElem]

end MemQueues

end TraceAnalyzer

end Tqsim
