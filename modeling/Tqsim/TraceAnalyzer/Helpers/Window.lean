import Tqsim.Common.Circular
import Tqsim.TraceAnalyzer.Model.Pipeline

/-!
# The live window of the reorder buffer

Records are numbered in the order of their dispatch, and they are committed
in that order, so that the records in flight are an interval: from the
number of commits up to the number of dispatches. `Window` says that the
reorder buffer holds this interval in consecutive slots of a circular
buffer. It is what turns every index computation of the source into a
statement about the numbers of the records.
-/

namespace Tqsim

namespace TraceAnalyzer

open Circular (slot)

variable {F : Type} {cap base a b r : ℕ}

namespace Pipe

/-- The oldest record that is not committed. -/
def oldest (p : Pipe F) : ℕ := p.commitLog.length

/-- The record was dispatched and is not committed. -/
def InFlight (p : Pipe F) (r : ℕ) : Prop := p.oldest ≤ r ∧ r < p.next

instance (p : Pipe F) (r : ℕ) : Decidable (p.InFlight r) :=
  inferInstanceAs (Decidable (_ ∧ _))

end Pipe

/-- **The window.** The reorder buffer holds the records in flight, record
`r` in the slot that `r` dispatches after `base`, and these are the records
not yet freed. -/
structure Window (cap base : ℕ) (p : Pipe F) (rob : ROB) : Prop where
  capacity : rob.capacity = cap
  size : rob.size + p.oldest = p.next
  fits : rob.size ≤ cap
  array : p.oldest < p.next → cap ≤ robEntries
  start : rob.startIdx = slot cap base p.oldest
  finish : rob.endIdx = slot cap base p.next
  entry : ∀ r, p.InFlight r → rob.entries (slot cap base r) = some r
  idx : ∀ r, p.InFlight r → rob.robIdx r = slot cap base r
  live : ∀ r, p.live r = true ↔ p.InFlight r

/-- The younger record has wrapped around the end of the array and the older
one has not. -/
def AcrossWrap (rob : ROB) (a b : ℕ) : Prop :=
  rob.robIdx b < rob.startIdx ∧ rob.startIdx ≤ rob.robIdx a

instance (rob : ROB) (a b : ℕ) : Decidable (AcrossWrap rob a b) :=
  inferInstanceAs (Decidable (_ ∧ _))

/-- The dependency matrix marks the record `b` as waiting for `a`. -/
def State.Marked (s : State F) (b a : ℕ) : Prop :=
  s.depMat (s.rob.robIdx b) (s.rob.robIdx a) = true

instance (s : State F) (b a : ℕ) : Decidable (s.Marked b a) :=
  inferInstanceAs (Decidable (_ = _))

namespace Window

variable {p : Pipe F} {rob : ROB}

theorem oldest_le (h : Window cap base p rob) : p.oldest ≤ p.next := by
  have := h.size
  omega

theorem next_le (h : Window cap base p rob) : p.next ≤ p.oldest + cap := by
  have := h.size
  have := h.fits
  omega

theorem cap_pos (h : Window cap base p rob) (hr : p.InFlight r) : 0 < cap := by
  have := h.next_le
  have : p.oldest ≤ r ∧ r < p.next := hr
  omega

theorem lt_cap (h : Window cap base p rob) (hr : p.InFlight r) : r < p.oldest + cap := by
  have := h.next_le
  have : p.oldest ≤ r ∧ r < p.next := hr
  omega

/-- The window depends on which records are in flight, not on what is in
them. -/
theorem congr {p' : Pipe F} (h : Window cap base p rob) (hlog : p'.commitLog = p.commitLog)
    (hnext : p'.next = p.next) (hlive : p'.live = p.live) : Window cap base p' rob := by
  have hold : p'.oldest = p.oldest := by simp only [Pipe.oldest, hlog]
  have hin : ∀ r, p'.InFlight r ↔ p.InFlight r := fun r => by
    simp only [Pipe.InFlight, hold, hnext]
  refine ⟨h.capacity, ?_, h.fits, ?_, ?_, ?_, ?_, ?_, ?_⟩
  · rw [hold, hnext]; exact h.size
  · rw [hold, hnext]; exact h.array
  · rw [hold]; exact h.start
  · rw [hnext]; exact h.finish
  · exact fun r hr => h.entry r ((hin r).1 hr)
  · exact fun r hr => h.idx r ((hin r).1 hr)
  · intro r
    rw [hlive, hin]
    exact h.live r

theorem deref (h : Window cap base p rob) (hr : p.InFlight r) : p.deref r = some (p.heap r) := by
  rw [Pipe.deref, if_pos ((h.live r).2 hr)]

theorem isEmpty_iff (h : Window cap base p rob) : rob.isEmpty = true ↔ p.oldest = p.next := by
  have := h.size
  rw [ROB.isEmpty, beq_iff_eq]
  omega

theorem isFull_iff (h : Window cap base p rob) : rob.isFull = true ↔ p.next = p.oldest + cap := by
  have := h.size
  rw [ROB.isFull, beq_iff_eq, h.capacity]
  omega

theorem slot_lt_robEntries (h : Window cap base p rob) (hr : p.InFlight r) :
    slot cap base r < robEntries :=
  lt_of_lt_of_le (Circular.slot_lt (h.cap_pos hr)) (h.array (lt_of_le_of_lt hr.1 hr.2))

theorem getInst (h : Window cap base p rob) (hr : p.InFlight r) :
    rob.getInst (slot cap base r) = some r := by
  rw [ROB.getInst, if_pos (h.slot_lt_robEntries hr), h.entry r hr]

theorem getOldestInst (h : Window cap base p rob) (hne : p.oldest < p.next) :
    rob.getOldestInst = some p.oldest := by
  rw [ROB.getOldestInst, h.start]
  exact h.getInst ⟨le_rfl, hne⟩

theorem liveSlot (h : Window cap base p rob) (hr : p.InFlight r) :
    rob.liveSlot (slot cap base r) = true := by
  have hsize := h.size
  have : p.oldest ≤ r ∧ r < p.next := hr
  rw [ROB.liveSlot, h.capacity, h.start, Circular.slot_distance hr.1 (h.lt_cap hr), decide_eq_true_eq]
  omega

/-- The slot of a record in flight is the first one just for the oldest. -/
theorem slot_eq_start (h : Window cap base p rob) (hr : p.InFlight r) :
    slot cap base r = rob.startIdx ↔ r = p.oldest := by
  have hcap := h.cap_pos hr
  rw [h.start]
  exact Circular.slot_inj hr.1 le_rfl (h.lt_cap hr) (by omega)

theorem prevIdx (h : Window cap base p rob) (hcap : 0 < cap) :
    rob.prevIdx (slot cap base (r + 1)) = slot cap base r := by
  rw [ROB.prevIdx, h.capacity]
  exact Circular.slot_pred hcap

/-- The slot of a record in flight, from the first one: one wrap at most. -/
theorem robIdx_eq (h : Window cap base p rob) (hr : p.InFlight r) :
    rob.startIdx < cap ∧ rob.robIdx r =
      if rob.startIdx + (r - p.oldest) < cap then rob.startIdx + (r - p.oldest)
      else rob.startIdx + (r - p.oldest) - cap := by
  have hcap := h.cap_pos hr
  rw [h.start, h.idx r hr]
  exact ⟨Circular.slot_lt hcap, Circular.slot_eq hcap hr.1 (h.lt_cap hr)⟩

/-- **What the order test sees**: an older record is found to be older unless
the wrap lies between the two. -/
theorem inOrder_iff (h : Window cap base p rob) (ha : p.InFlight a) (hb : p.InFlight b)
    (hab : a < b) :
    inOrder rob.startIdx (rob.robIdx a) (rob.robIdx b) = true ↔ ¬ AcrossWrap rob a b := by
  obtain ⟨hlt, hsa⟩ := h.robIdx_eq ha
  obtain ⟨-, hsb⟩ := h.robIdx_eq hb
  have hb' := h.lt_cap hb
  have ha' := ha.1
  rw [AcrossWrap, inOrder, hsa, hsb]
  -- either record may or may not have wrapped; an older one only before a younger one
  split_ifs <;> simp <;> omega

/-- A younger record, or the same, is found to be older just if the wrap lies
between the two. -/
theorem inOrder_younger_iff (h : Window cap base p rob) (ha : p.InFlight a) (hb : p.InFlight b)
    (hba : b ≤ a) :
    inOrder rob.startIdx (rob.robIdx a) (rob.robIdx b) = true ↔ AcrossWrap rob b a := by
  obtain ⟨hlt, hsa⟩ := h.robIdx_eq ha
  obtain ⟨-, hsb⟩ := h.robIdx_eq hb
  have ha' := h.lt_cap ha
  have hb' := hb.1
  rw [AcrossWrap, inOrder, hsa, hsb]
  split_ifs <;> simp <;> omega

/-- A record that has not wrapped around is older than one that has. -/
theorem lt_of_acrossWrap (h : Window cap base p rob) (ha : p.InFlight a) (hb : p.InFlight b)
    (hx : AcrossWrap rob a b) : a < b := by
  obtain ⟨hlt, hsa⟩ := h.robIdx_eq ha
  obtain ⟨-, hsb⟩ := h.robIdx_eq hb
  have ha' := h.lt_cap ha
  have hb' := h.lt_cap hb
  have ha₀ := ha.1
  have hb₀ := hb.1
  rw [AcrossWrap, hsa, hsb] at hx
  split_ifs at hx <;> omega

/-- Whether `b` is found to wait for the older `a`. -/
theorem isDependent_eq (h : Window cap base p rob) (d : DepMat) (ha : p.InFlight a)
    (hb : p.InFlight b) (hab : a < b) :
    isDependent rob d a b =
      (decide (¬ AcrossWrap rob a b) && d (rob.robIdx b) (rob.robIdx a)) := by
  simp only [isDependent]
  by_cases hx : AcrossWrap rob a b
  · have : inOrder rob.startIdx (rob.robIdx a) (rob.robIdx b) = false :=
      Bool.eq_false_iff.2 fun ho => (h.inOrder_iff ha hb hab).1 ho hx
    simp [hx, this]
  · simp [hx, (h.inOrder_iff ha hb hab).2 hx]

/-- Distinct records in flight have distinct slots. -/
theorem idx_inj (h : Window cap base p rob) (ha : p.InFlight a) (hb : p.InFlight b) :
    rob.robIdx a = rob.robIdx b ↔ a = b := by
  rw [h.idx a ha, h.idx b hb]
  exact Circular.slot_inj ha.1 hb.1 (h.lt_cap ha) (h.lt_cap hb)

/-! ## The two operations that move the window -/

/-- **Commit moves the lower end.** -/
theorem removeInst (h : Window cap base p rob) (hne : p.oldest < p.next) {p' : Pipe F}
    (hlog : p'.commitLog = p.commitLog ++ [p.oldest]) (hnext : p'.next = p.next)
    (hlive : p'.live = Function.update p.live p.oldest false) :
    Window cap base p' rob.removeInst := by
  have hold : p'.oldest = p.oldest + 1 := by simp [Pipe.oldest, hlog]
  have hsub : ∀ r, p'.InFlight r → p.InFlight r := fun r hr => by
    simp only [Pipe.InFlight, hold, hnext] at hr ⊢
    omega
  have hsize := h.size
  have hfits := h.fits
  refine ⟨h.capacity, ?_, ?_, fun _ => h.array hne, ?_, ?_, fun r hr => h.entry r (hsub r hr),
    fun r hr => h.idx r (hsub r hr), fun r => ?_⟩
  · simp only [ROB.removeInst, hold, hnext]
    omega
  · simp only [ROB.removeInst]
    omega
  · simp only [ROB.removeInst, h.start, h.capacity, hold, Circular.slot_succ]
  · rw [hnext]
    exact h.finish
  · simp only [hlive, Function.update_apply, Pipe.InFlight, hold, hnext]
    have := h.live r
    simp only [Pipe.InFlight] at this
    split
    · simp only [Bool.false_eq_true, false_iff]
      omega
    · rw [this]
      omega

/-- **Dispatch moves the upper end**, if the window is not full and the array
is large enough. -/
theorem insertInst (h : Window cap base p rob) (p' : Pipe F) (hroom : p.next < p.oldest + cap)
    (hcap : cap ≤ robEntries) (hlog : p'.commitLog = p.commitLog)
    (hnext : p'.next = p.next + 1) (hlive : p'.live = Function.update p.live p.next true) :
    ∃ rob', rob.insertInst p.next = some rob' ∧ Window cap base p' rob' ∧
      rob'.robIdx = Function.update rob.robIdx p.next (slot cap base p.next) ∧
      rob'.startIdx = rob.startIdx := by
  have hold : p'.oldest = p.oldest := by simp only [Pipe.oldest, hlog]
  have hpos : 0 < cap := by have := h.oldest_le; omega
  have hend : rob.endIdx < robEntries := by
    rw [h.finish]
    exact lt_of_lt_of_le (Circular.slot_lt hpos) hcap
  have hin : ∀ r, p'.InFlight r ↔ p.InFlight r ∨ r = p.next := fun r => by
    have := h.oldest_le
    simp only [Pipe.InFlight, hold, hnext]
    omega
  refine ⟨_, if_pos hend, ⟨h.capacity, ?_, ?_, fun _ => hcap, ?_, ?_, fun r hr => ?_,
    fun r hr => ?_, fun r => ?_⟩, by simp only [h.finish], rfl⟩
  · have := h.size
    simp only [hold, hnext]
    omega
  · have := h.size
    simp only
    omega
  · rw [hold]
    exact h.start
  · simp only [h.finish, h.capacity, hnext, Circular.slot_succ]
  · -- the new slot differs from every slot in use, because the window is not full
    rcases (hin r).1 hr with hr | rfl
    · have hne : slot cap base r ≠ slot cap base p.next := by
        have hr2 := hr.2
        rw [Ne, Circular.slot_inj hr.1 h.oldest_le (h.lt_cap hr) hroom]
        omega
      simp only [h.finish, Function.update_apply, if_neg hne]
      exact h.entry r hr
    · simp only [h.finish, Function.update_self]
  · rcases (hin r).1 hr with hr | rfl
    · have hr2 := hr.2
      simp only [Function.update_apply, if_neg (show r ≠ p.next by omega)]
      exact h.idx r hr
    · simp only [h.finish, Function.update_self]
  · rw [hlive, hin, Function.update_apply]
    have := h.live r
    split
    · simp [*]
    · simp [*]

end Window

/-- A read of a slot in the window, and of the record in it. -/
theorem Window.robGetInst {s : State F} (h : Window cap base s.pipe s.rob) (hr : s.pipe.InFlight r) :
    s.robGetInst (slot cap base r) = some (r, s.pipe.heap r) := by
  rw [State.robGetInst, if_pos (h.liveSlot hr), h.getInst hr]
  simp only [Option.bind_eq_bind, Option.bind_some, h.deref hr]

end TraceAnalyzer

end Tqsim
