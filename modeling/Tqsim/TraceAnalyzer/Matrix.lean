import Tqsim.TraceAnalyzer.Helpers.Window
import Tqsim.Common.Run

/-!
# The dependency matrix across wrap-around

The reorder buffer and the dependency matrix on their own, under any sequence
of insertions, removals and `set_dependency` calls. The rows of the matrix are
right: between live instructions, the younger one's row marks the older one
just if the dependence was set. `is_dependent` does not always read them. Its
order test takes an instruction that has wrapped around for older than one
that has not, so that it misses the marks across the wrap, and reads the
marks of former instructions in the slots of younger ones.
-/

namespace Tqsim

namespace TraceAnalyzer

/-- The reorder buffer and the matrix, with the numbers of removals and of
insertions, and the calls of `set_dependency` so far. Instructions are
numbered in the order of their insertion. -/
structure Matrix where
  rob : ROB
  depMat : DepMat
  oldest : ℕ
  next : ℕ
  sets : List (ℕ × ℕ)

/-- The operations. -/
inductive MatrixOp where
  | insert
  | set (a b : ℕ)
  | remove

namespace Matrix

/-- The instruction is inserted and not removed. -/
def Live (m : Matrix) (r : ℕ) : Prop := m.oldest ≤ r ∧ r < m.next

instance (m : Matrix) (r : ℕ) : Decidable (m.Live r) :=
  inferInstanceAs (Decidable (_ ∧ _))

/-- The matrix marks `b` as waiting for `a`. -/
def Marked (m : Matrix) (b a : ℕ) : Prop := m.depMat (m.rob.robIdx b) (m.rob.robIdx a) = true

/-- After `rob_init`, over whatever the arrays held. -/
def start (rob : ROB) (depMat : DepMat) (cap : ℕ) : Matrix :=
  ⟨rob.init cap, depMat, 0, 0, []⟩

/-- An operation, under the test that its callers make: `rob_insert_inst` and
`clean_dependency` if the buffer is not full, `rob_remove_inst` if it is not
empty, and `set_dependency` on live instructions. -/
def step (m : Matrix) : MatrixOp → Option Matrix
  | .insert =>
    if m.rob.isFull then none
    else (m.rob.insertInst m.next).bind fun rob =>
      (cleanDependency rob m.depMat m.next).map fun depMat =>
        { m with rob := rob, depMat := depMat, next := m.next + 1 }
  | .set a b =>
    if m.Live a ∧ m.Live b then
      some { m with depMat := setDependency m.rob m.depMat a b, sets := (a, b) :: m.sets }
    else none
  | .remove =>
    if m.rob.isEmpty then none
    else some { m with rob := m.rob.removeInst, oldest := m.oldest + 1 }

/-- **What `is_dependent` should answer**: whether the dependence was set, for
an older instruction, and nothing for any other. -/
def Faithful (m : Matrix) : Prop :=
  ∀ a b, m.Live a → m.Live b →
    (a < b → (isDependent m.rob m.depMat a b = true ↔ (a, b) ∈ m.sets)) ∧
      (b ≤ a → isDependent m.rob m.depMat a b = false)

/-- No mark, in either direction, between an instruction that has wrapped
around and one that has not. -/
def NoMarkAcross (m : Matrix) : Prop :=
  ∀ a b, m.Live a → m.Live b → AcrossWrap m.rob a b → ¬ m.Marked b a ∧ ¬ m.Marked a b

/-! ## The rows are right -/

/-- A pipeline with just the live instructions. -/
def pipe (m : Matrix) : Pipe Unit where
  heap := fun _ => initInst 0 0 0
  live := fun r => decide (m.Live r)
  next := m.next
  commitLog := List.range m.oldest
  traceBuffer := ⟨[], 0⟩
  iq := ⟨[], 0⟩
  ldq := ⟨[], 0⟩
  stq := ⟨[], 0⟩
  fuBuffer := ⟨[], 0⟩
  fu := fun _ => initFU 0 0
  numFetchedInsts := 0
  numDispatchedInsts := 0
  numCommittedInsts := 0
  numMispredInsts := 0
  avgMispredPenalty := ()
  curCycle := 0

variable {m m' : Matrix} {cap a b : ℕ}

theorem oldest_pipe (m : Matrix) : m.pipe.oldest = m.oldest := List.length_range

theorem inFlight_pipe (m : Matrix) (r : ℕ) : m.pipe.InFlight r ↔ m.Live r := by
  rw [Pipe.InFlight, oldest_pipe]
  rfl

/-- **The invariant**: the live instructions are a window of the buffer, and
between them the matrix holds what was set. -/
structure Sound (cap : ℕ) (m : Matrix) : Prop where
  window : Window cap 0 m.pipe m.rob
  marks : ∀ a b, m.Live a → m.Live b → a < b → (m.Marked b a ↔ (a, b) ∈ m.sets)
  sets_lt : ∀ a b, (a, b) ∈ m.sets → b < m.next

theorem start_sound (rob : ROB) (depMat : DepMat) (cap : ℕ) : (start rob depMat cap).Sound cap := by
  have hnone : ∀ r, ¬ (start rob depMat cap).Live r := fun r hr => Nat.not_lt_zero r hr.2
  refine ⟨⟨rfl, rfl, Nat.zero_le _, fun h => absurd h (Nat.lt_irrefl 0), ?_, ?_, ?_, ?_, ?_⟩,
    fun a _ ha => absurd ha (hnone a), fun a b h => by cases h⟩
  · exact (Nat.zero_mod cap).symm
  · exact (Nat.zero_mod cap).symm
  · exact fun r hr => absurd ((inFlight_pipe _ r).1 hr) (hnone r)
  · exact fun r hr => absurd ((inFlight_pipe _ r).1 hr) (hnone r)
  · intro r
    rw [inFlight_pipe]
    simp only [pipe, decide_eq_true_eq]

theorem Sound.idx_inj (h : m.Sound cap) (ha : m.Live a) (hb : m.Live b) :
    m.rob.robIdx a = m.rob.robIdx b ↔ a = b :=
  h.window.idx_inj ((inFlight_pipe m a).2 ha) ((inFlight_pipe m b).2 hb)

/-- What `clean_dependency` leaves. -/
theorem cleanDependency_apply {rob : ROB} {d d' : DepMat} (h : cleanDependency rob d b = some d')
    (x y : ℕ) : d' x y = if x = rob.robIdx b ∧ y < rob.capacity then false else d x y := by
  unfold cleanDependency at h
  split at h
  next =>
    rw [← Option.some.inj h]
    by_cases hx : x = rob.robIdx b
    · subst hx
      by_cases hy : y < rob.capacity <;> simp [hy]
    · simp [hx]
  next => cases h

/-- An insertion cleans the row of the new instruction, and touches no other
row in use. -/
theorem Sound.insert (h : m.Sound cap) (hcap : cap ≤ robEntries) (hs : m.step .insert = some m') :
    m'.Sound cap := by
  have hold : m.oldest ≤ m.next := m.oldest_pipe ▸ h.window.oldest_le
  rw [step] at hs
  split at hs
  next => cases hs
  next hfull =>
    obtain ⟨rob, hrob, hs⟩ := Option.bind_eq_some_iff.1 hs
    obtain ⟨depMat, hclean, rfl⟩ := Option.map_eq_some_iff.1 hs
    have hroom : m.pipe.next < m.pipe.oldest + cap :=
      lt_of_le_of_ne h.window.next_le (mt h.window.isFull_iff.2 hfull)
    set m' : Matrix := ⟨rob, depMat, m.oldest, m.next + 1, m.sets⟩ with hm'
    have hlive : ∀ r, m'.Live r ↔ m.Live r ∨ r = m.next := fun r => by
      simp only [Live, hm']
      omega
    have hlive' : m'.pipe.live = Function.update m.pipe.live m.pipe.next true := by
      funext r
      by_cases hr : r = m.next
      · subst hr
        simp [pipe, hlive]
      · simp [pipe, hlive, hr]
    obtain ⟨rob', hrob', hW, hidx, -⟩ :=
      h.window.insertInst m'.pipe hroom hcap rfl rfl hlive'
    obtain rfl : rob' = rob := Option.some.inj (hrob'.symm.trans hrob)
    have hidx : ∀ r, r < m.next → rob'.robIdx r = m.rob.robIdx r := fun r hr => by
      rw [hidx]
      exact Function.update_of_ne (Nat.ne_of_lt hr) ..
    have hidx_inj : ∀ a b, m'.Live a → m'.Live b → (rob'.robIdx a = rob'.robIdx b ↔ a = b) :=
      fun a b ha hb => hW.idx_inj ((inFlight_pipe m' a).2 ha) ((inFlight_pipe m' b).2 hb)
    refine ⟨hW, fun a b ha hb hab => ?_, fun a b hset => Nat.lt_succ_of_lt (h.sets_lt a b hset)⟩
    have hlt : rob'.robIdx a < rob'.capacity := by
      have hcap' : 0 < cap := hW.cap_pos ((inFlight_pipe m' a).2 ha)
      rw [hW.capacity, hW.idx a ((inFlight_pipe m' a).2 ha)]
      exact Circular.slot_lt hcap'
    have hcell : m'.Marked b a ↔ ¬ b = m.next ∧ m.depMat (rob'.robIdx b) (rob'.robIdx a) = true := by
      have hnext : m'.Live m.next := (hlive _).2 (.inr rfl)
      simp only [Marked, hm', cleanDependency_apply hclean, hlt, hidx_inj b m.next hb hnext]
      by_cases hbn : b = m.next <;> simp [hbn]
    rw [hcell]
    rcases (hlive b).1 hb with hb | rfl
    · have ha : m.Live a := ((hlive a).1 ha).resolve_right (by have := hb.2; omega)
      rw [and_iff_right (Nat.ne_of_lt hb.2), hidx a ha.2, hidx b hb.2]
      exact h.marks a b ha hb hab
    · refine ⟨fun hx => absurd rfl hx.1, fun hset => ?_⟩
      exact absurd (h.sets_lt a m.next hset) (Nat.lt_irrefl _)

/-- Setting a dependence marks one pair. -/
theorem Sound.set (h : m.Sound cap) {x y : ℕ} (hs : m.step (.set x y) = some m') :
    m'.Sound cap := by
  rw [step] at hs
  split at hs
  next hxy =>
    obtain rfl := Option.some.inj hs
    obtain ⟨hx, hy⟩ := hxy
    refine ⟨h.window.congr rfl rfl rfl, fun a b ha hb hab => ?_, fun a b hset => ?_⟩
    · have ha : m.Live a := ha
      have hb : m.Live b := hb
      have hmarked : (⟨m.rob, setDependency m.rob m.depMat x y, m.oldest, m.next,
          (x, y) :: m.sets⟩ : Matrix).Marked b a ↔ (a = x ∧ b = y) ∨ m.Marked b a := by
        simp only [Marked, setDependency, Function.update_apply, h.idx_inj hb hy]
        by_cases hby : b = y
        · subst hby
          simp only [if_true, Function.update_apply, h.idx_inj ha hx]
          by_cases hax : a = x <;> simp [hax]
        · simp [hby]
      rw [hmarked, h.marks a b ha hb hab, List.mem_cons, Prod.mk.injEq]
    · rcases List.mem_cons.1 hset with heq | hset
      · obtain ⟨rfl, rfl⟩ := Prod.mk.inj heq
        exact hy.2
      · exact h.sets_lt a b hset
  next => cases hs

theorem Sound.remove (h : m.Sound cap) (hs : m.step .remove = some m') : m'.Sound cap := by
  rw [step] at hs
  split at hs
  next => cases hs
  next hempty =>
    obtain rfl := Option.some.inj hs
    have hlt : m.pipe.oldest < m.pipe.next :=
      lt_of_le_of_ne h.window.oldest_le (mt h.window.isEmpty_iff.2 hempty)
    have hsub : ∀ r, (⟨m.rob.removeInst, m.depMat, m.oldest + 1, m.next, m.sets⟩ : Matrix).Live r ↔
        m.Live r ∧ r ≠ m.oldest := fun r => by
      simp only [Live]
      omega
    refine ⟨h.window.removeInst hlt ?_ rfl ?_, fun a b ha hb hab => ?_, h.sets_lt⟩
    · rw [oldest_pipe]
      exact List.range_succ
    · rw [oldest_pipe]
      funext r
      by_cases hr : r = m.oldest
      · subst hr
        simp [pipe, hsub]
      · simp [pipe, hsub, hr]
    · exact h.marks a b ((hsub a).1 ha).1 ((hsub b).1 hb).1 hab

/-- **Every sequence of operations keeps the rows right.** -/
theorem sound_of_play (hcap : cap ≤ robEntries) {rob : ROB} {depMat : DepMat} {ops : List MatrixOp}
    (h : Run.play step ops (start rob depMat cap) = some m) : m.Sound cap := by
  refine Run.play_invariant (P := fun m => m.Sound cap) (fun m op m' hm hs => ?_)
    (start_sound rob depMat cap) h
  cases op with
  | insert => exact hm.insert hcap hs
  | set a b => exact hm.set hs
  | remove => exact hm.remove hs

/-! ## The order test -/

/-- **When the answers are right**: just if no mark lies across the wrap. -/
theorem faithful_iff_noMarkAcross (hcap : cap ≤ robEntries) (rob : ROB) (depMat : DepMat)
    (ops : List MatrixOp) (h : Run.play step ops (start rob depMat cap) = some m) :
    m.Faithful ↔ m.NoMarkAcross := by
  have hm := sound_of_play hcap h
  have hW := hm.window
  have hin : ∀ {r}, m.Live r → m.pipe.InFlight r := (inFlight_pipe m _).2
  constructor
  · intro hf a b ha hb hx
    have hab := hW.lt_of_acrossWrap (hin ha) (hin hb) hx
    refine ⟨fun hmark => ?_, fun hmark => ?_⟩
    · -- the mark of an older instruction is not seen
      have hdep := ((hf a b ha hb).1 hab).2 ((hm.marks a b ha hb hab).1 hmark)
      rw [hW.isDependent_eq _ (hin ha) (hin hb) hab] at hdep
      simp [hx] at hdep
    · -- a mark in the slot of a younger one is
      have hdep := (hf b a hb ha).2 hab.le
      rw [isDependent, if_pos ((hW.inOrder_younger_iff (hin hb) (hin ha) hab.le).2 hx)] at hdep
      exact absurd (hdep.symm.trans hmark) (by simp)
  · intro hno a b ha hb
    refine ⟨fun hab => ?_, fun hba => ?_⟩
    · rw [hW.isDependent_eq _ (hin ha) (hin hb) hab, ← hm.marks a b ha hb hab, Bool.and_eq_true,
        decide_eq_true_eq]
      exact and_iff_right_of_imp fun hmark hx => (hno a b ha hb hx).1 hmark
    · rw [isDependent]
      split
      next ho =>
        have hx := (hW.inOrder_younger_iff (hin ha) (hin hb) hba).1 ho
        exact Bool.eq_false_iff.2 (hno b a hb ha hx).2
      next => rfl

/-- An empty buffer of two slots. -/
def blankMatrix : Matrix :=
  start ⟨fun _ => none, 0, 0, 0, 0, fun _ => 0⟩ (fun _ _ => false) 2

/-- Without a wrap the answers are right. -/
theorem faithful_unwrapped : ∃ m, Run.play step [.insert, .insert, .set 0 1] blankMatrix = some m ∧
    m.Faithful := by
  have hcap : 2 ≤ robEntries := by decide
  have hiff := faithful_iff_noMarkAcross hcap ⟨fun _ => none, 0, 0, 0, 0, fun _ => 0⟩
    (fun _ _ => false) [.insert, .insert, .set 0 1] rfl
  refine ⟨_, rfl, hiff.2 ?_⟩
  intro a b _ _ hx
  exact absurd hx.1 (Nat.not_lt_zero _)

/-- **Across the wrap they are not.** Instruction 2, in slot 0, does not see
that it depends on instruction 1, in slot 1. And instruction 1 is found to
depend on the younger instruction 2, because of the mark that instruction 0
left in the column of slot 0. -/
theorem not_faithful_wrapped :
    (∃ m, Run.play step [.insert, .remove, .insert, .insert, .set 1 2] blankMatrix = some m ∧
      ¬ m.Faithful) ∧
    ∃ m, Run.play step [.insert, .insert, .set 0 1, .remove, .insert] blankMatrix = some m ∧
      ¬ m.Faithful := by
  constructor
  · refine ⟨_, rfl, fun hf => ?_⟩
    have hset := ((hf 1 2 (by decide) (by decide)).1 (by decide)).2 (by decide)
    exact absurd hset (by decide)
  · refine ⟨_, rfl, fun hf => ?_⟩
    have hyounger := (hf 2 1 (by decide) (by decide)).2 (by decide)
    exact absurd hyounger (by decide)

end Matrix

end TraceAnalyzer

end Tqsim
