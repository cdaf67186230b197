import Mathlib.Data.List.Basic
import Mathlib.Data.List.Sort

/-!
# The set bits of a bit vector

`setBits` lists the positions of the set bits in ascending order. A loop that
takes the bits off a vector run by run, from the lowest on, lists the same
positions: `setBits_eq_range'_append` is the step of that argument.
-/

namespace SetBits

variable {n : ℕ} {b c : BitVec n} {i lo hi : ℕ}

/-- The positions of the set bits, ascending. -/
def setBits (b : BitVec n) : List ℕ := (List.range n).filter fun i => b.getLsbD i

theorem mem_setBits : i ∈ setBits b ↔ b.getLsbD i = true := by
  rw [setBits, List.mem_filter, List.mem_range]
  exact ⟨fun h => h.2, fun h => ⟨BitVec.lt_of_getLsbD h, h⟩⟩

@[simp] theorem setBits_zero : setBits (0 : BitVec n) = [] := by
  simp [setBits]

theorem length_setBits_le (b : BitVec n) : (setBits b).length ≤ n :=
  (List.length_filter_le _ _).trans (List.length_range (n := n)).le

/-- Unsetting one bit. -/
theorem getLsbD_and_not_one_shiftLeft (b : BitVec n) (i j : ℕ) :
    (b &&& ~~~(1#n <<< i)).getLsbD j = (b.getLsbD j && decide (j ≠ i)) := by
  by_cases hj : j < n
  · rw [← BitVec.twoPow_eq, BitVec.getLsbD_and, BitVec.getLsbD_not, BitVec.getLsbD_twoPow]
    by_cases hij : j = i
    · subst hij
      simp [hj]
    · simp [hj, hij, Ne.symm hij]
  · rw [BitVec.getLsbD_of_ge _ _ (by omega), BitVec.getLsbD_of_ge _ _ (by omega), Bool.false_and]

/-- Taking a run of set bits off the low end. -/
theorem setBits_eq_range'_append (hle : lo ≤ hi) (hhi : hi ≤ n)
    (hlow : ∀ j < lo, b.getLsbD j = false) (hrun : ∀ j, lo ≤ j → j < hi → b.getLsbD j = true)
    (hrest : ∀ j, c.getLsbD j = (b.getLsbD j && decide (hi ≤ j))) :
    setBits b = List.range' lo (hi - lo) ++ setBits c := by
  have hsplit : List.range n = List.range' 0 lo ++ List.range' lo (hi - lo) ++
      List.range' hi (n - hi) := by
    have h1 := @List.range'_append_1 0 lo (hi - lo)
    have h2 := @List.range'_append_1 0 hi (n - hi)
    rw [Nat.zero_add, Nat.add_sub_cancel' hle] at h1
    rw [Nat.zero_add, Nat.add_sub_cancel' hhi] at h2
    rw [List.range_eq_range', ← h2, ← h1]
  have hnone : (List.range' 0 lo).filter (fun j => b.getLsbD j) = [] := by
    rw [List.filter_eq_nil_iff]
    intro j hj
    rw [List.mem_range'_1] at hj
    rw [hlow j (by omega)]
    exact Bool.false_ne_true
  have hall : (List.range' lo (hi - lo)).filter (fun j => b.getLsbD j) =
      List.range' lo (hi - lo) := by
    rw [List.filter_eq_self]
    intro j hj
    rw [List.mem_range'_1] at hj
    exact hrun j hj.1 (by omega)
  have hskip : ∀ j < hi, c.getLsbD j = false := by
    intro j hj
    rw [hrest, decide_eq_false (by omega), Bool.and_false]
  have hcnone : (List.range' 0 lo ++ List.range' lo (hi - lo)).filter (fun j => c.getLsbD j) =
      [] := by
    rw [List.filter_eq_nil_iff]
    intro j hj
    rw [List.mem_append, List.mem_range'_1, List.mem_range'_1] at hj
    rw [hskip j (by omega)]
    exact Bool.false_ne_true
  have hsame : (List.range' hi (n - hi)).filter (fun j => b.getLsbD j) =
      (List.range' hi (n - hi)).filter (fun j => c.getLsbD j) := by
    refine List.filter_congr fun j hj => ?_
    rw [List.mem_range'_1] at hj
    rw [hrest, decide_eq_true hj.1, Bool.and_true]
  rw [setBits, setBits, hsplit, List.filter_append, List.filter_append, List.filter_append, hnone,
    hall, hcnone, hsame]
  rfl

end SetBits
