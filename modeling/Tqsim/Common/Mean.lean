import Mathlib.Tactic
import Mathlib.Algebra.Order.BigOperators.Group.List

/-!
# Means

A mean of numbers lies between the smallest and the largest of them: the
harmonic mean, from the sum of the reciprocals, and the weighted mean of
integers, as a quotient that is rounded towards zero.
-/

namespace Mean

/-- The number lies between the smallest and the largest one of the list. -/
def Between {α : Type*} [LE α] (x : α) (l : List α) : Prop :=
  (∃ a ∈ l, a ≤ x) ∧ ∃ b ∈ l, x ≤ b

instance decidableBetween {α : Type*} [LE α] [DecidableLE α] (x : α) (l : List α) :
    Decidable (Between x l) :=
  inferInstanceAs (Decidable (_ ∧ _))

section Harmonic

variable {K : Type*} [Field K] [LinearOrder K] [IsStrictOrderedRing K]

/-- **The harmonic mean** of positive numbers. -/
theorem between_harmonic {l : List K} (hne : l ≠ []) (hpos : ∀ a ∈ l, 0 < a) :
    Between ((l.length : K) / (l.map (1 / ·)).sum) l := by
  set S := (l.map (1 / ·)).sum with hS
  have hlen : (0 : K) < l.length := Nat.cast_pos.2 (List.length_pos_iff.2 hne)
  have hSpos : 0 < S := by
    refine List.sum_pos _ ?_ (by simpa using hne)
    intro x hx
    obtain ⟨a, ha, rfl⟩ := List.mem_map.1 hx
    exact one_div_pos.2 (hpos a ha)
  -- the reciprocals add up to as much as their mean, taken that often
  have hmean : (l.map fun _ => S / l.length).sum = (l.map (1 / ·)).sum := by
    rw [List.map_const', List.sum_replicate, nsmul_eq_mul, mul_div_cancel₀ _ hlen.ne', hS]
  constructor
  · obtain ⟨a, ha, hle⟩ := List.exists_le_of_sum_le hne _ _ hmean.le
    refine ⟨a, ha, ?_⟩
    rw [← one_div_div, le_one_div (hpos a ha) (div_pos hSpos hlen)]
    exact hle
  · obtain ⟨b, hb, hle⟩ := List.exists_le_of_sum_le hne _ _ hmean.ge
    refine ⟨b, hb, ?_⟩
    rw [← one_div_div, one_div_le (div_pos hSpos hlen) (hpos b hb)]
    exact hle

end Harmonic

section Weighted

variable {ι : Type*} {l : List ι} {w v : ι → ℤ}

theorem sum_map_mul_le {k : ℤ} (hpos : ∀ i ∈ l, 0 < w i) (hle : ∀ i ∈ l, v i ≤ k) :
    (l.map fun i => w i * v i).sum ≤ k * (l.map w).sum := by
  rw [← List.sum_map_mul_left]
  refine List.sum_le_sum fun i hi => ?_
  rw [mul_comm k]
  exact mul_le_mul_of_nonneg_left (hle i hi) (hpos i hi).le

theorem le_sum_map_mul {k : ℤ} (hpos : ∀ i ∈ l, 0 < w i) (hle : ∀ i ∈ l, k ≤ v i) :
    k * (l.map w).sum ≤ (l.map fun i => w i * v i).sum := by
  rw [← List.sum_map_mul_left]
  refine List.sum_le_sum fun i hi => ?_
  rw [mul_comm k]
  exact mul_le_mul_of_nonneg_left (hle i hi) (hpos i hi).le

/-- **The weighted mean** of integers with positive weights, rounded towards
zero. -/
theorem between_weighted (hne : l ≠ []) (hpos : ∀ i ∈ l, 0 < w i) :
    Between ((l.map fun i => w i * v i).sum.tdiv (l.map w).sum) (l.map v) := by
  set q := (l.map fun i => w i * v i).sum.tdiv (l.map w).sum with hq
  have hT : 0 < (l.map w).sum := by
    refine List.sum_pos _ ?_ (by simpa using hne)
    intro x hx
    obtain ⟨i, hi, rfl⟩ := List.mem_map.1 hx
    exact hpos i hi
  constructor
  · by_contra hno
    -- all values are larger, and so is the quotient
    have hle : ∀ i ∈ l, q + 1 ≤ v i := by
      intro i hi
      by_contra hlt
      exact hno ⟨v i, List.mem_map_of_mem hi, by omega⟩
    have := Int.tdiv_le_tdiv hT (le_sum_map_mul hpos hle)
    rw [Int.mul_tdiv_cancel _ hT.ne', ← hq] at this
    omega
  · by_contra hno
    have hle : ∀ i ∈ l, v i ≤ q - 1 := by
      intro i hi
      by_contra hlt
      exact hno ⟨v i, List.mem_map_of_mem hi, by omega⟩
    have := Int.tdiv_le_tdiv hT (sum_map_mul_le hpos hle)
    rw [Int.mul_tdiv_cancel _ hT.ne', ← hq] at this
    omega

end Weighted

end Mean
