import Mathlib.Tactic

/-!
# Conversions between machine integers

What a number is after the conversions of C, where it fits, and the digits
that it has in memory.
-/

namespace Words

/-- An `int` that is not negative, as an `uint64_t`. -/
theorem toNat_toUInt64 {n : Int32} (h : 0 ≤ n.toInt) :
    (n.toInt64.toUInt64.toNat : ℤ) = n.toInt := by
  have hle : (0 : Int64) ≤ n.toInt64 := by
    rw [Int64.le_iff_toInt_le, Int32.toInt_toInt64]
    exact h
  rw [Int64.toNat_toUInt64_of_le hle, Int64.toNatClampNeg, Int32.toInt_toInt64]
  omega

/-- An integer, as an `uint32_t`. -/
theorem toNat_ofInt_eq_emod (q : ℤ) : ((UInt32.ofInt q).toNat : ℤ) = q % 2 ^ 32 := by
  have hnonneg : 0 ≤ q % 2 ^ 32 := Int.emod_nonneg q (by decide)
  have hlt : q % 2 ^ 32 < 2 ^ 32 := Int.emod_lt_of_pos q (by decide)
  rw [UInt32.ofInt, UInt32.toNat_ofNat', Nat.mod_eq_of_lt (by omega), Int.toNat_of_nonneg hnonneg]

/-- One of 32 bits is not changed. -/
theorem toNat_ofInt {q : ℤ} (h : 0 ≤ q) (hlt : q < 2 ^ 32) : ((UInt32.ofInt q).toNat : ℤ) = q := by
  rw [toNat_ofInt_eq_emod, Int.emod_eq_of_lt h hlt]

/-- The last digits of a number. -/
theorem sum_digits (base v n : ℕ) :
    ∑ i ∈ Finset.range n, v / base ^ i % base * base ^ i = v % base ^ n := by
  induction n with
  | zero => simp [Nat.mod_one]
  | succ n ih => rw [Finset.sum_range_succ, ih, Nat.mod_pow_succ, Nat.mul_comm (base ^ n)]

end Words
