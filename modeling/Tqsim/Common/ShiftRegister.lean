import Mathlib.Tactic

/-!
# Shift registers

A register of `k` bits, as a number, into which bits are shifted from the
right.
-/

namespace ShiftRegister

variable {k : ℕ}

/-- The register after one more bit. -/
def push (k g : ℕ) (b : Bool) : ℕ := (2 * g + b.toNat) % 2 ^ k

/-- Bits beyond the register's width do not matter. -/
theorem push_mod (g : ℕ) (b : Bool) : push k (g % 2 ^ k) b = push k g b := by
  have hmod : 2 * (g % 2 ^ k) + b.toNat ≡ 2 * g + b.toNat [MOD 2 ^ k] :=
    ((Nat.mod_modEq g (2 ^ k)).mul_left 2).add_right _
  exact hmod

/-- **Two bits look like one** only to a register that holds the first of
them everywhere, but for the bit that is lost. -/
theorem push_push_eq_push_iff (hk : 1 ≤ k) (g : ℕ) (a b c : Bool) :
    push k (push k g a) b = push k g c ↔ b = c ∧ 2 ^ (k - 1) ∣ g + a.toNat := by
  have hpow : 2 ^ k = 2 * 2 ^ (k - 1) := by
    rw [← pow_succ', Nat.sub_add_cancel hk]
  have hpush : push k (push k g a) b = push k (2 * g + a.toNat) b := push_mod _ _
  rw [hpush, push, push]
  -- the last bits are compared modulo 2, the others modulo half the range
  change 2 * (2 * g + a.toNat) + b.toNat ≡ 2 * g + c.toNat [MOD 2 ^ k] ↔ _
  constructor
  · intro h
    have hbit : b = c := by
      have hlow : 2 * (2 * g + a.toNat) + b.toNat ≡ 2 * g + c.toNat [MOD 2] :=
        h.of_dvd (hpow ▸ Dvd.intro _ rfl)
      have hb := b.toNat_lt
      have hc := c.toNat_lt
      have hnat : b.toNat = c.toNat := by
        unfold Nat.ModEq at hlow
        omega
      cases b <;> cases c <;> simp_all
    subst hbit
    have hhigh : 2 * (2 * g + a.toNat) ≡ 2 * g [MOD 2 * 2 ^ (k - 1)] :=
      hpow ▸ Nat.ModEq.add_right_cancel' _ h
    have hhalf : g + a.toNat + g ≡ g [MOD 2 ^ (k - 1)] := by
      have := Nat.ModEq.mul_left_cancel' two_ne_zero hhigh
      rwa [two_mul, add_right_comm] at this
    have hzero : g + a.toNat ≡ 0 [MOD 2 ^ (k - 1)] :=
      Nat.ModEq.add_right_cancel' g (by rwa [zero_add])
    exact ⟨rfl, (Nat.modEq_zero_iff_dvd).1 hzero⟩
  · rintro ⟨rfl, hdvd⟩
    have hhalf : 2 * g + a.toNat ≡ g [MOD 2 ^ (k - 1)] := by
      have := ((Nat.modEq_zero_iff_dvd).2 hdvd).add_right g
      rwa [zero_add, add_right_comm, ← two_mul] at this
    rw [hpow]
    exact (hhalf.mul_left' 2).add_right _

/-! ## What the register remembers -/

theorem push_eq_bit (k g : ℕ) (b : Bool) : push k g b = Nat.bit b g % 2 ^ k := by
  rw [push, Nat.bit_val]

/-- The last bit is the one pushed last. -/
theorem testBit_push_zero (hk : 0 < k) (g : ℕ) (b : Bool) : (push k g b).testBit 0 = b := by
  rw [push_eq_bit, Nat.testBit_mod_two_pow, Nat.testBit_bit_zero]
  simp [hk]

/-- The others have moved up. -/
theorem testBit_push_succ {i : ℕ} (hi : i + 1 < k) (g : ℕ) (b : Bool) :
    (push k g b).testBit (i + 1) = g.testBit i := by
  rw [push_eq_bit, Nat.testBit_mod_two_pow, Nat.testBit_bit_succ]
  simp [hi]

/-- **The register holds the last bits that were pushed**, as many as it is
wide. -/
theorem testBit_foldl_push (g : ℕ) {bits : List Bool} {i : ℕ} (hi : i < k) {b : Bool}
    (hb : bits.reverse[i]? = some b) : (bits.foldl (push k) g).testBit i = b := by
  induction bits using List.reverseRecOn generalizing i with
  | nil => simp at hb
  | append_singleton bits a ih =>
    rw [List.foldl_append, List.foldl_cons, List.foldl_nil]
    rw [List.reverse_append, List.reverse_singleton, List.singleton_append] at hb
    cases i with
    | zero =>
      rw [List.getElem?_cons_zero, Option.some.injEq] at hb
      rw [testBit_push_zero hi, hb]
    | succ i =>
      rw [List.getElem?_cons_succ] at hb
      rw [testBit_push_succ hi]
      exact ih (by omega) hb

end ShiftRegister
