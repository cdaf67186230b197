import Tqsim.Bpredsim.Helpers.Frame
import Tqsim.Common.ShiftRegister

/-!
# The global history

What a call of `bpredsim_access` leaves in the history register. A
conditional branch shifts its outcome in, whether it was predicted right or
not: the speculative bit of `bpred_lookup` is the outcome, or is replaced by
it. An unconditional branch shifts in two bits, one in `bpred_lookup` and
one in `bpred_uncondBranch`, and the copy that `bpred_update` repairs from
already has the first of them.
-/

namespace Tqsim

namespace Bpredsim

open ShiftRegister (push push_push_eq_push_iff)

variable {p : Bpred} {b : Branch} {k : ℕ}

/-! ## The register -/

/-- The history register has `k` bits. -/
structure Bpred.HasWidth (p : Bpred) (k : ℕ) : Prop where
  one_le : 1 ≤ k
  le : k ≤ 32
  mask_eq : p.historyRegisterMask.toNat = 2 ^ k - 1

theorem Bpred.HasWidth.toNat_and (h : p.HasWidth k) (g : UInt32) :
    (g &&& p.historyRegisterMask).toNat = g.toNat % 2 ^ k := by
  rw [UInt32.toNat_and, h.mask_eq, Nat.and_two_pow_sub_one_eq_mod]

/-- A word of 32 bits is no narrower than the register. -/
theorem Bpred.HasWidth.mod_mod (h : p.HasWidth k) (n : ℕ) : n % 2 ^ 32 % 2 ^ k = n % 2 ^ k :=
  Nat.mod_mod_of_dvd _ (pow_dvd_pow 2 h.le)

@[simp] theorem toNat_toUInt32 (t : Bool) : t.toUInt32.toNat = t.toNat := by
  cases t <;> rfl

theorem toNat_shiftLeft_or (g : UInt32) (t : Bool) :
    (if t then (g <<< 1) ||| 1 else g <<< 1).toNat = (2 * g.toNat + t.toNat) % 2 ^ 32 := by
  have hshift : (g <<< 1).toNat = 2 * (g.toNat % 2 ^ 31) := by
    rw [UInt32.toNat_shiftLeft]
    simp only [UInt32.toNat_one, Nat.one_mod, Nat.shiftLeft_eq, pow_one]
    omega
  cases t with
  | true =>
    simp only [if_true, Bool.toNat_true]
    have hor := Nat.shiftLeft_add_eq_or_of_lt (show 1 < 2 ^ 1 by decide) (g.toNat % 2 ^ 31)
    rw [Nat.shiftLeft_eq, pow_one, Nat.mul_comm] at hor
    rw [UInt32.toNat_or, hshift, UInt32.toNat_one, ← hor]
    omega
  | false =>
    simp only [Bool.false_eq_true, if_false, Bool.toNat_false]
    omega

/-- The shift of the source is that of a register. -/
theorem Bpred.HasWidth.toNat_shiftHistory (h : p.HasWidth k) (g : UInt32) (t : Bool) :
    (shiftHistory p.historyRegisterMask g t).toNat = push k g.toNat t := by
  rw [shiftHistory, h.toNat_and, toNat_shiftLeft_or, h.mod_mod, push]

/-! ## One call -/

/-- The prediction for a branch. -/
def Bpred.predTaken (p : Bpred) (b : Branch) : Bool := (p.lookup b.curPC).2.finalPred

/-- **A conditional branch shifts its outcome in.** -/
theorem bpredsimAccess_of_isCond (hcond : b.isCond ≠ 0) :
    (bpredsimAccess p b).2.globalHistoryReg =
      shiftHistory p.historyRegisterMask p.globalHistoryReg b.actualTaken := by
  unfold bpredsimAccess
  rw [if_pos hcond]
  simp only [Bpred.lookup, Bpred.updateGlobalHistReg]
  rw [Bpred.update_eq rfl]
  -- a right prediction has shifted the outcome in already
  by_cases hright : (p.predict b.curPC).finalPred = b.actualTaken
  · simp [hright]
  · simp [hright]

/-- **An unconditional branch shifts two bits in**: its prediction, and then
its outcome if that was predicted wrong and a one otherwise. -/
theorem bpredsimAccess_of_not_isCond (hcond : b.isCond = 0) :
    (bpredsimAccess p b).2.globalHistoryReg =
      shiftHistory p.historyRegisterMask
        (shiftHistory p.historyRegisterMask p.globalHistoryReg (p.predTaken b))
        (!p.predTaken b || b.actualTaken) := by
  unfold bpredsimAccess
  rw [if_neg (not_not.2 hcond)]
  simp only [Bpred.lookup, Bpred.updateGlobalHistReg, Bpred.uncondBranch, Bpred.predTaken]
  rw [Bpred.update_eq rfl]
  by_cases hright : (p.predict b.curPC).finalPred = b.actualTaken
  · simp [hright]
  · have hwrong := Bool.eq_not_of_ne hright
    simp [hwrong]

/-! ## A sequence of calls -/

/-- The predictor after a sequence of calls. -/
def bpredsimAccesses (p : Bpred) (calls : List Branch) : Bpred :=
  calls.foldl (fun p b => (bpredsimAccess p b).2) p

theorem Bpred.HasWidth.bpredsimAccesses (h : p.HasWidth k) (calls : List Branch) :
    (bpredsimAccesses p calls).HasWidth k := by
  induction calls generalizing p with
  | nil => exact h
  | cons b calls ih =>
    refine ih ⟨h.one_le, h.le, ?_⟩
    rw [bpredsimAccess_historyRegisterMask, h.mask_eq]

/-- The history after a call is the one before it, with the outcome of the
branch. -/
def RecordsOutcome (p : Bpred) (b : Branch) : Prop :=
  (bpredsimAccess p b).2.globalHistoryReg =
    (p.globalHistoryReg * 2 + b.actualTaken.toUInt32) &&& p.historyRegisterMask

/-- The branch is conditional, or the second bit goes unnoticed: the branch
is taken or was predicted so, and the history, without its oldest bit, has
the prediction everywhere. -/
def KeepsPace (p : Bpred) (b : Branch) : Prop :=
  b.isCond ≠ 0 ∨
    (p.predTaken b ∨ b.actualTaken) ∧
      (p.globalHistoryReg + (p.predTaken b).toUInt32) &&& (p.historyRegisterMask >>> 1) = 0

theorem Bpred.HasWidth.toNat_double_and (h : p.HasWidth k) (g : UInt32) (t : Bool) :
    ((g * 2 + t.toUInt32) &&& p.historyRegisterMask).toNat = push k g.toNat t := by
  rw [h.toNat_and, UInt32.toNat_add, UInt32.toNat_mul, toNat_toUInt32, Nat.mod_add_mod, h.mod_mod,
    push, Nat.mul_comm]
  rfl

theorem Bpred.HasWidth.and_half_eq_zero_iff (h : p.HasWidth k) (g : UInt32) (t : Bool) :
    (g + t.toUInt32) &&& (p.historyRegisterMask >>> 1) = 0 ↔ 2 ^ (k - 1) ∣ g.toNat + t.toNat := by
  have hhalf : (p.historyRegisterMask >>> 1).toNat = 2 ^ (k - 1) - 1 := by
    have hpow : 2 ^ k = 2 * 2 ^ (k - 1) := by rw [← pow_succ', Nat.sub_add_cancel h.one_le]
    rw [UInt32.toNat_shiftRight, h.mask_eq, hpow]
    simp only [UInt32.toNat_one, Nat.one_mod, Nat.shiftRight_eq_div_pow, pow_one]
    omega
  rw [← UInt32.toNat_inj, UInt32.toNat_and, hhalf, Nat.and_two_pow_sub_one_eq_mod, UInt32.toNat_add,
    toNat_toUInt32, Nat.mod_mod_of_dvd _ (pow_dvd_pow 2 (by have := h.le; omega))]
  exact (Nat.dvd_iff_mod_eq_zero ..).symm

/-- A call records the outcome just where it keeps pace. -/
theorem Bpred.HasWidth.recordsOutcome_iff (h : p.HasWidth k) (b : Branch) :
    RecordsOutcome p b ↔ KeepsPace p b := by
  unfold RecordsOutcome KeepsPace
  rw [← UInt32.toNat_inj, h.toNat_double_and]
  by_cases hcond : b.isCond = 0
  · -- the register sees two bits
    rw [bpredsimAccess_of_not_isCond hcond, h.toNat_shiftHistory, h.toNat_shiftHistory,
      push_push_eq_push_iff h.one_le, h.and_half_eq_zero_iff]
    have hbit : (!p.predTaken b || b.actualTaken) = b.actualTaken ↔
        (p.predTaken b ∨ b.actualTaken) := by
      cases p.predTaken b <;> cases b.actualTaken <;> decide
    simp only [hcond, hbit, ne_eq, not_true_eq_false, false_or]
  · rw [bpredsimAccess_of_isCond hcond, h.toNat_shiftHistory]
    exact ⟨fun _ => .inl hcond, fun _ => rfl⟩

/-- **The history records outcomes exactly where no unconditional branch
shifts a second bit in, or the bit goes unnoticed.** -/
theorem recordsOutcome_iff_keepsPace (h : p.HasWidth k) (calls : List Branch) :
    (∀ before b after, calls = before ++ b :: after →
      RecordsOutcome (bpredsimAccesses p before) b) ↔
    ∀ before b after, calls = before ++ b :: after →
      KeepsPace (bpredsimAccesses p before) b := by
  constructor
  · intro hrec before b after hcalls
    exact ((h.bpredsimAccesses before).recordsOutcome_iff b).1 (hrec before b after hcalls)
  · intro hpace before b after hcalls
    exact ((h.bpredsimAccesses before).recordsOutcome_iff b).2 (hpace before b after hcalls)

/-- A taken branch, executed twice. -/
def takenTwice (isCond : Int32) : List Branch := [⟨64, 128, isCond⟩, ⟨64, 128, isCond⟩]

theorem recordsOutcome_conditional :
    smallPredictor.HasWidth 32 ∧
      ∀ before b after, takenTwice 1 = before ++ b :: after →
        RecordsOutcome (bpredsimAccesses smallPredictor before) b := by
  have hwidth : smallPredictor.HasWidth 32 := ⟨by decide, by decide, by decide⟩
  refine ⟨hwidth, (recordsOutcome_iff_keepsPace hwidth (takenTwice 1)).2 ?_⟩
  intro before b after hcalls
  have hmem : b ∈ takenTwice 1 := by
    rw [hcalls]
    simp
  obtain rfl : b = ⟨64, 128, 1⟩ := by simpa [takenTwice] using hmem
  exact .inl (by decide)

theorem not_recordsOutcome_unconditional :
    smallPredictor.HasWidth 32 ∧
      ¬ RecordsOutcome (bpredsimAccesses smallPredictor [⟨64, 128, 0⟩]) ⟨64, 128, 0⟩ := by
  refine ⟨⟨by decide, by decide, by decide⟩, ?_⟩
  unfold RecordsOutcome
  decide

end Bpredsim

end Tqsim
