import Tqsim.Bpredsim.History

/-!
# The width of the history

`bpred_create` takes the size of the direction tables for the number of bits
of the history. The register is wide enough then, by far; but `mask` shifts by
as many bits, and a shift by more than 64 is undefined. `bpredsim_initialize`
asks for tables of 4096 counters.
-/

namespace Tqsim

namespace Bpredsim

open ShiftRegister (push testBit_foldl_push)

variable {p : Bpred} {k w : ℕ}

/-- The predictor after some outcomes have entered its history. -/
def Bpred.record (p : Bpred) (outcomes : List Bool) : Bpred :=
  outcomes.foldl Bpred.updateGlobalHistReg p

/-- The direction counter that is looked up for a branch. -/
def Bpred.selects (p : Bpred) (pc : UInt32) : UInt32 := p.globalHistoryIdx pc p.globalHistoryReg

/-- **The history tells branches apart** by any of the last `k` outcomes, from
whatever history on. -/
def Bpred.TellsApart (p : Bpred) (k : ℕ) : Prop :=
  ∀ (g g' pc : UInt32) (outcomes outcomes' : List Bool) (i : ℕ) (t t' : Bool), i < k →
    outcomes.reverse[i]? = some t → outcomes'.reverse[i]? = some t' → t ≠ t' →
      (({ p with globalHistoryReg := g } : Bpred).record outcomes).selects pc ≠
        (({ p with globalHistoryReg := g' } : Bpred).record outcomes').selects pc

/-- **The history is wide enough** for tables of `2 ^ k` counters: the predictor
is created, its register has all bits of the index, and any of them tells
histories apart. -/
def WideEnough (created : Option Bpred) (k : ℕ) : Prop :=
  ∃ p, created = some p ∧ p.globalHistoryMask &&& p.historyRegisterMask = p.globalHistoryMask ∧
    p.TellsApart k

/-! ## The register -/

theorem Bpred.HasWidth.toNat_record (h : p.HasWidth w) (outcomes : List Bool) :
    (p.record outcomes).globalHistoryReg.toNat =
      outcomes.foldl (push w) p.globalHistoryReg.toNat := by
  induction outcomes generalizing p with
  | nil => rfl
  | cons t outcomes ih =>
    have hwidth : (p.updateGlobalHistReg t).HasWidth w := ⟨h.one_le, h.le, h.mask_eq⟩
    have hnext : (p.updateGlobalHistReg t).globalHistoryReg.toNat =
        push w p.globalHistoryReg.toNat t := h.toNat_shiftHistory _ t
    rw [List.foldl_cons, ← hnext]
    exact ih hwidth

/-- What does not depend on the history. -/
theorem record_frame (p : Bpred) (outcomes : List Bool) :
    (p.record outcomes).instShiftAmt = p.instShiftAmt ∧
      (p.record outcomes).globalHistoryMask = p.globalHistoryMask := by
  induction outcomes generalizing p with
  | nil => exact ⟨rfl, rfl⟩
  | cons t outcomes ih => exact ih (p.updateGlobalHistReg t)

/-- A bit of the index is that of the branch, flipped by an outcome. -/
theorem Bpred.HasWidth.testBit_selects (h : p.HasWidth w) (hkw : k ≤ w)
    (hmask : p.globalHistoryMask.toNat = 2 ^ k - 1) {outcomes : List Bool} {i : ℕ} (hi : i < k)
    {t : Bool} (ht : outcomes.reverse[i]? = some t) (pc : UInt32) :
    ((p.record outcomes).selects pc).toNat.testBit i =
      ((pc >>> p.instShiftAmt).toNat.testBit i ^^ t) := by
  obtain ⟨hshift, hglobal⟩ := record_frame p outcomes
  rw [Bpred.selects, Bpred.globalHistoryIdx, hshift, hglobal, UInt32.toNat_and, hmask,
    Nat.and_two_pow_sub_one_eq_mod, Nat.testBit_mod_two_pow, UInt32.toNat_xor, Nat.testBit_xor,
    h.toNat_record, testBit_foldl_push _ (by omega) ht]
  simp [hi]

/-- **A register as wide as the index tells histories apart.** -/
theorem Bpred.HasWidth.tellsApart (h : p.HasWidth w) (hkw : k ≤ w)
    (hmask : p.globalHistoryMask.toNat = 2 ^ k - 1) : p.TellsApart k := by
  intro g g' pc outcomes outcomes' i t t' hi ht ht' hne heq
  have hbit := congrArg (fun x : UInt32 => x.toNat.testBit i) heq
  have hw : ∀ g, ({ p with globalHistoryReg := g } : Bpred).HasWidth w := fun _ =>
    ⟨h.one_le, h.le, h.mask_eq⟩
  rw [(hw g).testBit_selects hkw hmask hi ht, (hw g').testBit_selects hkw hmask hi ht'] at hbit
  exact hne (by simpa using hbit)

/-! ## The mask -/

/-- The mask of `2 ^ k` bits, of which a register has at most 32. -/
theorem mask_two_pow (hk : k ≤ 6) :
    ∃ m, mask (UInt32.ofNat (2 ^ k)) = some m ∧ m.toUInt32.toNat = 2 ^ min (2 ^ k) 32 - 1 := by
  interval_cases k <;> exact ⟨_, rfl, by decide⟩

/-- More than 64 bits cannot be shifted out. -/
theorem mask_eq_none (hk : 7 ≤ k) (hle : k ≤ 30) : mask (UInt32.ofNat (2 ^ k)) = none := by
  have hlt : 2 ^ k < 2 ^ 32 := Nat.pow_lt_pow_right Nat.one_lt_two (by omega)
  have hge : 2 ^ 7 ≤ 2 ^ k := Nat.pow_le_pow_right Nat.two_pos hk
  have hnat : (UInt32.ofNat (2 ^ k)).toNat = 2 ^ k := UInt32.toNat_ofNat_of_lt' hlt
  have hne : UInt32.ofNat (2 ^ k) ≠ 64 := fun heq => by
    rw [heq, show (64 : UInt32).toNat = 64 from rfl] at hnat
    omega
  have hnlt : ¬ UInt32.ofNat (2 ^ k) < 64 := by
    rw [UInt32.lt_iff_toNat_lt, hnat, show (64 : UInt32).toNat = 64 from rfl]
    omega
  rw [mask, if_neg hne, if_neg hnlt]

/-- **When the history is wide enough for its table**: for tables of up to 64
counters. -/
theorem wideEnough_iff (heap : UInt32 → SatCounter)
    (instShiftAmt choicePredictorSize choiceCtrBits globalCtrBits : UInt32) (k : ℕ) (hpos : 1 ≤ k)
    (hle : k ≤ 30) :
    WideEnough (bpredCreate heap instShiftAmt (UInt32.ofNat (2 ^ k)) choicePredictorSize
      choiceCtrBits globalCtrBits) k ↔ k ≤ 6 := by
  unfold bpredCreate
  constructor
  · rintro ⟨p, hp, -⟩
    by_contra hlarge
    rw [mask_eq_none (by omega) hle] at hp
    simp at hp
  · intro hsmall
    obtain ⟨m, hm, hbits⟩ := mask_two_pow hsmall
    rw [hm, Option.map_some]
    -- the index has `k` bits, and the register no fewer
    have hk : k ≤ min (2 ^ k) 32 := le_min Nat.lt_two_pow_self.le (by omega)
    have hglobal : (UInt32.ofNat (2 ^ k) - 1).toNat = 2 ^ k - 1 := by
      interval_cases k <;> rfl
    have hand : (UInt32.ofNat (2 ^ k) - 1) &&& m.toUInt32 = UInt32.ofNat (2 ^ k) - 1 := by
      rw [← UInt32.toNat_inj, UInt32.toNat_and, hbits, Nat.and_two_pow_sub_one_eq_mod, hglobal]
      have := Nat.pow_le_pow_right Nat.two_pos hk
      have := Nat.two_pow_pos k
      exact Nat.mod_eq_of_lt (by omega)
    refine ⟨_, rfl, hand,
      Bpred.HasWidth.tellsApart (w := min (2 ^ k) 32) ⟨?_, ?_, hbits⟩ hk hglobal⟩
    · omega
    · exact min_le_right _ _

/-- Tables of 64 counters. -/
theorem wideEnough_sixtyFour :
    WideEnough (bpredCreate (fun _ => initCounter 0 2) 2 64 64 2 2) 6 :=
  (wideEnough_iff (fun _ => initCounter 0 2) 2 64 2 2 6 (by decide) (by decide)).2 (by decide)

/-- **The tables of `bpredsim_initialize`**: `mask` shifts by 4096 bits. -/
theorem bpredsimInitialize_not_wideEnough :
    mask 4096 = none ∧ ¬ WideEnough (bpredsimInitialize fun _ => initCounter 0 2) 12 := by
  refine ⟨by decide, ?_⟩
  rintro ⟨p, hp, -⟩
  have hnone : bpredsimInitialize (fun _ => initCounter 0 2) = none := rfl
  rw [hnone] at hp
  simp at hp

end Bpredsim

end Tqsim
