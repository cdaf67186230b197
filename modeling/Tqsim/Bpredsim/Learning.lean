import Tqsim.Bpredsim.Training
import Tqsim.Bpredsim.Width

/-!
# What the predictor learns

The distance of a predictor from an outcome is how far its choice counters,
and the direction counters that the choice of this outcome reads, are from
predicting it. A branch with that outcome never takes the predictor further
away, and takes it one step nearer if it was predicted wrong. So branches
that all have the same outcome are predicted wrong a bounded number of
times, and a branch that is executed again and again is in the end predicted
right every time.
-/

namespace Tqsim

namespace Bpredsim

open ShiftRegister (push testBit_foldl_push)

variable {p : Bpred} {b : Branch} {ctr : SatCounter} {table : UInt32 → SatCounter}
variable {j k c : ℕ} {o : Bool} {size bits idx i : UInt32}

/-! ## One counter -/

/-- The threshold of a counter of `c` bits. -/
def half (c : ℕ) : ℕ := 2 ^ (c - 1) - 1

/-- How far a counter is from predicting an outcome. -/
def SatCounter.away (ctr : SatCounter) (c : ℕ) (o : Bool) : ℕ :=
  if o then half c + 1 - ctr.counter.toNat else ctr.counter.toNat - half c

theorem two_pow_eq (hc : 1 ≤ c) : 2 ^ c = 2 * (half c + 1) := by
  have hpos := Nat.two_pow_pos (c - 1)
  rw [half, Nat.sub_add_cancel hpos, ← pow_succ', Nat.sub_add_cancel hc]

theorem SatCounter.away_eq_zero_iff {t : UInt32} (ht : t.toNat = half c) :
    ctr.away c o = 0 ↔ decide (ctr.readCounter > t) = o := by
  have hread : ctr.readCounter > t ↔ half c < ctr.counter.toNat := by
    rw [gt_iff_lt, UInt32.lt_iff_toNat_lt, ht, SatCounter.readCounter, UInt8.toNat_toUInt32]
  cases o with
  | true =>
    rw [decide_eq_true_iff, hread, SatCounter.away, if_pos rfl]
    omega
  | false =>
    rw [decide_eq_false_iff_not, hread, SatCounter.away, if_neg Bool.false_ne_true]
    omega

theorem SatCounter.HasBits.away_le (h : ctr.HasBits c) (hc : 1 ≤ c) (o : Bool) :
    ctr.away c o ≤ half c + 1 := by
  have hle := h.counter
  have hpow := two_pow_eq hc
  cases o with
  | true =>
    rw [SatCounter.away, if_pos rfl]
    omega
  | false =>
    rw [SatCounter.away, if_neg Bool.false_ne_true]
    omega

/-- **A counter moves one step nearer** to the outcome, until it is there. -/
theorem SatCounter.HasBits.away_toward (h : ctr.HasBits c) (hc : 1 ≤ c) (o : Bool) :
    (ctr.toward o).away c o = ctr.away c o - 1 := by
  have hle := h.counter
  have hpow := two_pow_eq hc
  have hstep := (h.toward o).2
  cases o with
  | true =>
    rw [SatCounter.away, SatCounter.away, if_pos rfl, if_pos rfl, hstep, saturate, if_pos rfl]
    omega
  | false =>
    rw [SatCounter.away, SatCounter.away, if_neg Bool.false_ne_true, if_neg Bool.false_ne_true,
      hstep, saturate, if_neg Bool.false_ne_true]
    omega

/-! ## A table -/

theorem train_self (table : UInt32 → SatCounter) (idx : UInt32) (o : Bool) :
    Bpred.train table idx o idx = (table idx).toward o := by
  rw [train_eq, Function.update_self]

/-- No counter of a table is moved away from the outcome. -/
theorem TableOf.away_train_le (h : TableOf table size bits) (hbits : bits.toNat = c) (hc : 1 ≤ c)
    (hidx : idx < size) (i : UInt32) (o : Bool) :
    (Bpred.train table idx o i).away c o ≤ (table i).away c o := by
  by_cases heq : i = idx
  · subst heq
    rw [train_self, SatCounter.HasBits.away_toward (hbits ▸ h i hidx) hc]
    omega
  · rw [train_eq, Function.update_of_ne heq]

/-- The counter that is moved comes nearer. -/
theorem TableOf.away_train_lt (h : TableOf table size bits) (hbits : bits.toNat = c) (hc : 1 ≤ c)
    (hidx : idx < size) (hne : (table idx).away c o ≠ 0) :
    (Bpred.train table idx o idx).away c o < (table idx).away c o := by
  rw [train_self, SatCounter.HasBits.away_toward (hbits ▸ h idx hidx) hc]
  omega

/-! ## The predictor -/

/-- **A regular predictor**: its direction tables have `2 ^ j` counters, its
history `k` bits, and all counters `c` bits, with the thresholds in the
middle. -/
structure Bpred.Regular (p : Bpred) (j k c : ℕ) : Prop where
  inOrder : p.InOrder
  globalSize : p.globalPredictorSize.toNat = 2 ^ j
  width : k ≤ 32
  historyMask : p.historyRegisterMask.toNat = 2 ^ k - 1
  history : p.globalHistoryReg.toNat < 2 ^ k
  one_le : 1 ≤ c
  choiceBits : p.choiceCtrBits.toNat = c
  globalBits : p.globalCtrBits.toNat = c
  choiceThreshold : p.choiceThreshold.toNat = half c
  takenThreshold : p.takenThreshold.toNat = half c
  notTakenThreshold : p.notTakenThreshold.toNat = half c

/-- The direction counters that the choice of an outcome reads. -/
def Bpred.direction (p : Bpred) (o : Bool) : UInt32 → SatCounter :=
  if o then p.takenCounters else p.notTakenCounters

theorem Bpred.Regular.tableOf_direction (h : p.Regular j k c) (o : Bool) :
    TableOf (p.direction o) p.globalPredictorSize p.globalCtrBits := by
  cases o with
  | true => exact h.inOrder.taken
  | false => exact h.inOrder.notTaken

/-- The choice is the outcome just when its counter is there. -/
theorem Bpred.Regular.takenUsed_eq_iff (h : p.Regular j k c) (a : UInt32) (o : Bool) :
    (p.predict a).takenUsed = o ↔
      (p.choiceCounters (p.choiceHistoryIdx a)).away c o = 0 :=
  (SatCounter.away_eq_zero_iff h.choiceThreshold).symm

/-- The prediction is the outcome just when the counter is there that the
choice reads. -/
theorem Bpred.Regular.finalPred_eq_iff (h : p.Regular j k c) (a : UInt32) (o : Bool) :
    (p.predict a).finalPred = o ↔
      (p.direction (p.predict a).takenUsed
        (p.globalHistoryIdx a p.globalHistoryReg)).away c o = 0 := by
  have hpred : (p.predict a).finalPred =
      if (p.predict a).takenUsed then (p.predict a).takenPred else (p.predict a).notTakenPred := rfl
  rw [hpred]
  cases (p.predict a).takenUsed with
  | true => exact (SatCounter.away_eq_zero_iff h.takenThreshold).symm
  | false => exact (SatCounter.away_eq_zero_iff h.notTakenThreshold).symm

/-! ## Predictors that are created -/

theorem toNat_threshold (hpos : 1 ≤ bits.toNat) (hle : bits.toNat ≤ 8) :
    (threshold bits).toNat = half bits.toNat := by
  obtain ⟨n, hn⟩ : ∃ n, bits.toNat = n := ⟨_, rfl⟩
  obtain rfl : bits = UInt32.ofNat n := by rw [← hn, UInt32.ofNat_toNat]
  rw [hn] at hpos hle ⊢
  interval_cases n <;> rfl

/-- **`bpred_create` makes a regular predictor** of tables of up to 64 direction
counters, if all counters have the same number of bits. -/
theorem regular_bpredCreate (heap : UInt32 → SatCounter) (instShiftAmt bits : UInt32) {l : ℕ}
    (hj : j ≤ 6) (hl : l ≤ 31) (hpos : 1 ≤ bits.toNat) (hle : bits.toNat ≤ 8) :
    ∃ p, bpredCreate heap instShiftAmt (UInt32.ofNat (2 ^ j)) (UInt32.ofNat (2 ^ l)) bits bits =
      some p ∧ p.Regular j (min (2 ^ j) 32) bits.toNat := by
  obtain ⟨m, hm, hmask⟩ := mask_two_pow hj
  have hsize : ∀ n : ℕ, n ≤ 31 → (UInt32.ofNat (2 ^ n)).toNat = 2 ^ n := fun n hn =>
    UInt32.toNat_ofNat_of_lt' (Nat.pow_lt_pow_right Nat.one_lt_two (show n < 32 by omega))
  have hj31 : j ≤ 31 := by omega
  refine ⟨_, by rw [bpredCreate, hm]; rfl, ?_⟩
  refine
    { inOrder := Bpred.New.inOrder ⟨⟨l, hsize l hl⟩, ⟨j, hsize j hj31⟩, rfl, rfl, ⟨hpos, hle⟩,
        ⟨hpos, hle⟩, fun i hi => if_pos hi, fun i hi => if_pos hi, fun i hi => if_pos hi⟩
      globalSize := hsize j hj31
      width := min_le_right _ _
      historyMask := hmask
      history := Nat.two_pow_pos _
      one_le := hpos
      choiceBits := rfl
      globalBits := rfl
      choiceThreshold := toNat_threshold hpos hle
      takenThreshold := toNat_threshold hpos hle
      notTakenThreshold := toNat_threshold hpos hle }

theorem regular_smallPredictor : smallPredictor.Regular 5 32 2 := by
  obtain ⟨p, hp, hr⟩ := regular_bpredCreate (fun _ => initCounter 0 2) 2 2 (j := 5) (l := 5)
    (by decide) (by decide) (by decide) (by decide)
  obtain rfl : smallPredictor = p := Option.get_of_eq_some _ hp
  exact hr

/-! ## One access -/

/-- **What an access on an unconditional branch changes.** It trains the taken
array under the history with its prediction. -/
theorem bpredsimAccess_uncond (p : Bpred) (hcond : b.isCond = 0) :
    bpredsimAccess p b = (true,
      { p with
        choiceCounters :=
          Bpred.train p.choiceCounters (p.choiceHistoryIdx b.curPC) b.actualTaken
        takenCounters := Bpred.train p.takenCounters (p.globalHistoryIdx b.curPC
          (shiftHistory p.historyRegisterMask p.globalHistoryReg (p.predTaken b))) b.actualTaken
        globalHistoryReg := shiftHistory p.historyRegisterMask
          (shiftHistory p.historyRegisterMask p.globalHistoryReg (p.predTaken b))
          (!p.predTaken b || b.actualTaken)
        numLookup := p.numLookup + 1 }) := by
  have hhist := bpredsimAccess_of_not_isCond (p := p) hcond
  unfold bpredsimAccess at hhist ⊢
  rw [if_neg (not_not.2 hcond)] at hhist ⊢
  simp only [Bpred.lookup, Bpred.uncondBranch] at hhist ⊢
  rw [Bpred.update_eq rfl] at hhist ⊢
  simp only at hhist
  rw [hhist]
  -- its record says that the taken array was used, and rightly so
  have hspare : ∀ hist : BPHistory, hist.takenUsed = true → hist.finalPred = true →
      ¬ hist.Spares b.actualTaken := fun hist hused hpred hs =>
    hs.1 (hused.trans (hpred.symm.trans hs.2))
  simp only [trainChoice_choiceCounters, (trainDirection_counters _ _ _ _).1,
    (trainDirection_counters _ _ _ _).2]
  rw [if_neg (hspare _ rfl rfl)]
  simp only [if_true]
  rfl

theorem toNat_shiftHistory_lt {mask : UInt32} (hmask : mask.toNat = 2 ^ k - 1) (g : UInt32)
    (t : Bool) : (shiftHistory mask g t).toNat < 2 ^ k := by
  rw [shiftHistory, UInt32.toNat_and, hmask, Nat.and_two_pow_sub_one_eq_mod]
  exact Nat.mod_lt _ (Nat.two_pow_pos k)

/-- **An access keeps a predictor regular.** -/
theorem Bpred.Regular.bpredsimAccess (h : p.Regular j k c) (b : Branch) :
    (Bpredsim.bpredsimAccess p b).2.Regular j k c := by
  have horder := h.inOrder.bpredsimAccess b
  by_cases hcond : b.isCond = 0
  · rw [bpredsimAccess_uncond p hcond] at horder ⊢
    exact ⟨horder, h.globalSize, h.width, h.historyMask,
      toNat_shiftHistory_lt h.historyMask _ _, h.one_le, h.choiceBits, h.globalBits,
      h.choiceThreshold, h.takenThreshold, h.notTakenThreshold⟩
  · rw [bpredsimAccess_cond p hcond] at horder ⊢
    exact ⟨horder, h.globalSize, h.width, h.historyMask,
      toNat_shiftHistory_lt h.historyMask _ _, h.one_le, h.choiceBits, h.globalBits,
      h.choiceThreshold, h.takenThreshold, h.notTakenThreshold⟩

theorem Bpred.Regular.bpredsimAccesses (h : p.Regular j k c) (calls : List Branch) :
    (bpredsimAccesses p calls).Regular j k c := by
  induction calls generalizing p with
  | nil => exact h
  | cons b calls ih => exact ih (h.bpredsimAccess b)

/-- No counter is further away from an outcome. -/
structure Nears (p p' : Bpred) (c : ℕ) (o : Bool) : Prop where
  choice : ∀ i, (p'.choiceCounters i).away c o ≤ (p.choiceCounters i).away c o
  direction : ∀ d i, (p'.direction d i).away c o ≤ (p.direction d i).away c o

theorem Bpred.Regular.choice_train_le (h : p.Regular j k c) (a i : UInt32) (o : Bool) :
    (Bpred.train p.choiceCounters (p.choiceHistoryIdx a) o i).away c o ≤
      (p.choiceCounters i).away c o :=
  h.inOrder.choice.away_train_le h.choiceBits h.one_le (h.inOrder.choiceHistoryIdx_lt a) i o

theorem Bpred.Regular.direction_train_le (h : p.Regular j k c) (d : Bool) (a g i : UInt32)
    (o : Bool) : (Bpred.train (p.direction d) (p.globalHistoryIdx a g) o i).away c o ≤
      (p.direction d i).away c o :=
  (h.tableOf_direction d).away_train_le h.globalBits h.one_le (h.inOrder.globalHistoryIdx_lt a g)
    i o

/-- Of the two arrays, the one that was used is trained. -/
theorem direction_bpredsimAccess (p : Bpred) (hcond : b.isCond ≠ 0) (d : Bool) :
    (bpredsimAccess p b).2.direction d =
      if (p.predict b.curPC).takenUsed = d then
        Bpred.train (p.direction d) (p.globalHistoryIdx b.curPC p.globalHistoryReg) b.actualTaken
      else p.direction d := by
  obtain ⟨htaken, hnotTaken⟩ := trainDirection_counters p b.curPC b.actualTaken (p.predict b.curPC)
  rw [bpredsimAccess_cond p hcond]
  simp only [Bpred.direction, htaken, hnotTaken]
  cases (p.predict b.curPC).takenUsed <;> cases d <;> rfl

/-- The choice is trained, but for the one case. -/
theorem choiceCounters_bpredsimAccess (p : Bpred) (hcond : b.isCond ≠ 0) :
    (bpredsimAccess p b).2.choiceCounters =
      if (p.predict b.curPC).Spares b.actualTaken then p.choiceCounters
      else Bpred.train p.choiceCounters (p.choiceHistoryIdx b.curPC) b.actualTaken := by
  rw [bpredsimAccess_cond p hcond]
  exact trainChoice_choiceCounters p b.curPC b.actualTaken (p.predict b.curPC)

/-- **An access takes no counter away from its outcome.** -/
theorem Bpred.Regular.nears (h : p.Regular j k c) (b : Branch) :
    Nears p (Bpredsim.bpredsimAccess p b).2 c b.actualTaken := by
  by_cases hcond : b.isCond = 0
  · rw [bpredsimAccess_uncond p hcond]
    refine ⟨fun i => h.choice_train_le _ i _, fun d i => ?_⟩
    cases d with
    | true => exact h.direction_train_le true _ _ i _
    | false => exact le_rfl
  · constructor
    · intro i
      rw [choiceCounters_bpredsimAccess p hcond]
      split_ifs
      · exact le_rfl
      · exact h.choice_train_le _ i _
    · intro d i
      rw [direction_bpredsimAccess p hcond]
      split_ifs
      · exact h.direction_train_le d _ _ i _
      · exact le_rfl

/-- **A wrong prediction takes one counter nearer**: the choice of the branch,
or the direction counter that the right choice reads. -/
theorem Bpred.Regular.nearer (h : p.Regular j k c)
    (hwrong : (Bpredsim.bpredsimAccess p b).1 = false) :
    ((Bpredsim.bpredsimAccess p b).2.choiceCounters (p.choiceHistoryIdx b.curPC)).away c
        b.actualTaken < (p.choiceCounters (p.choiceHistoryIdx b.curPC)).away c b.actualTaken ∨
    ((Bpredsim.bpredsimAccess p b).2.direction b.actualTaken
        (p.globalHistoryIdx b.curPC p.globalHistoryReg)).away c b.actualTaken <
      (p.direction b.actualTaken
        (p.globalHistoryIdx b.curPC p.globalHistoryReg)).away c b.actualTaken := by
  -- an unconditional branch is never said to be predicted wrong
  have hcond : b.isCond ≠ 0 := by
    intro hcond
    rw [bpredsimAccess_uncond p hcond] at hwrong
    exact Bool.noConfusion hwrong
  have hpred : (p.predict b.curPC).finalPred ≠ b.actualTaken := by
    rw [bpredsimAccess_cond p hcond] at hwrong
    simpa using hwrong
  by_cases hused : (p.predict b.curPC).takenUsed = b.actualTaken
  · right
    have haway := (h.finalPred_eq_iff b.curPC b.actualTaken).not.1 hpred
    rw [hused] at haway
    rw [direction_bpredsimAccess p hcond, if_pos hused]
    exact (h.tableOf_direction b.actualTaken).away_train_lt h.globalBits h.one_le
      (h.inOrder.globalHistoryIdx_lt _ _) haway
  · left
    have haway := (h.takenUsed_eq_iff b.curPC b.actualTaken).not.1 hused
    rw [choiceCounters_bpredsimAccess p hcond, if_neg fun hs => hpred hs.2]
    exact h.inOrder.choice.away_train_lt h.choiceBits h.one_le (h.inOrder.choiceHistoryIdx_lt _)
      haway

/-! ## The distance from an outcome -/

/-- **The distance of a predictor from an outcome**, in some of its choice and
direction counters. -/
def Bpred.distance (p : Bpred) (c : ℕ) (choices directions : Finset UInt32) (o : Bool) : ℕ :=
  (∑ i ∈ choices, (p.choiceCounters i).away c o) +
    ∑ i ∈ directions, (p.direction o i).away c o

variable {choices directions : Finset UInt32}

theorem Nears.distance_le {p' : Bpred} (h : Nears p p' c o) (choices directions : Finset UInt32) :
    p'.distance c choices directions o ≤ p.distance c choices directions o :=
  Nat.add_le_add (Finset.sum_le_sum fun i _ => h.choice i)
    (Finset.sum_le_sum fun i _ => h.direction o i)

/-- **A wrong prediction shortens the distance.** -/
theorem Bpred.Regular.distance_lt (h : p.Regular j k c)
    (hwrong : (Bpredsim.bpredsimAccess p b).1 = false)
    (hchoice : p.choiceHistoryIdx b.curPC ∈ choices)
    (hdirection : p.globalHistoryIdx b.curPC p.globalHistoryReg ∈ directions) :
    (Bpredsim.bpredsimAccess p b).2.distance c choices directions b.actualTaken <
      p.distance c choices directions b.actualTaken := by
  have hnears := h.nears b
  rcases h.nearer hwrong with hlt | hlt
  · exact Nat.add_lt_add_of_lt_of_le
      (Finset.sum_lt_sum (fun i _ => hnears.choice i) ⟨_, hchoice, hlt⟩)
      (Finset.sum_le_sum fun i _ => hnears.direction _ i)
  · exact Nat.add_lt_add_of_le_of_lt (Finset.sum_le_sum fun i _ => hnears.choice i)
      (Finset.sum_lt_sum (fun i _ => hnears.direction _ i) ⟨_, hdirection, hlt⟩)

/-- No counter of a table is further away than half of its range. -/
theorem Bpred.Regular.distance_le (h : p.Regular j k c)
    (hchoices : ∀ i ∈ choices, i < p.choicePredictorSize)
    (hdirections : ∀ i ∈ directions, i < p.globalPredictorSize) (o : Bool) :
    p.distance c choices directions o ≤ (choices.card + directions.card) * 2 ^ (c - 1) := by
  have hhalf : half c + 1 = 2 ^ (c - 1) := Nat.sub_add_cancel (Nat.two_pow_pos _)
  have hleft : ∑ i ∈ choices, (p.choiceCounters i).away c o ≤ choices.card * 2 ^ (c - 1) := by
    refine (Finset.sum_le_card_nsmul _ _ _ fun i hi => ?_).trans_eq (smul_eq_mul _ _)
    rw [← hhalf]
    exact SatCounter.HasBits.away_le (h.choiceBits ▸ h.inOrder.choice i (hchoices i hi)) h.one_le o
  have hright : ∑ i ∈ directions, (p.direction o i).away c o ≤
      directions.card * 2 ^ (c - 1) := by
    refine (Finset.sum_le_card_nsmul _ _ _ fun i hi => ?_).trans_eq (smul_eq_mul _ _)
    rw [← hhalf]
    exact SatCounter.HasBits.away_le
      (h.globalBits ▸ h.tableOf_direction o i (hdirections i hi)) h.one_le o
  rw [Nat.add_mul]
  exact Nat.add_le_add hleft hright

/-! ## Branches with one outcome -/

/-- The answers of a sequence of accesses. -/
def answers (p : Bpred) : List Branch → List Bool
  | [] => []
  | b :: calls => (bpredsimAccess p b).1 :: answers (bpredsimAccess p b).2 calls

theorem choiceHistoryIdx_bpredsimAccess (p : Bpred) (b : Branch) :
    (bpredsimAccess p b).2.choiceHistoryIdx = p.choiceHistoryIdx := by
  by_cases hcond : b.isCond = 0
  · rw [bpredsimAccess_uncond p hcond]
    rfl
  · rw [bpredsimAccess_cond p hcond]
    rfl

/-- **A uniform run**: every wrong prediction is charged to the distance. -/
theorem Bpred.Regular.count_answers_le (h : p.Regular j k c) {calls : List Branch}
    (hsame : ∀ b ∈ calls, b.actualTaken = o)
    (hchoices : ∀ b ∈ calls, p.choiceHistoryIdx b.curPC ∈ choices)
    (hdirections : ∀ i : UInt32, i.toNat < 2 ^ j → i ∈ directions) :
    (answers p calls).count false ≤ p.distance c choices directions o := by
  induction calls generalizing p with
  | nil => exact Nat.zero_le _
  | cons b calls ih =>
    obtain ⟨rfl, hsame⟩ := List.forall_mem_cons.1 hsame
    obtain ⟨hchoice, hchoices⟩ := List.forall_mem_cons.1 hchoices
    have hrest := ih (h.bpredsimAccess b) hsame
      (by rw [choiceHistoryIdx_bpredsimAccess]; exact hchoices)
    rw [answers]
    cases hans : (Bpredsim.bpredsimAccess p b).1 with
    | true =>
      rw [List.count_cons_of_ne (by decide)]
      exact hrest.trans ((h.nears b).distance_le choices directions)
    | false =>
      have hidx := h.inOrder.globalHistoryIdx_lt b.curPC p.globalHistoryReg
      rw [UInt32.lt_iff_toNat_lt, h.globalSize] at hidx
      have hlt := h.distance_lt hans hchoice (hdirections _ hidx)
      rw [List.count_cons_self]
      omega

/-- The indices of a table of `n` counters. -/
def indices (n : ℕ) : Finset UInt32 := (Finset.range n).image UInt32.ofNat

theorem mem_indices {n : ℕ} (hi : i.toNat < n) : i ∈ indices n :=
  Finset.mem_image.2 ⟨i.toNat, Finset.mem_range.2 hi, UInt32.ofNat_toNat⟩

theorem lt_of_mem_indices {n : ℕ} (hn : n ≤ 2 ^ 32) (hi : i ∈ indices n) : i.toNat < n := by
  obtain ⟨m, hm, rfl⟩ := Finset.mem_image.1 hi
  have hlt := Finset.mem_range.1 hm
  rw [UInt32.toNat_ofNat_of_lt' (hlt.trans_le hn)]
  exact hlt

/-- The choice counters of some branches. -/
def Bpred.choiceIndices (p : Bpred) (calls : List Branch) : Finset UInt32 :=
  (calls.map Branch.curPC).toFinset.image p.choiceHistoryIdx

/-- **Branches with the same outcome are soon predicted right.** From any
regular predictor, however many branches are executed and wherever they are,
the number of wrong predictions is bounded: half the range of a counter for
each different branch, and for each direction counter of one array. -/
theorem Bpred.Regular.mispredictions_le (h : p.Regular j k c) (calls : List Branch)
    (hsame : ∀ b ∈ calls, b.actualTaken = o) :
    (answers p calls).count false ≤
      ((calls.map Branch.curPC).toFinset.card + 2 ^ j) * 2 ^ (c - 1) := by
  have hchoices : ∀ b ∈ calls, p.choiceHistoryIdx b.curPC ∈ p.choiceIndices calls := by
    intro b hb
    exact Finset.mem_image_of_mem _ (List.mem_toFinset.2 (List.mem_map_of_mem hb))
  have hin : ∀ i ∈ p.choiceIndices calls, i < p.choicePredictorSize := by
    intro i hi
    obtain ⟨a, -, rfl⟩ := Finset.mem_image.1 hi
    exact h.inOrder.choiceHistoryIdx_lt a
  have hsize : 2 ^ j ≤ 2 ^ 32 := by
    rw [← h.globalSize]
    exact p.globalPredictorSize.toNat_lt.le
  have hdirections : ∀ i ∈ indices (2 ^ j), i < p.globalPredictorSize := by
    intro i hi
    rw [UInt32.lt_iff_toNat_lt, h.globalSize]
    exact lt_of_mem_indices hsize hi
  have hcard : (indices (2 ^ j)).card ≤ 2 ^ j :=
    Finset.card_image_le.trans_eq (Finset.card_range _)
  calc (answers p calls).count false
      ≤ p.distance c (p.choiceIndices calls) (indices (2 ^ j)) o :=
        h.count_answers_le hsame hchoices fun _ => mem_indices
    _ ≤ ((p.choiceIndices calls).card + (indices (2 ^ j)).card) * 2 ^ (c - 1) :=
        h.distance_le hin hdirections o
    _ ≤ ((calls.map Branch.curPC).toFinset.card + 2 ^ j) * 2 ^ (c - 1) :=
        Nat.mul_le_mul_right _ (Nat.add_le_add Finset.card_image_le hcard)

/-- The back edges of two loops, one loop after the other. -/
theorem mispredictions_le_smallPredictor :
    (answers smallPredictor (List.replicate 20 ⟨64, 32, 1⟩ ++ List.replicate 20 ⟨96, 80, 1⟩)).count
      false ≤ 68 :=
  (regular_smallPredictor.mispredictions_le (o := true) _ (by decide)).trans (by decide)

/-! ## One branch, again and again -/

/-- The predictor after a branch has been executed `n` times. -/
def Bpred.after (p : Bpred) (b : Branch) (n : ℕ) : Bpred := bpredsimAccesses p (List.replicate n b)

theorem Bpred.after_succ (p : Bpred) (b : Branch) (n : ℕ) :
    p.after b (n + 1) = (bpredsimAccess p b).2.after b n := rfl

theorem toNat_shiftHistory {mask : UInt32} (hk : k ≤ 32) (hmask : mask.toNat = 2 ^ k - 1)
    (g : UInt32) (t : Bool) : (shiftHistory mask g t).toNat = push k g.toNat t := by
  rw [shiftHistory, UInt32.toNat_and, hmask, Nat.and_two_pow_sub_one_eq_mod, toNat_shiftLeft_or,
    Nat.mod_mod_of_dvd _ (pow_dvd_pow 2 hk), push]

theorem Bpred.Regular.toNat_history_after (h : p.Regular j k c) (hcond : b.isCond ≠ 0) (n : ℕ) :
    (p.after b n).globalHistoryReg.toNat =
      (List.replicate n b.actualTaken).foldl (push k) p.globalHistoryReg.toNat := by
  induction n generalizing p with
  | zero => rfl
  | succ n ih =>
    rw [Bpred.after_succ, ih (h.bpredsimAccess b), bpredsimAccess_of_isCond hcond,
      toNat_shiftHistory h.width h.historyMask, List.replicate_succ, List.foldl_cons]

/-- The history of a branch that has had the same outcome all the time. -/
def Bpred.steadyHistory (p : Bpred) (o : Bool) : UInt32 := if o then p.historyRegisterMask else 0

theorem Bpred.Regular.testBit_steadyHistory (h : p.Regular j k c) (o : Bool) (i : ℕ) :
    (p.steadyHistory o).toNat.testBit i = (decide (i < k) && o) := by
  cases o with
  | true =>
    rw [Bpred.steadyHistory, if_pos rfl, h.historyMask, Nat.testBit_two_pow_sub_one,
      Bool.and_true]
  | false =>
    rw [Bpred.steadyHistory, if_neg Bool.false_ne_true, UInt32.toNat_zero, Nat.zero_testBit,
      Bool.and_false]

theorem after_frame (p : Bpred) (hcond : b.isCond ≠ 0) (n : ℕ) :
    (p.after b n).instShiftAmt = p.instShiftAmt ∧
      (p.after b n).globalHistoryMask = p.globalHistoryMask := by
  induction n generalizing p with
  | zero => exact ⟨rfl, rfl⟩
  | succ n ih =>
    obtain ⟨hshift, hmask⟩ := ih (bpredsimAccess p b).2
    rw [bpredsimAccess_cond p hcond] at hshift hmask
    rw [Bpred.after_succ, bpredsimAccess_cond p hcond]
    exact ⟨hshift, hmask⟩

theorem Bpred.Regular.toNat_globalMask (h : p.Regular j k c) :
    p.globalHistoryMask.toNat = 2 ^ j - 1 := by
  have hpos := Nat.two_pow_pos j
  have hone : (1 : UInt32) ≤ p.globalPredictorSize := by
    rw [UInt32.le_iff_toNat_le, h.globalSize, UInt32.toNat_one]
    omega
  rw [h.inOrder.globalMask, UInt32.toNat_sub_of_le _ _ hone, h.globalSize, UInt32.toNat_one]

/-- **The index settles** once the outcome has filled the history, or the part
of it that the index has. -/
theorem Bpred.Regular.globalHistoryIdx_after (h : p.Regular j k c) (hcond : b.isCond ≠ 0) {n : ℕ}
    (hn : min j k ≤ n) (a : UInt32) :
    (p.after b n).globalHistoryIdx a (p.after b n).globalHistoryReg =
      p.globalHistoryIdx a (p.steadyHistory b.actualTaken) := by
  obtain ⟨hshift, hmask⟩ := after_frame p hcond n
  have hafter : (p.after b n).Regular j k c := h.bpredsimAccesses _
  rw [Bpred.globalHistoryIdx, Bpred.globalHistoryIdx, hshift, hmask, ← UInt32.toNat_inj,
    UInt32.toNat_and, UInt32.toNat_and, h.toNat_globalMask, Nat.and_two_pow_sub_one_eq_mod,
    Nat.and_two_pow_sub_one_eq_mod, UInt32.toNat_xor, UInt32.toNat_xor]
  apply Nat.eq_of_testBit_eq
  intro i
  rw [Nat.testBit_mod_two_pow, Nat.testBit_mod_two_pow, Nat.testBit_xor, Nat.testBit_xor,
    h.testBit_steadyHistory]
  by_cases hij : i < j
  · by_cases hik : i < k
    · -- a bit of the register, where the outcome is
      have hbit : (List.replicate n b.actualTaken).reverse[i]? = some b.actualTaken := by
        rw [List.reverse_replicate, List.getElem?_replicate, if_pos (by omega)]
      rw [h.toNat_history_after hcond, testBit_foldl_push _ hik hbit]
      simp [hik]
    · have hlt : (p.after b n).globalHistoryReg.toNat < 2 ^ i :=
        hafter.history.trans_le (Nat.pow_le_pow_right Nat.two_pos (by omega))
      rw [Nat.testBit_lt_two_pow hlt]
      simp [hik]
  · simp [hij]

/-- The prediction is right just when the answer says so. -/
theorem finalPred_eq_iff_answer (p : Bpred) (hcond : b.isCond ≠ 0) :
    (p.predict b.curPC).finalPred = b.actualTaken ↔ (bpredsimAccess p b).1 = true := by
  rw [bpredsimAccess_cond p hcond, beq_iff_eq]

/-- **Once right, always right**, as long as the index stays. -/
theorem Bpred.Regular.right_again (h : p.Regular j k c) (hcond : b.isCond ≠ 0)
    (hidx : (Bpredsim.bpredsimAccess p b).2.globalHistoryIdx b.curPC
        (Bpredsim.bpredsimAccess p b).2.globalHistoryReg =
      p.globalHistoryIdx b.curPC p.globalHistoryReg)
    (hright : (Bpredsim.bpredsimAccess p b).1 = true) :
    (Bpredsim.bpredsimAccess (Bpredsim.bpredsimAccess p b).2 b).1 = true := by
  have hnext := h.bpredsimAccess b
  have hnears := h.nears b
  have hpred := (finalPred_eq_iff_answer p hcond).2 hright
  have haway := (h.finalPred_eq_iff b.curPC b.actualTaken).1 hpred
  -- the choice reads the same array as before
  have hused : ((Bpredsim.bpredsimAccess p b).2.predict b.curPC).takenUsed =
      (p.predict b.curPC).takenUsed := by
    by_cases hagree : (p.predict b.curPC).takenUsed = b.actualTaken
    · have hzero := (h.takenUsed_eq_iff b.curPC b.actualTaken).1 hagree
      rw [hagree, hnext.takenUsed_eq_iff, choiceHistoryIdx_bpredsimAccess]
      exact Nat.le_zero.1 (hzero ▸ hnears.choice _)
    · have hsame : (Bpredsim.bpredsimAccess p b).2.choiceCounters = p.choiceCounters := by
        rw [choiceCounters_bpredsimAccess p hcond, if_pos ⟨hagree, hpred⟩]
      rw [hnext.takenUsed_eq_iff, choiceHistoryIdx_bpredsimAccess, hsame, ← h.takenUsed_eq_iff]
  rw [← finalPred_eq_iff_answer _ hcond, hnext.finalPred_eq_iff, hused, hidx]
  exact Nat.le_zero.1 (haway ▸ hnears.direction _ _)

/-- The index of a branch stays, however often it is executed. -/
def Bpred.Steady (p : Bpred) (b : Branch) (g : UInt32) : Prop :=
  ∀ n, (p.after b n).globalHistoryIdx b.curPC (p.after b n).globalHistoryReg = g

theorem Bpred.Steady.next {g : UInt32} (h : p.Steady b g) : (bpredsimAccess p b).2.Steady b g :=
  fun n => h (n + 1)

theorem Bpred.Regular.right_forever (h : p.Regular j k c) (hcond : b.isCond ≠ 0) {g : UInt32}
    (hsteady : p.Steady b g) (hright : (Bpredsim.bpredsimAccess p b).1 = true) (n : ℕ) :
    (Bpredsim.bpredsimAccess (p.after b n) b).1 = true := by
  induction n generalizing p with
  | zero => exact hright
  | succ n ih =>
    have hidx := (hsteady 1).trans (hsteady 0).symm
    exact ih (h.bpredsimAccess b) hsteady.next (h.right_again hcond hidx hright)

/-- A branch whose index stays is predicted right after as many executions as
the predictor is away from its outcome. -/
theorem Bpred.Regular.right_of_distance_le (h : p.Regular j k c) (hcond : b.isCond ≠ 0)
    {g : UInt32} (hsteady : p.Steady b g) {d : ℕ}
    (hd : p.distance c {p.choiceHistoryIdx b.curPC} {g} b.actualTaken ≤ d) {n : ℕ} (hn : d ≤ n) :
    (Bpredsim.bpredsimAccess (p.after b n) b).1 = true := by
  induction d generalizing p n with
  | zero =>
    refine h.right_forever hcond hsteady ?_ n
    by_contra hwrong
    have hlt := h.distance_lt (Bool.eq_false_iff.2 hwrong) (Finset.mem_singleton_self _)
      (Finset.mem_singleton.2 (hsteady 0))
    omega
  | succ d ih =>
    by_cases hright : (Bpredsim.bpredsimAccess p b).1 = true
    · exact h.right_forever hcond hsteady hright n
    · -- a wrong prediction is one step of the distance
      have hlt := h.distance_lt (Bool.eq_false_iff.2 hright) (Finset.mem_singleton_self _)
        (Finset.mem_singleton.2 (hsteady 0))
      obtain ⟨m, rfl⟩ : ∃ m, n = m + 1 := ⟨n - 1, by omega⟩
      rw [Bpred.after_succ]
      refine ih (h.bpredsimAccess b) hsteady.next ?_ (by omega)
      rw [choiceHistoryIdx_bpredsimAccess]
      omega

/-- One choice counter and one direction counter. -/
theorem Bpred.Regular.distance_singleton_le (h : p.Regular j k c) (a g : UInt32) (o : Bool) :
    p.distance c {p.choiceHistoryIdx a} {p.globalHistoryIdx a g} o ≤ 2 ^ c := by
  have hchoice : ∀ i ∈ ({p.choiceHistoryIdx a} : Finset UInt32), i < p.choicePredictorSize := by
    intro i hi
    rw [Finset.mem_singleton.1 hi]
    exact h.inOrder.choiceHistoryIdx_lt a
  have hdirection : ∀ i ∈ ({p.globalHistoryIdx a g} : Finset UInt32),
      i < p.globalPredictorSize := by
    intro i hi
    rw [Finset.mem_singleton.1 hi]
    exact h.inOrder.globalHistoryIdx_lt a g
  have hpow : (1 + 1) * 2 ^ (c - 1) = 2 ^ c := by
    rw [Nat.one_add, ← pow_succ', Nat.sub_add_cancel h.one_le]
  exact (h.distance_le hchoice hdirection o).trans_eq hpow

theorem Bpred.after_add (p : Bpred) (b : Branch) (m n : ℕ) :
    p.after b (m + n) = (p.after b m).after b n := by
  rw [Bpred.after, Bpred.after, Bpred.after, List.replicate_add, bpredsimAccesses,
    List.foldl_append]
  rfl

/-- **A branch that is executed again and again is learned.** From any regular
predictor, a conditional branch with the same outcome every time is predicted
right from some execution on: the history has taken up the outcome after at
most as many executions as the index has bits, and the counters after as many
more as they have values. -/
theorem Bpred.Regular.learns (h : p.Regular j k c) (b : Branch) (hcond : b.isCond ≠ 0) (n : ℕ)
    (hn : min j k + 2 ^ c ≤ n) : (Bpredsim.bpredsimAccess (p.after b n) b).1 = true := by
  obtain ⟨m, rfl⟩ := Nat.exists_eq_add_of_le ((Nat.le_add_right _ _).trans hn)
  have hsettled : (p.after b (min j k)).Regular j k c := h.bpredsimAccesses _
  have hidx : ∀ i, min j k ≤ i → (p.after b i).globalHistoryIdx b.curPC
      (p.after b i).globalHistoryReg = p.globalHistoryIdx b.curPC
        (p.steadyHistory b.actualTaken) :=
    fun i hi => h.globalHistoryIdx_after hcond hi b.curPC
  have hsteady : (p.after b (min j k)).Steady b
      ((p.after b (min j k)).globalHistoryIdx b.curPC
        (p.after b (min j k)).globalHistoryReg) := by
    intro i
    rw [← Bpred.after_add, hidx _ (Nat.le_add_right _ _), hidx _ le_rfl]
  rw [Bpred.after_add]
  exact hsettled.right_of_distance_le hcond hsteady
    (hsettled.distance_singleton_le b.curPC _ b.actualTaken) (by omega)

/-- The back edge of a loop, from the tenth execution on; the first one is
predicted wrong. -/
theorem learns_smallPredictor :
    (bpredsimAccess smallPredictor ⟨64, 32, 1⟩).1 = false ∧
      ∀ n, 9 ≤ n → (bpredsimAccess (smallPredictor.after ⟨64, 32, 1⟩ n) ⟨64, 32, 1⟩).1 = true :=
  ⟨by decide, fun n hn => regular_smallPredictor.learns ⟨64, 32, 1⟩ (by decide) n hn⟩

end Bpredsim

end Tqsim
