import Tqsim.Bpredsim.History

/-!
# How the predictor is trained

The rule of a bi-mode predictor, for the code that keeps a copy of the
history and of the prediction from the lookup to the update: of the two
direction counters at the index that was looked up, the one that the choice
predictor picked is moved towards the outcome, and the choice counter of the
branch as well, unless the choice was wrong and the prediction right all the
same. All other counters stay as they are, whatever branches came before.
-/

namespace Tqsim

namespace Bpredsim

variable {p : Bpred} {b : Branch} {counters : UInt32 → SatCounter} {size bits idx : UInt32}

/-! ## Counters -/

/-- **One saturating step** of a number of so many bits. -/
def saturate (bits n : ℕ) (up : Bool) : ℕ := if up then min (n + 1) (2 ^ bits - 1) else n - 1

/-- A counter of so many bits. -/
structure SatCounter.HasBits (c : SatCounter) (bits : ℕ) : Prop where
  maxVal : c.maxVal.toNat = 2 ^ bits - 1
  counter : c.counter.toNat ≤ 2 ^ bits - 1

/-- A counter, moved towards an outcome. -/
def SatCounter.toward (c : SatCounter) (taken : Bool) : SatCounter :=
  if taken then c.incrementCounter else c.decrementCounter

theorem SatCounter.HasBits.toward {c : SatCounter} {bits : ℕ} (h : c.HasBits bits) (taken : Bool) :
    (c.toward taken).HasBits bits ∧
      (c.toward taken).counter.toNat = saturate bits c.counter.toNat taken := by
  have hmax := h.maxVal
  have hle := h.counter
  have hlt := c.maxVal.toNat_lt
  cases taken with
  | true =>
    simp only [SatCounter.toward, SatCounter.incrementCounter, saturate, if_true]
    split_ifs with hless
    · have hnat := UInt8.lt_iff_toNat_lt.1 hless
      have hadd : (c.counter + 1).toNat = c.counter.toNat + 1 := by
        rw [UInt8.toNat_add, UInt8.toNat_one]
        omega
      exact ⟨⟨hmax, by simp only [hadd]; omega⟩, by simp only [hadd]; omega⟩
    · have hnat := UInt8.lt_iff_toNat_lt.not.1 hless
      exact ⟨h, by omega⟩
  | false =>
    simp only [SatCounter.toward, SatCounter.decrementCounter, saturate, Bool.false_eq_true,
      if_false]
    split_ifs with hpos
    · have hnat := UInt8.lt_iff_toNat_lt.1 hpos
      rw [UInt8.toNat_zero] at hnat
      have hone : (1 : UInt8) ≤ c.counter :=
        UInt8.le_iff_toNat_le.2 (by rw [UInt8.toNat_one]; omega)
      have hsub : (c.counter - 1).toNat = c.counter.toNat - 1 := by
        rw [UInt8.toNat_sub_of_le _ _ hone, UInt8.toNat_one]
      exact ⟨⟨hmax, by simp only [hsub]; omega⟩, hsub⟩
    · have hnat := UInt8.lt_iff_toNat_lt.not.1 hpos
      rw [UInt8.toNat_zero] at hnat
      exact ⟨h, by omega⟩

theorem hasBits_initCounter {bits : UInt32} (hpos : 1 ≤ bits.toNat) (hle : bits.toNat ≤ 8) :
    (initCounter 0 bits).HasBits bits.toNat := by
  obtain ⟨n, hn⟩ : ∃ n, bits.toNat = n := ⟨_, rfl⟩
  obtain rfl : bits = UInt32.ofNat n := by rw [← hn, UInt32.ofNat_toNat]
  rw [hn] at hpos hle ⊢
  interval_cases n <;> exact ⟨rfl, Nat.zero_le _⟩

/-! ## Tables -/

/-- A table whose counters have so many bits. -/
def TableOf (counters : UInt32 → SatCounter) (size bits : UInt32) : Prop :=
  ∀ i < size, (counters i).HasBits bits.toNat

/-- One counter is moved, and the others are not. -/
structure Moves (counters counters' : UInt32 → SatCounter) (bits idx : UInt32) (taken : Bool) :
    Prop where
  counter : (counters' idx).counter.toNat =
    saturate bits.toNat (counters idx).counter.toNat taken
  others : ∀ i ≠ idx, counters' i = counters i

theorem train_eq (counters : UInt32 → SatCounter) (idx : UInt32) (taken : Bool) :
    Bpred.train counters idx taken = Function.update counters idx ((counters idx).toward taken) :=
  rfl

theorem TableOf.train (h : TableOf counters size bits) (idx : UInt32) (taken : Bool) :
    TableOf (Bpred.train counters idx taken) size bits := by
  intro i hi
  rw [train_eq]
  by_cases heq : i = idx
  · subst heq
    rw [Function.update_self]
    exact ((h i hi).toward taken).1
  · rw [Function.update_of_ne heq]
    exact h i hi

theorem TableOf.moves (h : TableOf counters size bits) (hidx : idx < size) (taken : Bool) :
    Moves counters (Bpred.train counters idx taken) bits idx taken := by
  rw [train_eq]
  refine ⟨?_, fun i hi => Function.update_of_ne hi _ _⟩
  rw [Function.update_self]
  exact ((h idx hidx).toward taken).2

/-- An index under the mask of a table lies in it. -/
theorem and_mask_lt {mask : UInt32} {k : ℕ} (hsize : size.toNat = 2 ^ k) (hmask : mask = size - 1)
    (x : UInt32) : x &&& mask < size := by
  have hpos := Nat.two_pow_pos k
  have hone : (1 : UInt32) ≤ size := UInt32.le_iff_toNat_le.2 (by rw [UInt32.toNat_one]; omega)
  rw [UInt32.lt_iff_toNat_lt, UInt32.toNat_and, hmask, UInt32.toNat_sub_of_le _ _ hone, hsize,
    UInt32.toNat_one, Nat.and_two_pow_sub_one_eq_mod]
  exact Nat.mod_lt _ hpos

/-- **A predictor with its tables in order**: their sizes are powers of two,
the masks leave the indices in them, and no counter is out of its range. -/
structure Bpred.InOrder (p : Bpred) : Prop where
  choiceSize : ∃ k, p.choicePredictorSize.toNat = 2 ^ k
  globalSize : ∃ k, p.globalPredictorSize.toNat = 2 ^ k
  choiceMask : p.choiceHistoryMask = p.choicePredictorSize - 1
  globalMask : p.globalHistoryMask = p.globalPredictorSize - 1
  choice : TableOf p.choiceCounters p.choicePredictorSize p.choiceCtrBits
  taken : TableOf p.takenCounters p.globalPredictorSize p.globalCtrBits
  notTaken : TableOf p.notTakenCounters p.globalPredictorSize p.globalCtrBits

/-- **A new predictor**, with counters of one to eight bits at zero; its
history and the masks of it are left open. -/
structure Bpred.New (p : Bpred) : Prop where
  choiceSize : ∃ k, p.choicePredictorSize.toNat = 2 ^ k
  globalSize : ∃ k, p.globalPredictorSize.toNat = 2 ^ k
  choiceMask : p.choiceHistoryMask = p.choicePredictorSize - 1
  globalMask : p.globalHistoryMask = p.globalPredictorSize - 1
  choiceBits : 1 ≤ p.choiceCtrBits.toNat ∧ p.choiceCtrBits.toNat ≤ 8
  globalBits : 1 ≤ p.globalCtrBits.toNat ∧ p.globalCtrBits.toNat ≤ 8
  choice : ∀ i < p.choicePredictorSize, p.choiceCounters i = initCounter 0 p.choiceCtrBits
  taken : ∀ i < p.globalPredictorSize, p.takenCounters i = initCounter 0 p.globalCtrBits
  notTaken : ∀ i < p.globalPredictorSize, p.notTakenCounters i = initCounter 0 p.globalCtrBits

theorem Bpred.New.inOrder (h : p.New) : p.InOrder := by
  have hglobal := hasBits_initCounter h.globalBits.1 h.globalBits.2
  refine ⟨h.choiceSize, h.globalSize, h.choiceMask, h.globalMask, ?_, ?_, ?_⟩
  · intro i hi
    rw [h.choice i hi]
    exact hasBits_initCounter h.choiceBits.1 h.choiceBits.2
  · intro i hi
    rw [h.taken i hi]
    exact hglobal
  · intro i hi
    rw [h.notTaken i hi]
    exact hglobal

theorem Bpred.InOrder.choiceHistoryIdx_lt (h : p.InOrder) (a : UInt32) :
    p.choiceHistoryIdx a < p.choicePredictorSize := by
  obtain ⟨k, hk⟩ := h.choiceSize
  exact and_mask_lt hk h.choiceMask _

theorem Bpred.InOrder.globalHistoryIdx_lt (h : p.InOrder) (a g : UInt32) :
    p.globalHistoryIdx a g < p.globalPredictorSize := by
  obtain ⟨k, hk⟩ := h.globalSize
  exact and_mask_lt hk h.globalMask _

/-! ## One update -/

/-- The choice was wrong, and the prediction right all the same. -/
def BPHistory.Spares (hist : BPHistory) (taken : Bool) : Prop :=
  hist.takenUsed ≠ taken ∧ hist.finalPred = taken

instance BPHistory.decidableSpares (hist : BPHistory) (taken : Bool) :
    Decidable (hist.Spares taken) :=
  inferInstanceAs (Decidable (_ ∧ _))

theorem trainChoice_choiceCounters (p : Bpred) (a : UInt32) (taken : Bool) (hist : BPHistory) :
    (p.trainChoice a taken hist).choiceCounters =
      if hist.Spares taken then p.choiceCounters
      else Bpred.train p.choiceCounters (p.choiceHistoryIdx a) taken := by
  by_cases hright : hist.finalPred = taken
  · by_cases hagree : hist.finalPred = hist.takenUsed
    · have hspare : ¬ hist.Spares taken := fun hs => hs.1 (hagree.symm.trans hright)
      simp only [Bpred.trainChoice, if_pos hright, if_pos hagree, if_neg hspare]
    · have hspare : hist.Spares taken := ⟨fun h => hagree (hright.trans h.symm), hright⟩
      simp only [Bpred.trainChoice, if_pos hright, if_neg hagree, if_pos hspare]
  · have hspare : ¬ hist.Spares taken := fun hs => hright hs.2
    simp only [Bpred.trainChoice, if_neg hright, if_neg hspare]

theorem trainDirection_counters (p : Bpred) (a : UInt32) (taken : Bool) (hist : BPHistory) :
    (p.trainDirection a taken hist).takenCounters =
        (if hist.takenUsed then
          Bpred.train p.takenCounters (p.globalHistoryIdx a hist.globalHistoryReg) taken
        else p.takenCounters) ∧
      (p.trainDirection a taken hist).notTakenCounters =
        (if hist.takenUsed then p.notTakenCounters
        else Bpred.train p.notTakenCounters (p.globalHistoryIdx a hist.globalHistoryReg)
          taken) := by
  unfold Bpred.trainDirection
  cases hist.takenUsed <;> exact ⟨rfl, rfl⟩

/-- **An update keeps the tables in order.** -/
theorem Bpred.InOrder.update (h : p.InOrder) {hist : BPHistory} (hvalid : hist.valid = true)
    (a : UInt32) (taken squashed : Bool) : (p.update a taken hist squashed).InOrder := by
  obtain ⟨htaken, hnotTaken⟩ := trainDirection_counters p a taken hist
  rw [Bpred.update_eq hvalid, trainChoice_choiceCounters, htaken, hnotTaken]
  refine ⟨h.choiceSize, h.globalSize, h.choiceMask, h.globalMask, ?_, ?_, ?_⟩
  · dsimp only
    split_ifs
    · exact h.choice
    · exact h.choice.train _ _
  · dsimp only
    split_ifs
    · exact h.taken.train _ _
    · exact h.taken
  · dsimp only
    split_ifs
    · exact h.notTaken
    · exact h.notTaken.train _ _

theorem Bpred.InOrder.countMiss (h : p.InOrder) (wrong : Bool) : (p.countMiss wrong).InOrder := by
  cases wrong with
  | true => exact ⟨h.1, h.2, h.3, h.4, h.5, h.6, h.7⟩
  | false => exact h

/-- **So does every access.** -/
theorem Bpred.InOrder.bpredsimAccess (h : p.InOrder) (b : Branch) :
    (bpredsimAccess p b).2.InOrder := by
  have hlookup : (p.countLookup.lookup b.curPC).1.InOrder := ⟨h.1, h.2, h.3, h.4, h.5, h.6, h.7⟩
  unfold Bpredsim.bpredsimAccess
  split_ifs
  · simp only [Bpred.lookup]
    exact Bpred.InOrder.update (hlookup.countMiss _) rfl _ _ _
  · have huncond : (p.countLookup.lookup b.curPC).1.uncondBranch.1.InOrder :=
      ⟨h.1, h.2, h.3, h.4, h.5, h.6, h.7⟩
    simp only [Bpred.lookup, Bpred.uncondBranch]
    exact Bpred.InOrder.update huncond rfl _ _ _

theorem Bpred.InOrder.bpredsimAccesses (h : p.InOrder) (calls : List Branch) :
    (bpredsimAccesses p calls).InOrder := by
  induction calls generalizing p with
  | nil => exact h
  | cons b calls ih => exact ih (h.bpredsimAccess b)

/-! ## A conditional branch -/

/-- **The bi-mode rule**: what an access on a conditional branch, with the
answer `correct`, makes of a predictor. -/
structure BiMode (p p' : Bpred) (b : Branch) (correct : Bool) : Prop where
  /-- The answer is whether the prediction was the outcome. -/
  correct_iff : correct = true ↔ (p.predict b.curPC).finalPred = b.actualTaken
  /-- The counter of the taken array is trained if the choice picked it. -/
  taken : (p.predict b.curPC).takenUsed = true →
    Moves p.takenCounters p'.takenCounters p.globalCtrBits
      (p.globalHistoryIdx b.curPC p.globalHistoryReg) b.actualTaken ∧
    p'.notTakenCounters = p.notTakenCounters
  /-- That of the other array, if it did not. -/
  notTaken : (p.predict b.curPC).takenUsed = false →
    Moves p.notTakenCounters p'.notTakenCounters p.globalCtrBits
      (p.globalHistoryIdx b.curPC p.globalHistoryReg) b.actualTaken ∧
    p'.takenCounters = p.takenCounters
  /-- The choice counter is left alone in one case only. -/
  choice : if (p.predict b.curPC).Spares b.actualTaken then p'.choiceCounters = p.choiceCounters
    else Moves p.choiceCounters p'.choiceCounters p.choiceCtrBits (p.choiceHistoryIdx b.curPC)
      b.actualTaken
  numMiss : p'.numMiss = p.numMiss + 1 ↔ correct = false
  numMiss_same : p'.numMiss = p.numMiss ↔ correct = true

/-- **What an access on a conditional branch changes.** -/
theorem bpredsimAccess_cond (p : Bpred) (hcond : b.isCond ≠ 0) :
    bpredsimAccess p b = ((p.predict b.curPC).finalPred == b.actualTaken,
      { p with
        choiceCounters :=
          (p.trainChoice b.curPC b.actualTaken (p.predict b.curPC)).choiceCounters
        takenCounters :=
          (p.trainDirection b.curPC b.actualTaken (p.predict b.curPC)).takenCounters
        notTakenCounters :=
          (p.trainDirection b.curPC b.actualTaken (p.predict b.curPC)).notTakenCounters
        globalHistoryReg := shiftHistory p.historyRegisterMask p.globalHistoryReg b.actualTaken
        numLookup := p.numLookup + 1
        numMiss := if (p.predict b.curPC).finalPred != b.actualTaken then p.numMiss + 1
          else p.numMiss }) := by
  have hhist := bpredsimAccess_of_isCond (p := p) hcond
  -- the lookup and the count of a wrong prediction leave the tables alone
  have hcount : ∀ f wrong, (p.countLookup.updateGlobalHistReg f).countMiss wrong =
      { p with
        globalHistoryReg := shiftHistory p.historyRegisterMask p.globalHistoryReg f
        numLookup := p.numLookup + 1
        numMiss := if wrong then p.numMiss + 1 else p.numMiss } := by
    intro f wrong
    cases wrong <;> rfl
  unfold bpredsimAccess at hhist ⊢
  rw [if_pos hcond] at hhist ⊢
  simp only [Bpred.lookup] at hhist ⊢
  rw [Bpred.update_eq rfl] at hhist ⊢
  simp only at hhist
  rw [hhist]
  simp only [hcount, trainChoice_choiceCounters, (trainDirection_counters _ _ _ _).1,
    (trainDirection_counters _ _ _ _).2]
  rfl

/-- **An access on a conditional branch follows the rule.** -/
theorem Bpred.InOrder.biMode (h : p.InOrder) (hcond : b.isCond ≠ 0) :
    BiMode p (Bpredsim.bpredsimAccess p b).2 b (Bpredsim.bpredsimAccess p b).1 := by
  have hci := h.choiceHistoryIdx_lt b.curPC
  have hgi := h.globalHistoryIdx_lt b.curPC p.globalHistoryReg
  obtain ⟨htaken, hnotTaken⟩ := trainDirection_counters p b.curPC b.actualTaken (p.predict b.curPC)
  have hchoice := trainChoice_choiceCounters p b.curPC b.actualTaken (p.predict b.curPC)
  rw [bpredsimAccess_cond p hcond]
  refine ⟨beq_iff_eq, fun hused => ?_, fun hused => ?_, ?_, ?_, ?_⟩
  · rw [if_pos hused] at htaken hnotTaken
    exact ⟨htaken ▸ h.taken.moves hgi _, hnotTaken⟩
  · rw [if_neg (by simp [hused])] at htaken hnotTaken
    exact ⟨hnotTaken ▸ h.notTaken.moves hgi _, htaken⟩
  · simp only [hchoice]
    split_ifs
    · rfl
    · exact h.choice.moves hci _
  · by_cases hright : (p.predict b.curPC).finalPred = b.actualTaken
    · simp [hright]
    · simp [hright]
  · by_cases hright : (p.predict b.curPC).finalPred = b.actualTaken
    · simp [hright]
    · simp [hright]

/-- **Every conditional branch follows the bi-mode rule**, whatever conditional
and unconditional branches came before: the indices lie in their tables, one
direction counter and the choice counter are trained as the rule says, and all
counters stay in their range. -/
theorem biMode_of_new (p₀ : Bpred) (hnew : p₀.New) (calls : List Branch) (b : Branch)
    (hcond : b.isCond ≠ 0) :
    (bpredsimAccesses p₀ calls).choiceHistoryIdx b.curPC <
        (bpredsimAccesses p₀ calls).choicePredictorSize ∧
      (bpredsimAccesses p₀ calls).globalHistoryIdx b.curPC
          (bpredsimAccesses p₀ calls).globalHistoryReg <
        (bpredsimAccesses p₀ calls).globalPredictorSize ∧
      BiMode (bpredsimAccesses p₀ calls) (bpredsimAccess (bpredsimAccesses p₀ calls) b).2 b
        (bpredsimAccess (bpredsimAccesses p₀ calls) b).1 ∧
      (bpredsimAccess (bpredsimAccesses p₀ calls) b).2.InOrder := by
  have horder := hnew.inOrder.bpredsimAccesses calls
  exact ⟨horder.choiceHistoryIdx_lt _, horder.globalHistoryIdx_lt _ _, horder.biMode hcond,
    horder.bpredsimAccess b⟩

theorem new_smallPredictor : smallPredictor.New where
  choiceSize := ⟨5, rfl⟩
  globalSize := ⟨5, rfl⟩
  choiceMask := rfl
  globalMask := rfl
  choiceBits := by decide
  globalBits := by decide
  choice i hi := if_pos hi
  taken i hi := if_pos hi
  notTaken i hi := if_pos hi

/-- A branch that is taken, after two others: the counter it reads in the taken
array was never trained, and so it is predicted wrong. -/
theorem biMode_smallPredictor :
    BiMode (bpredsimAccesses smallPredictor [⟨64, 128, 1⟩, ⟨64, 128, 0⟩])
        (bpredsimAccess (bpredsimAccesses smallPredictor [⟨64, 128, 1⟩, ⟨64, 128, 0⟩])
          ⟨64, 128, 1⟩).2 ⟨64, 128, 1⟩ false ∧
      (bpredsimAccess (bpredsimAccesses smallPredictor [⟨64, 128, 1⟩, ⟨64, 128, 0⟩])
        ⟨64, 128, 1⟩).2.numMiss = 2 := by
  obtain ⟨-, -, hrule, -⟩ := biMode_of_new smallPredictor new_smallPredictor
    [⟨64, 128, 1⟩, ⟨64, 128, 0⟩] ⟨64, 128, 1⟩ (by decide)
  have hwrong : (bpredsimAccess (bpredsimAccesses smallPredictor [⟨64, 128, 1⟩, ⟨64, 128, 0⟩])
      ⟨64, 128, 1⟩).1 = false := by decide
  rw [hwrong] at hrule
  exact ⟨hrule, by decide⟩

end Bpredsim

end Tqsim
