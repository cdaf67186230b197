import Tqsim.Bpredsim.Model.Bimod

/-!
# What an access changes

`bpred_update` field by field, and from it what an access of the simulator
leaves alone.
-/

namespace Tqsim

namespace Bpredsim

variable {p : Bpred}

/-- **What `bpred_update` changes**: the counters, and the history if the
prediction was wrong. -/
theorem Bpred.update_eq {hist : BPHistory} (hvalid : hist.valid = true) (a : UInt32)
    (t squashed : Bool) :
    p.update a t hist squashed =
      { p with
        choiceCounters := (p.trainChoice a t hist).choiceCounters
        takenCounters := (p.trainDirection a t hist).takenCounters
        notTakenCounters := (p.trainDirection a t hist).notTakenCounters
        globalHistoryReg :=
          if squashed then shiftHistory p.historyRegisterMask hist.globalHistoryReg t
          else p.globalHistoryReg } := by
  unfold Bpred.update Bpred.trainDirection
  rw [if_pos hvalid]
  -- the choice counters are those before the direction counters were trained
  cases hist.takenUsed <;> cases squashed <;> unfold Bpred.trainChoice <;> simp only <;>
    split_ifs <;> rfl

@[simp] theorem Bpred.countLookup_globalHistoryReg :
    p.countLookup.globalHistoryReg = p.globalHistoryReg := rfl

@[simp] theorem Bpred.countLookup_historyRegisterMask :
    p.countLookup.historyRegisterMask = p.historyRegisterMask := rfl

@[simp] theorem Bpred.countLookup_predict (a : UInt32) : p.countLookup.predict a = p.predict a :=
  rfl

@[simp] theorem Bpred.predict_globalHistoryReg (a : UInt32) :
    (p.predict a).globalHistoryReg = p.globalHistoryReg := rfl

@[simp] theorem Bpred.countMiss_globalHistoryReg (wrong : Bool) :
    (p.countMiss wrong).globalHistoryReg = p.globalHistoryReg := by
  cases wrong <;> rfl

@[simp] theorem Bpred.countMiss_historyRegisterMask (wrong : Bool) :
    (p.countMiss wrong).historyRegisterMask = p.historyRegisterMask := by
  cases wrong <;> rfl

@[simp] theorem bpredsimAccess_historyRegisterMask (p : Bpred) (b : Branch) :
    (bpredsimAccess p b).2.historyRegisterMask = p.historyRegisterMask := by
  unfold bpredsimAccess
  split_ifs
  · simp only [Bpred.lookup]
    rw [Bpred.update_eq rfl]
    exact Bpred.countMiss_historyRegisterMask _
  · simp only [Bpred.lookup, Bpred.uncondBranch]
    rw [Bpred.update_eq rfl]
    rfl

/-- A wrong prediction is counted once, that of an unconditional branch not
at all. -/
theorem numMiss_bpredsimAccess (p : Bpred) (b : Branch) :
    (bpredsimAccess p b).2.numMiss = p.numMiss ∨
      (bpredsimAccess p b).2.numMiss = p.numMiss + 1 := by
  unfold bpredsimAccess
  split_ifs
  · simp only [Bpred.lookup]
    rw [Bpred.update_eq rfl]
    unfold Bpred.countMiss
    split_ifs
    · exact .inr rfl
    · exact .inl rfl
  · simp only [Bpred.lookup, Bpred.uncondBranch]
    rw [Bpred.update_eq rfl]
    exact .inl rfl

end Bpredsim

end Tqsim
