import Mathlib.Tactic

/-!
# The branch predictor

The bi-mode predictor of `bpred_bimod.c` with the saturating counters of
`sat_counter.c`, and the simulator `bpredsim.c` over it. C `unsigned` is
`UInt32`, and the truth values that the source keeps in an `int` or an
`unsigned` are `Bool`s.

The tables of counters are addressed through pointers: an index is an
address whether it lies in the table or not, so that a table is a function
and its size a field of its own. The target buffer's `bpred_btbUpdate`, and
`bpred_squash` and `bpred_retireSquashed`, are called nowhere and left out.
-/

namespace Tqsim

namespace Bpredsim

/-! ## Saturating counters -/

structure SatCounter where
  initialVal : UInt8
  maxVal : UInt8
  counter : UInt8
  deriving DecidableEq, Repr

/-- `init_counter`. -/
def initCounter (initialVal : UInt8) (bits : UInt32) : SatCounter where
  initialVal := initialVal
  maxVal := ((1 <<< bits) - 1).toUInt8
  counter := initialVal

namespace SatCounter

/-- `increment_counter`. -/
def incrementCounter (c : SatCounter) : SatCounter :=
  if c.counter < c.maxVal then { c with counter := c.counter + 1 } else c

/-- `decrement_counter`. -/
def decrementCounter (c : SatCounter) : SatCounter :=
  if c.counter > 0 then { c with counter := c.counter - 1 } else c

/-- `read_counter`, as it is compared with an `unsigned`. -/
def readCounter (c : SatCounter) : UInt32 := c.counter.toUInt32

end SatCounter

/-! ## The predictor -/

/-- `BPHistory`: what was predicted for a branch, and the history before it. -/
structure BPHistory where
  globalHistoryReg : UInt32
  /-- Whether the prediction of the taken array was used. -/
  takenUsed : Bool
  takenPred : Bool
  notTakenPred : Bool
  finalPred : Bool
  valid : Bool
  deriving DecidableEq, Repr

/-- `struct bpred_t`. -/
structure Bpred where
  choiceCounters : UInt32 → SatCounter
  takenCounters : UInt32 → SatCounter
  notTakenCounters : UInt32 → SatCounter
  globalHistoryReg : UInt32
  globalHistoryBits : UInt32
  historyRegisterMask : UInt32
  choicePredictorSize : UInt32
  choiceCtrBits : UInt32
  choiceHistoryMask : UInt32
  globalPredictorSize : UInt32
  globalCtrBits : UInt32
  globalHistoryMask : UInt32
  choiceThreshold : UInt32
  takenThreshold : UInt32
  notTakenThreshold : UInt32
  numLookup : UInt32
  numMiss : UInt32
  instShiftAmt : UInt32

/-- `mask`. A shift by 64 bits or more is undefined, but for 64 itself, which
the source takes apart. -/
def mask (nbits : UInt32) : Option UInt64 :=
  if nbits = 64 then some (-1)
  else if nbits < 64 then some ((1 <<< nbits.toUInt64) - 1)
  else none

/-- A table of counters that start at zero, in memory `heap`. -/
def newTable (heap : UInt32 → SatCounter) (size bits : UInt32) : UInt32 → SatCounter :=
  fun i => if i < size then initCounter 0 bits else heap i

/-- A threshold: half of what a counter of so many bits can hold. -/
def threshold (bits : UInt32) : UInt32 := ((1 : UInt64) <<< (bits - 1).toUInt64 - 1).toUInt32

/-- `bpred_create`. All three thresholds are those of the choice counters. -/
def bpredCreate (heap : UInt32 → SatCounter) (instShiftAmt globalPredictorSize choicePredictorSize
    choiceCtrBits globalCtrBits : UInt32) : Option Bpred :=
  (mask globalPredictorSize).map fun historyMask =>
    { choiceCounters := newTable heap choicePredictorSize choiceCtrBits
      takenCounters := newTable heap globalPredictorSize globalCtrBits
      notTakenCounters := newTable heap globalPredictorSize globalCtrBits
      globalHistoryReg := 0
      globalHistoryBits := globalPredictorSize
      historyRegisterMask := historyMask.toUInt32
      choicePredictorSize := choicePredictorSize
      choiceCtrBits := choiceCtrBits
      choiceHistoryMask := choicePredictorSize - 1
      globalPredictorSize := globalPredictorSize
      globalCtrBits := globalCtrBits
      globalHistoryMask := globalPredictorSize - 1
      choiceThreshold := threshold choiceCtrBits
      takenThreshold := threshold choiceCtrBits
      notTakenThreshold := threshold choiceCtrBits
      numLookup := 0
      numMiss := 0
      instShiftAmt := instShiftAmt }

/-- A history with one more branch, cut to the register's width. -/
def shiftHistory (historyRegisterMask globalHistoryReg : UInt32) (taken : Bool) : UInt32 :=
  (if taken then (globalHistoryReg <<< 1) ||| 1 else globalHistoryReg <<< 1)
    &&& historyRegisterMask

namespace Bpred

/-- `choiceHistoryIdx`. -/
def choiceHistoryIdx (p : Bpred) (branchAddr : UInt32) : UInt32 :=
  (branchAddr >>> p.instShiftAmt) &&& p.choiceHistoryMask

/-- `globalHistoryIdx`, under the history that is given. -/
def globalHistoryIdx (p : Bpred) (branchAddr globalHistoryReg : UInt32) : UInt32 :=
  ((branchAddr >>> p.instShiftAmt) ^^^ globalHistoryReg) &&& p.globalHistoryMask

/-- `bpred_updateGlobalHistReg`. -/
def updateGlobalHistReg (p : Bpred) (taken : Bool) : Bpred :=
  { p with globalHistoryReg := shiftHistory p.historyRegisterMask p.globalHistoryReg taken }

/-- What `bpred_lookup` stores for the branch. -/
def predict (p : Bpred) (branchAddr : UInt32) : BPHistory :=
  let choiceIdx := p.choiceHistoryIdx branchAddr
  let globalIdx := p.globalHistoryIdx branchAddr p.globalHistoryReg
  let choicePrediction := decide ((p.choiceCounters choiceIdx).readCounter > p.choiceThreshold)
  let takenGHBPrediction := decide ((p.takenCounters globalIdx).readCounter > p.takenThreshold)
  let notTakenGHBPrediction :=
    decide ((p.notTakenCounters globalIdx).readCounter > p.notTakenThreshold)
  { globalHistoryReg := p.globalHistoryReg
    takenUsed := choicePrediction
    takenPred := takenGHBPrediction
    notTakenPred := notTakenGHBPrediction
    finalPred := if choicePrediction then takenGHBPrediction else notTakenGHBPrediction
    valid := true }

/-- `bpred_lookup`: the prediction goes into the history at once. -/
def lookup (p : Bpred) (branchAddr : UInt32) : Bpred × BPHistory :=
  let history := p.predict branchAddr
  (p.updateGlobalHistReg history.finalPred, history)

/-- `bpred_uncondBranch`. -/
def uncondBranch (p : Bpred) : Bpred × BPHistory :=
  (p.updateGlobalHistReg true,
    { globalHistoryReg := p.globalHistoryReg
      takenUsed := true
      takenPred := true
      notTakenPred := true
      finalPred := true
      valid := true })

/-- A counter is moved towards the outcome. -/
def train (counters : UInt32 → SatCounter) (idx : UInt32) (taken : Bool) : UInt32 → SatCounter :=
  Function.update counters idx
    (if taken then (counters idx).incrementCounter else (counters idx).decrementCounter)

/-- The direction counter of `bpred_update`: that of the array which was
used. -/
def trainDirection (p : Bpred) (branchAddr : UInt32) (taken : Bool) (history : BPHistory) : Bpred :=
  let idx := p.globalHistoryIdx branchAddr history.globalHistoryReg
  if history.takenUsed then { p with takenCounters := train p.takenCounters idx taken }
  else { p with notTakenCounters := train p.notTakenCounters idx taken }

/-- The choice counter of `bpred_update`: it is left alone where the choice
was not the outcome and yet the prediction was. -/
def trainChoice (p : Bpred) (branchAddr : UInt32) (taken : Bool) (history : BPHistory) : Bpred :=
  let idx := p.choiceHistoryIdx branchAddr
  if history.finalPred = taken then
    if history.finalPred = history.takenUsed then
      { p with choiceCounters := train p.choiceCounters idx taken }
    else p
  else { p with choiceCounters := train p.choiceCounters idx taken }

/-- `bpred_update`. After a wrong prediction the history is that before the
branch, with the outcome. The record of the branch is not read again, so
that its mark as used up is left out. -/
def update (p : Bpred) (branchAddr : UInt32) (taken : Bool) (history : BPHistory)
    (squashed : Bool) : Bpred :=
  if history.valid then
    let p := p.trainDirection branchAddr taken history
    let p := p.trainChoice branchAddr taken history
    if squashed then
      { p with
        globalHistoryReg := shiftHistory p.historyRegisterMask history.globalHistoryReg taken }
    else p
  else p

/-- `pred->num_lookup++`. -/
def countLookup (p : Bpred) : Bpred := { p with numLookup := p.numLookup + 1 }

/-- `pred->num_miss++`, after a wrong prediction. -/
def countMiss (p : Bpred) (wrong : Bool) : Bpred :=
  if wrong then { p with numMiss := p.numMiss + 1 } else p

end Bpred

/-! ## The simulator -/

/-- `bpredsim_initialize`. -/
def bpredsimInitialize (heap : UInt32 → SatCounter) : Option Bpred :=
  bpredCreate heap 2 4096 4096 2 2

/-- The arguments of `bpredsim_access`: a branch, where control went after
it, and whether it is conditional. -/
structure Branch where
  curPC : UInt32
  nextPC : UInt32
  isCond : Int32
  deriving DecidableEq, Repr

/-- `actual_taken`. The sum has the width of `sizeof`, 64 bits. -/
def Branch.actualTaken (b : Branch) : Bool := b.nextPC.toUInt64 != b.curPC.toUInt64 + 4

/-- `bpredsim_access`: whether the prediction is counted as correct, and the
predictor after it. -/
def bpredsimAccess (p : Bpred) (b : Branch) : Bool × Bpred :=
  let p := p.countLookup
  if b.isCond ≠ 0 then
    let (p, hist) := p.lookup b.curPC
    let predTaken := hist.finalPred
    let p := p.countMiss (predTaken != b.actualTaken)
    let p := p.update b.curPC b.actualTaken hist (predTaken != b.actualTaken)
    (predTaken == b.actualTaken, p)
  else
    let (p, hist) := p.lookup b.curPC
    let predTaken := hist.finalPred
    let (p, hist) := p.uncondBranch
    let p := p.update b.curPC b.actualTaken hist (predTaken != b.actualTaken)
    (true, p)

/-- `bpredsim_num_mispred`, converted to `int`. -/
def bpredsimNumMispred (p : Bpred) : Int32 := p.numMiss.toInt32

/-- Tables of 32 counters, with which the history has all 32 bits. -/
def smallPredictor : Bpred :=
  (bpredCreate (fun _ => initCounter 0 2) 2 32 32 2 2).get rfl

end Bpredsim

end Tqsim
