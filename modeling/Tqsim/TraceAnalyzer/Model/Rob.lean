import Tqsim.TraceAnalyzer.Model.Inst

/-!
# The reorder buffer, the dependency matrix and the functional units

The reorder buffer is a circular array of `capacity` slots, of which the
source allocates `robEntries`. Slots are recycled without being cleared, and
so are the rows and columns of the dependency matrix that the slots index.
-/

namespace Tqsim

namespace TraceAnalyzer

/-- The length of `ROB.entries`, and of both dimensions of `dep_mat`. -/
def robEntries : ℕ := 60

/-- `ROB`, with the `rob_idx` field of every record. A slot never written
holds the null pointer. -/
structure ROB where
  entries : ℕ → Option ℕ
  startIdx : ℕ
  endIdx : ℕ
  size : ℕ
  capacity : ℕ
  robIdx : ℕ → ℕ

namespace ROB

/-- `rob_init`; the slots keep what they held. -/
def init (rob : ROB) (size : ℕ) : ROB :=
  { rob with startIdx := 0, endIdx := 0, size := 0, capacity := size }

/-- `rob_insert_inst`, which fails where the slot lies outside the array. -/
def insertInst (rob : ROB) (inst : ℕ) : Option ROB :=
  if rob.endIdx < robEntries then
    some { rob with
      entries := Function.update rob.entries rob.endIdx (some inst)
      robIdx := Function.update rob.robIdx inst rob.endIdx
      endIdx := (rob.endIdx + 1) % rob.capacity
      size := rob.size + 1 }
  else none

/-- `rob_remove_inst`. -/
def removeInst (rob : ROB) : ROB :=
  { rob with startIdx := (rob.startIdx + 1) % rob.capacity, size := rob.size - 1 }

/-- `rob_get_inst`, which fails outside the array and on a slot never
written. -/
def getInst (rob : ROB) (idx : ℕ) : Option ℕ :=
  if idx < robEntries then rob.entries idx else none

/-- `rob_get_oldest_inst`. -/
def getOldestInst (rob : ROB) : Option ℕ := rob.getInst rob.startIdx

/-- `is_rob_full`. -/
def isFull (rob : ROB) : Bool := rob.size == rob.capacity

/-- `is_rob_empty`. -/
def isEmpty (rob : ROB) : Bool := rob.size == 0

/-- A slot is live when it lies in the window of `size` slots from
`startIdx`. -/
def liveSlot (rob : ROB) (idx : ℕ) : Bool :=
  decide ((idx + rob.capacity - rob.startIdx) % rob.capacity < rob.size)

/-- The index before `idx`, as the backward scans compute it. -/
def prevIdx (rob : ROB) (idx : ℕ) : ℕ :=
  (idx + rob.capacity - 1) % rob.capacity

end ROB

/-! ## The dependency matrix -/

/-- `dep_mat`: the entry at row `b` and column `a` says that the record in
slot `b` waits for the one in slot `a`. -/
abbrev DepMat := ℕ → ℕ → Bool

/-- `in_order`, the third case as the source has it. -/
def inOrder (start x y : ℕ) : Bool :=
  if start ≤ x ∧ start ≤ y ∧ x < y then true
  else if x < start ∧ y < start ∧ x < y then true
  else if start ≤ y ∧ x < start then true
  else false

/-- `is_dependent`. -/
def isDependent (rob : ROB) (depMat : DepMat) (instA instB : ℕ) : Bool :=
  let idxA := rob.robIdx instA
  let idxB := rob.robIdx instB
  if inOrder rob.startIdx idxA idxB then depMat idxB idxA else false

/-- `set_dependency`. -/
def setDependency (rob : ROB) (depMat : DepMat) (instA instB : ℕ) : DepMat :=
  Function.update depMat (rob.robIdx instB)
    (Function.update (depMat (rob.robIdx instB)) (rob.robIdx instA) true)

/-- `clean_dependency`, which fails where the row is shorter than the reorder
buffer. -/
def cleanDependency (rob : ROB) (depMat : DepMat) (instB : ℕ) : Option DepMat :=
  if rob.robIdx instB < robEntries ∧ rob.capacity ≤ robEntries then
    some (Function.update depMat (rob.robIdx instB) fun idxA =>
      if idxA < rob.capacity then false else depMat (rob.robIdx instB) idxA)
  else none

/-! ## Functional units -/

/-- `FUType`. -/
inductive FUType where
  | simpleALU
  | complexALU
  | fpUnit
  | loadUnit
  | storeUnit
  | branchUnit
  | etcUnit
  deriving DecidableEq, Repr

/-- `FU`, without the counters that are only written. -/
structure FU where
  capacity : ℤ
  numIssue : ℤ
  numActive : ℤ
  numStage : ℤ
  deriving DecidableEq, Repr

/-- `init_FU`. -/
def initFU (capacity numStage : ℤ) : FU where
  capacity := capacity
  numIssue := 0
  numActive := 0
  numStage := numStage

/-- `release_FU`. -/
def releaseFU (fu : FU) : FU := { fu with numActive := fu.numActive - 1 }

/-- `reset_FU`. -/
def resetFU (fu : FU) : FU := { fu with numActive := 0, numIssue := 0 }

/-- `reflesh_FU`. -/
def refleshFU (fu : FU) : FU := { fu with numIssue := 0 }

/-- `try_FU`: the unit after a successful attempt, nothing after a failed
one. -/
def tryFU (fu : FU) : Option FU :=
  if fu.numIssue < fu.capacity ∧ fu.numActive < fu.numStage then
    some { fu with numIssue := fu.numIssue + 1, numActive := fu.numActive + 1 }
  else none

/-- `init_all_FUs`. -/
def initAllFUs (cfg : PerfmodelConfig) : FUType → FU
  | .simpleALU => initFU cfg.intalu cfg.intalu
  | .complexALU => initFU cfg.intmultdiv (cfg.intmultdiv * 3)
  | .fpUnit => initFU 2 10
  | .loadUnit => initFU 1 1
  | .storeUnit => initFU 1 3
  | .branchUnit => initFU 1 1
  | .etcUnit => initFU 1 1

/-- `inst_type_fu_type_map`; the entries never set are zero. -/
def instTypeFuTypeMap : InstTypeName → FUType
  | .intAlu => .simpleALU
  | .intMult => .complexALU
  | .intDiv => .complexALU
  | .simdFloatAdd => .fpUnit
  | .simdFloatMult => .fpUnit
  | .simdFloatMultAcc => .fpUnit
  | .memRead => .loadUnit
  | .memWrite => .storeUnit
  | .branch => .branchUnit
  | .syscall => .etcUnit
  | .pop | .push | .unsupported => .simpleALU

/-- `inst_type[...].latency`; the entries never set are zero. -/
def typeLatency : InstTypeName → ℤ
  | .intAlu => 1
  | .intMult => 3
  | .intDiv => 12
  | .simdFloatAdd => 10
  | .simdFloatMult => 12
  | .simdFloatMultAcc => 20
  | .memRead => 2
  | .memWrite => 3
  | .branch => 1
  | .syscall => 1
  | .pop | .push | .unsupported => 0

end TraceAnalyzer

end Tqsim
