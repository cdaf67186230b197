import Tqsim.TraceAnalyzer.Model.Queue
import Tqsim.TraceAnalyzer.Model.Rob

/-!
# The pipeline

The five stages of `trace_analyzer.c`, run in the order commit, write-back,
execute, issue, dispatch in every cycle, and the loop of `trace_analysis`
around them.

The static variables of the source are one `State`: the reorder buffer, the
dependency matrix, and a `Pipe` with everything else. A stage returns `none`
where the source would read a freed record, follow a null pointer, index an
array out of its bounds, or read a slot of the reorder buffer outside the
live window. Statistics that are only ever written are left out.

The averages of `trace_analysis` are doubles; their arithmetic is a
parameter (`Double`), so that what is proved of the pipeline holds of the
machine's doubles and of exact rationals alike.
-/

namespace Tqsim

namespace TraceAnalyzer

/-- The operations on doubles that the misprediction average uses. -/
structure Double (F : Type) where
  ofInt : ℤ → F
  add : F → F → F
  mul : F → F → F
  div : F → F → F
  /-- Conversion to `int`, towards zero. -/
  toInt : F → ℤ

/-- Exact rationals as doubles. -/
def exactDouble : Double ℚ where
  ofInt n := n
  add := (· + ·)
  mul := (· * ·)
  div := (· / ·)
  toInt q := if 0 ≤ q then ⌊q⌋ else ⌈q⌉

/-- What a run is given from outside: the configuration, the disassembler and
the arithmetic of doubles. -/
structure Env (F : Type) where
  cfg : PerfmodelConfig
  disasm : UInt32 → Darm
  double : Double F

/-- Everything of the analyzer's state but the reorder buffer and the
dependency matrix. -/
structure Pipe (F : Type) where
  /-- The records dispatched in this call. -/
  heap : ℕ → Inst
  /-- Whether a record is allocated and not yet freed. -/
  live : ℕ → Bool
  /-- The number of records dispatched so far. -/
  next : ℕ
  /-- The records committed so far, as `verbose_pipeline` would print them. -/
  commitLog : List ℕ
  traceBuffer : InstQueue Inst
  iq : InstQueue ℕ
  ldq : InstQueue ℕ
  stq : InstQueue ℕ
  fuBuffer : InstQueue ℕ
  fu : FUType → FU
  numFetchedInsts : ℕ
  numDispatchedInsts : ℕ
  numCommittedInsts : ℕ
  numMispredInsts : ℕ
  avgMispredPenalty : F
  curCycle : ℕ

/-- The state of the trace analyzer. -/
structure State (F : Type) where
  pipe : Pipe F
  rob : ROB
  depMat : DepMat

variable {F : Type}

namespace Pipe

/-- Following a pointer to a record. -/
def deref (p : Pipe F) (r : ℕ) : Option Inst :=
  if p.live r then some (p.heap r) else none

/-- Writing a record. -/
def setInst (p : Pipe F) (r : ℕ) (inst : Inst) : Pipe F :=
  { p with heap := Function.update p.heap r inst }

end Pipe

namespace State

/-- A read of the reorder buffer followed by the reads of the record in it.
It fails where the slot is outside the live window or the record was
freed. -/
def robGetInst (s : State F) (idx : ℕ) : Option (ℕ × Inst) :=
  if s.rob.liveSlot idx then do
    let r ← s.rob.getInst idx
    let inst ← s.pipe.deref r
    some (r, inst)
  else none

end State

/-! ## Commit -/

/-- The body of `commit_insts` for a record that is ready. -/
def commitInst (s : State F) (r : ℕ) : State F :=
  let p := s.pipe
  let inst := p.heap r
  { s with
    pipe := { p with
      heap := Function.update p.heap r { inst with committedCycle := p.curCycle }
      ldq := p.ldq.removeElem inst.ldqElem
      stq := p.stq.removeElem inst.stqElem
      live := Function.update p.live r false
      numCommittedInsts := p.numCommittedInsts + 1
      commitLog := p.commitLog ++ [r] }
    rob := s.rob.removeInst }

/-- The loop of `commit_insts`, with the width that is left. -/
def commitLoop : ℕ → State F → Option (State F)
  | 0, s => some s
  | w + 1, s =>
    if s.rob.isEmpty then some s
    else do
      let r ← s.rob.getOldestInst
      let inst ← s.pipe.deref r
      if inst.state = .complete ∧ inst.remainingLatency = 0 then commitLoop w (commitInst s r)
      else some s

/-- `commit_insts`. -/
def commitInsts (E : Env F) (s : State F) : Option (State F) :=
  commitLoop E.cfg.backendWidth.toNat s

/-! ## Write-back -/

/-- `writeback_inst`. -/
def writebackInst (inst : Inst) : Inst :=
  if inst.state = .complete then { inst with remainingLatency := inst.remainingLatency - 1 }
  else inst

/-- The loop of `writeback_insts` over the elements of the unit buffer, with
the width that is left. A negative width never runs out. -/
def writebackLoop : List ℕ → ℤ → Pipe F → Option (Pipe F)
  | [], _, p => some p
  | r :: rs, w, p =>
    if w = 0 then some p
    else do
      let inst ← p.deref r
      let inst := writebackInst inst
      let p := p.setInst r inst
      if inst.state = .complete ∧ inst.remainingLatency = 0 then
        writebackLoop rs (w - 1) { p with fuBuffer := p.fuBuffer.removeFromList r }
      else writebackLoop rs w p

/-- `writeback_insts`. -/
def writebackInsts (E : Env F) (p : Pipe F) : Option (Pipe F) :=
  writebackLoop p.fuBuffer.elems E.cfg.backendWidth p

/-! ## Execute -/

/-- The latency that `set_writeback_latency` gives a record. -/
def writebackLatency (E : Env F) (inst : Inst) : ℤ :=
  2 + if inst.type = .memRead then
    (if inst.cacheMiss ≠ .l1Hit then E.cfg.ul2Latency else 0) + 1
  else 0

/-- The penalty of a misprediction: the 64-bit difference, converted to
`int`, and at most 40. -/
def mispredPenalty (curCycle dispatchedCycle : ℕ) : ℤ :=
  let penalty := ((12 : ℤ) + curCycle - dispatchedCycle).bmod (2 ^ 32)
  if penalty > 40 then 40 else penalty

/-- The running average of `execute_inst`. -/
def countMispred (E : Env F) (p : Pipe F) (inst : Inst) : Pipe F :=
  if inst.type = .branch ∧ inst.state = .complete ∧ inst.bpredMispred then
    let D := E.double
    let penalty := mispredPenalty p.curCycle inst.dispatchedCycle
    let sumMispredPenalty :=
      D.add (D.mul p.avgMispredPenalty (D.ofInt p.numMispredInsts)) (D.ofInt penalty)
    { p with
      numMispredInsts := p.numMispredInsts + 1
      avgMispredPenalty := D.div sumMispredPenalty (D.ofInt (p.numMispredInsts + 1)) }
  else p

/-- The record after `execute_inst`. -/
def executedInst (E : Env F) (curCycle : ℕ) (inst : Inst) : Inst :=
  let inst := { inst with remainingLatency := inst.remainingLatency - 1 }
  if inst.remainingLatency ≤ 0 then
    { inst with
      state := .complete
      completedCycle := curCycle
      remainingLatency := writebackLatency E inst }
  else inst

/-- `execute_inst`. -/
def executeInst (E : Env F) (p : Pipe F) (r : ℕ) (inst : Inst) : Pipe F :=
  let done := inst.remainingLatency - 1 ≤ 0
  let inst := executedInst E p.curCycle inst
  let p := p.setInst r inst
  let target := instTypeFuTypeMap inst.type
  let p := if done then { p with fu := Function.update p.fu target (releaseFU (p.fu target)) }
    else p
  countMispred E p inst

/-- The loop of `execute_insts` over the elements of the unit buffer. -/
def executeLoop (E : Env F) : List ℕ → Pipe F → Option (Pipe F)
  | [], p => some p
  | r :: rs, p => do
    let inst ← p.deref r
    if inst.state = .issue then executeLoop E rs (executeInst E p r inst)
    else executeLoop E rs p

/-- `execute_insts`. -/
def executeInsts (E : Env F) (p : Pipe F) : Option (Pipe F) :=
  executeLoop E p.fuBuffer.elems p

/-! ## Issue -/

/-- `can_forward`. -/
def canForward (inst : Inst) : Bool :=
  if inst.type = .memRead then
    if InstState.complete.toNat ≤ inst.state.toNat ∧ inst.remainingLatency ≤ 1 then true
    else false
  else if InstState.complete.toNat ≤ inst.state.toNat then true
  else false

/-- The loop of `has_dependency`. -/
def hasDependencyLoop (s : State F) (instB : ℕ) : ℕ → ℕ → Option Bool
  | 0, _ => none
  | fuel + 1, curIdx => do
    let curIdx := s.rob.prevIdx curIdx
    let (instA, a) ← s.robGetInst curIdx
    if isDependent s.rob s.depMat instA instB && !canForward a then some true
    else if curIdx = s.rob.startIdx then some false
    else hasDependencyLoop s instB fuel curIdx

/-- `has_dependency`. The scan visits each slot at most once. -/
def hasDependency (s : State F) (instB : ℕ) : Option Bool :=
  let curIdx := s.rob.robIdx instB
  if curIdx = s.rob.startIdx then some false
  else hasDependencyLoop s instB s.rob.capacity curIdx

/-- The body of `issue_insts` for a record that takes its unit. -/
def issueInst (p : Pipe F) (r : ℕ) (inst : Inst) (unit : FU) : Pipe F :=
  { p with
    fu := Function.update p.fu (instTypeFuTypeMap inst.type) unit
    iq := p.iq.removeFromList r
    heap := Function.update p.heap r { inst with
      issuedCycle := p.curCycle
      state := .issue
      remainingLatency := typeLatency inst.type }
    fuBuffer := (p.fuBuffer.pushBackInst r).1 }

/-- The loop of `issue_insts` over the elements of the issue queue, with the
width that is left. -/
def issueLoop : List ℕ → ℕ → State F → Option (State F)
  | [], _, s => some s
  | _ :: _, 0, s => some s
  | r :: rs, w + 1, s => do
    let inst ← s.pipe.deref r
    if inst.state = .dispatch then
      let waits ← hasDependency s r
      if waits then issueLoop rs (w + 1) s
      else
        match tryFU (s.pipe.fu (instTypeFuTypeMap inst.type)) with
        | some unit => issueLoop rs w { s with pipe := issueInst s.pipe r inst unit }
        | none => issueLoop rs (w + 1) s
    else issueLoop rs (w + 1) s

/-- `issue_insts`. -/
def issueInsts (E : Env F) (s : State F) : Option (State F) :=
  if s.pipe.iq.isEmptyQueue then some s
  else issueLoop s.pipe.iq.elems E.cfg.backendWidth.toNat s

/-! ## Dispatch -/

section Scan

variable {α : Type}

/-- The inner loop of the dependency scans for one source entry `x`: every
target it equals marks the dependency, replaces the entry by `done` and
counts down. The entry keeps being compared after it was replaced. -/
def matchEntry (same : α → α → Bool) (done : α) : List α → α × ℤ × Bool → α × ℤ × Bool
  | [], acc => acc
  | y :: ys, (x, count, marked) =>
    if same x y then matchEntry same done ys (done, count - 1, true)
    else matchEntry same done ys (x, count, marked)

/-- The loop over the source entries against one older record: the entries
after it, the count left, and whether a dependency was set. -/
def matchEntries [DecidableEq α] (same : α → α → Bool) (done : α) (ys : List α) :
    List α → ℤ × Bool → List α × ℤ × Bool
  | [], acc => ([], acc)
  | x :: xs, (count, marked) =>
    if x = done then
      let (xs', acc) := matchEntries same done ys xs (count, marked)
      (x :: xs', acc)
    else
      let (x', count, marked) := matchEntry same done ys (x, count, marked)
      let (xs', acc) := matchEntries same done ys xs (count, marked)
      (x' :: xs', acc)

/-- What `find_regs_dependency` and `find_mems_dependency` differ in: the
entries of the younger record, which are overwritten, the entries of the
older one, the comparison, and the mark of a finished entry. -/
structure ScanKind (α : Type) where
  sources : Inst → List α
  setSources : Inst → List α → Inst
  targets : Inst → List α
  same : α → α → Bool
  done : α

variable [DecidableEq α]

/-- The scan towards older records, common to both. -/
def findLoop (K : ScanKind α) (instB : ℕ) : ℕ → ℕ → ℤ → State F → Option (State F)
  | 0, _, _, _ => none
  | fuel + 1, curIdx, count, s =>
    if count = 0 then some s
    else do
      let curIdx := s.rob.prevIdx curIdx
      let (instA, a) ← s.robGetInst curIdx
      let b ← s.pipe.deref instB
      let (xs, count, marked) :=
        matchEntries K.same K.done (K.targets a) (K.sources b) (count, false)
      let s := { s with
        pipe := s.pipe.setInst instB (K.setSources b xs)
        depMat := if marked then setDependency s.rob s.depMat instA instB else s.depMat }
      if curIdx = s.rob.startIdx then some s
      else findLoop K instB fuel curIdx count s

/-- Either dependency search, from the slot of the new record. -/
def findDependency (K : ScanKind α) (s : State F) (instB : ℕ) : Option (State F) :=
  let curIdx := s.rob.robIdx instB
  if curIdx = s.rob.startIdx then some s
  else findLoop K instB s.rob.capacity curIdx (K.sources (s.pipe.heap instB)).length s

end Scan

/-- Register dependences: `-1` marks a finished source register. -/
def regsScan : ScanKind ℤ where
  sources := Inst.srcReg
  setSources := fun inst xs => { inst with srcReg := xs }
  targets := Inst.dstReg
  same := fun x y => x == y
  done := -1

/-- Memory dependences: `0` marks a finished address, and the addresses are
compared under a mask of ones. -/
def memsScan : ScanKind UInt32 where
  sources := Inst.effAddr
  setSources := fun inst xs => { inst with effAddr := xs }
  targets := Inst.effAddr
  same := fun x y => (x &&& ~~~0) == (y &&& ~~~0)
  done := 0

/-- `find_regs_dependency`. -/
def findRegsDependency (s : State F) (instB : ℕ) : Option (State F) :=
  findDependency regsScan s instB

/-- `find_mems_dependency`. -/
def findMemsDependency (s : State F) (instB : ℕ) : Option (State F) :=
  findDependency memsScan s instB

/-- The head of the loop of `dispatch_insts`: the front record is decoded and
expanded. -/
def prepareFront (E : Env F) (p : Pipe F) (inst : Inst) : Pipe F :=
  let inst := decodeInst E.disasm inst
  let traceBuffer := { p.traceBuffer with elems := inst :: p.traceBuffer.elems.tail }
  let (traceBuffer, numFetched) := convertMicroop traceBuffer inst p.numFetchedInsts
  { p with traceBuffer := traceBuffer, numFetchedInsts := numFetched }

/-- The tests of `dispatch_insts` that end the loop. -/
def dispatchBlocked (s : State F) (inst : Inst) : Bool :=
  s.rob.isFull || s.pipe.iq.isFullQueue ||
    (inst.type == .memRead && s.pipe.ldq.isFullQueue) ||
    (inst.type == .memWrite && s.pipe.stq.isFullQueue)

/-- The branch of `dispatch_insts` for a record of an unsupported type, which
is freed at once. -/
def dropUnsupported (p : Pipe F) : Pipe F :=
  { p with
    traceBuffer := p.traceBuffer.popFrontInst
    numDispatchedInsts := p.numDispatchedInsts + 1
    numCommittedInsts := p.numCommittedInsts + 1 }

/-- The record enters the reorder buffer and the queues. -/
def enterQueues (s : State F) (inst : Inst) : Option (State F) := do
  let p := s.pipe
  let r := p.next
  let rob ← s.rob.insertInst r
  let depMat ← cleanDependency rob s.depMat r
  let (iq, iqElem) := p.iq.pushBackInst r
  let (ldq, ldqElem) :=
    if inst.type = .memRead then p.ldq.pushBackInst r else (p.ldq, inst.ldqElem)
  let (stq, stqElem) :=
    if inst.type = .memWrite then p.stq.pushBackInst r else (p.stq, inst.stqElem)
  some {
    pipe := { p with
      traceBuffer := p.traceBuffer.popFrontInst
      heap := Function.update p.heap r
        { inst with iqElem := iqElem, ldqElem := ldqElem, stqElem := stqElem }
      live := Function.update p.live r true
      next := r + 1
      iq := iq
      ldq := ldq
      stq := stq
      numDispatchedInsts := p.numDispatchedInsts + 1 }
    rob := rob
    depMat := depMat }

/-- `dispatch_inst` and the time stamp after it. -/
def dispatchInst (p : Pipe F) (r : ℕ) : Pipe F :=
  p.setInst r { p.heap r with state := .dispatch, dispatchedCycle := p.curCycle }

/-- The rest of the body of `dispatch_insts`: the front record is moved from
the trace buffer into the pipeline. -/
def dispatchFront (s : State F) (inst : Inst) : Option (State F) := do
  let r := s.pipe.next
  let s ← enterQueues s inst
  let s ← findRegsDependency s r
  let s ← findMemsDependency s r
  some { s with pipe := dispatchInst s.pipe r }

/-- The loop of `dispatch_insts`, with the width that is left. An
unsupported record takes none of it. -/
def dispatchLoop (E : Env F) : ℕ → ℕ → State F → Option (State F)
  | _, 0, s => some s
  | 0, _ + 1, _ => none
  | fuel + 1, w + 1, s =>
    match s.pipe.traceBuffer.frontInstElem with
    | none => some s
    | some inst =>
      let s := { s with pipe := prepareFront E s.pipe inst }
      match s.pipe.traceBuffer.frontInstElem with
      | none => none
      | some inst =>
        if dispatchBlocked s inst then some s
        else if inst.type = .unsupported then
          dispatchLoop E fuel (w + 1) { s with pipe := dropUnsupported s.pipe }
        else do
          let s ← dispatchFront s inst
          dispatchLoop E fuel w s

/-- `dispatch_insts`. The loop runs at most once for each unit of the width
and once for each unsupported record. -/
def dispatchInsts (E : Env F) (s : State F) : Option (State F) :=
  let w := E.cfg.frontendWidth.toNat
  dispatchLoop E (w + s.pipe.traceBuffer.size) w s

/-! ## The run -/

/-- The end of a cycle: `reflesh_all_FUs` and the clock. -/
def endCycle (p : Pipe F) : Pipe F :=
  { p with fu := fun f => refleshFU (p.fu f), curCycle := p.curCycle + 1 }

/-- The stages before issue. -/
def beforeIssue (E : Env F) (s : State F) : Option (State F) := do
  let s ← commitInsts E s
  let p ← writebackInsts E s.pipe
  let p ← executeInsts E p
  some { s with pipe := p }

/-- One iteration of the loop of `trace_analysis`. -/
def cycle (E : Env F) (s : State F) : Option (State F) := do
  let s ← beforeIssue E s
  let s ← issueInsts E s
  let s ← dispatchInsts E s
  some { s with pipe := endCycle s.pipe }

/-- `trace_analysis` up to its loop: `init_trace_statistics`,
`reset_all_FUs`, and the trace. Records are numbered anew; those of earlier
calls are all freed. -/
def beginAnalysis (E : Env F) (traceBuffer : InstQueue Inst) (s : State F) : State F :=
  { s with
    pipe := { s.pipe with
      heap := fun _ => initInst 0 0 0
      live := fun _ => false
      next := 0
      commitLog := []
      traceBuffer := traceBuffer
      fu := fun f => resetFU (s.pipe.fu f)
      numFetchedInsts := traceBuffer.size
      numDispatchedInsts := 0
      numCommittedInsts := 0
      numMispredInsts := 0
      avgMispredPenalty := E.double.ofInt 0
      curCycle := 0 } }

/-- What `trace_analysis` leaves behind: its outputs, the number of cycles it
simulated, and the state. -/
structure Analysis (F : Type) where
  state : State F
  lastCycle : ℕ
  bpredPenalty : ℤ
  cycles : ℕ

/-- The outputs of `trace_analysis`. -/
def Analysis.outputs (a : Analysis F) : ℕ × ℤ := (a.lastCycle, a.bpredPenalty)

/-- The values `trace_analysis` returns from a state. -/
def finishAnalysis (E : Env F) (s : State F) (actualLastCycle cycles : ℕ) : Analysis F where
  state := s
  lastCycle := actualLastCycle
  bpredPenalty := E.double.toInt s.pipe.avgMispredPenalty
  cycles := cycles

/-- The loop of `trace_analysis`; it gives nothing when the fuel runs out. -/
def analysisLoop (E : Env F) (maxCycle : ℤ) : ℕ → ℕ → ℕ → State F → Option (Analysis F)
  | 0, _, _, _ => none
  | fuel + 1, cycles, actualLastCycle, s =>
    if maxCycle ≠ 0 ∧ maxCycle ≤ cycles then some (finishAnalysis E s actualLastCycle cycles)
    else do
      let s ← cycle E s
      let actualLastCycle :=
        if actualLastCycle = 0 then
          if s.pipe.numDispatchedInsts = s.pipe.numFetchedInsts then s.pipe.curCycle
          else actualLastCycle
        else actualLastCycle
      if s.pipe.numCommittedInsts = s.pipe.numFetchedInsts then
        some (finishAnalysis E s actualLastCycle (cycles + 1))
      else analysisLoop E maxCycle fuel (cycles + 1) actualLastCycle s

/-- `trace_analysis`, with at most `fuel` iterations. -/
def traceAnalysis (E : Env F) (fuel : ℕ) (traceBuffer : InstQueue Inst) (maxCycle : ℤ)
    (s : State F) : Option (Analysis F) :=
  analysisLoop E maxCycle fuel 0 0 (beginAnalysis E traceBuffer s)

/-- The state `init_trace_analyzer` leaves, over whatever the static arrays
held. -/
def initTraceAnalyzer (E : Env F) (s : State F) : State F :=
  { s with
    pipe := { s.pipe with
      iq := ⟨[], E.cfg.iqSize⟩
      ldq := ⟨[], 16⟩
      stq := ⟨[], 16⟩
      fuBuffer := ⟨[], 0⟩
      fu := initAllFUs E.cfg }
    rob := s.rob.init E.cfg.robSize }

end TraceAnalyzer

end Tqsim
