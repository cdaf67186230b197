import Tqsim.Common.Run
import Tqsim.Model.Perfmodel

/-!
# The sampler

The guest thread calls the helpers of `op_helper.c`; the analysis thread runs
`trace_analysis` on the buffer the helpers filled. Both work on the same
`TraceBuffer`, so that a state of the sampler has it once, and the two
threads take their steps in any order: the guest thread one statement of
`inst_increment` at a time (`block`), the analysis thread one simulated
cycle at a time (`threadStep`).

The instructions executed, the answers of the cache and branch simulators
and their counters come with the call in which they are asked for. The
number of instructions, a 64-bit counter, is a natural number: no run
reaches its end. Two fields of the state are no variables of the source:
`history` is what was called, and `log` what was done to the buffer.
-/

namespace Tqsim

namespace Sampling

open TraceAnalyzer

/-- A call of `inst_increment`, with what the disassembler's memory and the
simulators answer in it. -/
structure InstIncrement where
  pc : UInt32
  flag : UInt32
  /-- `bpredsim_access`: whether the prediction was correct. -/
  bpredsimAccess : UInt32 → UInt32 → UInt32 → Bool
  cachesimIaccess : UInt32 → CacheMissType
  getInstByte : UInt32 → UInt32 → UInt32
  counters : Counters

/-- The helper calls of a guest run. -/
inductive Call where
  | instIncrement (i : InstIncrement)
  | dcacheAccess (addr : UInt32) (isWrite : Bool)
      (cachesimDaccess : UInt32 → Bool → CacheMissType)
  | setBranchInst (isCond : UInt32)

/-- Where the guest thread is. -/
inductive Loc where
  /-- Between two calls. -/
  | ready
  /-- `inst_increment`, at `if (is_branch)`. -/
  | resolve (i : InstIncrement)
  /-- At `cur_PC = pc`. -/
  | fetch (i : InstIncrement)
  /-- At `if (!num_insts)`. -/
  | first (i : InstIncrement) (missType : CacheMissType)
  /-- At `if (num_sampled_inst == perfmodel.sample.length)`. -/
  | finish (i : InstIncrement) (missType : CacheMissType)
  /-- At the test for a multiple of the period. -/
  | period (i : InstIncrement) (missType : CacheMissType)
  /-- At `if (is_sampled)`. -/
  | record (i : InstIncrement) (missType : CacheMissType)
  /-- `perfmodel_sample_wrapup`. -/
  | wrapup (counters : Counters)
  /-- There, at `trace_analyzer_thread_end`. -/
  | wrapupEnd
  /-- `gdb_exit`, at `perfmodel_getCycle`. -/
  | exited

/-- The thread `thread_inst`. -/
inductive Thread where
  | idle
  /-- Created, and `trace_analysis` not begun. -/
  | created
  /-- In its loop, with the cycles simulated and `actual_last_cycle`. -/
  | running (cycles actualLastCycle : ℕ)
  | exited
  deriving DecidableEq, Repr

/-- A call of `perfmodel_update`: the number of instructions at that time, its
arguments, and the statistics of the sample. -/
structure Update where
  numInsts : ℕ
  cycle : ℕ
  bpredPenalty : ℤ
  stat : SampledStat

/-- What is done to the trace buffer, and the updates of the model. -/
inductive Event where
  /-- `push_code`, `push_bpred` or `push_memaddr`. -/
  | push
  /-- `trace_analyzer_thread_start`, with what the buffer holds. -/
  | start (traceBuffer : InstQueue Inst)
  /-- `trace_analyzer_thread_end`, having waited for a thread. -/
  | join
  /-- `perfmodel_update`. -/
  | update (u : Update)

/-- The state of both threads. -/
structure Sampler (F : Type) where
  loc : Loc
  numInsts : ℕ
  numSampledInst : ℕ
  isSampled : Bool
  traceBuffer : InstQueue Inst
  curPC : UInt32
  isBranch : Bool
  isCond : UInt32
  previousPc : UInt32
  sampleStat : SampledStat
  perfmodel : Perfmodel F
  numThread : ℕ
  thread : Thread
  /-- `arg.cycle`. -/
  argCycle : ℕ
  /-- `arg.bpred_penalty`. -/
  argBpredPenalty : ℤ
  analyzer : State F
  history : List Call
  log : List Event

variable {F : Type}

/-! ## The trace buffer -/

/-- The capacity `init_trace_buffer` gives. -/
def traceBufferCapacity : ℤ := 1000001

/-- `push_code`: a full buffer is left as it is. -/
def pushCode (q : InstQueue Inst) (seq pc code : UInt32) (missType : CacheMissType) :
    InstQueue Inst :=
  if q.isFullQueue then q
  else (q.pushBackInst { initInst seq pc code with instCacheMiss := missType }).1

/-- A change of the newest record. The source follows `newest_inst_elem`
without a test, so that an empty buffer is a fault. -/
def updateNewest (q : InstQueue Inst) (f : Inst → Inst) : Option (InstQueue Inst) :=
  q.elems.getLast?.map fun inst => { q with elems := q.elems.dropLast ++ [f inst] }

/-- `push_bpred`. -/
def pushBpred (q : InstQueue Inst) (correct : Bool) : Option (InstQueue Inst) :=
  updateNewest q fun inst => setInstBpredMispred inst !correct

/-- `push_memaddr`. -/
def pushMemaddr (q : InstQueue Inst) (addr : UInt32) (missType : CacheMissType) :
    Option (InstQueue Inst) :=
  updateNewest q fun inst => setInstEffAddr inst addr missType

namespace Sampler

/-- The state after a push. -/
def pushed (s : Sampler F) (q : InstQueue Inst) : Sampler F :=
  { s with traceBuffer := q, log := s.log ++ [.push] }

/-! ## The analysis thread -/

/-- `trace_analyzer_thread_start`. A second thread next to a first one is not
modelled. -/
def threadStart (s : Sampler F) : Option (Sampler F) :=
  if s.thread = .idle then
    some { s with
      numThread := s.numThread + 1
      thread := .created
      log := s.log ++ [.start s.traceBuffer] }
  else none

/-- `trace_analyzer_thread_end`: the cycle, the penalty and the state after
it. It waits until the thread has exited. -/
def threadEnd (s : Sampler F) : Option (ℕ × ℤ × Sampler F) :=
  if s.numThread ≠ 0 then
    if s.thread = .exited then
      some (s.argCycle, s.argBpredPenalty, { s with
        numThread := s.numThread - 1
        thread := .idle
        log := s.log ++ [.join] })
    else none
  else some (0, 0, s)

/-- A step of the analysis thread: the beginning of `trace_analysis`, or one
turn of its loop on the shared buffer. With its last turn it stores what
it returns. -/
def threadStep (E : Env F) (s : Sampler F) : Option (Sampler F) :=
  match s.thread with
  | .idle | .exited => none
  | .created =>
    some { s with
      analyzer := beginAnalysis E s.traceBuffer s.analyzer
      thread := .running 0 0 }
  | .running cycles actualLastCycle => do
    let a ← cycle E
      { s.analyzer with pipe := { s.analyzer.pipe with traceBuffer := s.traceBuffer } }
    let s := { s with analyzer := a, traceBuffer := a.pipe.traceBuffer }
    let actualLastCycle :=
      if actualLastCycle = 0 then
        if a.pipe.numDispatchedInsts = a.pipe.numFetchedInsts then a.pipe.curCycle
        else actualLastCycle
      else actualLastCycle
    if a.pipe.numCommittedInsts = a.pipe.numFetchedInsts then
      some { s with
        thread := .exited
        argCycle := actualLastCycle
        argBpredPenalty := E.double.toInt a.pipe.avgMispredPenalty }
    else some { s with thread := .running (cycles + 1) actualLastCycle }

/-! ## The guest thread -/

/-- `perfmodel_update`, which is logged. -/
def update (E : Env F) (s : Sampler F) (cycle : ℕ) (bpredPenalty : ℤ) : Sampler F :=
  { s with
    perfmodel := perfmodelUpdate E.double s.sampleStat cycle bpredPenalty s.perfmodel
    log := s.log ++ [.update ⟨s.numInsts, cycle, bpredPenalty, s.sampleStat⟩] }

/-- `fetchbufferalignpc`. -/
def fetchbufferalignpc (addr : UInt32) : UInt32 := addr &&& ~~~63

/-- `if (is_branch) ...`: the branch before this instruction is resolved. -/
def resolveBranch (s : Sampler F) (i : InstIncrement) : Option (Sampler F) :=
  if s.isBranch then
    let correct := i.bpredsimAccess s.curPC i.pc s.isCond
    if s.isSampled ∧ s.isCond ≠ 0 then
      (pushBpred s.traceBuffer correct).map fun q =>
        { s.pushed q with isBranch := false, loc := .fetch i }
    else some { s with isBranch := false, loc := .fetch i }
  else some { s with loc := .fetch i }

/-- From `cur_PC = pc` to the access of the instruction cache. -/
def fetchLine (s : Sampler F) (i : InstIncrement) : Sampler F :=
  if s.previousPc ≠ fetchbufferalignpc i.pc then
    { s with
      curPC := i.pc
      previousPc := fetchbufferalignpc i.pc
      loc := .first i (i.cachesimIaccess i.pc) }
  else { s with curPC := i.pc, loc := .first i .l1Hit }

/-- `if (!num_insts) ...`. -/
def firstInst (E : Env F) (s : Sampler F) (i : InstIncrement) (m : CacheMissType) : Sampler F :=
  if s.numInsts = 0 then
    { s with
      analyzer := initTraceAnalyzer E s.analyzer
      traceBuffer := ⟨[], traceBufferCapacity⟩
      isSampled := true
      sampleStat := perfmodelSampleStart s.numInsts i.counters
      loc := .finish i m }
  else { s with loc := .finish i m }

/-- `if (num_sampled_inst == perfmodel.sample.length) ...`. -/
def finishSample (cfg : SampleConfig) (s : Sampler F) (i : InstIncrement) (m : CacheMissType) :
    Option (Sampler F) :=
  if s.numSampledInst = cfg.length then do
    let s ← threadStart { s with
      isSampled := false
      sampleStat := perfmodelSampleEnd s.numInsts i.counters s.sampleStat }
    some { s with numSampledInst := 0, loc := .period i m }
  else some { s with loc := .period i m }

/-- `if (num_insts && num_insts % perfmodel.sample.default_period == 0) ...`. -/
def startPeriod (E : Env F) (cfg : SampleConfig) (s : Sampler F) (i : InstIncrement)
    (m : CacheMissType) : Option (Sampler F) :=
  if s.numInsts ≠ 0 ∧ s.numInsts % cfg.defaultPeriod = 0 then do
    let (cycle, bpredPenalty, s) ← threadEnd s
    let s := update E s cycle bpredPenalty
    some { s with
      isSampled := true
      sampleStat := perfmodelSampleStart s.numInsts i.counters
      loc := .record i m }
  else some { s with loc := .record i m }

/-- `if (is_sampled) ...`, and the count of the instruction. -/
def recordInst (s : Sampler F) (i : InstIncrement) (m : CacheMissType) : Sampler F :=
  if s.isSampled then
    let code := i.getInstByte i.pc i.flag
    { s.pushed (pushCode s.traceBuffer (UInt32.ofNat s.numSampledInst) i.pc code m) with
      numSampledInst := s.numSampledInst + 1
      numInsts := s.numInsts + 1
      loc := .ready }
  else { s with numInsts := s.numInsts + 1, loc := .ready }

/-- `perfmodel_sample_wrapup` up to its wait. -/
def wrapupStart (s : Sampler F) (c : Counters) : Option (Sampler F) :=
  if s.isSampled then do
    let s ← threadStart { s with sampleStat := perfmodelSampleEnd s.numInsts c s.sampleStat }
    some { s with loc := .wrapupEnd }
  else some { s with loc := .exited }

/-- The rest of `perfmodel_sample_wrapup`. -/
def finishWrapup (E : Env F) (s : Sampler F) : Option (Sampler F) := do
  let (cycle, bpredPenalty, s) ← threadEnd s
  some { update E s cycle bpredPenalty with loc := .exited }

/-- The statement at which the guest thread is. It fails where the source
faults, and where it waits. -/
def block (E : Env F) (cfg : SampleConfig) (s : Sampler F) : Option (Sampler F) :=
  match s.loc with
  | .ready | .exited => none
  | .resolve i => s.resolveBranch i
  | .fetch i => some (s.fetchLine i)
  | .first i m => some (s.firstInst E i m)
  | .finish i m => s.finishSample cfg i m
  | .period i m => s.startPeriod E cfg i m
  | .record i m => some (s.recordInst i m)
  | .wrapup c => s.wrapupStart c
  | .wrapupEnd => s.finishWrapup E

/-- A helper call: `inst_increment` is entered, the others run to their
end. -/
def call (s : Sampler F) (c : Call) : Option (Sampler F) :=
  let s := { s with history := s.history ++ [c] }
  match c with
  | .instIncrement i => some { s with loc := .resolve i }
  | .dcacheAccess addr isWrite cachesimDaccess =>
    if s.isSampled then
      (pushMemaddr s.traceBuffer addr (cachesimDaccess addr isWrite)).map s.pushed
    else some s
  | .setBranchInst isCond => some { s with isBranch := true, isCond := isCond }

/-- The static variables before the first call, over any state of the
analyzer and of the model. -/
def initial (analyzer : State F) (perfmodel : Perfmodel F) : Sampler F where
  loc := .ready
  numInsts := 0
  numSampledInst := 0
  isSampled := false
  traceBuffer := ⟨[], 0⟩
  curPC := 0
  isBranch := false
  isCond := 0
  previousPc := 0
  sampleStat := ⟨0, 0, 0, 0, 0⟩
  perfmodel := perfmodel
  numThread := 0
  thread := .idle
  argCycle := 0
  argBpredPenalty := 0
  analyzer := analyzer
  history := []
  log := []

end Sampler

/-- A choice of who moves, and of what the guest does between two calls. -/
inductive Move where
  | call (c : Call)
  /-- The guest ends in `gdb_exit`. -/
  | exit (c : Counters)
  /-- The guest thread goes on in its call. -/
  | guest
  /-- The analysis thread goes on. -/
  | analysis

/-- **A move of one of the two threads.** -/
def Sampler.move (E : Env F) (cfg : SampleConfig) (s : Sampler F) : Move → Option (Sampler F)
  | .call c =>
    match s.loc with
    | .ready => s.call c
    | _ => none
  | .exit c =>
    match s.loc with
    | .ready => some { s with loc := .wrapup c }
    | _ => none
  | .guest => s.block E cfg
  | .analysis => s.threadStep E

/-- The states that the two threads reach, in any order of their moves. -/
def Reachable (E : Env F) (cfg : SampleConfig) (analyzer : State F) (perfmodel : Perfmodel F)
    (s : Sampler F) : Prop :=
  ∃ moves, Run.play (Sampler.move E cfg) moves (Sampler.initial analyzer perfmodel) = some s

end Sampling

end Tqsim
