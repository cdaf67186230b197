import Tqsim.Bpredsim.Model.Bimod
import Tqsim.Cachesim.Model.Hierarchy
import Tqsim.Common.Run
import Tqsim.Model.Perfmodel

/-!
# The guest's helper calls

`inst_increment` and the data helpers of `op_helper.c` over the branch
predictor and the caches, with the clock `perfmodel_getSimpleCycle` that
they read. What the analysis of a sample results in comes with the call that
asks for it, so that the trace buffer and the analysis thread, which nothing
here depends on otherwise, are left out.

`times` is no variable of the source: it holds what the calls of
`perfmodel_getSimpleCycle` returned.
-/

namespace Tqsim

namespace Guest

open TraceAnalyzer (Double)
open Bpredsim (Bpred Branch bpredsimAccess bpredsimNumMispred)
open Cachesim (Hierarchy cachesimDaccess filterFetch)

/-- The configuration, and whether `CONFIG_HSIM` is defined. -/
structure CoreConfig where
  sample : SampleConfig
  robSize : Int32
  hsim : Bool

/-- A call of `inst_increment`. -/
structure InstIncrement where
  pc : UInt32
  /-- What `trace_analyzer_thread_end` returns, if it is called. -/
  cycle : ℕ
  bpredPenalty : ℤ
  /-- `miss_type`, before it is assigned. -/
  stack : CacheMissType

/-- A call of a data helper. -/
structure DataAccess where
  addr : UInt32
  isWrite : Bool
  stack : CacheMissType

/-- The helper calls of a guest run. -/
inductive Call where
  | instIncrement (i : InstIncrement)
  | dcacheAccess (a : DataAccess)
  /-- A load or store helper of `CONFIG_HSIM`, to a shared or a local
  address. -/
  | hsimAccess (shared : Bool) (a : DataAccess)
  | setBranchInst (isCond : Int32)

/-- The predictor, the caches, and the variables of `op_helper.c` and
`perfmodel.c`. -/
structure Core (F : Type) where
  bpred : Bpred
  cachesim : Hierarchy
  numInsts : ℕ
  numSampledInst : ℕ
  isSampled : Bool
  curPC : UInt32
  isBranch : Bool
  isCond : Int32
  previousPc : UInt32
  sampleStat : SampledStat
  perfmodel : Perfmodel F
  times : List ℤ

namespace Core

variable {F : Type}

/-- `perfmodel_getSimpleCycle`. -/
def getSimpleCycle (D : Double F) (c : Core F) : ℤ :=
  perfmodelGetSimpleCycle D c.perfmodel c.numInsts c.cachesim.il1NumMiss
    c.cachesim.il1MissLatency (bpredsimNumMispred c.bpred)

/-- `perfmodel_getCycle`. -/
def getCycle (D : Double F) (c : Core F) : ℤ :=
  perfmodelGetCycle D c.perfmodel c.numInsts c.cachesim.il1NumMiss c.cachesim.il1MissLatency
    c.cachesim.ul2NumMiss c.cachesim.ul2MissLatency (bpredsimNumMispred c.bpred)

/-- The clock is read. -/
def readTime (D : Double F) (c : Core F) : Core F :=
  { c with times := c.times ++ [c.getSimpleCycle D] }

/-- What `perfmodel_sample_start` and `perfmodel_sample_end` ask the
simulators. -/
def counters (c : Core F) : Counters where
  il1NumMiss := c.cachesim.il1NumMiss.toNat
  dl1NumMiss := c.cachesim.dl1NumMiss.toNat
  ul2NumMiss := c.cachesim.ul2NumMiss.toNat
  numMispred := c.bpred.numMiss.toNat

/-- `if (is_branch) ...`. -/
def resolveBranch (c : Core F) (i : InstIncrement) : Core F :=
  if c.isBranch then
    { c with
      bpred := (bpredsimAccess c.bpred ⟨c.curPC, i.pc, c.isCond⟩).2
      isBranch := false }
  else c

/-- From `cur_PC = pc` to the access of the instruction cache. The clock is
read for the access, and with `CONFIG_HSIM` once more after a miss. -/
def fetchLine (D : Double F) (cfg : CoreConfig) (c : Core F) (i : InstIncrement) :
    Option (Core F) :=
  let c := { c with curPC := i.pc }
  (filterFetch c.cachesim cfg.hsim cfg.robSize i.stack c.previousPc
    (UInt64.ofInt (c.getSimpleCycle D)) i.pc).map fun (missType, cachesim, previousPc) =>
      let read := if c.previousPc ≠ previousPc then c.readTime D else c
      let c := { read with cachesim := cachesim, previousPc := previousPc }
      if cfg.hsim ∧ missType ≠ .l1Hit then c.readTime D else c

/-- `if (!num_insts) ...`. -/
def firstInst (c : Core F) : Core F :=
  if c.numInsts = 0 then
    { c with
      isSampled := true
      sampleStat := perfmodelSampleStart c.numInsts c.counters }
  else c

/-- `if (num_sampled_inst == perfmodel.sample.length) ...`. -/
def finishSample (cfg : CoreConfig) (c : Core F) : Core F :=
  if c.numSampledInst = cfg.sample.length then
    { c with
      isSampled := false
      sampleStat := perfmodelSampleEnd c.numInsts c.counters c.sampleStat
      numSampledInst := 0 }
  else c

/-- The test of `inst_increment` for the end of a period. -/
def atPeriod (cfg : CoreConfig) (c : Core F) : Prop :=
  c.numInsts ≠ 0 ∧ c.numInsts % cfg.sample.defaultPeriod = 0

instance (cfg : CoreConfig) (c : Core F) : Decidable (c.atPeriod cfg) :=
  inferInstanceAs (Decidable (_ ∧ _))

/-- `if (num_insts && num_insts % perfmodel.sample.default_period == 0) ...`. -/
def startPeriod (D : Double F) (cfg : CoreConfig) (c : Core F) (i : InstIncrement) : Core F :=
  if c.atPeriod cfg then
    { c with
      perfmodel := perfmodelUpdate D c.sampleStat i.cycle i.bpredPenalty c.perfmodel
      isSampled := true
      sampleStat := perfmodelSampleStart c.numInsts c.counters }
  else c

/-- `if (is_sampled) ...`, the count of the instruction, and the notice. -/
def countInst (D : Double F) (cfg : CoreConfig) (c : Core F) : Core F :=
  let c := { c with
    numSampledInst := if c.isSampled then c.numSampledInst + 1 else c.numSampledInst
    numInsts := c.numInsts + 1 }
  if cfg.hsim then c.readTime D else c

/-- `inst_increment` up to the test for the end of a period. -/
def beforePeriod (D : Double F) (cfg : CoreConfig) (c : Core F) (i : InstIncrement) :
    Option (Core F) :=
  ((c.resolveBranch i).fetchLine D cfg i).map fun c => c.firstInst.finishSample cfg

/-- `inst_increment`. -/
def instIncrement (D : Double F) (cfg : CoreConfig) (c : Core F) (i : InstIncrement) :
    Option (Core F) :=
  (c.beforePeriod D cfg i).map fun c => (c.startPeriod D cfg i).countInst D cfg

/-- `dcache_access`: the level that served it, and the state. -/
def dcacheAccess (D : Double F) (cfg : CoreConfig) (c : Core F) (a : DataAccess) :
    Option (CacheMissType × Core F) :=
  (cachesimDaccess c.cachesim cfg.hsim cfg.robSize a.stack (UInt64.ofInt (c.getSimpleCycle D))
    a.addr a.isWrite).map fun (missType, cachesim) =>
      (missType, { c.readTime D with cachesim := cachesim })

/-- A helper of `CONFIG_HSIM`, as far as it reads the clock: a shared address
is forwarded, and a local one too if it misses. -/
def hsimAccess (D : Double F) (cfg : CoreConfig) (c : Core F) (shared : Bool) (a : DataAccess) :
    Option (Core F) :=
  if shared then some (c.readTime D)
  else (c.dcacheAccess D cfg a).map fun (missType, c) =>
    if missType ≠ .l1Hit then c.readTime D else c

/-- A helper call. -/
def call (D : Double F) (cfg : CoreConfig) (c : Core F) : Call → Option (Core F)
  | .instIncrement i => c.instIncrement D cfg i
  | .dcacheAccess a => (c.dcacheAccess D cfg a).map Prod.snd
  | .hsimAccess shared a => c.hsimAccess D cfg shared a
  | .setBranchInst isCond => some { c with isBranch := true, isCond := isCond }

/-- The variables after `perfmodel_initialize`, with the configured rate and
penalty. -/
def initial (D : Double F) (bpred : Bpred) (cachesim : Hierarchy)
    (initialEffectiveDispatchWidth : F) (mispredictPenalty : UInt32) : Core F where
  bpred := bpred
  cachesim := cachesim
  numInsts := 0
  numSampledInst := 0
  isSampled := false
  curPC := 0
  isBranch := false
  isCond := 0
  previousPc := 0
  sampleStat := ⟨0, 0, 0, 0, 0⟩
  perfmodel := {
    sumIpc := D.ofInt 0
    numIpc := 0
    sumBpredPenalty := 0
    numTotalBranch := 0
    sumEffectiveDispatchWidth := D.ofInt 0
    numSampling := 0
    effectiveDispatchWidth := initialEffectiveDispatchWidth
    bpredPenalty := mispredictPenalty }
  times := []

end Core

end Guest

end Tqsim
