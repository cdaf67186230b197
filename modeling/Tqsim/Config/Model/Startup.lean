import Tqsim.Config.Model.Configfile
import Tqsim.Guest.Model.Core

/-!
# The start of a simulation

`perfmodel_initialize`: the configuration file is read, and the caches, the
rate and the penalty are set from it. The other parts of the simulator read
their parameters from `perfmodel` when they need them; what each of them
reads is collected here. An `int` that is used as a size or a count is a
natural number in the models of these parts, so that a negative one is not
covered.

What `load_configfile` returns is not looked at. The branch predictor does
not depend on the configuration, and is given.
-/

namespace Tqsim

namespace Config

open TraceAnalyzer (Double)

variable {F : Type}

/-- What `cache_initialize` is given for a cache. -/
def CacheConfig.levelConfig (c : CacheConfig) : Cachesim.LevelConfig where
  numSet := c.numSet.toNatClampNeg
  sizeBlk := c.sizeBlk.toNatClampNeg
  assoc := c.assoc.toNatClampNeg
  latency := c.latency.toUInt32

namespace Perfmodel

variable (p : Perfmodel F)

/-- What `cachesim_initialize` reads. -/
def cachesimConfig : Cachesim.CachesimConfig where
  il1 := if p.existIL1 then some p.il1.levelConfig else none
  dl1 := if p.existDL1 then some p.dl1.levelConfig else none
  ul2 := if p.existUL2 then some p.ul2.levelConfig else none
  memLatency := p.mem.latency.toUInt32

/-- What the trace analyzer reads. -/
def analyzerConfig : PerfmodelConfig where
  frontendWidth := p.core.frontendWidth.toInt
  backendWidth := p.core.backendWidth.toInt
  robSize := p.core.robSize.toNatClampNeg
  iqSize := p.core.iqSize.toInt
  intalu := p.numfu.intalu.toInt
  intmultdiv := p.numfu.intmultdiv.toInt
  ul2Latency := p.ul2.latency.toInt

/-- What `inst_increment` reads. -/
def sampleConfig : Tqsim.SampleConfig where
  length := p.sample.length.toNatClampNeg
  defaultPeriod := p.sample.defaultPeriod.toNatClampNeg

end Perfmodel

/-- `perfmodel_initialize`: the configuration, and the variables of the
simulator. -/
def perfmodelInitialize (D : Double F) (atof : List Char → F) (doc : Option XmlNode)
    (bpred : Bpredsim.Bpred) (p : Perfmodel F) : Option (Perfmodel F × Guest.Core F) :=
  (loadConfigfile atof doc p).map fun (_, p) =>
    (p, Guest.Core.initial D bpred (Cachesim.cachesimInitialize p.cachesimConfig)
      p.sample.initialEffectiveDispatchWidth p.bpred.mispredictPenalty.toUInt32)

end Config

end Tqsim
