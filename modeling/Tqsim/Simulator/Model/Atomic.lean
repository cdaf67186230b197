import Tqsim.Simulator.Model.Machine

/-!
# The simulator without threads

What the simulator is for, said without the analysis thread: the helper calls
are made one after the other, each at once, and what the analyses result in is
given as a list, in the order in which they are waited for. When the clock was
read is of no interest here.
-/

namespace Tqsim

namespace Simulator

open TraceAnalyzer (Double)
open Guest (Core CoreConfig)

variable {F : Type}

/-- The helper calls' state, and the results of the analyses to come. -/
structure Atomic (F : Type) where
  core : Core F
  results : List (ℕ × ℤ)

/-- Without the readings of the clock. -/
def untimed (c : Core F) : Core F := { c with times := [] }

namespace Atomic

/-- The end of a period takes the next result. -/
def period (D : Double F) (cfg : CoreConfig) (pc : UInt32) (stack : CacheMissType) (a : Atomic F) :
    Option (Atomic F) :=
  if a.core.atPeriod cfg then
    match a.results with
    | [] => none
    | (cycle, bpredPenalty) :: results =>
      some ⟨a.core.startPeriod D cfg ⟨pc, cycle, bpredPenalty, stack⟩, results⟩
  else some a

/-- **A helper call, at once.** -/
def call (D : Double F) (cfg : CoreConfig) (a : Atomic F) : HelperCall → Option (Atomic F)
  | .instIncrement pc _ _ stack =>
    let i : Guest.InstIncrement := ⟨pc, 0, 0, stack⟩
    ((a.core.resolveBranch i).fetchLine D cfg i).bind fun f =>
      (period D cfg pc stack { a with core := (untimed f).firstInst.finishSample cfg }).map fun a =>
        { a with core := a.core.countInst D cfg }
  | .dcacheAccess d =>
    (a.core.dcacheAccess D cfg d).map fun (_, core) => { a with core := untimed core }
  | .setBranchInst isCond =>
    some { a with core := { a.core with isBranch := true, isCond := isCond.toInt32 } }

/-- `perfmodel_sample_wrapup`: a sample that is being recorded is ended, and
its analysis is waited for. -/
def sampleWrapup (D : Double F) (a : Atomic F) : Option (Core F) :=
  if a.core.isSampled then
    match a.results with
    | [] => none
    | (cycle, bpredPenalty) :: _ =>
      let stat := perfmodelSampleEnd a.core.numInsts a.core.counters a.core.sampleStat
      some { a.core with
        sampleStat := stat
        perfmodel := perfmodelUpdate D stat cycle bpredPenalty a.core.perfmodel }
  else some a.core

/-- **A program from its first call to its exit.** -/
def run (D : Double F) (cfg : CoreConfig) (program : List HelperCall) (a : Atomic F) :
    Option (Core F) :=
  (Run.play (call D cfg) program a).bind (sampleWrapup D)

end Atomic

end Simulator

end Tqsim
