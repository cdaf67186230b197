import Tqsim.Guest.Model.Core
import Tqsim.Sampling.Model.Sampler

/-!
# The simulator as a whole

The simulator without `CONFIG_HSIM`: the two threads of the sampler, with the
branch predictor and the caches that their answers come from, on the helper
calls of a guest program. When the program has ended the guest thread goes
through `gdb_exit`.

The predictor and the caches belong to the guest thread. They are asked when
`inst_increment` is entered, for what its statements use afterwards: nothing
that the answers depend on is written by the analysis thread.
-/

namespace Tqsim

namespace Simulator

open TraceAnalyzer (Env State)
open Sampling (Sampler)
open Guest (Core CoreConfig DataAccess)
open Bpredsim (Bpred bpredsimAccess)
open Cachesim (Hierarchy cachesimIaccess)

variable {F : Type}

/-- What the translated code of the guest calls, an instruction with the word
that is fetched for it. -/
inductive HelperCall where
  | instIncrement (pc flag code : UInt32) (stack : CacheMissType)
  | dcacheAccess (a : DataAccess)
  | setBranchInst (isCond : UInt32)

/-- The state of the simulator, and the calls that the guest has yet to
make. -/
structure Machine (F : Type) where
  program : List HelperCall
  sampler : Sampler F
  bpred : Bpred
  cachesim : Hierarchy

/-- What the guest thread reads of the configuration. -/
def coreConfig (E : Env F) (cfg : SampleConfig) : CoreConfig where
  sample := cfg
  robSize := Int32.ofNat E.cfg.robSize
  hsim := false

/-- A helper call with the answers of the simulators, and these after it. -/
def ask (E : Env F) (cfg : SampleConfig) (c : Core F) :
    HelperCall → Option (Sampling.Call × Bpred × Hierarchy)
  | .instIncrement pc flag code stack =>
    let i : Guest.InstIncrement := ⟨pc, 0, 0, stack⟩
    let r := c.resolveBranch i
    (r.fetchLine E.double (coreConfig E cfg) i).map fun f =>
      (.instIncrement {
        pc := pc
        flag := flag
        bpredsimAccess := fun curPC nextPC isCond =>
          (bpredsimAccess c.bpred ⟨curPC, nextPC, isCond.toInt32⟩).1
        cachesimIaccess := fun addr =>
          ((cachesimIaccess r.cachesim false (coreConfig E cfg).robSize stack
            (UInt64.ofInt (r.getSimpleCycle E.double)) addr).map Prod.fst).getD .l1Hit
        getInstByte := fun _ _ => code
        counters := f.counters }, f.bpred, f.cachesim)
  | .dcacheAccess a =>
    (c.dcacheAccess E.double (coreConfig E cfg) a).map fun (missType, d) =>
      (.dcacheAccess a.addr a.isWrite fun _ _ => missType, d.bpred, d.cachesim)
  | .setBranchInst isCond => some (.setBranchInst isCond, c.bpred, c.cachesim)

namespace Machine

/-- What the helper calls are made on, without the analysis thread. -/
def toCore (s : Machine F) : Core F where
  bpred := s.bpred
  cachesim := s.cachesim
  numInsts := s.sampler.numInsts
  numSampledInst := s.sampler.numSampledInst
  isSampled := s.sampler.isSampled
  curPC := s.sampler.curPC
  isBranch := s.sampler.isBranch
  isCond := s.sampler.isCond.toInt32
  previousPc := s.sampler.previousPc
  sampleStat := s.sampler.sampleStat
  perfmodel := s.sampler.perfmodel
  times := []

/-- What the guest thread does next: the program decides between two calls,
and `gdb_exit` is what follows it. -/
def guestMove (E : Env F) (cfg : SampleConfig) (s : Machine F) :
    Option (Sampling.Move × List HelperCall × Bpred × Hierarchy) :=
  match s.sampler.loc with
  | .ready =>
    match s.program with
    | [] => some (.exit s.toCore.counters, [], s.bpred, s.cachesim)
    | c :: program => (ask E cfg s.toCore c).map fun (call, bpred, cachesim) =>
        (.call call, program, bpred, cachesim)
  | _ => some (.guest, s.program, s.bpred, s.cachesim)

/-- The guest thread takes its turn. -/
def guestTurn (E : Env F) (cfg : SampleConfig) (s : Machine F) : Option (Machine F) :=
  (s.guestMove E cfg).bind fun (m, program, bpred, cachesim) =>
    (s.sampler.move E cfg m).map fun sampler => ⟨program, sampler, bpred, cachesim⟩

/-- The analysis thread takes its turn. -/
def analysisTurn (E : Env F) (s : Machine F) : Option (Machine F) :=
  (s.sampler.threadStep E).map fun sampler => { s with sampler := sampler }

/-- The simulator before the first call of a program. -/
def initial (program : List HelperCall) (analyzer : State F) (perfmodel : Perfmodel F)
    (bpred : Bpred) (cachesim : Hierarchy) : Machine F :=
  ⟨program, Sampler.initial analyzer perfmodel, bpred, cachesim⟩

/-- What `gdb_exit` prints as `Estimated execution cycle`. -/
def estimatedCycle (E : Env F) (s : Machine F) : ℤ := s.toCore.getCycle E.double

end Machine

/-- Which of the two threads is scheduled. -/
inductive Turn where
  | guest
  | analysis
  deriving DecidableEq, Repr

/-- **A turn of one of the threads.** -/
def Machine.turn (E : Env F) (cfg : SampleConfig) (s : Machine F) : Turn → Option (Machine F)
  | .guest => s.guestTurn E cfg
  | .analysis => s.analysisTurn E

end Simulator

end Tqsim
