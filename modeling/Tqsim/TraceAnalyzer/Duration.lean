import Tqsim.TraceAnalyzer.Microops
import Tqsim.TraceAnalyzer.Progress

/-!
# How long an analysis takes

The potential that makes the loop of `trace_analysis` end also bounds the
cycles it simulates. At the start it is what a machine would take that has
one micro-op at a time, four cycles for each besides its latencies: however
the micro-ops depend on each other, and however few units and entries the
core has, the pipeline is never slower than that.
-/

namespace Tqsim

namespace TraceAnalyzer

variable {F : Type} {E : Env F} {base : ℕ} {T : List Inst} {s : State F} {inst : Inst}

/-! ## One micro-op at a time -/

end TraceAnalyzer

end Tqsim
