import Mathlib.Tactic

/-!
# The configuration of a simulation

`struct perfmodel_config` holds what the XML file gives; the trace analyzer
reads the core, the functional units and one cache latency of it. All values
are C `int`s and the reader constrains none of them, so that they are
integers here, the size of the reorder buffer apart: it is a modulus, and a
natural number.
-/

namespace Tqsim

/-- `CacheMissType`: the level a cache access was served at. -/
inductive CacheMissType where
  | l1Hit
  | l1Miss
  | l2Miss
  deriving DecidableEq, Repr

/-- The value of the enumerator. -/
def CacheMissType.toNat : CacheMissType → ℕ
  | l1Hit => 0
  | l1Miss => 1
  | l2Miss => 2

/-- The part of `struct perfmodel_config` that the trace analyzer reads. -/
structure PerfmodelConfig where
  /-- `core.frontend_width`: the dispatch width. -/
  frontendWidth : ℤ
  /-- `core.backend_width`: the issue, write-back and commit widths. -/
  backendWidth : ℤ
  /-- `core.rob_size`. -/
  robSize : ℕ
  /-- `core.iq_size`, zero meaning unbounded. -/
  iqSize : ℤ
  /-- `numfu.intalu`. -/
  intalu : ℤ
  /-- `numfu.intmultdiv`. -/
  intmultdiv : ℤ
  /-- `ul2.latency`, what a load that misses pays. -/
  ul2Latency : ℤ
  deriving DecidableEq, Repr

end Tqsim
