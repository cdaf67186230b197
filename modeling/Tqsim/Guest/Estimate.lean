import Tqsim.Common.Words
import Tqsim.Guest.Clock

/-!
# The products of the estimate

The estimate of the cycles adds a product for each cause of a delay. The
misses of a cache are counted in 64 bits, and so is their product with a
latency; the mispredictions are asked for as an `int` and multiplied by an
`uint32_t`, in 32 bits. That one wraps around.
-/

namespace Tqsim

namespace Guest

open TraceAnalyzer (Double exactDouble)
open Bpredsim (bpredsimNumMispred)

/-- A number of misses times a latency: an `uint64_t` and an `int`. -/
def missTerm (numMiss : UInt64) (latency : Int32) : UInt64 :=
  numMiss * latency.toInt64.toUInt64

/-- `bpredsim_num_mispred() * bpred_penalty`: an `int` and an `uint32_t`. -/
def mispredTerm (numMispred : Int32) (penalty : UInt32) : UInt32 :=
  numMispred.toUInt32 * penalty

/-- **The term of the mispredictions** is the product if that has 32 bits. -/
theorem toNat_mispredTerm_iff (numMiss penalty : UInt32) :
    (mispredTerm numMiss.toInt32 penalty).toNat = numMiss.toNat * penalty.toNat ↔
      numMiss.toNat * penalty.toNat < 2 ^ 32 := by
  have hmod : (mispredTerm numMiss.toInt32 penalty).toNat =
      numMiss.toNat * penalty.toNat % 2 ^ 32 := by
    simp [mispredTerm, UInt32.toNat_mul]
  rw [hmod]
  constructor
  · intro heq
    rw [← heq]
    exact Nat.mod_lt _ (by decide)
  · exact Nat.mod_eq_of_lt

/-- **The term of the misses** is the product, for counters and latencies that
are not larger than those. -/
theorem toNat_missTerm {numMiss : UInt64} {latency : Int32} (hmiss : numMiss.toNat < 2 ^ 31)
    (hnonneg : 0 ≤ latency.toInt) (hlatency : latency.toInt < 2 ^ 16) :
    ((missTerm numMiss latency).toNat : ℤ) = numMiss.toNat * latency.toInt := by
  have hlat := Words.toNat_toUInt64 hnonneg
  have hprod : numMiss.toNat * latency.toInt64.toUInt64.toNat < 2 ^ 64 := by
    have hlt : latency.toInt64.toUInt64.toNat < 2 ^ 16 := by omega
    calc numMiss.toNat * latency.toInt64.toUInt64.toNat
        ≤ 2 ^ 31 * 2 ^ 16 := Nat.mul_le_mul hmiss.le hlt.le
      _ < 2 ^ 64 := by decide
  rw [missTerm, UInt64.toNat_mul, Nat.mod_eq_of_lt hprod, Nat.cast_mul, hlat]

/-- **The terms of the estimate.** Both estimates add the term of the
mispredictions, which is the product just if that is less than `2 ^ 32`; for
counters below `2 ^ 31` and latencies below `2 ^ 16` the terms of the misses
are the products. -/
theorem mispredTerm_exact_iff {F : Type} (D : Double F) (c : Core F) :
    c.getCycle D = D.toInt (D.add (D.add (D.add
        (D.div (D.ofInt c.numInsts) c.perfmodel.effectiveDispatchWidth)
        (D.ofInt (missTerm c.cachesim.il1NumMiss c.cachesim.il1MissLatency).toNat))
        (D.ofInt (missTerm c.cachesim.ul2NumMiss c.cachesim.ul2MissLatency).toNat))
        (D.ofInt (mispredTerm (bpredsimNumMispred c.bpred) c.perfmodel.bpredPenalty).toNat)) ∧
      c.getSimpleCycle D = D.toInt (D.add (D.add
        (D.div (D.ofInt c.numInsts) c.perfmodel.effectiveDispatchWidth)
        (D.ofInt (missTerm c.cachesim.il1NumMiss c.cachesim.il1MissLatency).toNat))
        (D.ofInt (mispredTerm (bpredsimNumMispred c.bpred) c.perfmodel.bpredPenalty).toNat)) ∧
      ((mispredTerm (bpredsimNumMispred c.bpred) c.perfmodel.bpredPenalty).toNat =
          c.bpred.numMiss.toNat * c.perfmodel.bpredPenalty.toNat ↔
        c.bpred.numMiss.toNat * c.perfmodel.bpredPenalty.toNat < 2 ^ 32) ∧
      ∀ (numMiss : UInt64) (latency : Int32), numMiss.toNat < 2 ^ 31 → 0 ≤ latency.toInt →
        latency.toInt < 2 ^ 16 →
        ((missTerm numMiss latency).toNat : ℤ) = numMiss.toNat * latency.toInt :=
  ⟨rfl, rfl, toNat_mispredTerm_iff _ _, fun _ _ => toNat_missTerm⟩

/-- A core that has mispredicted often, and nothing else. -/
def mispredictingCore (numMiss penalty : UInt32) : Core ℚ :=
  { startCore with
    bpred := { startCore.bpred with numMiss := numMiss }
    perfmodel := { startCore.perfmodel with bpredPenalty := penalty } }

/-- Where the product is less than `2 ^ 32`, both estimates are that. -/
theorem getCycle_mispredictingCore :
    (mispredTerm (bpredsimNumMispred (mispredictingCore 1000 16).bpred) 16).toNat = 1000 * 16 ∧
      (mispredictingCore 1000 16).getCycle exactDouble = 16000 ∧
      (mispredictingCore 1000 16).getSimpleCycle exactDouble = 16000 := by
  refine ⟨?_, by decide +kernel, by decide +kernel⟩
  exact (mispredTerm_exact_iff exactDouble (mispredictingCore 1000 16)).2.2.1.2 (by decide)

/-- `2 ^ 28` mispredictions of 16 cycles each take no time. -/
theorem getCycle_wrapped :
    (mispredictingCore 0x10000000 16).bpred.numMiss.toNat < 2 ^ 31 ∧
      (mispredictingCore 0x10000000 16).perfmodel.bpredPenalty.toNat < 2 ^ 16 ∧
      (0x10000000 : UInt32).toNat * (16 : UInt32).toNat = 2 ^ 32 ∧
      (mispredTerm (bpredsimNumMispred (mispredictingCore 0x10000000 16).bpred) 16).toNat = 0 ∧
      (mispredictingCore 0x10000000 16).getCycle exactDouble = 0 ∧
      (mispredictingCore 0x10000000 16).getSimpleCycle exactDouble = 0 := by
  decide +kernel

end Guest

end Tqsim
