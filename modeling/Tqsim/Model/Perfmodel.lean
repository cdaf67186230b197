import Tqsim.TraceAnalyzer.Model.Pipeline

/-!
# The performance model

What `perfmodel.c` keeps of a sample, and the rates it derives from the
samples analyzed so far. `sample_stat` holds C `int`s, so that the counters
are cut to 32 bits when they are stored; the difference taken at the end of
a sample is right all the same.
-/

namespace Tqsim

open TraceAnalyzer (Double)

/-- `struct sample_config`: how many instructions a sample has and how many
there are from one sample to the next. -/
structure SampleConfig where
  length : ℕ
  defaultPeriod : ℕ
  deriving DecidableEq, Repr

/-- Conversion to `int`. -/
def toInt32 (n : ℤ) : ℤ := n.bmod (2 ^ 32)

/-- The counters of the cache and branch simulators. -/
structure Counters where
  il1NumMiss : ℕ
  dl1NumMiss : ℕ
  ul2NumMiss : ℕ
  numMispred : ℕ
  deriving DecidableEq, Repr

/-- `SampledStat`: the counters at the start of a sample, and after its end
the differences. -/
structure SampledStat where
  numInsts : ℤ
  numIl1Miss : ℤ
  numDl1Miss : ℤ
  numUl2Miss : ℤ
  numMispred : ℤ
  deriving DecidableEq, Repr

/-- `perfmodel_sample_start`. -/
def perfmodelSampleStart (numInsts : ℕ) (c : Counters) : SampledStat where
  numInsts := toInt32 numInsts
  numIl1Miss := toInt32 c.il1NumMiss
  numDl1Miss := toInt32 c.dl1NumMiss
  numUl2Miss := toInt32 c.ul2NumMiss
  numMispred := toInt32 c.numMispred

/-- `perfmodel_sample_end`. The misses of the first-level data cache are not
updated. -/
def perfmodelSampleEnd (numInsts : ℕ) (c : Counters) (stat : SampledStat) : SampledStat :=
  { stat with
    numInsts := toInt32 (numInsts - stat.numInsts)
    numIl1Miss := toInt32 (c.il1NumMiss - stat.numIl1Miss)
    numUl2Miss := toInt32 (c.ul2NumMiss - stat.numUl2Miss)
    numMispred := toInt32 (c.numMispred - stat.numMispred) }

/-- The static variables that `perfmodel_update` changes. -/
structure Perfmodel (F : Type) where
  sumIpc : F
  numIpc : ℕ
  sumBpredPenalty : ℤ
  numTotalBranch : ℤ
  sumEffectiveDispatchWidth : F
  numSampling : ℕ
  effectiveDispatchWidth : F
  bpredPenalty : UInt32

/-- `perfmodel_update`. -/
def perfmodelUpdate {F : Type} (D : Double F) (stat : SampledStat) (cycle : ℕ) (bpredPenalty : ℤ)
    (m : Perfmodel F) : Perfmodel F :=
  let rate := D.div (D.ofInt stat.numInsts) (D.ofInt cycle)
  let m := { m with sumIpc := D.add m.sumIpc rate, numIpc := m.numIpc + 1 }
  let m := if bpredPenalty ≠ 0 then
      { m with
        sumBpredPenalty := m.sumBpredPenalty + stat.numMispred * bpredPenalty
        numTotalBranch := m.numTotalBranch + stat.numMispred }
    else m
  let m := { m with
    sumEffectiveDispatchWidth :=
      D.add m.sumEffectiveDispatchWidth (D.div (D.ofInt 1) rate)
    numSampling := m.numSampling + 1 }
  let m := { m with
    effectiveDispatchWidth := D.div (D.ofInt m.numSampling) m.sumEffectiveDispatchWidth }
  if m.numTotalBranch ≠ 0 then
    { m with bpredPenalty := UInt32.ofInt (m.sumBpredPenalty.tdiv m.numTotalBranch) }
  else m

section Update

variable {F : Type} (D : Double F) (stat : SampledStat) (cycle : ℕ) (p : ℤ) (m : Perfmodel F)

@[simp] theorem perfmodelUpdate_numSampling :
    (perfmodelUpdate D stat cycle p m).numSampling = m.numSampling + 1 := by
  simp only [perfmodelUpdate]
  split_ifs <;> rfl

@[simp] theorem perfmodelUpdate_sumEffectiveDispatchWidth :
    (perfmodelUpdate D stat cycle p m).sumEffectiveDispatchWidth =
      D.add m.sumEffectiveDispatchWidth
        (D.div (D.ofInt 1) (D.div (D.ofInt stat.numInsts) (D.ofInt cycle))) := by
  simp only [perfmodelUpdate]
  split_ifs <;> rfl

@[simp] theorem perfmodelUpdate_effectiveDispatchWidth :
    (perfmodelUpdate D stat cycle p m).effectiveDispatchWidth =
      D.div (D.ofInt ↑(m.numSampling + 1))
        (perfmodelUpdate D stat cycle p m).sumEffectiveDispatchWidth := by
  simp only [perfmodelUpdate]
  split_ifs <;> rfl

@[simp] theorem perfmodelUpdate_numTotalBranch :
    (perfmodelUpdate D stat cycle p m).numTotalBranch =
      if p ≠ 0 then m.numTotalBranch + stat.numMispred else m.numTotalBranch := by
  simp only [perfmodelUpdate]
  split_ifs <;> rfl

@[simp] theorem perfmodelUpdate_sumBpredPenalty :
    (perfmodelUpdate D stat cycle p m).sumBpredPenalty =
      if p ≠ 0 then m.sumBpredPenalty + stat.numMispred * p else m.sumBpredPenalty := by
  simp only [perfmodelUpdate]
  split_ifs <;> rfl

theorem perfmodelUpdate_bpredPenalty :
    (perfmodelUpdate D stat cycle p m).bpredPenalty =
      if (perfmodelUpdate D stat cycle p m).numTotalBranch ≠ 0 then
        UInt32.ofInt ((perfmodelUpdate D stat cycle p m).sumBpredPenalty.tdiv
          (perfmodelUpdate D stat cycle p m).numTotalBranch)
      else m.bpredPenalty := by
  simp only [perfmodelUpdate]
  split_ifs <;> rfl

end Update

/-- `perfmodel_getSimpleCycle`, of the counters and latencies it asks for. The
products are those of C: the first is an `uint64_t`, and the second, of an
`int` and an `uint32_t`, an `uint32_t`. -/
def perfmodelGetSimpleCycle {F : Type} (D : Double F) (m : Perfmodel F) (numInsts : ℕ)
    (il1NumMiss : UInt64) (il1MissLatency numMispred : Int32) : ℤ :=
  D.toInt (D.add
    (D.add (D.div (D.ofInt numInsts) m.effectiveDispatchWidth)
      (D.ofInt (il1NumMiss * il1MissLatency.toInt64.toUInt64).toNat))
    (D.ofInt (numMispred.toUInt32 * m.bpredPenalty).toNat))

/-- `perfmodel_getCycle`, which adds the misses of the second level. -/
def perfmodelGetCycle {F : Type} (D : Double F) (m : Perfmodel F) (numInsts : ℕ)
    (il1NumMiss : UInt64) (il1MissLatency : Int32) (ul2NumMiss : UInt64)
    (ul2MissLatency numMispred : Int32) : ℤ :=
  D.toInt (D.add
    (D.add
      (D.add (D.div (D.ofInt numInsts) m.effectiveDispatchWidth)
        (D.ofInt (il1NumMiss * il1MissLatency.toInt64.toUInt64).toNat))
      (D.ofInt (ul2NumMiss * ul2MissLatency.toInt64.toUInt64).toNat))
    (D.ofInt (numMispred.toUInt32 * m.bpredPenalty).toNat))

/-- **A difference survives the conversions**, whatever the counter has grown
to. -/
theorem toInt32_sub_toInt32 {k : ℕ} (n : ℕ) (hk : k < 2 ^ 31) :
    toInt32 ((n + k : ℕ) - toInt32 n) = k := by
  -- the stored count differs from the real one by a multiple of the modulus
  obtain ⟨m, hm⟩ : ∃ m : ℤ, toInt32 n = n - 2 ^ 32 * m := by
    have h := Int.mul_ediv_cancel' (Int.dvd_self_sub_bmod (x := (n : ℤ)) (m := 2 ^ 32))
    refine ⟨((n : ℤ) - toInt32 n) / 2 ^ 32, ?_⟩
    simp only [toInt32, Nat.cast_pow, Nat.cast_ofNat] at h ⊢
    omega
  have heq : ((n + k : ℕ) : ℤ) - toInt32 n = k + ((2 ^ 32 : ℕ) : ℤ) * m := by
    rw [hm]
    push_cast
    ring
  rw [heq, toInt32, Int.add_mul_bmod_self_left]
  exact Int.bmod_eq_of_le (by omega) (by omega)

/-- The length of a sample. -/
theorem numInsts_perfmodelSampleEnd {n length : ℕ} (hlen : length < 2 ^ 31) {stat : SampledStat}
    (hstat : stat.numInsts = toInt32 n) (c : Counters) :
    (perfmodelSampleEnd (n + length) c stat).numInsts = length := by
  simp only [perfmodelSampleEnd, hstat]
  exact toInt32_sub_toInt32 n hlen

/-- Its mispredictions, which are not negative. -/
theorem numMispred_perfmodelSampleEnd {c c' : Counters} {k : ℕ} (hk : k < 2 ^ 31)
    (hc : c'.numMispred = c.numMispred + k) {stat : SampledStat}
    (hstat : stat.numMispred = toInt32 c.numMispred) (numInsts : ℕ) :
    (perfmodelSampleEnd numInsts c' stat).numMispred = k := by
  simp only [perfmodelSampleEnd, hstat, hc]
  exact toInt32_sub_toInt32 c.numMispred hk

end Tqsim
