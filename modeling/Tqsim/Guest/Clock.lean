import Tqsim.Bpredsim.Helpers.Frame
import Tqsim.Cachesim.Helpers.Access
import Tqsim.Common.Words
import Tqsim.Guest.Model.Core

/-!
# The clock

`perfmodel_getSimpleCycle` divides the whole number of instructions by a rate
and multiplies all mispredictions by a penalty, both of which an analyzed
sample changes. With exact rationals for doubles, the clock does not run
backwards as long as no sample is faster than the average of those before,
none has cheaper mispredictions, and the integer products do not wrap.
-/

namespace Tqsim

namespace Guest

open TraceAnalyzer (exactDouble)
open Bpredsim (bpredsimAccess bpredsimNumMispred numMiss_bpredsimAccess)
open Cachesim (il1_filterFetch il1_cachesimDaccess)

variable {cfg : CoreConfig} {c c' : Core ℚ} {m : Perfmodel ℚ} {stat : SampledStat}
  {i : InstIncrement}

/-! ## The averages -/

/-- What the averages of the model are averages of. -/
structure Averages (m : Perfmodel ℚ) : Prop where
  rate_pos : 0 < m.effectiveDispatchWidth
  rate : m.sumEffectiveDispatchWidth * m.effectiveDispatchWidth = m.numSampling
  branch_nonneg : 0 ≤ m.numTotalBranch
  sum_eq_zero : m.numTotalBranch = 0 → m.sumBpredPenalty = 0
  penalty : m.numTotalBranch ≠ 0 →
    m.sumBpredPenalty / m.numTotalBranch = m.bpredPenalty.toNat

/-- **A sample that is no faster than the average** does not raise the
rate. -/
theorem Averages.rate_update (h : Averages m) {cycle : ℕ} (hcycle : 0 < cycle)
    (hinsts : 0 < stat.numInsts)
    (hslow : (stat.numInsts : ℚ) / cycle ≤ m.effectiveDispatchWidth) (p : ℤ) :
    0 < (perfmodelUpdate exactDouble stat cycle p m).effectiveDispatchWidth ∧
      (perfmodelUpdate exactDouble stat cycle p m).effectiveDispatchWidth ≤
        m.effectiveDispatchWidth ∧
      (perfmodelUpdate exactDouble stat cycle p m).sumEffectiveDispatchWidth *
        (perfmodelUpdate exactDouble stat cycle p m).effectiveDispatchWidth =
          (m.numSampling + 1 : ℕ) := by
  have hD : (0 : ℚ) < stat.numInsts / cycle :=
    div_pos (Int.cast_pos.2 hinsts) (Nat.cast_pos.2 hcycle)
  set e := m.effectiveDispatchWidth
  set sum := (perfmodelUpdate exactDouble stat cycle p m).sumEffectiveDispatchWidth with hsum
  have hsumEq : sum = m.sumEffectiveDispatchWidth + 1 / (stat.numInsts / cycle) := by
    rw [hsum, perfmodelUpdate_sumEffectiveDispatchWidth]
    simp [exactDouble]
  have hrate : (perfmodelUpdate exactDouble stat cycle p m).effectiveDispatchWidth =
      (m.numSampling + 1 : ℕ) / sum := by
    rw [perfmodelUpdate_effectiveDispatchWidth]
    simp [exactDouble, hsum]
  -- the mean of the reciprocals is at least that of the old rate
  have hge : ((m.numSampling + 1 : ℕ) : ℚ) / e ≤ sum := by
    have hold : m.sumEffectiveDispatchWidth = m.numSampling / e := by
      rw [eq_div_iff h.rate_pos.ne']
      exact h.rate
    have hnew : 1 / e ≤ 1 / ((stat.numInsts : ℚ) / cycle) :=
      one_div_le_one_div_of_le hD hslow
    rw [hsumEq, hold, Nat.cast_succ, add_div]
    exact add_le_add le_rfl hnew
  have hn : (0 : ℚ) < (m.numSampling + 1 : ℕ) := Nat.cast_pos.2 (Nat.succ_pos _)
  have hpos : 0 < sum := lt_of_lt_of_le (div_pos hn h.rate_pos) hge
  rw [hrate]
  refine ⟨div_pos hn hpos, ?_, mul_div_cancel₀ _ hpos.ne'⟩
  rw [div_le_iff₀ hpos, mul_comm]
  exact (div_le_iff₀ h.rate_pos).1 hge

/-- The quotients of `perfmodel_update`: a sample whose mispredictions are no
cheaper than the average does not lower it. -/
theorem le_ediv_add {S T k p q : ℤ} (hT : 0 < T) (hk : 0 ≤ k) (hq : S / T = q) (hqp : q ≤ p) :
    q ≤ (S + k * p) / (T + k) ∧ (S + k * p) / (T + k) ≤ p := by
  have hlow : q * T ≤ S := hq ▸ Int.ediv_mul_le S hT.ne'
  have hhigh : S < (q + 1) * T := hq ▸ Int.lt_ediv_add_one_mul_self S hT
  constructor
  · rw [Int.le_ediv_iff_mul_le (by omega)]
    nlinarith
  · refine Int.le_of_lt_add_one ((Int.ediv_lt_iff_lt_mul (by omega)).2 ?_)
    nlinarith

/-- The mispredictions of a sample are no cheaper than those before. -/
structure NoCheaper (m : Perfmodel ℚ) (stat : SampledStat) (p : ℤ) : Prop where
  nonneg : 0 ≤ stat.numMispred
  le : (m.bpredPenalty.toNat : ℤ) ≤ p
  lt : p < 2 ^ 32

instance (p : ℤ) : Decidable (NoCheaper m stat p) :=
  decidable_of_iff (0 ≤ stat.numMispred ∧ (m.bpredPenalty.toNat : ℤ) ≤ p ∧ p < 2 ^ 32)
    ⟨fun ⟨h1, h2, h3⟩ => ⟨h1, h2, h3⟩, fun h => ⟨h.nonneg, h.le, h.lt⟩⟩

/-- **The quotient of a sample's update** lies between the old penalty and that
of the sample. -/
theorem Averages.quotient_update (h : Averages m) (cycle : ℕ) {p : ℤ}
    (hp : p = 0 ∨ NoCheaper m stat p) {m' : Perfmodel ℚ}
    (hm : m' = perfmodelUpdate exactDouble stat cycle p m) :
    0 ≤ m'.numTotalBranch ∧ (m'.numTotalBranch = 0 → m'.sumBpredPenalty = 0) ∧
      (m'.numTotalBranch ≠ 0 →
        (m.bpredPenalty.toNat : ℤ) ≤ m'.sumBpredPenalty / m'.numTotalBranch ∧
        m'.sumBpredPenalty / m'.numTotalBranch ≤ max (m.bpredPenalty.toNat : ℤ) p ∧
        m'.sumBpredPenalty / m'.numTotalBranch < 2 ^ 32) := by
  have hold := m.bpredPenalty.toNat_lt
  have hT := h.branch_nonneg
  rw [hm, perfmodelUpdate_numTotalBranch, perfmodelUpdate_sumBpredPenalty]
  by_cases hp0 : p = 0
  · -- the sums stay
    rw [if_neg (not_not.2 hp0), if_neg (not_not.2 hp0)]
    refine ⟨hT, h.sum_eq_zero, fun hne => ?_⟩
    rw [h.penalty hne]
    omega
  · have hno := hp.resolve_left hp0
    have hk := hno.nonneg
    have hle := hno.le
    have hlt := hno.lt
    rw [if_pos hp0, if_pos hp0]
    by_cases hT0 : m.numTotalBranch = 0
    · rw [hT0, h.sum_eq_zero hT0, zero_add, zero_add]
      refine ⟨hk, fun h0 => by rw [h0, zero_mul], fun hne => ?_⟩
      rw [Int.mul_ediv_cancel_left _ hne]
      omega
    · have hbounds := le_ediv_add (lt_of_le_of_ne hT (Ne.symm hT0)) hk (h.penalty hT0) hle
      exact ⟨by omega, fun h0 => by omega, fun _ => ⟨hbounds.1, by omega, by omega⟩⟩

/-- **A sample with mispredictions that are no cheaper than the average** does
not lower the penalty. -/
theorem Averages.penalty_update (h : Averages m) (cycle : ℕ) {p : ℤ}
    (hp : p = 0 ∨ NoCheaper m stat p) {m' : Perfmodel ℚ}
    (hm : m' = perfmodelUpdate exactDouble stat cycle p m) :
    m.bpredPenalty.toNat ≤ m'.bpredPenalty.toNat ∧
      (m'.bpredPenalty.toNat : ℤ) ≤ max (m.bpredPenalty.toNat : ℤ) p ∧
      0 ≤ m'.numTotalBranch ∧ (m'.numTotalBranch = 0 → m'.sumBpredPenalty = 0) ∧
      (m'.numTotalBranch ≠ 0 →
        m'.sumBpredPenalty / m'.numTotalBranch = m'.bpredPenalty.toNat) := by
  have hpen := perfmodelUpdate_bpredPenalty exactDouble stat cycle p m
  rw [← hm] at hpen
  obtain ⟨hnonneg, hzero, hquot⟩ := h.quotient_update cycle hp hm
  by_cases hne : m'.numTotalBranch = 0
  · rw [if_neg (not_not.2 hne)] at hpen
    rw [hpen]
    exact ⟨le_rfl, le_max_left _ _, hnonneg, hzero, fun h => absurd hne h⟩
  · obtain ⟨hge, hle, hlt⟩ := hquot hne
    have hsum : 0 ≤ m'.sumBpredPenalty := by
      by_contra hneg
      have := Int.ediv_neg_of_neg_of_pos (not_le.1 hneg) (lt_of_le_of_ne hnonneg (Ne.symm hne))
      omega
    rw [if_pos hne, Int.tdiv_eq_ediv_of_nonneg hsum] at hpen
    have heq : (m'.bpredPenalty.toNat : ℤ) = m'.sumBpredPenalty / m'.numTotalBranch := by
      rw [hpen]
      exact Words.toNat_ofInt (by omega) hlt
    exact ⟨by omega, by omega, hnonneg, hzero, fun _ => heq.symm⟩

theorem Averages.update (h : Averages m) {cycle : ℕ} (hcycle : 0 < cycle)
    (hinsts : 0 < stat.numInsts)
    (hslow : (stat.numInsts : ℚ) / cycle ≤ m.effectiveDispatchWidth) {p : ℤ}
    (hp : p = 0 ∨ NoCheaper m stat p) :
    Averages (perfmodelUpdate exactDouble stat cycle p m) := by
  obtain ⟨hpos, -, hrate⟩ := h.rate_update hcycle hinsts hslow p
  obtain ⟨-, -, hnonneg, hzero, hquot⟩ := h.penalty_update cycle hp rfl
  refine ⟨hpos, ?_, hnonneg, hzero, hquot⟩
  rw [hrate, perfmodelUpdate_numSampling]

/-! ## The clock -/

/-- The first product of `perfmodel_getSimpleCycle`. -/
def Core.il1Term (c : Core ℚ) : ℕ :=
  (c.cachesim.il1NumMiss * c.cachesim.il1MissLatency.toInt64.toUInt64).toNat

/-- The second one. -/
def Core.bpredTerm (c : Core ℚ) : ℕ :=
  ((bpredsimNumMispred c.bpred).toUInt32 * c.perfmodel.bpredPenalty).toNat

/-- The clock. -/
def Core.now (c : Core ℚ) : ℤ := c.getSimpleCycle exactDouble

/-- Nothing the clock is computed from has gone back. -/
structure NotBefore (c c' : Core ℚ) : Prop where
  rate_pos : 0 < c'.perfmodel.effectiveDispatchWidth
  rate_le : c'.perfmodel.effectiveDispatchWidth ≤ c.perfmodel.effectiveDispatchWidth
  numInsts_le : c.numInsts ≤ c'.numInsts
  il1Term_le : c.il1Term ≤ c'.il1Term
  bpredTerm_le : c.bpredTerm ≤ c'.bpredTerm

theorem Core.now_eq (h : 0 < c.perfmodel.effectiveDispatchWidth) :
    c.now = ⌊(c.numInsts : ℚ) / c.perfmodel.effectiveDispatchWidth + c.il1Term + c.bpredTerm⌋ := by
  have hnonneg : 0 ≤ (c.numInsts : ℚ) / c.perfmodel.effectiveDispatchWidth + c.il1Term +
      c.bpredTerm := by positivity
  unfold Core.now Core.getSimpleCycle perfmodelGetSimpleCycle exactDouble
  simp only [Int.cast_natCast]
  exact if_pos hnonneg

/-- **The clock has not gone back either.** -/
theorem NotBefore.now_le (h : NotBefore c c') : c.now ≤ c'.now := by
  rw [Core.now_eq (h.rate_pos.trans_le h.rate_le), Core.now_eq h.rate_pos]
  apply Int.floor_le_floor
  have hdiv : (c.numInsts : ℚ) / c.perfmodel.effectiveDispatchWidth ≤
      c'.numInsts / c'.perfmodel.effectiveDispatchWidth :=
    div_le_div₀ (Nat.cast_nonneg _) (Nat.cast_le.2 h.numInsts_le) h.rate_pos h.rate_le
  exact add_le_add (add_le_add hdiv (Nat.cast_le.2 h.il1Term_le)) (Nat.cast_le.2 h.bpredTerm_le)

/-- The averages, and what was read so far: in order, and not ahead of the
clock. -/
structure Clocked (c : Core ℚ) : Prop where
  averages : Averages c.perfmodel
  sorted : c.times.Pairwise (· ≤ ·)
  le_now : ∀ t ∈ c.times, t ≤ c.now

/-- A step that reads nothing. -/
theorem Clocked.advance (h : Clocked c) (hnb : NotBefore c c') (havg : Averages c'.perfmodel)
    (htimes : c'.times = c.times) : Clocked c' where
  averages := havg
  sorted := htimes ▸ h.sorted
  le_now t ht := (h.le_now t (htimes ▸ ht)).trans hnb.now_le

/-- A reading of the clock. -/
theorem Clocked.readTime (h : Clocked c) : Clocked (c.readTime exactDouble) where
  averages := h.averages
  sorted := by
    refine List.pairwise_append.2 ⟨h.sorted, List.pairwise_singleton _ _, fun t ht u hu => ?_⟩
    exact List.mem_singleton.1 hu ▸ h.le_now t ht
  le_now t ht := by
    rcases List.mem_append.1 ht with ht | ht
    · exact h.le_now t ht
    · exact (List.mem_singleton.1 ht).le

/-! ## The blocks of a call -/

/-- There is room for another miss in both products. -/
structure Room (c : Core ℚ) : Prop where
  il1 : (c.cachesim.il1NumMiss.toNat + 1) *
    c.cachesim.il1MissLatency.toInt64.toUInt64.toNat < 2 ^ 64
  bpred : (c.bpred.numMiss.toNat + 1) * c.perfmodel.bpredPenalty.toNat < 2 ^ 32

instance : Decidable (Room c) :=
  decidable_of_iff ((c.cachesim.il1NumMiss.toNat + 1) *
      c.cachesim.il1MissLatency.toInt64.toUInt64.toNat < 2 ^ 64 ∧
      (c.bpred.numMiss.toNat + 1) * c.perfmodel.bpredPenalty.toNat < 2 ^ 32)
    ⟨fun ⟨h1, h2⟩ => ⟨h1, h2⟩, fun h => ⟨h.il1, h.bpred⟩⟩

/-- A product modulo `w`, one of whose factors may have counted once. -/
theorem mul_mod_le {w n n' l : ℕ} (hroom : (n + 1) * l < w) (hn : n' = n ∨ n' = (n + 1) % w) :
    n * l % w ≤ n' * l % w := by
  rcases Nat.eq_zero_or_pos l with rfl | hl
  · simp
  · have hlt : n + 1 < w := lt_of_le_of_lt (Nat.le_mul_of_pos_right _ hl) hroom
    rw [Nat.mod_eq_of_lt hlt] at hn
    have hle : n ≤ n' ∧ n' ≤ n + 1 := by omega
    have h1 : n * l ≤ n' * l := Nat.mul_le_mul_right l hle.1
    have h2 : n' * l ≤ (n + 1) * l := Nat.mul_le_mul_right l hle.2
    rw [Nat.mod_eq_of_lt (by omega), Nat.mod_eq_of_lt (by omega)]
    exact h1

theorem Core.bpredTerm_eq (c : Core ℚ) :
    c.bpredTerm = c.bpred.numMiss.toNat * c.perfmodel.bpredPenalty.toNat % 2 ^ 32 := by
  simp [Core.bpredTerm, bpredsimNumMispred, UInt32.toNat_mul]

theorem Core.il1Term_eq (c : Core ℚ) :
    c.il1Term = c.cachesim.il1NumMiss.toNat *
      c.cachesim.il1MissLatency.toInt64.toUInt64.toNat % 2 ^ 64 := by
  simp [Core.il1Term, UInt64.toNat_mul]

theorem Clocked.resolveBranch (h : Clocked c) (hroom : Room c) (i : InstIncrement) :
    Clocked (c.resolveBranch i) := by
  unfold Core.resolveBranch
  split
  · refine h.advance ⟨h.averages.rate_pos, le_rfl, le_rfl, le_rfl, ?_⟩ h.averages rfl
    rw [Core.bpredTerm_eq, Core.bpredTerm_eq]
    refine mul_mod_le hroom.bpred ?_
    rcases numMiss_bpredsimAccess c.bpred ⟨c.curPC, i.pc, c.isCond⟩ with heq | heq
    · exact .inl (by simp only [heq])
    · exact .inr (by simp only [heq, UInt32.toNat_add, UInt32.toNat_one])
  · exact h

@[simp] theorem Core.resolveBranch_cachesim (c : Core ℚ) (i : InstIncrement) :
    (c.resolveBranch i).cachesim = c.cachesim := by
  unfold Core.resolveBranch
  split <;> rfl

theorem Clocked.fetchLine (h : Clocked c)
    (hroom : (c.cachesim.il1NumMiss.toNat + 1) *
      c.cachesim.il1MissLatency.toInt64.toUInt64.toNat < 2 ^ 64)
    (hfetch : c.fetchLine exactDouble cfg i = some c') : Clocked c' := by
  obtain ⟨⟨missType, cachesim, prev⟩, hfilter, rfl⟩ := Option.map_eq_some_iff.1 hfetch
  obtain ⟨hlat, hcount⟩ := il1_filterFetch hfilter
  -- the clock is read before the access, if there is one
  have hpc : Clocked { c with curPC := i.pc } :=
    h.advance ⟨h.averages.rate_pos, le_rfl, le_rfl, le_rfl, le_rfl⟩ h.averages rfl
  obtain ⟨r, hr, hclocked, hcache⟩ : ∃ r, r = (if c.previousPc ≠ prev then
      { c with curPC := i.pc }.readTime exactDouble else { c with curPC := i.pc }) ∧
      Clocked r ∧ r.cachesim = c.cachesim := by
    refine ⟨_, rfl, ?_⟩
    split
    · exact ⟨hpc.readTime, rfl⟩
    · exact ⟨hpc, rfl⟩
  have haccess : Clocked { r with cachesim := cachesim, previousPc := prev } := by
    refine hclocked.advance ⟨hclocked.averages.rate_pos, le_rfl, le_rfl, ?_, le_rfl⟩
      hclocked.averages rfl
    rw [Core.il1Term_eq, Core.il1Term_eq, hcache, hlat]
    refine mul_mod_le hroom ?_
    rcases hcount with heq | heq
    · exact .inl (by rw [heq])
    · exact .inr (by rw [heq, UInt64.toNat_add, UInt64.toNat_one])
  simp only [← hr]
  split
  · exact haccess.readTime
  · exact haccess

theorem Clocked.firstInst (h : Clocked c) : Clocked c.firstInst := by
  unfold Core.firstInst
  split
  · exact h.advance ⟨h.averages.rate_pos, le_rfl, le_rfl, le_rfl, le_rfl⟩ h.averages rfl
  · exact h

theorem Clocked.finishSample (h : Clocked c) : Clocked (c.finishSample cfg) := by
  unfold Core.finishSample
  split
  · exact h.advance ⟨h.averages.rate_pos, le_rfl, le_rfl, le_rfl, le_rfl⟩ h.averages rfl
  · exact h

theorem Clocked.beforePeriod (h : Clocked c) (hroom : Room c)
    (hbefore : c.beforePeriod exactDouble cfg i = some c') : Clocked c' := by
  obtain ⟨c₁, hfetch, rfl⟩ := Option.map_eq_some_iff.1 hbefore
  have hresolved := h.resolveBranch hroom i
  exact (hresolved.fetchLine (by simpa using hroom.il1) hfetch).firstInst.finishSample

/-- The sample that `perfmodel_update` is called with is no faster than the
average, and its mispredictions are no cheaper. -/
structure SlowSample (c : Core ℚ) (i : InstIncrement) : Prop where
  numInsts_pos : 0 < c.sampleStat.numInsts
  rate_le : (c.sampleStat.numInsts : ℚ) / i.cycle ≤ c.perfmodel.effectiveDispatchWidth
  penalty : i.bpredPenalty = 0 ∨ NoCheaper c.perfmodel c.sampleStat i.bpredPenalty ∧
    c.bpred.numMiss.toNat * i.bpredPenalty < 2 ^ 32

instance : Decidable (SlowSample c i) :=
  decidable_of_iff (0 < c.sampleStat.numInsts ∧
      (c.sampleStat.numInsts : ℚ) / i.cycle ≤ c.perfmodel.effectiveDispatchWidth ∧
      (i.bpredPenalty = 0 ∨ NoCheaper c.perfmodel c.sampleStat i.bpredPenalty ∧
        c.bpred.numMiss.toNat * i.bpredPenalty < 2 ^ 32))
    ⟨fun ⟨h1, h2, h3⟩ => ⟨h1, h2, h3⟩, fun h => ⟨h.numInsts_pos, h.rate_le, h.penalty⟩⟩

theorem Clocked.startPeriod (h : Clocked c) (hcycle : 0 < i.cycle)
    (hslow : c.atPeriod cfg → SlowSample c i) : Clocked (c.startPeriod exactDouble cfg i) := by
  unfold Core.startPeriod
  split
  next hat =>
    have hs := hslow hat
    have hp : i.bpredPenalty = 0 ∨ NoCheaper c.perfmodel c.sampleStat i.bpredPenalty :=
      hs.penalty.imp_right And.left
    have havg := h.averages.update hcycle hs.numInsts_pos hs.rate_le hp
    obtain ⟨-, hle, -⟩ :=
      h.averages.rate_update hcycle hs.numInsts_pos hs.rate_le i.bpredPenalty
    obtain ⟨hge, hmax, -⟩ := h.averages.penalty_update i.cycle hp rfl
    refine h.advance ⟨havg.rate_pos, hle, le_rfl, le_rfl, ?_⟩ havg rfl
    rw [Core.bpredTerm_eq, Core.bpredTerm_eq]
    simp only
    rcases hs.penalty with hzero | ⟨hno, hprod⟩
    · -- without a penalty the old one stays
      rw [hzero] at hge hmax ⊢
      rw [Nat.le_antisymm hge (by omega)]
    · -- the products are exact, and the new penalty lies between the two
      have hle' := hno.le
      have hnew : c.bpred.numMiss.toNat *
          (perfmodelUpdate exactDouble c.sampleStat i.cycle i.bpredPenalty
            c.perfmodel).bpredPenalty.toNat < 2 ^ 32 := by
        have := mul_le_mul_of_nonneg_left (hmax.trans (max_le hle' le_rfl))
          (Int.natCast_nonneg c.bpred.numMiss.toNat)
        zify
        exact this.trans_lt hprod
      have hold := Nat.mul_le_mul_left c.bpred.numMiss.toNat hge
      rw [Nat.mod_eq_of_lt (hold.trans_lt hnew), Nat.mod_eq_of_lt hnew]
      exact hold
  next => exact h

theorem Clocked.countInst (h : Clocked c) : Clocked (c.countInst exactDouble cfg) := by
  unfold Core.countInst
  have hcount : Clocked { c with
      numSampledInst := if c.isSampled then c.numSampledInst + 1 else c.numSampledInst
      numInsts := c.numInsts + 1 } :=
    h.advance ⟨h.averages.rate_pos, le_rfl, Nat.le_succ _, le_rfl, le_rfl⟩ h.averages rfl
  simp only
  split
  · exact hcount.readTime
  · exact hcount

theorem Clocked.dcacheAccess (h : Clocked c) {a : DataAccess} {missType : CacheMissType}
    (hacc : c.dcacheAccess exactDouble cfg a = some (missType, c')) : Clocked c' := by
  obtain ⟨⟨m, cachesim⟩, hdata, heq⟩ := Option.map_eq_some_iff.1 hacc
  obtain ⟨-, rfl⟩ := Prod.mk.inj heq
  refine h.readTime.advance ⟨h.averages.rate_pos, le_rfl, le_rfl, ?_, le_rfl⟩ h.averages rfl
  have hil1 := il1_cachesimDaccess hdata
  unfold Core.il1Term Cachesim.Hierarchy.il1NumMiss Cachesim.Hierarchy.il1MissLatency
  simp only [hil1]
  exact le_rfl

/-! ## A run -/

/-- If the call ends a period, its sample is no faster than the average. -/
def SteadyPeriod (cfg : CoreConfig) (c : Core ℚ) : Call → Prop
  | .instIncrement i => match c.beforePeriod exactDouble cfg i with
    | some c' => c'.atPeriod cfg → SlowSample c' i
    | none => True
  | _ => True

instance : ∀ call, Decidable (SteadyPeriod cfg c call)
  | .instIncrement i =>
    haveI : Decidable (match c.beforePeriod exactDouble cfg i with
        | some c' => c'.atPeriod cfg → SlowSample c' i
        | none => True) :=
      match c.beforePeriod exactDouble cfg i with
      | some _ => inferInstance
      | none => isTrue trivial
    this
  | .dcacheAccess _ | .hsimAccess _ _ | .setBranchInst _ => isTrue trivial

/-- **The condition on a call**, in the state before it. -/
def Steady (cfg : CoreConfig) (c : Core ℚ) (call : Call) : Prop :=
  Room c ∧ SteadyPeriod cfg c call

instance (call : Call) : Decidable (Steady cfg c call) := inferInstanceAs (Decidable (_ ∧ _))

/-- The cycles that a call brings are positive. -/
def Call.CyclePos : Call → Prop
  | .instIncrement i => 0 < i.cycle
  | _ => True

theorem Clocked.call (h : Clocked c) {call : Call} (hsteady : Steady cfg c call)
    (hpos : call.CyclePos) (hcall : c.call exactDouble cfg call = some c') : Clocked c' := by
  obtain ⟨hroom, hslow⟩ := hsteady
  cases call with
  | instIncrement i =>
    obtain ⟨c₁, hbefore, rfl⟩ := Option.map_eq_some_iff.1 hcall
    simp only [SteadyPeriod, hbefore] at hslow
    exact ((h.beforePeriod hroom hbefore).startPeriod hpos hslow).countInst
  | dcacheAccess a =>
    obtain ⟨⟨missType, c₁⟩, hacc, rfl⟩ := Option.map_eq_some_iff.1 hcall
    exact h.dcacheAccess hacc
  | hsimAccess shared a =>
    cases shared with
    | true => exact Option.some.inj hcall ▸ h.readTime
    | false =>
      obtain ⟨⟨missType, c₁⟩, hacc, rfl⟩ := Option.map_eq_some_iff.1 hcall
      have hclocked := h.dcacheAccess hacc
      simp only
      split
      · exact hclocked.readTime
      · exact hclocked
  | setBranchInst isCond =>
    rw [← Option.some.inj hcall]
    exact h.advance ⟨h.averages.rate_pos, le_rfl, le_rfl, le_rfl, le_rfl⟩ h.averages rfl

/-- Samples of two instructions, one after the other, with `CONFIG_HSIM`. -/
def shortSamples : CoreConfig := ⟨⟨2, 2⟩, 60, true⟩

/-- An untrained predictor, no caches, and a rate of one instruction per
cycle. -/
def startCore : Core ℚ :=
  Core.initial exactDouble Bpredsim.smallPredictor ⟨none, none, none⟩ 1 15

end Guest

end Tqsim
