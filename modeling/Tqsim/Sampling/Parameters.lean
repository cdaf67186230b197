import Tqsim.Common.Mean
import Tqsim.Common.Run
import Tqsim.Common.Words
import Tqsim.Model.Perfmodel

/-!
# The parameters of the model

`perfmodel_update` keeps a harmonic mean of the rates of the samples, as a
sum of reciprocals, and a mean of their penalties, weighted with the
mispredictions, as the quotient of two sums of `int`s. With exact rationals
for doubles, both lie between the smallest and the largest that was seen. But
the quotient, which has a sign, is stored without one: where it is negative,
the penalty of the model is larger than any that was seen.
-/

namespace Tqsim

namespace Sampling

open TraceAnalyzer (exactDouble)
open Mean (Between)

/-- A call of `perfmodel_update`, with what `sample_stat` holds. -/
structure Sample where
  stat : SampledStat
  cycle : ℕ
  bpredPenalty : Int32
  numInsts_pos : 1 ≤ stat.numInsts
  cycle_pos : 1 ≤ cycle
  numMispred_nonneg : 0 ≤ stat.numMispred

namespace Sample

/-- The rate of a sample. -/
def rate (s : Sample) : ℚ := s.stat.numInsts / s.cycle

/-- The penalty of a sample. -/
def penalty (s : Sample) : ℤ := s.bpredPenalty.toInt

/-- The sample has a penalty, and a misprediction. -/
def Counted (s : Sample) : Prop := s.penalty ≠ 0 ∧ 1 ≤ s.stat.numMispred

instance decidableCounted (s : Sample) : Decidable s.Counted :=
  inferInstanceAs (Decidable (_ ∧ _))

/-- The model after the call. -/
def update (m : Perfmodel ℚ) (s : Sample) : Perfmodel ℚ :=
  perfmodelUpdate exactDouble s.stat s.cycle s.penalty m

end Sample

/-- A sequence of calls: one at least, and not so many that `num_sampling`, an
`int`, overflows. -/
structure History where
  samples : List Sample
  ne_nil : samples ≠ []
  length_lt : samples.length < 2 ^ 31

/-- The model before the first call. -/
structure Fresh (m : Perfmodel ℚ) : Prop where
  sumEffectiveDispatchWidth : m.sumEffectiveDispatchWidth = 0
  numSampling : m.numSampling = 0
  sumBpredPenalty : m.sumBpredPenalty = 0
  numTotalBranch : m.numTotalBranch = 0

/-- The model after some calls. -/
def afterSamples (samples : List Sample) (m : Perfmodel ℚ) : Perfmodel ℚ :=
  samples.foldl Sample.update m

/-- The rates seen. -/
def rates (samples : List Sample) : List ℚ := samples.map Sample.rate

/-- The samples that count for the penalty. -/
def counted (samples : List Sample) : List Sample := samples.filter fun s => s.Counted

/-- Their penalties. -/
def penalties (samples : List Sample) : List ℤ := (counted samples).map Sample.penalty

/-- The mispredictions counted. -/
def totalMispred (samples : List Sample) : ℤ :=
  ((counted samples).map fun s => s.stat.numMispred).sum

/-- Their penalties, added up. -/
def totalPenalty (samples : List Sample) : ℤ :=
  ((counted samples).map fun s => s.stat.numMispred * s.penalty).sum

/-- The value of an `int`. -/
def IsInt (n : ℤ) : Prop := -2 ^ 31 ≤ n ∧ n < 2 ^ 31

instance decidableIsInt (n : ℤ) : Decidable (IsInt n) := inferInstanceAs (Decidable (_ ∧ _))

/-- The `int`s that a call computes. -/
structure IntUpdate (m : Perfmodel ℚ) (s : Sample) : Prop where
  product : IsInt (s.stat.numMispred * s.penalty)
  sumBpredPenalty : IsInt (s.update m).sumBpredPenalty
  numTotalBranch : IsInt (s.update m).numTotalBranch

instance decidableIntUpdate (m : Perfmodel ℚ) (s : Sample) : Decidable (IntUpdate m s) :=
  decidable_of_iff (IsInt (s.stat.numMispred * s.penalty) ∧
      IsInt (s.update m).sumBpredPenalty ∧ IsInt (s.update m).numTotalBranch)
    ⟨fun h => ⟨h.1, h.2.1, h.2.2⟩, fun h => ⟨h.product, h.sumBpredPenalty, h.numTotalBranch⟩⟩

/-- **No sum of `int`s overflows.** -/
def IntSums (samples : List Sample) (m : Perfmodel ℚ) : Prop :=
  Run.Every (fun m s => some (Sample.update m s)) IntUpdate samples m

instance decidableIntSums (samples : List Sample) (m : Perfmodel ℚ) :
    Decidable (IntSums samples m) :=
  inferInstanceAs (Decidable (Run.Every _ _ _ _))

/-! ## The sums -/

variable {m : Perfmodel ℚ} {s : Sample} {samples : List Sample}

/-- What is added to the sums. -/
structure Adds (m m' : Perfmodel ℚ) (samples : List Sample) : Prop where
  numSampling : m'.numSampling = m.numSampling + samples.length
  sumEffectiveDispatchWidth : m'.sumEffectiveDispatchWidth =
    m.sumEffectiveDispatchWidth + ((rates samples).map (1 / ·)).sum
  sumBpredPenalty : m'.sumBpredPenalty = m.sumBpredPenalty + totalPenalty samples
  numTotalBranch : m'.numTotalBranch = m.numTotalBranch + totalMispred samples

/-- The samples that count, of one: a sample without a misprediction does not,
and adds nothing. -/
theorem sum_counted_singleton {f : Sample → ℤ} (hf : s.stat.numMispred = 0 → f s = 0) :
    ((counted [s]).map f).sum = if s.penalty ≠ 0 then f s else 0 := by
  have hnonneg := s.numMispred_nonneg
  by_cases hp : s.penalty = 0
  · simp [hp, counted, Sample.Counted]
  · by_cases hm : 1 ≤ s.stat.numMispred
    · simp [hp, hm, counted, Sample.Counted]
    · simp [hp, hm, counted, Sample.Counted, hf (by omega)]

/-- **One call.** -/
theorem adds_update (m : Perfmodel ℚ) (s : Sample) : Adds m (s.update m) [s] := by
  refine ⟨perfmodelUpdate_numSampling .., ?_, ?_, ?_⟩
  · rw [Sample.update, perfmodelUpdate_sumEffectiveDispatchWidth]
    simp [exactDouble, rates, Sample.rate]
  · rw [Sample.update, perfmodelUpdate_sumBpredPenalty, totalPenalty,
      sum_counted_singleton fun h => by rw [h, zero_mul]]
    split
    · rfl
    · exact (add_zero _).symm
  · rw [Sample.update, perfmodelUpdate_numTotalBranch, totalMispred, sum_counted_singleton id]
    split
    · rfl
    · exact (add_zero _).symm

theorem totalMispred_append (l₁ l₂ : List Sample) :
    totalMispred (l₁ ++ l₂) = totalMispred l₁ + totalMispred l₂ := by
  rw [totalMispred, counted, List.filter_append, List.map_append, List.sum_append]
  rfl

theorem totalPenalty_append (l₁ l₂ : List Sample) :
    totalPenalty (l₁ ++ l₂) = totalPenalty l₁ + totalPenalty l₂ := by
  rw [totalPenalty, counted, List.filter_append, List.map_append, List.sum_append]
  rfl

theorem Adds.append {m₁ m₂ : Perfmodel ℚ} {l₁ l₂ : List Sample} (h₁ : Adds m m₁ l₁)
    (h₂ : Adds m₁ m₂ l₂) : Adds m m₂ (l₁ ++ l₂) where
  numSampling := by
    rw [h₂.numSampling, h₁.numSampling, List.length_append]
    omega
  sumEffectiveDispatchWidth := by
    rw [h₂.sumEffectiveDispatchWidth, h₁.sumEffectiveDispatchWidth, rates, rates, rates,
      List.map_append, List.map_append, List.sum_append, add_assoc]
  sumBpredPenalty := by
    rw [h₂.sumBpredPenalty, h₁.sumBpredPenalty, totalPenalty_append, add_assoc]
  numTotalBranch := by
    rw [h₂.numTotalBranch, h₁.numTotalBranch, totalMispred_append, add_assoc]

/-- **A sequence of calls.** -/
theorem adds_afterSamples (samples : List Sample) (m : Perfmodel ℚ) :
    Adds m (afterSamples samples m) samples := by
  induction samples generalizing m with
  | nil => exact ⟨rfl, (add_zero _).symm, (add_zero _).symm, (add_zero _).symm⟩
  | cons s samples ih => exact (adds_update m s).append (ih (s.update m))

/-! ## The parameters -/

/-- **The rate of the model** is the quotient of what the last call left. -/
theorem effectiveDispatchWidth_afterSamples (hne : samples ≠ []) (m : Perfmodel ℚ) :
    (afterSamples samples m).effectiveDispatchWidth =
      (afterSamples samples m).numSampling /
        (afterSamples samples m).sumEffectiveDispatchWidth := by
  obtain ⟨init, s, rfl⟩ := List.eq_nil_or_concat samples |>.resolve_left hne
  rw [List.concat_eq_append, afterSamples, List.foldl_append, List.foldl_cons, List.foldl_nil]
  rw [Sample.update, perfmodelUpdate_effectiveDispatchWidth, perfmodelUpdate_numSampling]
  simp [exactDouble]

/-- **And so is its penalty**, where a misprediction was counted. -/
theorem bpredPenalty_afterSamples (hne : samples ≠ []) {m : Perfmodel ℚ}
    (htotal : (afterSamples samples m).numTotalBranch ≠ 0) :
    (afterSamples samples m).bpredPenalty = UInt32.ofInt
      ((afterSamples samples m).sumBpredPenalty.tdiv (afterSamples samples m).numTotalBranch) := by
  obtain ⟨init, s, rfl⟩ := List.eq_nil_or_concat samples |>.resolve_left hne
  rw [List.concat_eq_append, afterSamples, List.foldl_append, List.foldl_cons,
    List.foldl_nil] at htotal ⊢
  rw [Sample.update, perfmodelUpdate_bpredPenalty]
  exact if_pos htotal

theorem Sample.rate_pos (s : Sample) : 0 < s.rate := by
  have hinsts := s.numInsts_pos
  have hcycle := s.cycle_pos
  exact div_pos (Int.cast_pos.2 (by omega)) (Nat.cast_pos.2 (by omega))

/-- **The rate of the model lies between those that were seen.** -/
theorem between_rates (hm : Fresh m) (hne : samples ≠ []) :
    Between (afterSamples samples m).effectiveDispatchWidth (rates samples) := by
  have hadds := adds_afterSamples samples m
  have hlen : (rates samples).length = samples.length := List.length_map _
  rw [effectiveDispatchWidth_afterSamples hne, hadds.numSampling, hadds.sumEffectiveDispatchWidth,
    hm.numSampling, hm.sumEffectiveDispatchWidth, zero_add, zero_add, ← hlen]
  refine Mean.between_harmonic (by simpa [rates] using hne) fun r hr => ?_
  obtain ⟨s, -, rfl⟩ := List.mem_map.1 hr
  exact s.rate_pos

/-- **So does the mean penalty**, before it is stored. -/
theorem between_quotient (hne : penalties samples ≠ []) :
    0 < totalMispred samples ∧
      Between ((totalPenalty samples).tdiv (totalMispred samples)) (penalties samples) := by
  have hne' : counted samples ≠ [] := by simpa [penalties] using hne
  have hpos : ∀ s ∈ counted samples, 0 < s.stat.numMispred := by
    intro s hs
    have hcounted : s.Counted := of_decide_eq_true (List.mem_filter.1 hs).2
    exact hcounted.2
  refine ⟨List.sum_pos _ ?_ (by simpa using hne'), Mean.between_weighted hne' hpos⟩
  intro n hn
  obtain ⟨s, hs, rfl⟩ := List.mem_map.1 hn
  exact hpos s hs

/-- **The penalty of the model** is the mean penalty, as an `uint32_t`. -/
theorem bpredPenalty_eq (hm : Fresh m) (hne : penalties samples ≠ []) :
    (afterSamples samples m).bpredPenalty =
      UInt32.ofInt ((totalPenalty samples).tdiv (totalMispred samples)) := by
  have hadds := adds_afterSamples samples m
  have hsum : (afterSamples samples m).sumBpredPenalty = totalPenalty samples := by
    rw [hadds.sumBpredPenalty, hm.sumBpredPenalty, zero_add]
  have htotal : (afterSamples samples m).numTotalBranch = totalMispred samples := by
    rw [hadds.numTotalBranch, hm.numTotalBranch, zero_add]
  have hsamples : samples ≠ [] := by
    rintro rfl
    exact hne rfl
  have hpos := (between_quotient hne).1
  rw [bpredPenalty_afterSamples hsamples (by omega), hsum, htotal]

/-- A quotient towards zero is negative just if the sum outweighs the
divisor. -/
theorem tdiv_nonneg_iff {a b : ℤ} (hb : 0 < b) : 0 ≤ a.tdiv b ↔ -b < a := by
  rcases lt_or_ge a 0 with ha | ha
  · obtain ⟨n, rfl⟩ : ∃ n, a = -n := ⟨-a, (neg_neg a).symm⟩
    have hquot : n.tdiv b < 1 ↔ n < b := by
      rw [Int.tdiv_eq_ediv_of_nonneg (by omega), Int.ediv_lt_iff_lt_mul hb, one_mul]
    rw [Int.neg_tdiv]
    omega
  · exact iff_of_true (Int.tdiv_nonneg ha hb.le) (by omega)

/-- **What is stored of a quotient** that lies between values of an `int`: the
quotient if it is not negative, and else more than any of them. -/
theorem between_ofInt_iff {q : ℤ} {l : List ℤ} (hl : ∀ p ∈ l, IsInt p) (hq : Between q l) :
    Between ((UInt32.ofInt q).toNat : ℤ) l ↔ 0 ≤ q := by
  obtain ⟨⟨a, ha, hle⟩, b, hb, hge⟩ := hq
  have ha' := (hl a ha).1
  have hb' := (hl b hb).2
  constructor
  · rintro ⟨-, c, hc, hstored⟩
    have hc' := (hl c hc).2
    rw [Words.toNat_ofInt_eq_emod] at hstored
    omega
  · intro hnonneg
    rw [Words.toNat_ofInt hnonneg (by omega)]
    exact ⟨⟨a, ha, hle⟩, b, hb, hge⟩

theorem isInt_penalties (samples : List Sample) : ∀ p ∈ penalties samples, IsInt p := by
  intro p hp
  obtain ⟨s, -, rfl⟩ := List.mem_map.1 hp
  exact ⟨s.bpredPenalty.le_toInt, s.bpredPenalty.toInt_lt⟩

/-- **The parameters of the model.** After every sequence of calls the rate lies
between those of the samples; the penalty, once one was counted, does so just
if the penalties do not add up to a negative mean. -/
theorem parameters_between_iff (h : History) (hm : Fresh m) :
    Between (afterSamples h.samples m).effectiveDispatchWidth (rates h.samples) ∧
      (IntSums h.samples m → penalties h.samples ≠ [] →
        (Between ((afterSamples h.samples m).bpredPenalty.toNat : ℤ) (penalties h.samples) ↔
          -totalMispred h.samples < totalPenalty h.samples)) := by
  refine ⟨between_rates hm h.ne_nil, fun _ hne => ?_⟩
  obtain ⟨hpos, hquot⟩ := between_quotient hne
  rw [bpredPenalty_eq hm hne, between_ofInt_iff (isInt_penalties _) hquot, tdiv_nonneg_iff hpos]

/-- A sample of 100 instructions. -/
def sampleOf (cycle : ℕ) (numMispred : ℕ) (bpredPenalty : Int32) (hcycle : 1 ≤ cycle) : Sample where
  stat := ⟨100, 0, 0, 0, numMispred⟩
  cycle := cycle
  bpredPenalty := bpredPenalty
  numInsts_pos := show (1 : ℤ) ≤ 100 by decide
  cycle_pos := hcycle
  numMispred_nonneg := Int.natCast_nonneg numMispred

/-- The model before the first call, with an initial rate and penalty. -/
def freshModel : Perfmodel ℚ := ⟨0, 0, 0, 0, 0, 0, 1, 15⟩

theorem fresh_freshModel : Fresh freshModel := ⟨rfl, rfl, rfl, rfl⟩

/-- Three samples, one of them without a misprediction. -/
def threeSamples : History where
  samples := [sampleOf 50 3 10 (by decide), sampleOf 100 0 30 (by decide),
    sampleOf 200 1 21 (by decide)]
  ne_nil := by decide
  length_lt := by decide

theorem parameters_threeSamples :
    Between (afterSamples threeSamples.samples freshModel).effectiveDispatchWidth [2, 1, 1 / 2] ∧
      Between ((afterSamples threeSamples.samples freshModel).bpredPenalty.toNat : ℤ) [10, 21] := by
  obtain ⟨hrate, hpenalty⟩ := parameters_between_iff threeSamples fresh_freshModel
  have hrates : rates threeSamples.samples = [2, 1, 1 / 2] := by decide +kernel
  have hpenalties : penalties threeSamples.samples = [10, 21] := by decide
  rw [hrates] at hrate
  rw [hpenalties] at hpenalty
  exact ⟨hrate, (hpenalty (by decide) (by decide)).2 (by decide)⟩

/-- One sample, whose penalty has overflowed. -/
def overflowedSample : History where
  samples := [sampleOf 100 1 (-2147483648) (by decide)]
  ne_nil := by decide
  length_lt := by decide

/-- The mean is `-2 ^ 31`, and the penalty of the model `2 ^ 31`. -/
theorem parameters_overflowedSample :
    Fresh freshModel ∧ IntSums overflowedSample.samples freshModel ∧
      penalties overflowedSample.samples = [-2 ^ 31] ∧
      (afterSamples overflowedSample.samples freshModel).bpredPenalty.toNat = 2 ^ 31 ∧
      ¬ Between ((afterSamples overflowedSample.samples freshModel).bpredPenalty.toNat : ℤ)
        (penalties overflowedSample.samples) :=
  ⟨fresh_freshModel, by decide, by decide, by decide, by decide⟩

/-- **Where no penalty is negative**, the penalty of the model is between those
that were seen. -/
theorem penalty_between_of_nonneg (hm : Fresh m) (hnonneg : ∀ s ∈ samples, 0 ≤ s.penalty)
    (hne : penalties samples ≠ []) :
    Between ((afterSamples samples m).bpredPenalty.toNat : ℤ) (penalties samples) := by
  obtain ⟨-, hquot⟩ := between_quotient hne
  rw [bpredPenalty_eq hm hne, between_ofInt_iff (isInt_penalties _) hquot]
  obtain ⟨⟨p, hp, hle⟩, -⟩ := hquot
  obtain ⟨s, hs, rfl⟩ := List.mem_map.1 hp
  exact (hnonneg s (List.mem_filter.1 hs).1).trans hle

end Sampling

end Tqsim
