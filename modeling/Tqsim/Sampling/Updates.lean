import Tqsim.Sampling.Handover
import Tqsim.Sampling.Helpers.Modes
import Tqsim.TraceAnalyzer.Progress

/-!
# The updates of the model

`perfmodel_update` divides by the cycles of an analysis, and by the rate that
this division gives. Where `trace_analyzer_thread_end` finds no thread it
leaves both of its results at zero, and the guest does not ask. Whether there
is a thread at the end of a period is a matter of two numbers that the
configuration does not relate: the length of a sample and the period. The
number of instructions that the rate is taken of is that of the trace
analyzed as long as the buffer takes the whole sample.
-/

namespace Tqsim

namespace Sampling

open TraceAnalyzer

variable {F : Type} {E : Env F} {cfg : SampleConfig} {s s' : Sampler F} {an A : State F}
variable {perf : Perfmodel F}

/-- **An update with what the analysis of a trace returned**, and with the
number of its instructions. -/
structure FromAnalysis (E : Env F) (q : InstQueue Inst) (u : Update) : Prop where
  returned : ∃ A fuel a, Drained E A ∧ traceAnalysis E fuel q 0 A = some a ∧
    u.cycle = a.lastCycle ∧ u.bpredPenalty = a.bpredPenalty
  cycle : 1 ≤ u.cycle
  numInsts : u.stat.numInsts = q.size
  numInsts_pos : 1 ≤ u.stat.numInsts
  /-- The two divisors. -/
  divisors : (u.cycle : ℚ) ≠ 0 ∧ (u.stat.numInsts : ℚ) / u.cycle ≠ 0

/-- **Every update is made right after an analysis was waited for**, the one
started last, and with what it returned. -/
def Sourced (E : Env F) (log : List Event) : Prop :=
  ∀ before u after, log = before ++ .update u :: after →
    ∃ earlier q, before = earlier ++ [.join] ∧ (starts earlier).getLast? = some q ∧
      FromAnalysis E q u

theorem Sourced.concat {log : List Event} {e : Event} (h : Sourced E log)
    (he : ∀ u, e = .update u → ∃ earlier q, log = earlier ++ [.join] ∧
      (starts earlier).getLast? = some q ∧ FromAnalysis E q u) : Sourced E (log ++ [e]) := by
  intro before u after heq
  rcases List.eq_nil_or_concat after with rfl | ⟨init, last, rfl⟩
  · obtain ⟨rfl, hlast⟩ := List.append_inj' heq rfl
    exact he u (List.singleton_inj.1 hlast)
  · refine h before u init ?_
    rw [List.concat_eq_append, ← List.cons_append, ← List.append_assoc] at heq
    exact (List.append_inj' heq rfl).1

/-! ## The analysis that is waited for -/

/-- **An analysis is under way**, of the trace handed over last, and
`sample_stat` has the number of its instructions. -/
def Awaits (E : Env F) (s : Sampler F) : Prop :=
  ∃ (trace : Trace) (A : State F), s.numThread ≠ 0 ∧
    (starts s.log).getLast? = some trace.queue ∧ Drained E A ∧ ThreadAt E trace.queue A s ∧
    s.sampleStat.numInsts = trace.queue.size ∧ 1 ≤ trace.queue.size

theorem Awaits.step (h : Awaits E s) (hs' : s.threadStep E = some s') : Awaits E s' := by
  obtain ⟨trace, A, hnum, hstart, hd, hat, hstat, hpos⟩ := h
  have hguest := (threadStep_guest hs').1
  simp only [Sampler.guest, Prod.mk.injEq] at hguest
  obtain ⟨-, -, -, -, h5, h6, -, -, -, -, -, h12⟩ := hguest
  exact ⟨trace, A, by rw [h5]; exact hnum, by rw [h6]; exact hstart, hd, hat.step hs',
    by rw [h12]; exact hstat, hpos⟩

/-- Its end is what the model is updated with. -/
theorem Awaits.sourced {cycle : ℕ} {penalty : ℤ} {t : Sampler F} (h : Awaits E s)
    (hsrc : Sourced E s.log) (ht : s.threadEnd = some (cycle, penalty, t)) :
    Sourced E (t.log ++ [.update ⟨t.numInsts, cycle, penalty, t.sampleStat⟩]) := by
  obtain ⟨trace, A, hnum, hstart, hd, hat, hstat, hpos⟩ := h
  rcases threadEnd_eq_some ht with ⟨-, hexit, rfl, rfl, rfl⟩ | ⟨hnone, -⟩
  · simp only [ThreadAt, hexit] at hat
    obtain ⟨fuel, a, hret, hcyc, hpen, -, -⟩ := hat
    have hcycle : 1 ≤ s.argCycle := by
      rw [hcyc]
      exact (analysisLoop_lastCycle (hd.inv trace) rfl le_rfl hret).1
    have hcount : 1 ≤ s.sampleStat.numInsts := by omega
    refine (hsrc.concat (e := .join) (by simp)).concat fun u hu => ?_
    obtain rfl := Event.update.inj hu
    refine ⟨s.log, trace.queue, rfl, hstart, ⟨A, fuel, a, hd, hret, hcyc, hpen⟩, hcycle, hstat,
      hcount, ?_, ?_⟩
    · exact_mod_cast (by omega : s.argCycle ≠ 0)
    · refine div_ne_zero ?_ ?_
      · exact_mod_cast (by omega : s.sampleStat.numInsts ≠ 0)
      · exact_mod_cast (by omega : s.argCycle ≠ 0)
  · exact absurd hnone hnum

/-- **At the end of a period an analysis is under way**, when a sample is no
longer than its period. -/
theorem Inv.awaits {i : InstIncrement} {m : CacheMissType}
    (hper : cfg.length ≤ cfg.defaultPeriod) (hpos : 1 ≤ cfg.length)
    (hcap : (cfg.length : ℤ) ≤ traceBufferCapacity) (h : Inv E cfg an s)
    (hloc : s.loc = .period i m) (hne : s.numInsts ≠ 0)
    (hmod : s.numInsts % cfg.defaultPeriod = 0) : Awaits E s := by
  obtain ⟨ph, hc, hr, -, hcon⟩ := h
  obtain ⟨ex, ht, hcon⟩ := hcon hcap
  have hlen : ex.length = s.numInsts := ht.length
  rw [hloc] at hr
  cases ph with
  | before => exact hr.elim
  | recording k j =>
    -- a sample begins with its period, so that it is not over yet
    obtain ⟨hn, hj, hzero⟩ := hr
    rw [hn, Nat.mul_add_mod', Nat.mod_eq_of_lt (by omega)] at hmod
    exact absurd (hzero hmod) hne
  | analyzing k =>
    obtain ⟨hstat, A, hled, hat⟩ := hcon
    have hsize : (sample cfg ex k).size = cfg.length := by
      have := hr.1
      simp only [sample, InstQueue.size, List.length_mapIdx, List.length_take, List.length_drop]
      omega
    refine ⟨sampleTrace cfg ex k hcap, A, by simp [hc.numThread, Phase.numThread], ?_,
      hled.analyzed.drained (initTraceAnalyzer_drained E an), hat, ?_, ?_⟩
    · rw [hled.starts, List.range_succ, List.map_append]
      exact List.getLast?_concat
    · rw [hstat]
      exact_mod_cast hsize.symm
    · exact hsize ▸ hpos

/-- **The sample being recorded when the guest exits** is handed over as it
is. -/
theorem Inv.awaits_wrapup {c : Counters}
    (hcap : (cfg.length : ℤ) ≤ traceBufferCapacity) (h : Inv E cfg an s)
    (hloc : s.loc = .wrapup c) (hs' : s.wrapupStart c = some s') (hloc' : s'.loc = .wrapupEnd) :
    Awaits E s' := by
  obtain ⟨ph, hc, hr, -, hcon⟩ := h
  obtain ⟨ex, ht, hcon⟩ := hcon hcap
  have hlen : ex.length = s.numInsts := ht.length
  rw [hloc] at hr
  unfold Sampler.wrapupStart at hs'
  split at hs'
  next hsam =>
    obtain ⟨k, j, rfl⟩ := hc.eq_recording hsam
    obtain ⟨hn, hj, hle⟩ := hr
    obtain ⟨hbuf, hstat, hled⟩ := hcon
    have hsize : (recorded cfg ex k).size = j := by
      simp only [recorded, InstQueue.size, List.length_mapIdx, List.length_drop]
      omega
    have hfits : (recorded cfg ex k).Fits := by
      refine .inr (le_trans ?_ hcap)
      rw [hsize]
      exact_mod_cast hle
    have hrec : ∀ inst ∈ (recorded cfg ex k).elems, inst.Recorded := by
      intro inst hinst
      obtain ⟨seq, _, rfl⟩ := List.mem_mapIdx.1 hinst
      exact Executed.inst_recorded _ seq
    have hlt : j < 2 ^ 31 := by
      simp only [traceBufferCapacity] at hcap
      omega
    have hnew := numInsts_perfmodelSampleEnd hlt hstat c
    rw [← hn] at hnew
    obtain ⟨t, ht, hs'⟩ := Option.bind_eq_some_iff.1 hs'
    obtain rfl := Option.some.inj hs'
    obtain ⟨-, rfl⟩ := threadStart_eq_some ht
    refine ⟨⟨recorded cfg ex k, hfits, hrec⟩, s.analyzer, Nat.succ_ne_zero _, ?_,
      hled.analyzed.drained (initTraceAnalyzer_drained E an), ⟨hbuf, rfl⟩, ?_, ?_⟩
    · simp [starts, hbuf]
    · exact hnew.trans (by rw [hsize])
    · exact hsize ▸ hj
  next =>
    obtain rfl := Option.some.inj hs'
    cases hloc'

/-! ## Every run -/

/-- What is logged is sourced, if an analysis is under way at each wait. -/
theorem Sourced.logs (hsrc : Sourced E s.log) (h : Logs cfg s s')
    (hwait : Updating cfg s → Awaits E s) : Sourced E s'.log := by
  rcases h with h | ⟨e, h, he⟩ | ⟨hup, cycle, penalty, t, ht, h⟩
  · exact h ▸ hsrc
  · exact h ▸ hsrc.concat fun u hu => absurd hu (he u)
  · exact h ▸ (hwait hup).sourced hsrc ht

theorem call_log (cfg : SampleConfig) {c : Call} (hloc : s.loc = .ready)
    (hs' : s.call c = some s') : s'.loc ≠ .wrapupEnd ∧ Logs cfg s s' := by
  cases c with
  | instIncrement i =>
    obtain rfl := Option.some.inj hs'
    exact ⟨by simp, .inl rfl⟩
  | setBranchInst isCond =>
    obtain rfl := Option.some.inj hs'
    exact ⟨by simp [hloc], .inl rfl⟩
  | dcacheAccess addr isWrite d =>
    simp only [Sampler.call] at hs'
    split at hs'
    · obtain ⟨q, -, rfl⟩ := Option.map_eq_some_iff.1 hs'
      exact ⟨by simp [Sampler.pushed, hloc], .inr (.inl ⟨.push, rfl, by simp⟩)⟩
    · obtain rfl := Option.some.inj hs'
      exact ⟨by simp [hloc], .inl rfl⟩

/-- The last wait is entered from the start of `perfmodel_sample_wrapup`. -/
theorem wrapupStart_of_block (hs' : s.block E cfg = some s') (hloc' : s'.loc = .wrapupEnd) :
    ∃ c, s.loc = .wrapup c ∧ s.wrapupStart c = some s' := by
  have hzero := (block_spec hs').2.1.1 (by rw [hloc']; rfl)
  unfold Sampler.block at hs'
  cases hloc : s.loc with
  | ready | exited => simp [hloc] at hs'
  | resolve i | fetch i => simp [hloc, Loc.underWay] at hzero
  | first i m | finish i m | period i m | record i m => simp [hloc, Loc.underWay] at hzero
  | wrapup c =>
    rw [hloc] at hs'
    exact ⟨c, rfl, hs'⟩
  | wrapupEnd =>
    rw [hloc] at hs'
    obtain ⟨r, -, hs'⟩ := Option.bind_eq_some_iff.1 hs'
    obtain rfl := Option.some.inj hs'
    cases hloc'

/-- A run goes on. -/
theorem Reachable.move {m : Move} (hs : Reachable E cfg an perf s)
    (hs' : s.move E cfg m = some s') : Reachable E cfg an perf s' := by
  obtain ⟨moves, hmoves⟩ := hs
  refine ⟨moves ++ [m], ?_⟩
  rw [Run.play_append, hmoves, Option.bind_some, Run.play, hs']
  rfl

/-- **Every update has its source**, in every run whose samples are no longer
than their period and fit in the buffer. -/
theorem sourced_of_reachable (hpos : 1 ≤ cfg.length) (hper : cfg.length ≤ cfg.defaultPeriod)
    (hcap : (cfg.length : ℤ) ≤ traceBufferCapacity) (hs : Reachable E cfg an perf s) :
    Sourced E s.log := by
  let P : Sampler F → Prop := fun t => Reachable E cfg an perf t ∧ Sourced E t.log ∧
    (t.loc = .wrapupEnd → Awaits E t)
  obtain ⟨moves, hmoves⟩ := hs
  have hrun : P s := by
    refine Run.play_invariant (P := P) ?_ ?_ hmoves
    · rintro t m u ⟨hreach, hsrc, hwait⟩ hu
      refine ⟨hreach.move hu, ?_⟩
      cases m with
      | call c =>
        simp only [Sampler.move] at hu
        split at hu
        next hloc =>
          obtain ⟨hne, hlogs⟩ := call_log cfg hloc hu
          refine ⟨hsrc.logs hlogs ?_, fun h => absurd h hne⟩
          rintro (h | ⟨i, m, h, -⟩)
          · exact absurd (hloc.symm.trans h) (by simp)
          · exact absurd (hloc.symm.trans h) (by simp)
        next => cases hu
      | exit c =>
        simp only [Sampler.move] at hu
        split at hu
        next hloc =>
          obtain rfl := Option.some.inj hu
          exact ⟨hsrc, by simp⟩
        next => cases hu
      | analysis =>
        have hguest := (threadStep_guest hu).1
        simp only [Sampler.guest, Prod.mk.injEq] at hguest
        obtain ⟨h1, -, -, -, -, h6, -⟩ := hguest
        exact ⟨h6 ▸ hsrc, fun hloc => (hwait (h1 ▸ hloc)).step hu⟩
      | guest =>
        refine ⟨hsrc.logs (block_spec hu).2.2 ?_, fun hloc' => ?_⟩
        · rintro (hloc | ⟨i, m, hloc, hne, hmod⟩)
          · exact hwait hloc
          · have hinv := reachable_inv_of_open hpos hper hreach (by rw [hloc]; rfl)
            exact hinv.awaits hper hpos hcap hloc hne hmod
        · obtain ⟨c, hloc, hstart⟩ := wrapupStart_of_block hu hloc'
          have hinv := reachable_inv_of_open hpos hper hreach (by rw [hloc]; rfl)
          exact hinv.awaits_wrapup hcap hloc hstart hloc'
    · refine ⟨⟨[], rfl⟩, fun before u after h => ?_, by simp [Sampler.initial]⟩
      exact absurd h (by simp [Sampler.initial])
  exact hrun.2.1

/-! ## The runs that show it -/

/-- The first `n` instructions are recorded, and none of them is a branch. -/
structure Filling (n : ℕ) (s : Sampler F) : Prop where
  numInsts : s.numInsts = n
  numSampledInst : s.numSampledInst = n
  isBranch : s.isBranch = false
  stat : s.sampleStat.numInsts = 0

variable {n : ℕ} {i : InstIncrement} {m : CacheMissType}

theorem Filling.resolve (E : Env F) (cfg : SampleConfig) (h : Filling n s)
    (hloc : s.loc = .resolve i) :
    ∃ s', s.move E cfg .guest = some s' ∧ s'.loc = .fetch i ∧ s'.isSampled = s.isSampled ∧
      Filling n s' := by
  refine ⟨{ s with loc := .fetch i }, ?_, rfl, rfl, h.numInsts, h.numSampledInst, h.isBranch,
    h.stat⟩
  simp [Sampler.move, Sampler.block, hloc, Sampler.resolveBranch, h.isBranch]

theorem Filling.fetch (E : Env F) (cfg : SampleConfig) (h : Filling n s) (hloc : s.loc = .fetch i) :
    ∃ s' m, s.move E cfg .guest = some s' ∧ s'.loc = .first i m ∧ s'.isSampled = s.isSampled ∧
      Filling n s' := by
  have hmove : s.move E cfg .guest = some (s.fetchLine i) := by
    simp only [Sampler.move, Sampler.block, hloc]
  rw [hmove]
  unfold Sampler.fetchLine
  split
  · exact ⟨_, _, rfl, rfl, rfl, h.numInsts, h.numSampledInst, h.isBranch, h.stat⟩
  · exact ⟨_, _, rfl, rfl, rfl, h.numInsts, h.numSampledInst, h.isBranch, h.stat⟩

theorem Filling.first (E : Env F) (cfg : SampleConfig) (h : Filling n s)
    (hloc : s.loc = .first i m) (hsam : n ≠ 0 → s.isSampled = true) :
    ∃ s', s.move E cfg .guest = some s' ∧ s'.loc = .finish i m ∧ s'.isSampled = true ∧
      Filling n s' := by
  have hmove : s.move E cfg .guest = some (s.firstInst E i m) := by
    simp only [Sampler.move, Sampler.block, hloc]
  rw [hmove]
  unfold Sampler.firstInst
  split
  next hzero =>
    refine ⟨_, rfl, rfl, rfl, h.numInsts, h.numSampledInst, h.isBranch, ?_⟩
    simp only [perfmodelSampleStart, hzero]
    rfl
  next hzero =>
    exact ⟨_, rfl, rfl, hsam (h.numInsts ▸ hzero), h.numInsts, h.numSampledInst, h.isBranch, h.stat⟩

theorem Filling.finish (E : Env F) (h : Filling n s) (hloc : s.loc = .finish i m)
    (hL : n ≠ cfg.length) :
    ∃ s', s.move E cfg .guest = some s' ∧ s'.loc = .period i m ∧ s'.isSampled = s.isSampled ∧
      Filling n s' := by
  refine ⟨{ s with loc := .period i m }, ?_, rfl, rfl, h.numInsts, h.numSampledInst, h.isBranch,
    h.stat⟩
  simp only [Sampler.move, Sampler.block, hloc, Sampler.finishSample, h.numSampledInst, if_neg hL]

/-- The next instruction, up to the test for the end of a period. -/
theorem Filling.period (hs : Reachable E cfg an perf s) (h : Filling n s) (hloc : s.loc = .ready)
    (hsam : n ≠ 0 → s.isSampled = true) (hL : n ≠ cfg.length) (i : InstIncrement) :
    ∃ s' m, Reachable E cfg an perf s' ∧ s'.loc = .period i m ∧ s'.isSampled = true ∧
      Filling n s' := by
  let s₁ : Sampler F := { s with history := s.history ++ [.instIncrement i], loc := .resolve i }
  have h₁ : s.move E cfg (.call (.instIncrement i)) = some s₁ := by
    simp only [Sampler.move, hloc]
    rfl
  have hf₁ : Filling n s₁ := ⟨h.numInsts, h.numSampledInst, h.isBranch, h.stat⟩
  obtain ⟨s₂, h₂, hloc₂, hsam₂, hf₂⟩ := hf₁.resolve (i := i) E cfg rfl
  obtain ⟨s₃, m, h₃, hloc₃, hsam₃, hf₃⟩ := hf₂.fetch E cfg hloc₂
  have hsam' : n ≠ 0 → s₃.isSampled = true := fun hn => by
    rw [hsam₃, hsam₂]
    exact hsam hn
  obtain ⟨s₄, h₄, hloc₄, hsam₄, hf₄⟩ := hf₃.first E cfg hloc₃ hsam'
  obtain ⟨s₅, h₅, hloc₅, hsam₅, hf₅⟩ := hf₄.finish E hloc₄ hL
  exact ⟨s₅, m, ((((hs.move h₁).move h₂).move h₃).move h₄).move h₅, hloc₅, hsam₅.trans hsam₄, hf₅⟩

theorem Filling.record (E : Env F) (cfg : SampleConfig) (h : Filling n s)
    (hloc : s.loc = .record i m) (hsam : s.isSampled = true) :
    ∃ s', s.move E cfg .guest = some s' ∧ s'.loc = .ready ∧ s'.isSampled = true ∧
      Filling (n + 1) s' := by
  have hmove : s.move E cfg .guest = some (s.recordInst i m) := by
    simp only [Sampler.move, Sampler.block, hloc]
  rw [hmove]
  unfold Sampler.recordInst
  rw [if_pos hsam]
  exact ⟨_, rfl, rfl, hsam, congrArg (· + 1) h.numInsts, congrArg (· + 1) h.numSampledInst,
    h.isBranch, h.stat⟩

/-- **As many instructions as the sample and the period have can be
recorded.** -/
theorem exists_filling (E : Env F) (an : State F) (perf : Perfmodel F) (i : InstIncrement) (n : ℕ)
    (hL : n ≤ cfg.length) (hP : n ≤ cfg.defaultPeriod) :
    ∃ s, Reachable E cfg an perf s ∧ s.loc = .ready ∧ (n ≠ 0 → s.isSampled = true) ∧
      Filling n s := by
  induction n with
  | zero =>
    exact ⟨Sampler.initial an perf, ⟨[], rfl⟩, rfl, fun h => absurd rfl h, rfl, rfl, rfl, rfl⟩
  | succ n ih =>
    obtain ⟨s, hs, hloc, hsam, hf⟩ := ih (by omega) (by omega)
    obtain ⟨t, m, ht, hloct, hsamt, hft⟩ := hf.period hs hloc hsam (by omega) i
    -- no period ends here
    let u : Sampler F := { t with loc := .record i m }
    have hu : t.move E cfg .guest = some u := by
      have hnot : ¬ (t.numInsts ≠ 0 ∧ t.numInsts % cfg.defaultPeriod = 0) := by
        rw [hft.numInsts, Nat.mod_eq_of_lt (by omega)]
        rintro ⟨h1, h2⟩
        exact h1 h2
      simp only [Sampler.move, Sampler.block, hloct, Sampler.startPeriod, if_neg hnot]
      rfl
    have hfu : Filling n u := ⟨hft.numInsts, hft.numSampledInst, hft.isBranch, hft.stat⟩
    obtain ⟨v, hv, hlocv, hsamv, hfv⟩ := hfu.record (i := i) (m := m) E cfg rfl hsamt
    exact ⟨v, (ht.move hu).move hv, hlocv, fun _ => hsamv, hfv⟩

/-- **Where the sample is longer than the period**, the first period ends
without a thread, and the model is updated with zero cycles. -/
theorem not_sourced_of_period_lt (E : Env F) (an : State F) (perf : Perfmodel F)
    (i : InstIncrement) (hP : 1 ≤ cfg.defaultPeriod) (hlt : cfg.defaultPeriod < cfg.length) :
    ∃ s, Reachable E cfg an perf s ∧ ¬ Sourced E s.log := by
  obtain ⟨s, hs, hloc, hsam, hf⟩ :=
    exists_filling E an perf i cfg.defaultPeriod hlt.le le_rfl
  obtain ⟨t, m, ht, hloct, hsamt, hft⟩ := hf.period hs hloc hsam hlt.ne i
  have hidle := ((mode_of_reachable ht (by rw [hloct]; rfl)).1.recording hsamt).numThread
  have hend : t.numInsts ≠ 0 ∧ t.numInsts % cfg.defaultPeriod = 0 := by
    rw [hft.numInsts, Nat.mod_self]
    exact ⟨by omega, rfl⟩
  have hthread : t.threadEnd = some (0, 0, t) := by
    rw [Sampler.threadEnd, if_neg (by simp [hidle])]
  have hu : ∃ u, t.move E cfg .guest = some u ∧
      u.log = t.log ++ [.update ⟨t.numInsts, 0, 0, t.sampleStat⟩] := by
    simp only [Sampler.move, Sampler.block, hloct, Sampler.startPeriod, if_pos hend, hthread]
    exact ⟨_, rfl, rfl⟩
  obtain ⟨u, hu, hlog⟩ := hu
  refine ⟨u, ht.move hu, fun hsrc => ?_⟩
  obtain ⟨-, q, -, -, hfrom⟩ := hsrc t.log _ [] hlog
  exact absurd hfrom.cycle (Nat.not_succ_le_zero 0)

/-- The turns of the loop of `trace_analysis` are steps of the thread. -/
theorem Reachable.exits {fuel cycles last : ℕ} {a : Analysis F} (hs : Reachable E cfg an perf s)
    (hth : s.thread = .running cycles last)
    (hbuf : s.traceBuffer = s.analyzer.pipe.traceBuffer)
    (hret : analysisLoop E 0 fuel cycles last s.analyzer = some a) :
    ∃ s', Reachable E cfg an perf s' ∧ s'.thread = .exited ∧ s'.guest = s.guest := by
  induction fuel generalizing s cycles last with
  | zero => cases hret
  | succ fuel ih =>
    obtain ⟨b, hb⟩ := cycle_of_analysisLoop hret
    rw [analysisLoop_succ hb] at hret
    have hload : { s.analyzer with pipe := { s.analyzer.pipe with traceBuffer := s.traceBuffer } } =
        s.analyzer := by
      rw [hbuf]
    split at hret
    next hdone =>
      have hstep : ∃ u, s.move E cfg .analysis = some u ∧ u.thread = .exited := by
        simp only [Sampler.move, Sampler.threadStep, hth, hload, hb]
        simp only [Option.bind_eq_bind, Option.bind_some, hdone, if_true]
        exact ⟨_, rfl, rfl⟩
      obtain ⟨u, hu, hex⟩ := hstep
      exact ⟨u, hs.move hu, hex, (threadStep_guest hu).1⟩
    next hdone =>
      have hstep : ∃ u, s.move E cfg .analysis = some u ∧
          u.thread = .running (cycles + 1) (lastCycleAfter last b.pipe) ∧
          u.traceBuffer = b.pipe.traceBuffer ∧ u.analyzer = b := by
        simp only [Sampler.move, Sampler.threadStep, hth, hload, hb]
        simp only [Option.bind_eq_bind, Option.bind_some, hdone, if_false]
        exact ⟨_, rfl, rfl, rfl, rfl⟩
      obtain ⟨u, hu, hrun, hbufu, hanu⟩ := hstep
      obtain ⟨v, hv, hex, hguest⟩ :=
        ih (hs.move hu) hrun (by rw [hbufu, hanu]) (by rw [hanu]; exact hret)
      exact ⟨v, hv, hex, hguest.trans (threadStep_guest hu).1⟩

/-- A thread that is created analyzes the buffer, and exits where the analysis
ends. -/
theorem Reachable.analyzed {fuel : ℕ} {a : Analysis F} (hs : Reachable E cfg an perf s)
    (hth : s.thread = .created) (hret : traceAnalysis E fuel s.traceBuffer 0 s.analyzer = some a) :
    ∃ s', Reachable E cfg an perf s' ∧ s'.thread = .exited ∧ s'.guest = s.guest := by
  let t : Sampler F := { s with
    analyzer := beginAnalysis E s.traceBuffer s.analyzer, thread := .running 0 0 }
  have ht : s.move E cfg .analysis = some t := by
    simp only [Sampler.move, Sampler.threadStep, hth]
    rfl
  obtain ⟨u, hu, hex, hguest⟩ := (hs.move ht).exits rfl rfl hret
  exact ⟨u, hu, hex, hguest⟩

/-- The guest exits while a sample is recorded. -/
theorem Recording.exit (h : Recording E s) (hs : Reachable E cfg an perf s) (hloc : s.loc = .ready)
    (c : Counters) : ∃ s', Reachable E cfg an perf s' ∧ s'.loc = .wrapupEnd ∧
      s'.thread = .created ∧ s'.numThread = 1 ∧ s'.traceBuffer = s.traceBuffer ∧
      s'.analyzer = s.analyzer ∧ s'.log = s.log ++ [.start s.traceBuffer] ∧
      s'.sampleStat = perfmodelSampleEnd s.numInsts c s.sampleStat := by
  let t : Sampler F := { s with loc := .wrapup c }
  have ht : s.move E cfg (.exit c) = some t := by
    simp only [Sampler.move, hloc]
    rfl
  have hsam : t.isSampled = true := h.isSampled
  have hidle : t.thread = .idle := h.thread
  have hu : ∃ u, t.move E cfg .guest = some u ∧ u.loc = .wrapupEnd ∧ u.thread = .created ∧
      u.numThread = s.numThread + 1 ∧ u.traceBuffer = s.traceBuffer ∧ u.analyzer = s.analyzer ∧
      u.log = s.log ++ [.start s.traceBuffer] ∧
      u.sampleStat = perfmodelSampleEnd s.numInsts c s.sampleStat := by
    rw [show t.move E cfg .guest = t.wrapupStart c from rfl, Sampler.wrapupStart, if_pos hsam,
      Sampler.threadStart, if_pos hidle]
    exact ⟨_, rfl, rfl, rfl, rfl, rfl, rfl, rfl, rfl⟩
  obtain ⟨u, hu, h1, h2, h3, hrest⟩ := hu
  exact ⟨u, (hs.move ht).move hu, h1, h2, by rw [h3, h.numThread], hrest⟩

/-- The last wait is over. -/
theorem Reachable.finishWrapup (hs : Reachable E cfg an perf s) (hloc : s.loc = .wrapupEnd)
    (hnum : s.numThread = 1) (hex : s.thread = .exited) :
    ∃ s', Reachable E cfg an perf s' ∧ s'.log = (s.log ++ [.join]) ++
      .update ⟨s.numInsts, s.argCycle, s.argBpredPenalty, s.sampleStat⟩ :: [] := by
  have hthread : s.threadEnd = some (s.argCycle, s.argBpredPenalty, { s with
      numThread := s.numThread - 1, thread := .idle, log := s.log ++ [.join] }) := by
    rw [Sampler.threadEnd, if_pos (by omega), if_pos hex]
  have ht : ∃ t, s.move E cfg .guest = some t ∧ t.log = (s.log ++ [.join]) ++
      .update ⟨s.numInsts, s.argCycle, s.argBpredPenalty, s.sampleStat⟩ :: [] := by
    simp only [Sampler.move, Sampler.block, hloc, Sampler.finishWrapup, hthread]
    exact ⟨_, rfl, rfl⟩
  obtain ⟨t, ht, hlog⟩ := ht
  exact ⟨t, hs.move ht, hlog⟩

/-- The sample's core with two slots, every word being an addition. -/
def additionEnv : Env ℚ := { sampleEnv 2 with disasm := fun _ => sampleDisasm 0xE0810002 }

theorem length_microops_addition {inst : Inst} (h : inst.decoded = false) :
    (microops (decodeInst additionEnv.disasm inst)).length = 1 := by
  have htype : (decodeInst additionEnv.disasm inst).type = .intAlu :=
    type_decodeInst additionEnv.disasm h
  rw [microops, htype]
  rfl

/-- Additions are not expanded. -/
theorem expansionFits_additions {l : List Inst} {cap : ℤ} (hfits : InstQueue.Fits ⟨l, cap⟩)
    (hrec : ∀ inst ∈ l, inst.Recorded) : ExpansionFits additionEnv.disasm cap l := by
  induction l with
  | nil => trivial
  | cons inst rest ih =>
    refine ⟨?_, ih ?_ fun x hx => hrec x (List.mem_cons_of_mem _ hx)⟩
    · rw [length_microops_addition (hrec inst List.mem_cons_self).decoded, lost]
      split
      · rfl
      · rcases hfits with h | h
        · exact absurd h ‹_›
        · simp only [InstQueue.size, List.length_cons] at h
          omega
    · rcases hfits with h | h
      · exact .inl h
      · refine .inr (le_trans ?_ h)
        simp [InstQueue.size]

/-- **Where the sample is longer than the buffer**, the guest may exit with
more instructions counted than recorded. -/
theorem not_sourced_of_capacity_lt (hlt : traceBufferCapacity < cfg.length)
    (hper : cfg.length ≤ cfg.defaultPeriod) :
    ∃ s, Reachable additionEnv cfg blankState samplePerfmodel s ∧ ¬ Sourced additionEnv s.log := by
  have hlen : 1000002 ≤ cfg.length := by
    simp only [traceBufferCapacity] at hlt
    omega
  obtain ⟨s, hs, hloc, hsam, hf⟩ := exists_filling additionEnv blankState samplePerfmodel
    (sampleInc 0 0xE0810002) 1000002 hlen (hlen.trans hper)
  have hrec := (mode_of_reachable hs (by rw [hloc]; rfl)).1.recording (hsam (by decide))
  obtain ⟨t, ht, hloct, htht, hnumt, hbuft, hant, hlogt, hstatt⟩ := hrec.exit hs hloc ⟨0, 0, 0, 0⟩
  -- the analysis of the records that were kept ends
  obtain ⟨a, hexits⟩ := (hrec.drained.running hrec.holds.trace
    (expansionFits_additions hrec.holds.fits hrec.holds.recorded)).exits
      ⟨by decide, by decide, by decide, by decide, by decide, by decide, by decide, by decide⟩ 0 0
  have hret : traceAnalysis additionEnv _ s.traceBuffer 0 s.analyzer = some a :=
    hexits _ (Nat.lt_succ_self _)
  obtain ⟨w, hw, hex, hguest⟩ := ht.analyzed htht (by rw [hbuft, hant]; exact hret)
  simp only [Sampler.guest, Prod.mk.injEq] at hguest
  obtain ⟨hlocw, -, -, -, hnumw, hlogw, -, -, -, -, -, hstatw⟩ := hguest
  obtain ⟨x, hx, hlogx⟩ := hw.finishWrapup (hlocw.trans hloct) (hnumw.trans hnumt) hex
  refine ⟨x, hx, fun hsrc => ?_⟩
  -- the update counts one instruction more than the trace has
  obtain ⟨earlier, q, hearlier, hq, hfrom⟩ := hsrc _ _ _ hlogx
  obtain ⟨rfl, -⟩ := List.append_inj' hearlier rfl
  rw [hlogw, hlogt] at hq
  have hqs : q = s.traceBuffer := by simpa [starts] using hq.symm
  have hnew : w.sampleStat.numInsts = 1000002 := by
    rw [hstatw, hstatt]
    simp only [perfmodelSampleEnd, hf.stat, hf.numInsts]
    decide
  have hcount := hfrom.numInsts
  rw [hqs, InstQueue.size, hrec.holds.size, hf.numSampledInst] at hcount
  exact absurd (hnew.symm.trans hcount) (by decide)

/-- **Which configurations update the model from finished analyses only**:
those whose samples are no longer than their period and fit in the trace
buffer. -/
theorem sourced_iff (cfg : SampleConfig) (hL : 1 ≤ cfg.length) (hP : 1 ≤ cfg.defaultPeriod) :
    (∀ (F : Type) (E : Env F) (an : State F) (perf : Perfmodel F) (s : Sampler F),
      Reachable E cfg an perf s → Sourced E s.log) ↔
      cfg.length ≤ cfg.defaultPeriod ∧ (cfg.length : ℤ) ≤ traceBufferCapacity := by
  constructor
  · intro hall
    have hper : cfg.length ≤ cfg.defaultPeriod := by
      by_contra hlt
      obtain ⟨s, hs, hnot⟩ := not_sourced_of_period_lt additionEnv blankState samplePerfmodel
        (sampleInc 0 0xE0810002) hP (by omega)
      exact hnot (hall ℚ additionEnv blankState samplePerfmodel s hs)
    refine ⟨hper, ?_⟩
    by_contra hlt
    obtain ⟨s, hs, hnot⟩ := not_sourced_of_capacity_lt (by omega) hper
    exact hnot (hall ℚ additionEnv blankState samplePerfmodel s hs)
  · rintro ⟨hper, hcap⟩ F E an perf s hs
    exact sourced_of_reachable hL hper hcap hs

/-- A sample of one instruction every two. -/
theorem sourced_one_of_two : ∃ s, Reachable (sampleEnv 2) ⟨1, 2⟩ blankState samplePerfmodel s ∧
    (updates s.log).length = 1 ∧ Sourced (sampleEnv 2) s.log := by
  have hrun : ((Run.play (Sampler.move (sampleEnv 2) ⟨1, 2⟩) sampleMoves
      (Sampler.initial blankState samplePerfmodel)).map fun s =>
        (updates s.log).length) = some 1 := by decide
  obtain ⟨s, hs, hone⟩ := Option.map_eq_some_iff.1 hrun
  exact ⟨s, ⟨sampleMoves, hs⟩, hone, (sourced_iff ⟨1, 2⟩ (by decide) (by decide)).2
    ⟨by decide, by decide⟩ ℚ (sampleEnv 2) blankState samplePerfmodel s ⟨sampleMoves, hs⟩⟩

/-- A sample of two instructions every one: at the second instruction the model
is updated with the rate of no instructions in no cycles. -/
theorem update_two_of_one : ∃ s u, Reachable (sampleEnv 2) ⟨2, 1⟩ blankState samplePerfmodel s ∧
    updates s.log = [u] ∧ joins s.log = 0 ∧ u.cycle = 0 ∧ u.stat.numInsts = 0 := by
  have hrun : ((Run.play (Sampler.move (sampleEnv 2) ⟨2, 1⟩)
      (instMoves 0 0xE0810002 ++ instMoves 4 0xE0810002)
      (Sampler.initial blankState samplePerfmodel)).map fun s =>
        ((updates s.log).map fun u => (u.cycle, u.stat.numInsts), joins s.log)) =
      some ([(0, 0)], 0) := by decide
  obtain ⟨s, hs, heq⟩ := Option.map_eq_some_iff.1 hrun
  simp only [Prod.mk.injEq] at heq
  obtain ⟨hupd, hjoins⟩ := heq
  obtain ⟨u, hu, hzero⟩ := List.map_eq_singleton_iff.1 hupd
  simp only [Prod.mk.injEq] at hzero
  exact ⟨s, u, ⟨_, hs⟩, hu, hjoins, hzero⟩

end Sampling

end Tqsim
