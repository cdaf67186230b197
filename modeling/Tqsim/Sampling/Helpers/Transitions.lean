import Tqsim.Sampling.Helpers.Contents

/-!
# The statements of the guest thread

For each statement: the phase after it, and how the contents of the buffer
follow the instructions executed. A statement is followed in the phase it
runs in; the phase changes at three of them, at the first instruction, at
the end of a sample and at the end of a period.
-/

namespace Tqsim

namespace Sampling

open TraceAnalyzer
open Sampler (fetchbufferalignpc)

variable {F : Type} {E : Env F} {cfg : SampleConfig} {s s' : Sampler F} {an : State F}
variable {ex : List Executed} {ph : Phase} {i : InstIncrement} {m : CacheMissType}

/-- The variables that `Contents` speaks of. -/
def Sampler.shared (s : Sampler F) :
    InstQueue Inst × SampledStat × Thread × ℕ × ℤ × State F × List Event :=
  (s.traceBuffer, s.sampleStat, s.thread, s.argCycle, s.argBpredPenalty, s.analyzer, s.log)

theorem ThreadAt.congr {q : InstQueue Inst} {A : State F} (h : ThreadAt E q A s)
    (hs : s'.shared = s.shared) : ThreadAt E q A s' := by
  simp only [Sampler.shared, Prod.mk.injEq] at hs
  obtain ⟨h1, -, h3, h4, h5, h6, -⟩ := hs
  simpa only [ThreadAt, h1, h3, h4, h5, h6] using h

theorem Contents.congr (h : Contents E cfg an ex ph s) (hs : s'.shared = s.shared) :
    Contents E cfg an ex ph s' := by
  have hthread := fun q A (ht : ThreadAt E q A s) => ht.congr hs
  simp only [Sampler.shared, Prod.mk.injEq] at hs
  obtain ⟨h1, h2, -, -, -, h6, h7⟩ := hs
  cases ph with
  | before => exact h6.trans h
  | recording k j => simpa only [Contents, h1, h2, h6, h7] using h
  | analyzing k =>
    obtain ⟨hstat, A, hled, ht⟩ := h
    exact ⟨h2 ▸ hstat, A, h7 ▸ hled, hthread _ _ ht⟩

/-- The variables of the guest that follow the last instruction. -/
structure Follows (ex : List Executed) (s : Sampler F) : Prop where
  length : ex.length = s.numInsts
  line : s.previousPc = lastLine ex
  curPC : ∀ e, ex.getLast? = some e → s.curPC = e.inc.pc
  branch : ∀ e, ex.getLast? = some e → e.branch = if s.isBranch then some s.isCond else none
  next : ∀ e, ex.getLast? = some e → e.next = none

/-- Samples of earlier periods, and those complete, do not see the last
instruction change. -/
theorem sample_updateLast_of_resting (hr : Resting cfg ph ex.length)
    (hcfg : cfg.length ≤ cfg.defaultPeriod) (f : Executed → Executed) :
    ∀ k < ph.started, sample cfg (updateLast f ex) k = sample cfg ex k := by
  intro k hk
  refine sample_updateLast ?_
  cases ph with
  | before => exact absurd hk (Nat.not_lt_zero k)
  | recording k' j =>
    obtain ⟨hn, hj, -⟩ := hr
    have hmul := Nat.mul_le_mul_right cfg.defaultPeriod (Nat.succ_le_of_lt hk)
    simp only [Phase.started, Nat.succ_mul] at hmul
    omega
  | analyzing k' =>
    have hmul := Nat.mul_le_mul_right cfg.defaultPeriod (Nat.lt_succ_iff.1 hk)
    have := hr.1
    omega

theorem updateNewest_id {q q' : InstQueue Inst} (h : updateNewest q id = some q') : q' = q := by
  obtain ⟨inst, hlast, rfl⟩ := Option.map_eq_some_iff.1 h
  rw [id, List.dropLast_append_getLast? inst hlast]

/-- A change of the last instruction that does not show in its record. -/
theorem Contents.silent (h : Contents E cfg an ex ph s) (hr : Resting cfg ph ex.length)
    (hcfg : cfg.length ≤ cfg.defaultPeriod) (f : Executed → Executed)
    (hf : ph.isSampled = true → ∀ e seq, ex.getLast? = some e → (f e).inst seq = e.inst seq) :
    Contents E cfg an (updateLast f ex) ph s := by
  have hsample := sample_updateLast_of_resting hr hcfg f
  cases ph with
  | before => exact h
  | recording k j =>
    obtain ⟨hbuf, hstat, hled⟩ := h
    obtain ⟨hn, hj, -⟩ := hr
    refine ⟨?_, hstat, hled.congr le_rfl hsample rfl rfl⟩
    rw [hbuf]
    exact (updateNewest_id (updateNewest_recorded f id (by omega) (hf rfl))).symm
  | analyzing k =>
    obtain ⟨hstat, A, hled, ht⟩ := h
    refine ⟨hstat, A, hled.congr (Nat.le_succ k) hsample rfl rfl, ?_⟩
    rw [hsample k (Nat.lt_succ_self k)]
    exact ht

/-- A change of the last instruction that is recorded by a push. -/
theorem Contents.pushed {k j : ℕ} (h : Contents E cfg an ex (.recording k j) s)
    (hr : Resting cfg (.recording k j) ex.length) (hcfg : cfg.length ≤ cfg.defaultPeriod)
    (f : Executed → Executed) {g : Inst → Inst}
    (hfg : ∀ e seq, ex.getLast? = some e → (f e).inst seq = g (e.inst seq)) {q : InstQueue Inst}
    (hq : updateNewest s.traceBuffer g = some q) :
    Contents E cfg an (updateLast f ex) (.recording k j) (s.pushed q) := by
  have hsample := sample_updateLast_of_resting hr hcfg f
  obtain ⟨hbuf, hstat, hled⟩ := h
  obtain ⟨hn, hj, -⟩ := hr
  refine ⟨?_, hstat, hled.congr le_rfl hsample ?_ ?_⟩
  · rw [hbuf, updateNewest_recorded f g (by omega) hfg] at hq
    exact (Option.some.inj hq).symm
  · simp [Sampler.pushed, starts]
  · simp [Sampler.pushed, updates]

/-! ## Between two calls -/

theorem lastLine_updateLast (f : Executed → Executed) (hf : ∀ e, (f e).inc = e.inc) :
    lastLine (updateLast f ex) = lastLine ex := by
  rcases List.eq_nil_or_concat ex with rfl | ⟨es, e, rfl⟩
  · rfl
  · simp [lastLine, hf e]

theorem getLast_updateLast {f : Executed → Executed} {e : Executed}
    (h : (updateLast f ex).getLast? = some e) : ∃ e', ex.getLast? = some e' ∧ e = f e' := by
  rcases List.eq_nil_or_concat ex with rfl | ⟨es, e', rfl⟩
  · cases h
  · simp only [List.concat_eq_append, updateLast_concat, List.getLast?_concat,
      Option.some.injEq] at h ⊢
    exact ⟨e', rfl, h.symm⟩

/-- The variables follow a change of the last instruction. -/
theorem Follows.updateLast {t : Sampler F} (hf : Follows ex s) {f : Executed → Executed}
    (hinc : ∀ e, (f e).inc = e.inc) (hnext : ∀ e, (f e).next = e.next)
    (hbranch : ∀ e, ex.getLast? = some e →
      (f e).branch = if t.isBranch then some t.isCond else none)
    (hn : t.numInsts = s.numInsts) (hline : t.previousPc = s.previousPc)
    (hpc : t.curPC = s.curPC) : Follows (updateLast f ex) t where
  length := by rw [hn, ← hf.length, length_updateLast]
  line := by rw [hline, hf.line, lastLine_updateLast f hinc]
  curPC e he := by
    obtain ⟨e', he', rfl⟩ := getLast_updateLast he
    rw [hpc, hinc]
    exact hf.curPC e' he'
  branch e he := by
    obtain ⟨e', he', rfl⟩ := getLast_updateLast he
    exact hbranch e' he'
  next e he := by
    obtain ⟨e', he', rfl⟩ := getLast_updateLast he
    rw [hnext]
    exact hf.next e' he'

/-- **A call within an instruction**: the guest has not gone on, and the last
instruction executed has one more call. -/
structure Observes (E : Env F) (cfg : SampleConfig) (an : State F) (ph : Phase) (c : Call)
    (s s' : Sampler F) : Prop where
  loc : s'.loc = s.loc
  numInsts : s'.numInsts = s.numInsts
  history : s'.history = s.history ++ [c]
  control : Control ph s'
  contents : ∀ ex, Follows ex s → Contents E cfg an ex ph s →
    Follows (observe ex c) s' ∧ Contents E cfg an (observe ex c) ph s'

variable (E an)

/-- A data access is the last instruction's. -/
theorem dcacheAccess_step (hcfg : cfg.length ≤ cfg.defaultPeriod) {addr : UInt32} {isWrite : Bool}
    {d : UInt32 → Bool → CacheMissType} (hc : Control ph s) (hr : Resting cfg ph s.numInsts)
    (h : s.call (.dcacheAccess addr isWrite d) = some s') :
    Observes E cfg an ph (.dcacheAccess addr isWrite d) s s' := by
  let f : Executed → Executed := fun e =>
    { e with body := e.body ++ [.dcacheAccess addr isWrite d] }
  have hbranch : ∀ e, (f e).branch = e.branch := fun e => by simp [f, Executed.branch]
  simp only [Sampler.call] at h
  split at h
  next hs =>
    obtain ⟨q, hq, rfl⟩ := Option.map_eq_some_iff.1 h
    obtain ⟨k, j, rfl⟩ := hc.eq_recording hs
    refine ⟨rfl, rfl, rfl, (hc.pushed q).congr rfl rfl rfl Iff.rfl rfl, fun ex hf hcon => ⟨?_, ?_⟩⟩
    · exact hf.updateLast (f := f) (fun _ => rfl) (fun _ => rfl)
        (fun e he => (hbranch e).trans (hf.branch e he)) rfl rfl rfl
    · exact (hcon.pushed (hf.length ▸ hr) hcfg f
        (fun e seq _ => e.inst_access addr isWrite d seq) hq).congr rfl
  next hs =>
    obtain rfl := Option.some.inj h
    refine ⟨rfl, rfl, rfl, hc.congr rfl rfl rfl Iff.rfl rfl, fun ex hf hcon => ⟨?_, ?_⟩⟩
    · exact hf.updateLast (f := f) (fun _ => rfl) (fun _ => rfl)
        (fun e he => (hbranch e).trans (hf.branch e he)) rfl rfl rfl
    · exact (hcon.silent (hf.length ▸ hr) hcfg f
        fun hsam => absurd (hc.isSampled.trans hsam) hs).congr rfl

/-- So is a branch. -/
theorem setBranchInst_step (hcfg : cfg.length ≤ cfg.defaultPeriod) {isCond : UInt32}
    (hc : Control ph s) (hr : Resting cfg ph s.numInsts)
    (h : s.call (.setBranchInst isCond) = some s') :
    Observes E cfg an ph (.setBranchInst isCond) s s' := by
  let f : Executed → Executed := fun e => { e with body := e.body ++ [.setBranchInst isCond] }
  obtain rfl := Option.some.inj h
  refine ⟨rfl, rfl, rfl, hc.congr rfl rfl rfl Iff.rfl rfl, fun ex hf hcon => ⟨?_, ?_⟩⟩
  · exact hf.updateLast (f := f) (fun _ => rfl) (fun _ => rfl)
      (fun e _ => by simp [f, Executed.branch]) rfl rfl rfl
  · exact (hcon.silent (hf.length ▸ hr) hcfg f
      fun _ e seq he => Executed.inst_branch (hf.next e he) isCond seq).congr rfl

/-! ## `inst_increment` -/

/-- The branch of the last instruction is resolved. -/
theorem resolveBranch_step (hcfg : cfg.length ≤ cfg.defaultPeriod) (hc : Control ph s)
    (hr : Resting cfg ph s.numInsts) (h : s.resolveBranch i = some s') :
    s'.loc = .fetch i ∧ s'.numInsts = s.numInsts ∧ s'.history = s.history ∧ s'.isBranch = false ∧
      s'.previousPc = s.previousPc ∧ Control ph s' ∧
      ∀ ex, Follows ex s → Contents E cfg an ex ph s → Contents E cfg an (resolved i ex) ph s' := by
  have hinst := fun ex (hf : Follows ex s) e seq (he : ex.getLast? = some e) =>
    Executed.inst_resolved (hf.next e he) (hf.branch e he) i seq
  simp only [Sampler.resolveBranch] at h
  split at h
  next hb =>
    split at h
    next hpush =>
      obtain ⟨q, hq, rfl⟩ := Option.map_eq_some_iff.1 h
      obtain ⟨k, j, rfl⟩ := hc.eq_recording hpush.1
      refine ⟨rfl, rfl, rfl, rfl, rfl, (hc.pushed q).congr rfl rfl rfl Iff.rfl rfl,
        fun ex hf hcon => ?_⟩
      refine (hcon.pushed (hf.length ▸ hr) hcfg _ (fun e seq he => ?_) hq).congr rfl
      rw [hinst ex hf e seq he, if_pos ⟨hb, hpush.2⟩, hf.curPC e he]
    next hpush =>
      obtain rfl := Option.some.inj h
      refine ⟨rfl, rfl, rfl, rfl, rfl, hc.congr rfl rfl rfl Iff.rfl rfl, fun ex hf hcon => ?_⟩
      refine (hcon.silent (hf.length ▸ hr) hcfg _ fun hsam e seq he => ?_).congr rfl
      rw [hinst ex hf e seq he, if_neg fun hx => hpush ⟨hc.isSampled.trans hsam, hx.2⟩]
  next hb =>
    obtain rfl := Option.some.inj h
    refine ⟨rfl, rfl, rfl, by simpa using hb, rfl, hc.congr rfl rfl rfl Iff.rfl rfl,
      fun ex hf hcon => ?_⟩
    refine (hcon.silent (hf.length ▸ hr) hcfg _ fun _ e seq he => ?_).congr rfl
    rw [hinst ex hf e seq he, if_neg fun hx => hb hx.1]

variable (cfg) in
/-- The instruction is fetched. -/
theorem fetchLine_step (hc : Control ph s) (i : InstIncrement) :
    (s.fetchLine i).loc = .first i (⟨i, s.previousPc, [], none⟩ : Executed).fetchMiss ∧
      (s.fetchLine i).numInsts = s.numInsts ∧ (s.fetchLine i).history = s.history ∧
      (s.fetchLine i).isBranch = s.isBranch ∧ (s.fetchLine i).curPC = i.pc ∧
      (s.fetchLine i).previousPc = fetchbufferalignpc i.pc ∧ Control ph (s.fetchLine i) ∧
      ∀ ex, Contents E cfg an ex ph s → Contents E cfg an ex ph (s.fetchLine i) := by
  simp only [Sampler.fetchLine, Executed.fetchMiss]
  split
  next => exact ⟨rfl, rfl, rfl, rfl, rfl, rfl, hc.congr rfl rfl rfl Iff.rfl rfl,
    fun ex hcon => hcon.congr rfl⟩
  next hline =>
    exact ⟨rfl, rfl, rfl, rfl, rfl, not_not.1 hline, hc.congr rfl rfl rfl Iff.rfl rfl,
      fun ex hcon => hcon.congr rfl⟩

/-- The variables that the remaining statements but the last do not change. -/
def Sampler.kept (s : Sampler F) : ℕ × UInt32 × Bool × UInt32 × List Call :=
  (s.numInsts, s.curPC, s.isBranch, s.previousPc, s.history)

variable (i m) in
/-- **The first instruction** begins the first sample. -/
theorem firstInst_step (hc : Control ph s) (hr : Resting cfg ph s.numInsts) :
    (s.firstInst E i m).loc = .finish i m ∧ (s.firstInst E i m).kept = s.kept ∧
      ∃ ph', Control ph' (s.firstInst E i m) ∧ (Loc.finish i m).Allows cfg ph' s.numInsts ∧
        ∀ ex, ex.length = s.numInsts → Contents E cfg an ex ph s →
          Contents E cfg an ex ph' (s.firstInst E i m) := by
  unfold Sampler.firstInst
  split
  next h0 =>
    cases ph with
    | before =>
      refine ⟨rfl, rfl, .recording 0 0, ?_, ⟨by omega, Nat.zero_le _, fun _ => h0⟩,
        fun ex hlen hcon => ?_⟩
      · exact ⟨rfl, hc.numSampledInst, hc.numThread, hc.thread, hc.counts⟩
      · obtain rfl : ex = [] := List.length_eq_zero_iff.1 (hlen.trans h0)
        have hlog := List.length_eq_zero_iff.1 hc.counts.starts
        have hupd := List.length_eq_zero_iff.1 hc.counts.updates
        refine ⟨by simp [recorded], ?_, hlog, ?_⟩
        · simp only [h0, perfmodelSampleStart, Nat.zero_mul]
        · have hsome : Analyzed E cfg (initTraceAnalyzer E an) [] (updates s.log) _ :=
            hupd ▸ Analyzed.nil
          have han : s.analyzer = an := hcon
          simp only [han]
          exact hsome
    | recording k j =>
      have := hr.1
      have := hr.2.1
      omega
    | analyzing k =>
      have := hr.1
      omega
  next h0 =>
    refine ⟨rfl, rfl, ph, hc.congr rfl rfl rfl Iff.rfl rfl, ?_, fun ex _ hcon => hcon.congr rfl⟩
    cases ph with
    | before => exact absurd hr h0
    | recording k j => exact ⟨hr.1, hr.2.2, fun hj => absurd hj (Nat.ne_of_gt hr.2.1)⟩
    | analyzing k => exact hr

/-- **The end of a sample** hands the buffer to the analysis thread. -/
theorem finishSample_step (hpos : 1 ≤ cfg.length) (hcfg : cfg.length ≤ cfg.defaultPeriod)
    (hc : Control ph s) (hr : (Loc.finish i m).Allows cfg ph s.numInsts)
    (h : s.finishSample cfg i m = some s') :
    s'.loc = .period i m ∧ s'.kept = s.kept ∧
      ∃ ph', Control ph' s' ∧ (Loc.period i m).Allows cfg ph' s.numInsts ∧
        ((cfg.length : ℤ) ≤ traceBufferCapacity → ∀ ex, ex.length = s.numInsts →
          Contents E cfg an ex ph s → Contents E cfg an ex ph' s') := by
  unfold Sampler.finishSample at h
  split at h
  next hL =>
    have hph := hc.numSampledInst.symm.trans hL
    obtain ⟨k, rfl⟩ : ∃ k, ph = .recording k cfg.length := by
      cases ph with
      | before => exact absurd hph (by simp only [Phase.numSampledInst]; omega)
      | recording k j => exact ⟨k, congrArg _ hph⟩
      | analyzing k => exact absurd hph (by simp only [Phase.numSampledInst]; omega)
    have hidle := hc.thread.2 rfl
    simp only [Sampler.threadStart, hidle, if_true, Option.bind_eq_bind, Option.bind_some,
      Option.some.injEq] at h
    subst h
    refine ⟨rfl, rfl, .analyzing k, ?_, ⟨hr.1.ge, ?_⟩, fun hcap ex hlen hcon => ?_⟩
    · exact ⟨rfl, rfl, congrArg (· + 1) hc.numThread, by simp [Phase.numThread],
        hc.counts.start s.traceBuffer⟩
    · have := hr.1
      rw [Nat.succ_mul]
      omega
    · obtain ⟨hbuf, hstat, hled⟩ := hcon
      have hlen' : ex.length = k * cfg.defaultPeriod + cfg.length := hlen.trans hr.1
      refine ⟨?_, s.analyzer, ⟨?_, ?_⟩, ?_⟩
      · have hlt : cfg.length < 2 ^ 31 := by
          simp only [traceBufferCapacity] at hcap
          omega
        rw [← numInsts_perfmodelSampleEnd hlt hstat i.counters, ← hr.1]
      · simp only [starts, List.filterMap_append, List.filterMap_cons, List.filterMap_nil,
          List.range_succ, List.map_append, List.map_cons, List.map_nil]
        rw [sample_eq_recorded hlen', ← hbuf]
        exact congrArg (· ++ _) hled.starts
      · simp only [updates, List.filterMap_append, List.filterMap_cons, List.filterMap_nil,
          List.append_nil]
        exact hled.analyzed
      · exact ⟨hbuf.trans (sample_eq_recorded hlen').symm, rfl⟩
  next hL =>
    obtain rfl := Option.some.inj h
    refine ⟨rfl, rfl, ph, hc.congr rfl rfl rfl Iff.rfl rfl, ?_, fun _ ex _ hcon => hcon.congr rfl⟩
    cases ph with
    | before => exact hr
    | recording k j =>
      have hj : j ≠ cfg.length := fun hj => hL (hc.numSampledInst.trans hj)
      exact ⟨hr.1, lt_of_le_of_ne hr.2.1 hj, hr.2.2⟩
    | analyzing k => exact ⟨hr.1.le, hr.2⟩

/-- Where a period may end. -/
theorem eq_of_period {k n : ℕ} (hpos : 1 ≤ cfg.length)
    (hlo : k * cfg.defaultPeriod + cfg.length ≤ n) (hhi : n ≤ (k + 1) * cfg.defaultPeriod)
    (hmod : n % cfg.defaultPeriod = 0) : n = (k + 1) * cfg.defaultPeriod := by
  obtain ⟨d, hd⟩ := Nat.dvd_of_mod_eq_zero hmod
  rw [hd, Nat.mul_comm cfg.defaultPeriod d] at hlo hhi ⊢
  have h1 : k < d := Nat.lt_of_mul_lt_mul_right (a := cfg.defaultPeriod) (by omega)
  have h2 : d * cfg.defaultPeriod ≥ (k + 1) * cfg.defaultPeriod :=
    Nat.mul_le_mul_right _ (Nat.succ_le_of_lt h1)
  omega

/-- **The end of a period** waits for the analysis, updates the model and
begins the next sample. -/
theorem startPeriod_step (hpos : 1 ≤ cfg.length) (hcfg : cfg.length ≤ cfg.defaultPeriod)
    (hc : Control ph s) (hr : (Loc.period i m).Allows cfg ph s.numInsts)
    (h : s.startPeriod E cfg i m = some s') :
    s'.loc = .record i m ∧ s'.kept = s.kept ∧
      ∃ ph', Control ph' s' ∧ (Loc.record i m).Allows cfg ph' s.numInsts ∧
        ((cfg.length : ℤ) ≤ traceBufferCapacity → ∀ ex, ex.length = s.numInsts →
          Contents E cfg an ex ph s → Contents E cfg an ex ph' s') := by
  unfold Sampler.startPeriod at h
  cases ph with
  | before => exact hr.elim
  | recording k j =>
    obtain ⟨hn, hj, h0⟩ := hr
    -- a sample under way is within its period
    have hno : ¬ (s.numInsts ≠ 0 ∧ s.numInsts % cfg.defaultPeriod = 0) := by
      rintro ⟨hne, hmod⟩
      rw [hn, Nat.add_comm, Nat.add_mul_mod_self_right, Nat.mod_eq_of_lt (by omega)] at hmod
      exact hne (h0 hmod)
    rw [if_neg hno] at h
    obtain rfl := Option.some.inj h
    exact ⟨rfl, rfl, .recording k j, hc.congr rfl rfl rfl Iff.rfl rfl, ⟨hn, hj⟩,
      fun _ ex _ hcon => hcon.congr rfl⟩
  | analyzing k =>
    obtain ⟨hlo, hhi⟩ := hr
    split at h
    next hend =>
      have hn := eq_of_period hpos hlo hhi hend.2
      have hthread : s.numThread = 1 := hc.numThread
      simp only [Sampler.threadEnd, hthread, Nat.one_ne_zero, ne_eq, not_false_eq_true, if_true] at h
      split at h
      next hex =>
        simp only [Option.bind_eq_bind, Option.bind_some, Sampler.update, Option.some.injEq] at h
        subst h
        refine ⟨rfl, rfl, .recording (k + 1) 0, ?_, ⟨hn, by omega⟩, fun hcap ex hlen hcon => ?_⟩
        · exact ⟨rfl, hc.numSampledInst, rfl, by simp [Phase.numThread], hc.counts.join _⟩
        · obtain ⟨hstat, A, hled, ht⟩ := hcon
          simp only [ThreadAt, hex] at ht
          obtain ⟨fuel, a, hret, hcyc, hpen, hstate, hbuf⟩ := ht
          have hret' : traceAnalysis E fuel (sampleTrace cfg ex k hcap).queue 0 A = some a := hret
          have hd := hled.analyzed.drained (initTraceAnalyzer_drained E an)
          have hempty := traceAnalysis_traceBuffer hd hret'
          refine ⟨?_, ?_, ⟨?_, ?_⟩⟩
          · have hdrop : ex.drop ((k + 1) * cfg.defaultPeriod) = [] :=
              List.drop_eq_nil_iff.2 (by omega)
            simp only [hbuf, hempty, recorded, hdrop]
            rfl
          · simp only [perfmodelSampleStart, hn]
          · simpa only [starts, List.filterMap_append, List.filterMap_cons, List.filterMap_nil,
              List.append_nil] using hled.starts
          · have hanalyzed := Analyzed.concat (u := ⟨s.numInsts, s.argCycle, s.argBpredPenalty,
              s.sampleStat⟩) (sampleTrace cfg ex k hcap) fuel hled.analyzed hret'
              (by simpa using hn) hcyc hpen hstat
            simp only [updates, List.filterMap_append, List.filterMap_cons, List.filterMap_nil,
              List.append_nil, List.range_succ, List.map_append, List.map_cons, List.map_nil, hstate]
            exact hanalyzed
      next => cases h
    next hend =>
      obtain rfl := Option.some.inj h
      refine ⟨rfl, rfl, .analyzing k, hc.congr rfl rfl rfl Iff.rfl rfl,
        ⟨hlo, lt_of_le_of_ne hhi fun hn => hend ⟨by omega, ?_⟩⟩, fun _ ex _ hcon => hcon.congr rfl⟩
      rw [hn]
      exact Nat.mul_mod_left ..

/-- The buffer has room for the record. -/
theorem pushCode_recorded {k j : ℕ} {line : UInt32} (hroom : (j : ℤ) < traceBufferCapacity)
    (hle : k * cfg.defaultPeriod ≤ ex.length) (hseq : ex.length - k * cfg.defaultPeriod = j)
    (hm : m = (⟨i, line, [], none⟩ : Executed).fetchMiss) :
    pushCode (recorded cfg ex k) (UInt32.ofNat j) i.pc (i.getInstByte i.pc i.flag) m =
      recorded cfg (ex ++ [⟨i, line, [], none⟩]) k := by
  have hsize : (recorded cfg ex k).size = j := by
    simp only [recorded, InstQueue.size, List.length_mapIdx, List.length_drop]
    exact hseq
  have hhas : (recorded cfg ex k).HasRoom := .inr (by rw [hsize]; exact hroom)
  have hfull : ¬ (recorded cfg ex k).isFullQueue = true := by
    rw [(isFullQueue_eq_false_iff _).2 hhas]
    exact Bool.false_ne_true
  rw [pushCode, if_neg hfull, InstQueue.pushBackInst, if_pos hhas]
  have hnew := recorded_concat hle ⟨i, line, [], none⟩
  rw [hseq] at hnew
  subst hm
  exact congrArg (fun elems => InstQueue.mk elems traceBufferCapacity) hnew.symm

/-- **The instruction is recorded** while a sample is under way. -/
theorem recordInst_step (hcfg : cfg.length ≤ cfg.defaultPeriod) (hc : Control ph s)
    (hr : (Loc.record i m).Allows cfg ph s.numInsts) :
    (s.recordInst i m).loc = .ready ∧ (s.recordInst i m).numInsts = s.numInsts + 1 ∧
      (s.recordInst i m).curPC = s.curPC ∧ (s.recordInst i m).isBranch = s.isBranch ∧
      (s.recordInst i m).previousPc = s.previousPc ∧ (s.recordInst i m).history = s.history ∧
      ∃ ph', Control ph' (s.recordInst i m) ∧ Resting cfg ph' (s.numInsts + 1) ∧
        ((cfg.length : ℤ) ≤ traceBufferCapacity → ∀ ex line, ex.length = s.numInsts →
          m = (⟨i, line, [], none⟩ : Executed).fetchMiss → Contents E cfg an ex ph s →
          Contents E cfg an (ex ++ [⟨i, line, [], none⟩]) ph' (s.recordInst i m)) := by
  cases ph with
  | before => exact hr.elim
  | recording k j =>
    obtain ⟨hn, hj⟩ := hr
    have hcount : s.numSampledInst = j := hc.numSampledInst
    have heq : s.recordInst i m = { s.pushed (pushCode s.traceBuffer (UInt32.ofNat s.numSampledInst)
        i.pc (i.getInstByte i.pc i.flag) m) with
        numSampledInst := s.numSampledInst + 1, numInsts := s.numInsts + 1, loc := .ready } :=
      if_pos hc.isSampled
    rw [heq]
    refine ⟨rfl, rfl, rfl, rfl, rfl, rfl, .recording k (j + 1), ?_, ⟨by omega, by omega, by omega⟩,
      fun hcap ex line hlen hm hcon => ?_⟩
    · exact ⟨hc.isSampled, congrArg (· + 1) hcount, hc.numThread, hc.thread, hc.counts.push⟩
    · obtain ⟨hbuf, hstat, hled⟩ := hcon
      have hle : k * cfg.defaultPeriod ≤ ex.length := by omega
      have hseq : ex.length - k * cfg.defaultPeriod = j := by omega
      refine ⟨?_, hstat, hled.congr le_rfl (fun k' hk' => ?_) ?_ ?_⟩
      · rw [hbuf, hcount]
        exact pushCode_recorded (by omega) hle hseq hm
      · have := Nat.mul_le_mul_right cfg.defaultPeriod (Nat.succ_le_of_lt hk')
        rw [Nat.succ_mul] at this
        exact sample_append _ (by omega)
      · simp [Sampler.pushed, starts]
      · simp [Sampler.pushed, updates]
  | analyzing k =>
    obtain ⟨hlo, hhi⟩ := hr
    have hsam : ¬ s.isSampled = true := by
      rw [hc.isSampled]
      exact Bool.false_ne_true
    have heq : s.recordInst i m = { s with numInsts := s.numInsts + 1, loc := .ready } :=
      if_neg hsam
    rw [heq]
    refine ⟨rfl, rfl, rfl, rfl, rfl, rfl, .analyzing k, hc.congr rfl rfl rfl Iff.rfl rfl,
      ⟨by omega, by omega⟩, fun _ ex line hlen _ hcon => ?_⟩
    obtain ⟨hstat, A, hled, ht⟩ := hcon
    have hsample : ∀ k' < k + 1, sample cfg (ex ++ [⟨i, line, [], none⟩]) k' = sample cfg ex k' := by
      intro k' hk'
      have := Nat.mul_le_mul_right cfg.defaultPeriod (Nat.lt_succ_iff.1 hk')
      exact sample_append _ (by omega)
    refine ⟨hstat, A, hled.congr (Nat.le_succ k) hsample rfl rfl, ?_⟩
    rw [hsample k (Nat.lt_succ_self k)]
    exact ht.congr rfl

end Sampling

end Tqsim
