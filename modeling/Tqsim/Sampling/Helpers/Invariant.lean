import Tqsim.Sampling.Helpers.Transitions

/-!
# The invariant of the two threads

What holds of the guest's variables, the log and the buffer in every state
that the two threads reach, whatever the order of their moves: `Inv` up to
`gdb_exit`, and `Closing` from there on.
-/

namespace Tqsim

namespace Sampling

open TraceAnalyzer
open Sampler (fetchbufferalignpc)

variable {F : Type} {E : Env F} {cfg : SampleConfig} {s s' : Sampler F} {an : State F}
variable {perf : Perfmodel F}

/-- A call of `inst_increment` that has fetched its instruction, after the
instructions `ex`. -/
structure Entered (i : InstIncrement) (m : CacheMissType) (ex : List Executed) (s : Sampler F) :
    Prop where
  history : ∃ h, s.history = h ++ [.instIncrement i] ∧ ex = resolved i (executed h)
  length : ex.length = s.numInsts
  isBranch : s.isBranch = false
  curPC : s.curPC = i.pc
  previousPc : s.previousPc = fetchbufferalignpc i.pc
  missType : m = (⟨i, lastLine ex, [], none⟩ : Executed).fetchMiss

/-- The instructions executed before the call under way, which resolves the
last one's branch in its first statement. -/
def Tracked (s : Sampler F) (ex : List Executed) : Prop :=
  match s.loc with
  | .ready | .wrapup _ | .wrapupEnd | .exited => ex = executed s.history ∧ Follows ex s
  | .resolve i => (∃ h, s.history = h ++ [.instIncrement i] ∧ ex = executed h) ∧ Follows ex s
  | .fetch i => (∃ h, s.history = h ++ [.instIncrement i] ∧ ex = resolved i (executed h)) ∧
      ex.length = s.numInsts ∧ s.isBranch = false ∧ s.previousPc = lastLine ex
  | .first i m | .finish i m | .period i m | .record i m => Entered i m ex s

/-- The number of instructions among the calls. -/
def instCalls (history : List Call) : ℕ :=
  history.countP fun
    | .instIncrement _ => true
    | _ => false

/-- The instruction under way, which is not counted yet. -/
def Loc.underWay : Loc → ℕ
  | .resolve _ | .fetch _ | .first _ _ | .finish _ _ | .period _ _ | .record _ _ => 1
  | _ => 0

/-- **The invariant** of both threads. What the buffer holds depends on its
capacity. -/
def Inv (E : Env F) (cfg : SampleConfig) (an : State F) (s : Sampler F) : Prop :=
  ∃ ph, Control ph s ∧ s.loc.Allows cfg ph s.numInsts ∧
    instCalls s.history = s.numInsts + s.loc.underWay ∧
    ((cfg.length : ℤ) ≤ traceBufferCapacity → ∃ ex, Tracked s ex ∧ Contents E cfg an ex ph s)

theorem inv_initial (E : Env F) (cfg : SampleConfig) (an : State F) (perf : Perfmodel F) :
    Inv E cfg an (Sampler.initial an perf) := by
  refine ⟨.before, ⟨rfl, rfl, rfl, by simp [Sampler.initial, Phase.numThread], ?_⟩, rfl, rfl,
    fun _ => ⟨[], ⟨rfl, ⟨rfl, rfl, nofun, nofun, nofun⟩⟩, rfl⟩⟩
  exact ⟨fun before after h => absurd h (by simp [Sampler.initial]), rfl, rfl, rfl⟩

/-- The variables of a call under way are kept. -/
theorem Entered.congr {i : InstIncrement} {m : CacheMissType} {ex : List Executed}
    (h : Entered i m ex s) (hs : s'.kept = s.kept) : Entered i m ex s' := by
  simp only [Sampler.kept, Prod.mk.injEq] at hs
  obtain ⟨h1, h2, h3, h4, h5⟩ := hs
  exact ⟨h5 ▸ h.history, h1 ▸ h.length, h3.trans h.isBranch, h2.trans h.curPC,
    h4.trans h.previousPc, h.missType⟩

/-! ## The steps -/

/-- The variables of the guest thread. -/
def Sampler.guest (s : Sampler F) : Loc × ℕ × Bool × ℕ × ℕ × List Event × List Call × UInt32 ×
    Bool × UInt32 × UInt32 × SampledStat :=
  (s.loc, s.numInsts, s.isSampled, s.numSampledInst, s.numThread, s.log, s.history, s.curPC,
    s.isBranch, s.isCond, s.previousPc, s.sampleStat)

/-- The analysis thread leaves them alone. -/
theorem threadStep_guest (h : s.threadStep E = some s') :
    s'.guest = s.guest ∧ s.thread ≠ .idle ∧ s'.thread ≠ .idle := by
  unfold Sampler.threadStep at h
  split at h
  next => cases h
  next => cases h
  next hth =>
    obtain rfl := Option.some.inj h
    exact ⟨rfl, by simp [hth], by simp⟩
  next hth =>
    obtain ⟨a, -, h⟩ := Option.bind_eq_some_iff.1 h
    simp only at h
    split at h
    next =>
      obtain rfl := Option.some.inj h
      exact ⟨rfl, by simp [hth], by simp⟩
    next =>
      obtain rfl := Option.some.inj h
      exact ⟨rfl, by simp [hth], by simp⟩

theorem Follows.congr {ex : List Executed} (h : Follows ex s) (hs : s'.guest = s.guest) :
    Follows ex s' := by
  simp only [Sampler.guest, Prod.mk.injEq] at hs
  obtain ⟨-, h2, -, -, -, -, -, h8, h9, h10, h11, -⟩ := hs
  exact ⟨h2 ▸ h.length, h11.trans h.line, fun e he => h8.trans (h.curPC e he),
    fun e he => by rw [h9, h10]; exact h.branch e he, h.next⟩

theorem Tracked.congr {ex : List Executed} (h : Tracked s ex) (hs : s'.guest = s.guest) :
    Tracked s' ex := by
  have hf := fun (hf : Follows ex s) => hf.congr hs
  simp only [Sampler.guest, Prod.mk.injEq] at hs
  obtain ⟨h1, h2, -, -, -, -, h7, h8, h9, -, h11, -⟩ := hs
  have hkept : s'.kept = s.kept := by simp only [Sampler.kept, h2, h7, h8, h9, h11]
  rw [Tracked, h1]
  rw [Tracked] at h
  generalize s.loc = l at h ⊢
  cases l with
  | ready | wrapup c | wrapupEnd | exited | resolve i => exact ⟨h7 ▸ h.1, hf h.2⟩
  | fetch i => exact ⟨h7 ▸ h.1, h2 ▸ h.2.1, h9.trans h.2.2.1, h11.trans h.2.2.2⟩
  | first i m | finish i m | period i m | record i m => exact Entered.congr h hkept

/-- **A step of the analysis thread.** -/
theorem Inv.analysisStep (h : Inv E cfg an s) (hs' : s.threadStep E = some s') :
    Inv E cfg an s' := by
  obtain ⟨ph, hc, hr, hcalls, hcon⟩ := h
  obtain ⟨hguest, hrun, hrun'⟩ := threadStep_guest hs'
  have htracked := fun ex (ht : Tracked s ex) => ht.congr hguest
  simp only [Sampler.guest, Prod.mk.injEq] at hguest
  obtain ⟨h1, h2, h3, h4, h5, h6, h7, -, -, -, -, h12⟩ := hguest
  refine ⟨ph, hc.congr h3 h4 h5 (by simp only [hrun, hrun']) h6, h1 ▸ h2 ▸ hr,
    by rw [h1, h2, h7]; exact hcalls, fun hcap => ?_⟩
  obtain ⟨ex, ht, hcon⟩ := hcon hcap
  refine ⟨ex, htracked ex ht, ?_⟩
  -- only an analysis under way has a thread
  cases ph with
  | before => exact absurd (hc.thread.2 rfl) hrun
  | recording k j => exact absurd (hc.thread.2 rfl) hrun
  | analyzing k =>
    obtain ⟨hstat, A, hled, hat⟩ := hcon
    exact ⟨h12 ▸ hstat, A, h6 ▸ hled, hat.step hs'⟩

/-- **A helper call.** -/
theorem Inv.callStep (hper : cfg.length ≤ cfg.defaultPeriod) (h : Inv E cfg an s)
    (hloc : s.loc = .ready) {c : Call} (hs' : s.call c = some s') : Inv E cfg an s' := by
  obtain ⟨ph, hc, hr, hcalls, hcon⟩ := h
  rw [hloc] at hcalls
  have hr : Resting cfg ph s.numInsts := by
    rw [hloc] at hr
    exact hr
  have htracked : ∀ ex, Tracked s ex → ex = executed s.history ∧ Follows ex s := fun ex ht => by
    simpa only [Tracked, hloc] using ht
  have hobserved : ∀ c, Observes E cfg an ph c s s' →
      instCalls (s.history ++ [c]) = instCalls s.history → Inv E cfg an s' := by
    intro c h hinst
    refine ⟨ph, h.control, by rw [h.loc, h.numInsts, hloc]; exact hr, ?_, fun hcap => ?_⟩
    · rw [h.loc, h.numInsts, h.history, hloc, hinst]
      exact hcalls
    · obtain ⟨ex, ht, hcon⟩ := hcon hcap
      obtain ⟨rfl, hf⟩ := htracked ex ht
      obtain ⟨hf', hcon'⟩ := h.contents _ hf hcon
      refine ⟨_, ?_, hcon'⟩
      simp only [Tracked, h.loc, hloc, h.history]
      exact ⟨(executed_concat _ _).symm, hf'⟩
  cases c with
  | instIncrement i =>
    obtain rfl := Option.some.inj hs'
    refine ⟨ph, hc.congr rfl rfl rfl Iff.rfl rfl, hr, ?_, fun hcap => ?_⟩
    · simpa [instCalls, Loc.underWay] using hcalls
    obtain ⟨ex, ht, hcon⟩ := hcon hcap
    obtain ⟨hex, hf⟩ := htracked ex ht
    exact ⟨ex, ⟨⟨s.history, rfl, hex⟩, hf.length, hf.line, hf.curPC, hf.branch, hf.next⟩,
      hcon.congr rfl⟩
  | dcacheAccess addr isWrite d =>
    exact hobserved _ (dcacheAccess_step E an hper hc hr hs') (by simp [instCalls])
  | setBranchInst isCond =>
    exact hobserved _ (setBranchInst_step E an hper hc hr hs') (by simp [instCalls])

theorem length_resolved (i : InstIncrement) (ex : List Executed) :
    (resolved i ex).length = ex.length := length_updateLast _ _

theorem lastLine_resolved (i : InstIncrement) (ex : List Executed) :
    lastLine (resolved i ex) = lastLine ex :=
  lastLine_updateLast (fun e => { e with next := some i }) fun _ => rfl

theorem executed_instIncrement (h : List Call) (i : InstIncrement) :
    executed (h ++ [.instIncrement i]) =
      resolved i (executed h) ++ [⟨i, lastLine (resolved i (executed h)), [], none⟩] := by
  rw [executed_concat, lastLine_resolved]
  rfl

/-- A statement of a call under way that keeps the variables it has set. -/
theorem Inv.of_entered {i : InstIncrement} {m : CacheMissType} {ph ph' : Phase} {l : Loc}
    (hl : ∀ (t : Sampler F) ex, t.loc = l → Entered i m ex t → Tracked t ex)
    (hcon : (cfg.length : ℤ) ≤ traceBufferCapacity →
      ∃ ex, Entered i m ex s ∧ Contents E cfg an ex ph s)
    (hloc : s'.loc = l) (hkept : s'.kept = s.kept) (hc : Control ph' s')
    (hr : l.Allows cfg ph' s.numInsts) (hcalls : instCalls s.history = s.numInsts + l.underWay)
    (hnew : (cfg.length : ℤ) ≤ traceBufferCapacity → ∀ ex, ex.length = s.numInsts →
      Contents E cfg an ex ph s → Contents E cfg an ex ph' s') : Inv E cfg an s' := by
  have hn : s'.numInsts = s.numInsts := congrArg Prod.fst hkept
  have hh : s'.history = s.history := by
    simp only [Sampler.kept, Prod.mk.injEq] at hkept
    exact hkept.2.2.2.2
  refine ⟨ph', hc, by rw [hloc, hn]; exact hr, by rw [hloc, hn, hh]; exact hcalls, fun hcap => ?_⟩
  obtain ⟨ex, hent, hcon⟩ := hcon hcap
  exact ⟨ex, hl s' ex hloc (hent.congr hkept), hnew hcap ex hent.length hcon⟩

/-- `if (is_branch) ...`. -/
theorem Inv.resolveStep (hper : cfg.length ≤ cfg.defaultPeriod) (h : Inv E cfg an s)
    {i : InstIncrement} (hloc : s.loc = .resolve i) (hs' : s.resolveBranch i = some s') :
    Inv E cfg an s' := by
  obtain ⟨ph, hc, hr, hcalls, hcon⟩ := h
  simp only [hloc] at hr hcalls
  obtain ⟨h1, h2, h3, h4, h5, hc', hnew⟩ := resolveBranch_step E an hper hc hr hs'
  refine ⟨ph, hc', by rw [h1, h2]; exact hr, by rw [h1, h2, h3]; exact hcalls, fun hcap => ?_⟩
  obtain ⟨ex, ht, hcon⟩ := hcon hcap
  simp only [Tracked, hloc] at ht
  obtain ⟨⟨hist, hh, rfl⟩, hf⟩ := ht
  refine ⟨_, ?_, hnew _ hf hcon⟩
  simp only [Tracked, h1, h2, h3, h4, h5]
  refine ⟨⟨hist, hh, rfl⟩, ?_, trivial, ?_⟩
  · rw [length_resolved, hf.length]
  · rw [lastLine_resolved, hf.line]

/-- The access of the instruction cache. -/
theorem Inv.fetchStep (h : Inv E cfg an s) {i : InstIncrement} (hloc : s.loc = .fetch i) :
    Inv E cfg an (s.fetchLine i) := by
  obtain ⟨ph, hc, hr, hcalls, hcon⟩ := h
  simp only [hloc] at hr hcalls
  obtain ⟨h1, h2, h3, h4, h5, h6, hc', hnew⟩ := fetchLine_step E cfg an hc i
  refine ⟨ph, hc', by rw [h1, h2]; exact hr, by rw [h1, h2, h3]; exact hcalls, fun hcap => ?_⟩
  obtain ⟨ex, ht, hcon⟩ := hcon hcap
  simp only [Tracked, hloc] at ht
  obtain ⟨hhist, hlen, hb, hline⟩ := ht
  refine ⟨ex, ?_, hnew ex hcon⟩
  simp only [Tracked, h1]
  exact ⟨h3 ▸ hhist, h2 ▸ hlen, h4.trans hb, h5, h6, by rw [hline]⟩

/-- The record of the instruction, which ends the call. -/
theorem Inv.recordStep (hper : cfg.length ≤ cfg.defaultPeriod) (h : Inv E cfg an s)
    {i : InstIncrement} {m : CacheMissType} (hloc : s.loc = .record i m) :
    Inv E cfg an (s.recordInst i m) := by
  obtain ⟨ph, hc, hr, hcalls, hcon⟩ := h
  simp only [hloc, Tracked] at hr hcalls hcon
  obtain ⟨h1, h2, h3, h4, h5, h6, ph', hc', hr', hnew⟩ := recordInst_step E an hper hc hr
  refine ⟨ph', hc', by rw [h1, h2]; exact hr', by rw [h1, h2, h6]; exact hcalls, fun hcap => ?_⟩
  obtain ⟨ex, hent, hcon⟩ := hcon hcap
  obtain ⟨hist, hh, rfl⟩ := hent.history
  refine ⟨_, ?_, hnew hcap _ _ hent.length hent.missType hcon⟩
  simp only [Tracked, h1, h6, hh, executed_instIncrement]
  refine ⟨trivial, ?_, ?_, ?_, ?_, ?_⟩
  · rw [List.length_append, hent.length, h2]
    rfl
  · rw [h5, hent.previousPc]
    simp [lastLine]
  · intro e he
    obtain rfl : _ = e := by simpa using he
    rw [h3, hent.curPC]
  · intro e he
    obtain rfl : _ = e := by simpa using he
    rw [h4, hent.isBranch]
    rfl
  · intro e he
    obtain rfl : _ = e := by simpa using he
    rfl

/-- **A statement of `inst_increment`.** -/
theorem Inv.guestStep (hpos : 1 ≤ cfg.length) (hper : cfg.length ≤ cfg.defaultPeriod)
    (h : Inv E cfg an s) (hexit : ∀ c, s.loc ≠ .wrapup c) (hs' : s.block E cfg = some s') :
    Inv E cfg an s' := by
  obtain ⟨ph, hc, hr, hcalls, hcon⟩ := h
  unfold Sampler.block at hs'
  cases hloc : s.loc with
  | ready | exited => simp [hloc] at hs'
  | wrapup c => exact absurd hloc (hexit c)
  | wrapupEnd => exact absurd hr (by simp [hloc, Loc.Allows])
  | resolve i =>
    simp only [hloc] at hs'
    exact Inv.resolveStep hper ⟨ph, hc, hr, hcalls, hcon⟩ hloc hs'
  | fetch i =>
    simp only [hloc] at hs'
    exact Option.some.inj hs' ▸ Inv.fetchStep ⟨ph, hc, hr, hcalls, hcon⟩ hloc
  | first i m =>
    simp only [hloc, Tracked] at hs' hr hcalls hcon
    obtain rfl := Option.some.inj hs'
    obtain ⟨h1, h2, ph', hc', hr', hnew⟩ := firstInst_step E an i m hc hr
    exact .of_entered (fun t ex ht he => by simpa only [Tracked, ht] using he) hcon h1 h2 hc'
      hr' hcalls fun _ => hnew
  | finish i m =>
    simp only [hloc, Tracked] at hs' hr hcalls hcon
    obtain ⟨h1, h2, ph', hc', hr', hnew⟩ := finishSample_step E an hpos hper hc hr hs'
    exact .of_entered (fun t ex ht he => by simpa only [Tracked, ht] using he) hcon h1 h2 hc'
      hr' hcalls hnew
  | period i m =>
    simp only [hloc, Tracked] at hs' hr hcalls hcon
    obtain ⟨h1, h2, ph', hc', hr', hnew⟩ := startPeriod_step E an hpos hper hc hr hs'
    exact .of_entered (fun t ex ht he => by simpa only [Tracked, ht] using he) hcon h1 h2 hc'
      hr' hcalls hnew
  | record i m =>
    simp only [hloc] at hs'
    exact Option.some.inj hs' ▸ Inv.recordStep hper ⟨ph, hc, hr, hcalls, hcon⟩ hloc

/-- **The entry of `gdb_exit`.** -/
theorem Inv.exitStep (h : Inv E cfg an s) (hloc : s.loc = .ready) (c : Counters) :
    Inv E cfg an { s with loc := .wrapup c } := by
  obtain ⟨ph, hc, hr, hcalls, hcon⟩ := h
  simp only [hloc, Tracked] at hr hcalls hcon
  refine ⟨ph, hc.congr rfl rfl rfl Iff.rfl rfl, hr, hcalls, fun hcap => ?_⟩
  obtain ⟨ex, ht, hcon⟩ := hcon hcap
  exact ⟨ex, ⟨ht.1, ht.2.length, ht.2.line, ht.2.curPC, ht.2.branch, ht.2.next⟩, hcon.congr rfl⟩

/-! ## The run -/

/-- **The way out.** The phase in which the guest exits says what
`perfmodel_sample_wrapup` does: it hands over and awaits a sample that is
being recorded, and leaves an analysis under way to itself. -/
def Closing (cfg : SampleConfig) (s : Sampler F) : Prop :=
  ∃ ph, Resting cfg ph s.numInsts ∧ instCalls s.history = s.numInsts ∧
    match s.loc, ph with
    | .wrapupEnd, .recording k _ => s.numThread = 1 ∧ Counts s.log (k + 1) k
    | .exited, .before => Counts s.log 0 0
    | .exited, .recording k _ => Counts s.log (k + 1) (k + 1)
    | .exited, .analyzing k => Counts s.log (k + 1) k
    | _, _ => False

/-- `gdb_exit` has left the helpers' statements. -/
def Loc.closed : Loc → Bool
  | .wrapupEnd | .exited => true
  | _ => false

theorem Closing.closed (h : Closing cfg s) : s.loc.closed = true := by
  obtain ⟨ph, -, -, h⟩ := h
  cases hloc : s.loc <;> cases ph <;> simp only [hloc] at h <;> rfl

/-- `perfmodel_sample_wrapup` is entered between two calls. -/
theorem Inv.wrapupStep {c : Counters} (h : Inv E cfg an s) (hloc : s.loc = .wrapup c)
    (hs' : s.wrapupStart c = some s') : Closing cfg s' := by
  obtain ⟨ph, hc, hr, hcalls, -⟩ := h
  simp only [hloc] at hr hcalls
  unfold Sampler.wrapupStart at hs'
  split at hs'
  next hsam =>
    obtain ⟨k, j, rfl⟩ := hc.eq_recording hsam
    obtain ⟨t, ht, hs'⟩ := Option.bind_eq_some_iff.1 hs'
    obtain rfl := Option.some.inj hs'
    obtain ⟨-, rfl⟩ := threadStart_eq_some ht
    exact ⟨.recording k j, hr, hcalls, by simp [hc.numThread, Phase.numThread], hc.counts.start _⟩
  next hsam =>
    obtain rfl := Option.some.inj hs'
    refine ⟨ph, hr, hcalls, ?_⟩
    cases ph with
    | before => exact hc.counts
    | recording k j => exact absurd hc.isSampled hsam
    | analyzing k => exact hc.counts

/-- **A move on the way out.** -/
theorem Closing.step {m : Move} (h : Closing cfg s) (hs' : s.move E cfg m = some s') :
    Closing cfg s' := by
  have hcl := h.closed
  obtain ⟨ph, hr, hcalls, h⟩ := h
  cases m with
  | analysis =>
    have hguest := (threadStep_guest hs').1
    simp only [Sampler.guest, Prod.mk.injEq] at hguest
    obtain ⟨h1, h2, -, -, h5, h6, h7, -⟩ := hguest
    refine ⟨ph, h2 ▸ hr, by rw [h2, h7]; exact hcalls, ?_⟩
    rw [h1, h5, h6]
    exact h
  | call c | exit c =>
    simp only [Sampler.move] at hs'
    split at hs'
    next hloc =>
      rw [hloc] at hcl
      cases hcl
    next => cases hs'
  | guest =>
    simp only [Sampler.move, Sampler.block] at hs'
    cases hloc : s.loc <;> simp only [hloc, Loc.closed, Bool.false_eq_true] at hcl h hs'
    next =>
      cases ph with
      | before | analyzing k => exact h.elim
      | recording k j =>
        obtain ⟨hthread, hcounts⟩ := h
        unfold Sampler.finishWrapup Sampler.threadEnd at hs'
        rw [if_pos (by omega)] at hs'
        split at hs'
        next =>
          obtain rfl := Option.some.inj hs'
          exact ⟨.recording k j, hr, hcalls, hcounts.join _⟩
        next => cases hs'
    next => cases hs'

/-- **The invariant holds in every state of a run**, until `gdb_exit` leaves
the helpers' statements. -/
theorem reachable_inv (hpos : 1 ≤ cfg.length) (hper : cfg.length ≤ cfg.defaultPeriod)
    (h : Reachable E cfg an perf s) : Inv E cfg an s ∨ Closing cfg s := by
  obtain ⟨moves, hmoves⟩ := h
  refine Run.play_invariant (P := fun s => Inv E cfg an s ∨ Closing cfg s) ?_
    (.inl (inv_initial E cfg an perf)) hmoves
  rintro t m u (hinv | hcl) hu
  · cases m with
    | call c =>
      simp only [Sampler.move] at hu
      split at hu
      next hloc => exact .inl (hinv.callStep hper hloc hu)
      next => cases hu
    | exit c =>
      simp only [Sampler.move] at hu
      split at hu
      next hloc =>
        obtain rfl := Option.some.inj hu
        exact .inl (hinv.exitStep hloc c)
      next => cases hu
    | guest =>
      by_cases hw : ∃ c, t.loc = .wrapup c
      · obtain ⟨c, hloc⟩ := hw
        simp only [Sampler.move, Sampler.block, hloc] at hu
        exact .inr (hinv.wrapupStep hloc hu)
      · exact .inl (hinv.guestStep hpos hper (fun c hc => hw ⟨c, hc⟩) hu)
    | analysis => exact .inl (hinv.analysisStep hu)
  · exact .inr (hcl.step hu)

theorem reachable_inv_of_open (hpos : 1 ≤ cfg.length) (hper : cfg.length ≤ cfg.defaultPeriod)
    (h : Reachable E cfg an perf s) (hopen : s.loc.closed = false) : Inv E cfg an s :=
  (reachable_inv hpos hper h).resolve_right fun hcl =>
    absurd hcl.closed (by simp [hopen])

theorem reachable_closing (hpos : 1 ≤ cfg.length) (hper : cfg.length ≤ cfg.defaultPeriod)
    (h : Reachable E cfg an perf s) (hclosed : s.loc.closed = true) : Closing cfg s := by
  refine (reachable_inv hpos hper h).resolve_left fun hinv => ?_
  obtain ⟨ph, -, hr, -⟩ := hinv
  cases hloc : s.loc <;> simp only [hloc, Loc.closed, Bool.false_eq_true] at hclosed <;>
    simp only [hloc, Loc.Allows] at hr

end Sampling

end Tqsim
