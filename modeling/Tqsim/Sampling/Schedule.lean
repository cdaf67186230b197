import Tqsim.Common.Interleave
import Tqsim.Sampling.Updates

/-!
# The order of the two threads

The analysis thread works on its own variables and on the trace buffer. While
it does, the guest thread records nothing and waits for no thread, so that
its statements neither read nor write what the analysis thread works on: the
moves of the two can be made in either order. What the guest computes is a
function of the calls it makes, whenever the analysis thread gets its turns.
-/

namespace Tqsim

namespace Sampling

open TraceAnalyzer
open Interleave (Independent choices)
open Sampler (fetchbufferalignpc)

variable {F : Type} {E : Env F} {cfg : SampleConfig} {s t u : Sampler F} {an : State F}
variable {perf : Perfmodel F}

/-- What the analysis thread works on. -/
structure Work (F : Type) where
  analyzer : State F
  traceBuffer : InstQueue Inst
  thread : Thread
  argCycle : ℕ
  argBpredPenalty : ℤ

namespace Sampler

def work (s : Sampler F) : Work F :=
  ⟨s.analyzer, s.traceBuffer, s.thread, s.argCycle, s.argBpredPenalty⟩

def setWork (s : Sampler F) (w : Work F) : Sampler F :=
  { s with
    analyzer := w.analyzer
    traceBuffer := w.traceBuffer
    thread := w.thread
    argCycle := w.argCycle
    argBpredPenalty := w.argBpredPenalty }

end Sampler

/-- The analysis thread has something to do. -/
def Thread.Active : Thread → Prop
  | .created | .running _ _ => True
  | .idle | .exited => False

/-! ## The analysis thread -/

/-- **A step of the analysis thread** is one of the variables it works on. -/
theorem threadStep_setWork (hwork : t.work = s.work) (hu : s.threadStep E = some u) :
    u = s.setWork u.work ∧ t.threadStep E = some (t.setWork u.work) ∧ s.thread.Active := by
  simp only [Sampler.work, Work.mk.injEq] at hwork
  obtain ⟨h1, h2, h3, h4, h5⟩ := hwork
  unfold Sampler.threadStep at hu ⊢
  rw [h1, h2, h3]
  cases hth : s.thread with
  | idle | exited => simp [hth] at hu
  | created =>
    simp only [hth, Option.some.injEq] at hu
    subst hu
    exact ⟨rfl, by simp [Sampler.setWork, Sampler.work, h4, h5], trivial⟩
  | running cycles last =>
    simp only [hth] at hu
    obtain ⟨a, ha, hu⟩ := Option.bind_eq_some_iff.1 hu
    simp only [ha, Option.bind_eq_bind, Option.bind_some]
    split at hu
    next hdone =>
      obtain rfl := Option.some.inj hu
      exact ⟨rfl, by simp [Sampler.setWork, Sampler.work, hdone], trivial⟩
    next hdone =>
      obtain rfl := Option.some.inj hu
      exact ⟨rfl, by simp [Sampler.setWork, Sampler.work, hdone, h4, h5], trivial⟩

/-! ## The guest thread -/

/-- Where the analysis thread has something to do, the guest keeps away. -/
structure KeepsAway (s : Sampler F) : Prop where
  isSampled : s.isSampled = false
  numThread : s.numThread ≠ 0
  begun : s.numInsts ≠ 0 ∨ s.loc.begun = true

theorem keepsAway_of_reachable (hs : Reachable E cfg an perf s) (hopen : s.loc.closed = false)
    (hactive : s.thread.Active) : KeepsAway s := by
  rcases (mode_of_reachable hs hopen).1 with h | h | h
  · simp [h.thread, Thread.Active] at hactive
  · simp [h.thread, Thread.Active] at hactive
  · exact ⟨h.isSampled, by simp [h.numThread], h.begun⟩

theorem Thread.Active.ne_idle {th : Thread} (h : th.Active) : th ≠ .idle := by
  rintro rfl
  exact h

theorem Thread.Active.ne_exited {th : Thread} (h : th.Active) : th ≠ .exited := by
  rintro rfl
  exact h

/-- The guest waits for a thread that has something to do. -/
theorem threadEnd_eq_none (hactive : s.thread.Active) (hnum : s.numThread ≠ 0) :
    s.threadEnd = none := by
  simp only [Sampler.threadEnd, if_pos hnum, if_neg hactive.ne_exited]

/-- **A step of the guest that keeps away** from what the analysis thread works
on: it leaves that alone, and does the same whatever it is. -/
def Frames (f : Sampler F → Option (Sampler F)) (s : Sampler F) : Prop :=
  ∀ t, f s = some t → t.work = s.work ∧ ∀ w, f (s.setWork w) = some (t.setWork w)

theorem frames_some {f : Sampler F → Sampler F} (hwork : (f s).work = s.work)
    (hset : ∀ w, f (s.setWork w) = (f s).setWork w) : Frames (fun s => some (f s)) s := by
  intro t ht
  obtain rfl := Option.some.inj ht
  exact ⟨hwork, fun w => congrArg some (hset w)⟩

theorem frames_none {f : Sampler F → Option (Sampler F)} (h : f s = none) : Frames f s := by
  intro t ht
  rw [h] at ht
  cases ht

/-- Without a sample, the branch before is only forgotten. -/
theorem resolveBranch_eq (hno : s.isSampled = false) (i : InstIncrement) :
    s.resolveBranch i = some { s with isBranch := false, loc := .fetch i } := by
  unfold Sampler.resolveBranch
  split
  next => simp [hno]
  next hb =>
    obtain ⟨⟩ := s
    simp_all

theorem resolveBranch_frames (hno : s.isSampled = false) (i : InstIncrement) :
    Frames (fun s => s.resolveBranch i) s := by
  intro t ht
  obtain rfl := Option.some.inj ((resolveBranch_eq hno i).symm.trans ht)
  exact ⟨rfl, fun w => resolveBranch_eq (s := s.setWork w) hno i⟩

/-- The fetch, of whatever line. -/
theorem fetchLine_eq (s : Sampler F) (i : InstIncrement) :
    s.fetchLine i = { s with
      curPC := i.pc
      previousPc := fetchbufferalignpc i.pc
      loc := .first i (if s.previousPc ≠ fetchbufferalignpc i.pc then i.cachesimIaccess i.pc
        else .l1Hit) } := by
  unfold Sampler.fetchLine
  split
  next => rfl
  next hline => rw [← not_not.1 hline]

theorem fetchLine_frames (s : Sampler F) (i : InstIncrement) :
    Frames (fun s => some (s.fetchLine i)) s :=
  frames_some (by rw [fetchLine_eq]; rfl) fun w => by rw [fetchLine_eq, fetchLine_eq]; rfl

theorem firstInst_frames (E : Env F) (hn : s.numInsts ≠ 0) (i : InstIncrement) (m : CacheMissType) :
    Frames (fun s => some (s.firstInst E i m)) s := by
  intro t ht
  obtain rfl := (if_neg hn).symm.trans (Option.some.inj ht)
  exact ⟨rfl, fun w => congrArg some (if_neg hn)⟩

theorem finishSample_frames (cfg : SampleConfig) (hactive : s.thread.Active) (i : InstIncrement)
    (m : CacheMissType) : Frames (fun s => s.finishSample cfg i m) s := by
  by_cases hL : s.numSampledInst = cfg.length
  · refine frames_none ?_
    simp only [Sampler.finishSample, if_pos hL, Sampler.threadStart, if_neg hactive.ne_idle]
    rfl
  · intro t ht
    simp only [Sampler.finishSample, if_neg hL] at ht
    obtain rfl := Option.some.inj ht
    exact ⟨rfl, fun w => if_neg hL⟩

theorem startPeriod_frames (E : Env F) (cfg : SampleConfig) (hactive : s.thread.Active)
    (hnum : s.numThread ≠ 0) (i : InstIncrement) (m : CacheMissType) :
    Frames (fun s => s.startPeriod E cfg i m) s := by
  by_cases hP : s.numInsts ≠ 0 ∧ s.numInsts % cfg.defaultPeriod = 0
  · refine frames_none ?_
    simp only [Sampler.startPeriod, if_pos hP, threadEnd_eq_none hactive hnum]
    rfl
  · intro t ht
    simp only [Sampler.startPeriod, if_neg hP] at ht
    obtain rfl := Option.some.inj ht
    exact ⟨rfl, fun w => if_neg hP⟩

theorem recordInst_frames (hno : s.isSampled = false) (i : InstIncrement) (m : CacheMissType) :
    Frames (fun s => some (s.recordInst i m)) s := by
  have hsam : ¬ s.isSampled = true := by simp [hno]
  intro t ht
  obtain rfl := (if_neg hsam).symm.trans (Option.some.inj ht)
  exact ⟨rfl, fun w => congrArg some (if_neg hsam)⟩

theorem wrapupStart_frames (hno : s.isSampled = false) (c : Counters) :
    Frames (fun s => s.wrapupStart c) s := by
  have hsam : ¬ s.isSampled = true := by simp [hno]
  intro t ht
  simp only [Sampler.wrapupStart, if_neg hsam] at ht
  obtain rfl := Option.some.inj ht
  exact ⟨rfl, fun w => if_neg hsam⟩

/-- **A statement of the guest** while the analysis thread has something to
do. -/
theorem block_frames (hk : s.loc.closed = false → KeepsAway s) (hactive : s.thread.Active)
    (hclosing : s.loc = .wrapupEnd → s.numThread ≠ 0) : Frames (fun s => s.block E cfg) s := by
  -- the statement is the same one whatever the thread works on
  have hframes : ∀ f : Sampler F → Option (Sampler F), (∀ t : Sampler F, t.loc = s.loc →
      t.block E cfg = f t) → Frames f s → Frames (fun s => s.block E cfg) s := by
    intro f hf hframe t ht
    obtain ⟨hwork, hset⟩ := hframe t (hf s rfl ▸ ht)
    exact ⟨hwork, fun w => (hf (s.setWork w) rfl).trans (hset w)⟩
  cases hloc : s.loc with
  | ready | exited => exact frames_none (by simp [Sampler.block, hloc])
  | resolve i =>
    refine hframes _ (fun t ht => ?_) (resolveBranch_frames (hk (by rw [hloc]; rfl)).isSampled i)
    simp only [Sampler.block, ht, hloc]
  | fetch i =>
    refine hframes _ (fun t ht => ?_) (fetchLine_frames s i)
    simp only [Sampler.block, ht, hloc]
  | first i m =>
    have hn : s.numInsts ≠ 0 :=
      (hk (by rw [hloc]; rfl)).begun.resolve_right (by simp [hloc, Loc.begun])
    refine hframes _ (fun t ht => ?_) (firstInst_frames E hn i m)
    simp only [Sampler.block, ht, hloc]
  | finish i m =>
    refine hframes _ (fun t ht => ?_) (finishSample_frames cfg hactive i m)
    simp only [Sampler.block, ht, hloc]
  | period i m =>
    refine hframes _ (fun t ht => ?_)
      (startPeriod_frames E cfg hactive (hk (by rw [hloc]; rfl)).numThread i m)
    simp only [Sampler.block, ht, hloc]
  | record i m =>
    refine hframes _ (fun t ht => ?_) (recordInst_frames (hk (by rw [hloc]; rfl)).isSampled i m)
    simp only [Sampler.block, ht, hloc]
  | wrapup c =>
    refine hframes _ (fun t ht => ?_) (wrapupStart_frames (hk (by rw [hloc]; rfl)).isSampled c)
    simp only [Sampler.block, ht, hloc]
  | wrapupEnd =>
    refine frames_none ?_
    simp only [Sampler.block, hloc, Sampler.finishWrapup,
      threadEnd_eq_none hactive (hclosing hloc)]
    rfl

/-- **A helper call** while the analysis thread has something to do. -/
theorem call_frames (hno : s.isSampled = false) (c : Call) : Frames (fun s => s.call c) s := by
  intro t ht
  cases c with
  | instIncrement i | setBranchInst isCond =>
    obtain rfl := Option.some.inj ht
    exact ⟨rfl, fun w => rfl⟩
  | dcacheAccess addr isWrite d =>
    have hsam : ¬ s.isSampled = true := by simp [hno]
    simp only [Sampler.call, if_neg hsam] at ht
    obtain rfl := Option.some.inj ht
    exact ⟨rfl, fun w => if_neg hsam⟩

/-! ## Both -/

/-- A move of the analysis thread. -/
def Move.isAnalysis : Move → Bool
  | .analysis => true
  | _ => false

/-- On the way out the guest waits for the thread it has started there. -/
theorem wrapupStart_thread {c : Counters} (ht : s.wrapupStart c = some t)
    (hloc : t.loc = .wrapupEnd) : t.numThread ≠ 0 ∧ t.thread ≠ .idle := by
  unfold Sampler.wrapupStart at ht
  split at ht
  · obtain ⟨r, hr, ht⟩ := Option.bind_eq_some_iff.1 ht
    obtain ⟨-, rfl⟩ := threadStart_eq_some hr
    obtain rfl := Option.some.inj ht
    exact ⟨Nat.succ_ne_zero _, by simp⟩
  · obtain rfl := Option.some.inj ht
    cases hloc

theorem thread_of_wrapupEnd (hs : Reachable E cfg an perf s) :
    s.loc = .wrapupEnd → s.numThread ≠ 0 ∧ s.thread ≠ .idle := by
  obtain ⟨moves, hmoves⟩ := hs
  refine Run.play_invariant
    (P := fun s => s.loc = .wrapupEnd → s.numThread ≠ 0 ∧ s.thread ≠ .idle) ?_ ?_ hmoves
  · intro t m u ht hu hloc
    cases m with
    | call c =>
      simp only [Sampler.move] at hu
      split at hu
      next hready => exact absurd hloc (call_log cfg hready hu).1
      next => cases hu
    | exit c =>
      simp only [Sampler.move] at hu
      split at hu
      next =>
        obtain rfl := Option.some.inj hu
        cases hloc
      next => cases hu
    | guest =>
      obtain ⟨c, -, hstart⟩ := wrapupStart_of_block hu hloc
      exact wrapupStart_thread hstart hloc
    | analysis =>
      obtain ⟨hguest, -, hne⟩ := threadStep_guest hu
      simp only [Sampler.guest, Prod.mk.injEq] at hguest
      obtain ⟨h1, -, -, -, h5, -⟩ := hguest
      exact ⟨h5 ▸ (ht (h1 ▸ hloc)).1, hne⟩
  · intro hloc
    cases hloc

/-- **Every move of the guest**, in a reachable state in which the analysis
thread has something to do. -/
theorem move_frames (hs : Reachable E cfg an perf s) (hactive : s.thread.Active) {m : Move}
    (hm : m.isAnalysis = false) : Frames (fun s => s.move E cfg m) s := by
  cases m with
  | analysis => cases hm
  | guest =>
    exact block_frames (fun hopen => keepsAway_of_reachable hs hopen hactive) hactive
      (fun hloc => (thread_of_wrapupEnd hs hloc).1)
  | call c =>
    intro t ht
    simp only [Sampler.move] at ht
    split at ht
    next hloc =>
      have hk := keepsAway_of_reachable hs (by rw [hloc]; rfl) hactive
      obtain ⟨hwork, hset⟩ := call_frames hk.isSampled c t ht
      refine ⟨hwork, fun w => ?_⟩
      have hready : (s.setWork w).loc = .ready := hloc
      simp only [Sampler.move, hready]
      exact hset w
    next => cases ht
  | exit c =>
    intro t ht
    simp only [Sampler.move] at ht
    split at ht
    next hloc =>
      obtain rfl := Option.some.inj ht
      refine ⟨rfl, fun w => ?_⟩
      have hready : (s.setWork w).loc = .ready := hloc
      simp only [Sampler.move, hready]
      rfl
    next => cases ht

/-- **The two threads do not disturb each other.** -/
theorem independent (E : Env F) (cfg : SampleConfig) (an : State F) (perf : Perfmodel F) :
    Independent (Sampler.move E cfg) Move.isAnalysis (Sampler.threadStep E)
      (Reachable E cfg an perf) where
  move_work s m hm := by
    cases m with
    | analysis => rfl
    | call c | exit c | guest => cases hm
  closed s m t hs ht := hs.move ht
  commute s m t u hs hm ht hu := by
    obtain ⟨hsame, -, hactive⟩ := threadStep_setWork rfl hu
    obtain ⟨hwork, hset⟩ := move_frames hs hactive hm t ht
    refine ⟨t.setWork u.work, (threadStep_setWork hwork hu).2.1, ?_⟩
    rw [hsame]
    exact hset u.work

end Sampling

end Tqsim
