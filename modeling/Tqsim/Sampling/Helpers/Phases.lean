import Tqsim.Sampling.Executed

/-!
# The phases of sampling

Up to the first instruction nothing happens. From then on each period has
two phases: its first instructions are recorded, and then an analysis of
them is under way until the period is over. `Control` says what the guest's
variables and the log are in each phase, and `Allows` how far the guest may
have come in a phase at each of its statements. When a period is no longer
than its sample, the second phase begins and ends within one call.
-/

namespace Tqsim

namespace Sampling

open TraceAnalyzer

variable {F : Type} {E : Env F} {cfg : SampleConfig} {s s' : Sampler F}

/-! ## The thread -/

/-- **A thread is created** where there is none. -/
theorem threadStart_eq_some (h : s.threadStart = some s') :
    s.thread = .idle ∧ s' = { s with
      numThread := s.numThread + 1
      thread := .created
      log := s.log ++ [.start s.traceBuffer] } := by
  unfold Sampler.threadStart at h
  split at h
  next hidle => exact ⟨hidle, (Option.some.inj h).symm⟩
  next => cases h

/-- **A thread is waited for** until it has exited; with none there is nothing
to wait for. -/
theorem threadEnd_eq_some {cycle : ℕ} {penalty : ℤ} (h : s.threadEnd = some (cycle, penalty, s')) :
    (s.numThread ≠ 0 ∧ s.thread = .exited ∧ cycle = s.argCycle ∧ penalty = s.argBpredPenalty ∧
      s' = { s with
        numThread := s.numThread - 1
        thread := .idle
        log := s.log ++ [.join] }) ∨
    (s.numThread = 0 ∧ cycle = 0 ∧ penalty = 0 ∧ s' = s) := by
  unfold Sampler.threadEnd at h
  split at h
  next hnum =>
    split at h
    next hexit =>
      simp only [Option.some.injEq, Prod.mk.injEq] at h
      obtain ⟨rfl, rfl, rfl⟩ := h
      exact .inl ⟨hnum, hexit, rfl, rfl, rfl⟩
    next => cases h
  next hnum =>
    simp only [Option.some.injEq, Prod.mk.injEq] at h
    obtain ⟨rfl, rfl, rfl⟩ := h
    exact .inr ⟨not_not.1 hnum, rfl, rfl, rfl⟩

/-! ## The log -/

/-- The traces handed to an analysis. -/
def starts (log : List Event) : List (InstQueue Inst) :=
  log.filterMap fun
    | .start q => some q
    | _ => none

/-- The number of analyses waited for. -/
def joins (log : List Event) : ℕ :=
  log.countP fun
    | .join => true
    | _ => false

/-- The updates of the model. -/
def updates (log : List Event) : List Update :=
  log.filterMap fun
    | .update u => some u
    | _ => none

/-- **No push while an analysis is under way**: at each push, every analysis
started was waited for. -/
def Exclusive (log : List Event) : Prop :=
  ∀ before after, log = before ++ .push :: after → (starts before).length = joins before

theorem Exclusive.concat {log : List Event} {e : Event} (h : Exclusive log)
    (he : e = .push → (starts log).length = joins log) : Exclusive (log ++ [e]) := by
  intro before after heq
  rcases List.eq_nil_or_concat after with rfl | ⟨init, last, rfl⟩
  · obtain ⟨rfl, hlast⟩ := List.append_inj' heq rfl
    exact he (List.singleton_inj.1 hlast)
  · refine h before init ?_
    rw [List.concat_eq_append, ← List.cons_append, ← List.append_assoc] at heq
    exact (List.append_inj' heq rfl).1

/-- How often each kind of event is in the log. -/
structure Counts (log : List Event) (started joined : ℕ) : Prop where
  exclusive : Exclusive log
  starts : (starts log).length = started
  joins : joins log = joined
  updates : (updates log).length = joined

theorem Counts.push {log : List Event} {k : ℕ} (h : Counts log k k) :
    Counts (log ++ [.push]) k k where
  exclusive := h.exclusive.concat fun _ => h.starts.trans h.joins.symm
  starts := by simp [Sampling.starts, ← h.starts]
  joins := by simp [Sampling.joins, ← h.joins]
  updates := by simp [Sampling.updates, ← h.updates]

theorem Counts.start {log : List Event} {k : ℕ} (h : Counts log k k) (q : InstQueue Inst) :
    Counts (log ++ [.start q]) (k + 1) k where
  exclusive := h.exclusive.concat (e := .start q) nofun
  starts := by simp [Sampling.starts, ← h.starts]
  joins := by simp [Sampling.joins, ← h.joins]
  updates := by simp [Sampling.updates, ← h.updates]

theorem Counts.join {log : List Event} {k : ℕ} (h : Counts log (k + 1) k) (u : Update) :
    Counts (log ++ [.join] ++ [.update u]) (k + 1) (k + 1) where
  exclusive := (h.exclusive.concat (e := .join) nofun).concat (e := .update u) nofun
  starts := by simp [Sampling.starts, ← h.starts]
  joins := by simp [Sampling.joins, ← h.joins]
  updates := by simp [Sampling.updates, ← h.updates]

/-! ## The phases -/

/-- The phases. -/
inductive Phase where
  /-- No instruction yet. -/
  | before
  /-- In period `k`, with `j` instructions recorded. -/
  | recording (k j : ℕ)
  /-- In period `k`, after its sample. -/
  | analyzing (k : ℕ)

namespace Phase

/-- Whether the phase records. -/
def isSampled : Phase → Bool
  | before | analyzing _ => false
  | recording _ _ => true

/-- The instructions recorded. -/
def numSampledInst : Phase → ℕ
  | before | analyzing _ => 0
  | recording _ j => j

/-- The analyses under way. -/
def numThread : Phase → ℕ
  | before | recording _ _ => 0
  | analyzing _ => 1

/-- The analyses started. -/
def started : Phase → ℕ
  | before => 0
  | recording k _ => k
  | analyzing k => k + 1

/-- The analyses waited for. -/
def joined : Phase → ℕ
  | before => 0
  | recording k _ => k
  | analyzing k => k

end Phase

/-- What the variables of the guest are in a phase. -/
structure Control (ph : Phase) (s : Sampler F) : Prop where
  isSampled : s.isSampled = ph.isSampled
  numSampledInst : s.numSampledInst = ph.numSampledInst
  numThread : s.numThread = ph.numThread
  thread : s.thread = .idle ↔ ph.numThread = 0
  counts : Counts s.log ph.started ph.joined

/-- Between two calls, and in a call until the phase may change. -/
def Resting (cfg : SampleConfig) : Phase → ℕ → Prop
  | .before, n => n = 0
  | .recording k j, n => n = k * cfg.defaultPeriod + j ∧ 1 ≤ j ∧ j ≤ cfg.length
  | .analyzing k, n => k * cfg.defaultPeriod + cfg.length < n ∧ n ≤ (k + 1) * cfg.defaultPeriod

/-- In which phases, and how far in them, the guest is at a statement. -/
def Loc.Allows (cfg : SampleConfig) : Loc → Phase → ℕ → Prop
  | .finish _ _, .recording k j, n =>
    n = k * cfg.defaultPeriod + j ∧ j ≤ cfg.length ∧ (j = 0 → n = 0)
  | .finish _ _, .analyzing k, n =>
    k * cfg.defaultPeriod + cfg.length < n ∧ n ≤ (k + 1) * cfg.defaultPeriod
  | .period _ _, .recording k j, n =>
    n = k * cfg.defaultPeriod + j ∧ j < cfg.length ∧ (j = 0 → n = 0)
  | .period _ _, .analyzing k, n =>
    k * cfg.defaultPeriod + cfg.length ≤ n ∧ n ≤ (k + 1) * cfg.defaultPeriod
  | .record _ _, .recording k j, n => n = k * cfg.defaultPeriod + j ∧ j < cfg.length
  | .record _ _, .analyzing k, n =>
    k * cfg.defaultPeriod + cfg.length ≤ n ∧ n < (k + 1) * cfg.defaultPeriod
  | .finish _ _, .before, _ | .period _ _, .before, _ | .record _ _, .before, _ => False
  | .wrapupEnd, _, _ | .exited, _, _ => False
  | .ready, ph, n | .resolve _, ph, n | .fetch _, ph, n | .first _ _, ph, n | .wrapup _, ph, n =>
    Resting cfg ph n

/-- Only the variables that `Control` names matter. -/
theorem Control.congr {ph : Phase} (h : Control ph s) (h1 : s'.isSampled = s.isSampled)
    (h2 : s'.numSampledInst = s.numSampledInst) (h3 : s'.numThread = s.numThread)
    (h4 : s'.thread = .idle ↔ s.thread = .idle) (h5 : s'.log = s.log) : Control ph s' where
  isSampled := h1.trans h.isSampled
  numSampledInst := h2.trans h.numSampledInst
  numThread := h3.trans h.numThread
  thread := h4.trans h.thread
  counts := h5 ▸ h.counts

/-- A push happens while recording only. -/
theorem Control.pushed {k j : ℕ} (h : Control (.recording k j) s) (q : InstQueue Inst) :
    Control (.recording k j) (s.pushed q) where
  isSampled := h.isSampled
  numSampledInst := h.numSampledInst
  numThread := h.numThread
  thread := h.thread
  counts := h.counts.push

theorem Control.eq_recording {ph : Phase} (h : Control ph s) (hs : s.isSampled = true) :
    ∃ k j, ph = .recording k j := by
  have hph := h.isSampled.symm.trans hs
  cases ph with
  | before => cases hph
  | recording k j => exact ⟨k, j, rfl⟩
  | analyzing k => cases hph

end Sampling

end Tqsim
