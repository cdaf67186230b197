import Tqsim.Sampling.Helpers.Phases
import Tqsim.TraceAnalyzer.Analysis

/-!
# What the trace buffer holds

While a sample is recorded, the buffer holds the records of the instructions
executed so far in this period. While it is analyzed, the buffer and the
state of the analyzer belong to the analysis thread, whose steps are those
of one call of `trace_analysis` on that sample. `Analyzed` strings these
calls together: each begins in the state the one before it left.
-/

namespace Tqsim

namespace Sampling

open TraceAnalyzer
open Sampler (fetchbufferalignpc)

variable {F : Type} {E : Env F} {cfg : SampleConfig} {s s' : Sampler F} {an A : State F}
variable {ex : List Executed}

/-! ## The record of an instruction -/

namespace Executed

variable {e : Executed}

theorem inst_access (e : Executed) (addr : UInt32) (isWrite : Bool)
    (cachesimDaccess : UInt32 → Bool → CacheMissType) (seq : ℕ) :
    ({ e with body := e.body ++ [.dcacheAccess addr isWrite cachesimDaccess] } : Executed).inst seq =
      setInstEffAddr (e.inst seq) addr (cachesimDaccess addr isWrite) := by
  simp [inst, accesses, worstMiss, fetchMiss, branch, mispredicted, setInstEffAddr]

/-- A branch that is not resolved yet leaves no trace. -/
theorem inst_branch (hnext : e.next = none) (isCond : UInt32) (seq : ℕ) :
    ({ e with body := e.body ++ [.setBranchInst isCond] } : Executed).inst seq = e.inst seq := by
  simp [inst, accesses, worstMiss, fetchMiss, mispredicted, hnext]

theorem inst_resolved (hnext : e.next = none) {isBranch : Bool} {isCond : UInt32}
    (hbranch : e.branch = if isBranch then some isCond else none) (i : InstIncrement) (seq : ℕ) :
    ({ e with next := some i } : Executed).inst seq =
      if isBranch ∧ isCond ≠ 0 then
        setInstBpredMispred (e.inst seq) !i.bpredsimAccess e.inc.pc i.pc isCond
      else e.inst seq := by
  have hb : ({ e with next := some i } : Executed).branch = e.branch := rfl
  cases isBranch with
  | false => simp [inst, accesses, worstMiss, fetchMiss, mispredicted, hb, hbranch]
  | true =>
    by_cases hc : isCond = 0
    · simp [inst, accesses, worstMiss, fetchMiss, mispredicted, hb, hbranch, hnext, hc]
    · simp [inst, accesses, worstMiss, fetchMiss, mispredicted, hb, hbranch, hc,
        setInstBpredMispred]

end Executed

/-- The records of the instructions from the start of period `k` on. -/
def recorded (cfg : SampleConfig) (ex : List Executed) (k : ℕ) : InstQueue Inst where
  elems := (ex.drop (k * cfg.defaultPeriod)).mapIdx fun seq e => e.inst seq
  capacity := traceBufferCapacity

theorem recorded_concat {k : ℕ} (h : k * cfg.defaultPeriod ≤ ex.length) (e : Executed) :
    (recorded cfg (ex ++ [e]) k).elems =
      (recorded cfg ex k).elems ++ [e.inst (ex.length - k * cfg.defaultPeriod)] := by
  simp [recorded, List.drop_append_of_le_length h, List.mapIdx_concat]

/-- A sample that is complete is what was recorded. -/
theorem sample_eq_recorded {k : ℕ} (h : ex.length = k * cfg.defaultPeriod + cfg.length) :
    sample cfg ex k = recorded cfg ex k := by
  have htake : (ex.drop (k * cfg.defaultPeriod)).length ≤ cfg.length := by
    rw [List.length_drop]
    omega
  simp only [sample, recorded, List.take_of_length_le htake]

/-- A change of the newest record is one of the last instruction. -/
theorem updateNewest_recorded {k : ℕ} (f : Executed → Executed) (g : Inst → Inst)
    (h : k * cfg.defaultPeriod < ex.length)
    (hfg : ∀ e seq, ex.getLast? = some e → (f e).inst seq = g (e.inst seq)) :
    updateNewest (recorded cfg ex k) g = some (recorded cfg (updateLast f ex) k) := by
  rcases List.eq_nil_or_concat ex with rfl | ⟨es, e, rfl⟩
  · simp at h
  · rw [List.concat_eq_append] at h hfg ⊢
    have hle : k * cfg.defaultPeriod ≤ es.length := by simpa using h
    have hlast := hfg e (es.length - k * cfg.defaultPeriod) (by simp)
    have hnew := recorded_concat hle (f e)
    simp only [updateNewest, recorded_concat hle, List.getLast?_concat, Option.map_some,
      List.dropLast_concat, updateLast_concat]
    rw [← hlast, ← hnew]
    rfl

/-! ## The analyses -/

/-- **A chain of analyses**: each trace was analyzed from the state the
analysis before it left, and the model was updated with just what that
analysis returned, at the end of the period and with the length of the
sample. -/
inductive Analyzed (E : Env F) (cfg : SampleConfig) (a₀ : State F) :
    List (InstQueue Inst) → List Update → State F → Prop
  | nil : Analyzed E cfg a₀ [] [] a₀
  | concat {qs : List (InstQueue Inst)} {us : List Update} {A : State F} {u : Update}
      {a : Analysis F} (trace : Trace) (fuel : ℕ) :
      Analyzed E cfg a₀ qs us A →
      traceAnalysis E fuel trace.queue 0 A = some a →
      u.numInsts = (qs.length + 1) * cfg.defaultPeriod →
      u.cycle = a.lastCycle → u.bpredPenalty = a.bpredPenalty →
      u.stat.numInsts = cfg.length →
      Analyzed E cfg a₀ (qs ++ [trace.queue]) (us ++ [u]) a.state

/-- Every analysis begins in a drained state. -/
theorem Analyzed.drained {a₀ : State F} (h₀ : Drained E a₀) {qs : List (InstQueue Inst)}
    {us : List Update} (h : Analyzed E cfg a₀ qs us A) : Drained E A := by
  induction h with
  | nil => exact h₀
  | concat trace fuel _ hret _ _ _ _ ih => exact traceAnalysis_drained ih hret

theorem sample_fits (ex : List Executed) (k : ℕ) (hcap : (cfg.length : ℤ) ≤ traceBufferCapacity) :
    (sample cfg ex k).Fits := by
  refine .inr (le_trans ?_ hcap)
  simp only [sample, InstQueue.size, List.length_mapIdx, List.length_take]
  omega

theorem sample_recorded (ex : List Executed) (k : ℕ) :
    ∀ inst ∈ (sample cfg ex k).elems, inst.Recorded := by
  intro inst h
  obtain ⟨seq, _, rfl⟩ := List.mem_mapIdx.1 h
  exact Executed.inst_recorded _ seq

/-- A sample, as the trace of an analysis. -/
def sampleTrace (cfg : SampleConfig) (ex : List Executed) (k : ℕ)
    (hcap : (cfg.length : ℤ) ≤ traceBufferCapacity) : Trace where
  queue := sample cfg ex k
  fits := sample_fits ex k hcap
  recorded := sample_recorded ex k

/-- How far the thread is in the analysis of a trace from a state. -/
def ThreadAt (E : Env F) (q : InstQueue Inst) (A : State F) (s : Sampler F) : Prop :=
  match s.thread with
  | .idle => False
  | .created => s.traceBuffer = q ∧ s.analyzer = A
  | .running cycles last => s.traceBuffer = s.analyzer.pipe.traceBuffer ∧
      -- what the rest of the loop returns is what the call returns
      ∀ fuel a, analysisLoop E 0 fuel cycles last s.analyzer = some a →
        traceAnalysis E (fuel + cycles) q 0 A = some a
  | .exited => ∃ fuel a, traceAnalysis E fuel q 0 A = some a ∧ s.argCycle = a.lastCycle ∧
      s.argBpredPenalty = a.bpredPenalty ∧ s.analyzer = a.state ∧
      s.traceBuffer = a.state.pipe.traceBuffer

/-- **A step of the analysis thread is one of the call.** -/
theorem ThreadAt.step {q : InstQueue Inst} (h : ThreadAt E q A s) (hs' : s.threadStep E = some s') :
    ThreadAt E q A s' := by
  unfold Sampler.threadStep at hs'
  unfold ThreadAt at h
  split at hs'
  next => cases hs'
  next => cases hs'
  next hth =>
    obtain rfl := Option.some.inj hs'
    rw [hth] at h
    obtain ⟨rfl, rfl⟩ := h
    exact ⟨rfl, fun fuel a hret => hret⟩
  next cycles last hth =>
    rw [hth] at h
    obtain ⟨hbuf, hloop⟩ := h
    obtain ⟨a, ha, hs'⟩ := Option.bind_eq_some_iff.1 hs'
    -- the buffer the thread works on is the shared one
    have hload : { s.analyzer with pipe := { s.analyzer.pipe with traceBuffer := s.traceBuffer } } =
        s.analyzer := by
      rw [hbuf]
    rw [hload] at ha
    have hturn := fun fuel => analysisLoop_succ ha fuel cycles last
    simp only at hs'
    split at hs'
    next hdone =>
      obtain rfl := Option.some.inj hs'
      exact ⟨_, _, hloop 1 _ ((hturn 0).trans (if_pos hdone)), rfl, rfl, rfl, rfl⟩
    next hdone =>
      obtain rfl := Option.some.inj hs'
      refine ⟨rfl, fun fuel b hb => ?_⟩
      rw [show fuel + (cycles + 1) = (fuel + 1) + cycles by omega]
      exact hloop (fuel + 1) b ((hturn fuel).trans ((if_neg hdone).trans hb))

/-! ## The contents in each phase -/

/-- What the log holds: the samples handed over, and the chain of the
analyses that were waited for. -/
structure Ledger (E : Env F) (cfg : SampleConfig) (an : State F) (ex : List Executed)
    (started joined : ℕ) (A : State F) (log : List Event) : Prop where
  starts : starts log = (List.range started).map (sample cfg ex)
  analyzed : Analyzed E cfg (initTraceAnalyzer E an) ((List.range joined).map (sample cfg ex))
    (updates log) A

/-- **The contents.** -/
def Contents (E : Env F) (cfg : SampleConfig) (an : State F) (ex : List Executed) :
    Phase → Sampler F → Prop
  | .before, s => s.analyzer = an
  | .recording k _, s => s.traceBuffer = recorded cfg ex k ∧
      s.sampleStat.numInsts = toInt32 ((k * cfg.defaultPeriod : ℕ) : ℤ) ∧
      Ledger E cfg an ex k k s.analyzer s.log
  | .analyzing k, s => s.sampleStat.numInsts = cfg.length ∧
      ∃ A, Ledger E cfg an ex (k + 1) k A s.log ∧ ThreadAt E (sample cfg ex k) A s

/-- The samples of the log stay the same when the instructions executed since
change. -/
theorem Ledger.congr {ex' : List Executed} {started joined : ℕ} {log log' : List Event}
    (h : Ledger E cfg an ex started joined A log) (hle : joined ≤ started)
    (hsample : ∀ k < started, sample cfg ex' k = sample cfg ex k)
    (hstarts : Sampling.starts log' = Sampling.starts log) (hupd : updates log' = updates log) :
    Ledger E cfg an ex' started joined A log' where
  starts := by
    rw [hstarts, h.starts]
    exact List.map_congr_left fun k hk => (hsample k (List.mem_range.1 hk)).symm
  analyzed := by
    have heq : (List.range joined).map (sample cfg ex') = (List.range joined).map (sample cfg ex) :=
      List.map_congr_left fun k hk => hsample k (lt_of_lt_of_le (List.mem_range.1 hk) hle)
    rw [hupd, heq]
    exact h.analyzed

end Sampling

end Tqsim
