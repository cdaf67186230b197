import Tqsim.Sampling.Model.Sampler
import Tqsim.TraceAnalyzer.Model.Trace

/-!
# What the guest executed

The abstract side of sampling: the instructions of a guest run with what
each of them did, read off the sequence of helper calls alone. An
instruction is executed by its call of `inst_increment`; the helper calls up
to the next one are its own, and that next one decides about its branch.
`Executed.inst` is the record that a sample should hold of it, and `sample`
the trace that an analysis should be given.
-/

namespace Tqsim

namespace Sampling

open TraceAnalyzer
open Sampler (fetchbufferalignpc)

/-- An executed instruction. -/
structure Executed where
  /-- Its call of `inst_increment`. -/
  inc : InstIncrement
  /-- The fetch line of the instruction before it, zero if there is none. -/
  line : UInt32
  /-- The helper calls after it. -/
  body : List Call
  /-- The call of `inst_increment` after these. -/
  next : Option InstIncrement

namespace Executed

/-- The data accesses of the instruction, with the level that served each. -/
def accesses (e : Executed) : List (UInt32 × CacheMissType) :=
  e.body.filterMap fun
    | .dcacheAccess addr isWrite cachesimDaccess => some (addr, cachesimDaccess addr isWrite)
    | _ => none

/-- The worst level that served an access. -/
def worstMiss (e : Executed) : CacheMissType :=
  e.accesses.foldl (fun worst a => if worst.toNat < a.2.toNat then a.2 else worst) .l1Hit

/-- For a branch, whether it is conditional: what was said last counts. -/
def branch (e : Executed) : Option UInt32 :=
  (e.body.filterMap fun
    | .setBranchInst isCond => some isCond
    | _ => none).getLast?

/-- The instruction is a conditional branch that was mispredicted: the
predictor, asked about this branch and the instruction that followed it,
was wrong. -/
def mispredicted (e : Executed) : Bool :=
  match e.branch, e.next with
  | some isCond, some next =>
    decide (isCond ≠ 0) && !next.bpredsimAccess e.inc.pc next.pc isCond
  | _, _ => false

/-- What the instruction fetch cost: an access of the cache for a new line. -/
def fetchMiss (e : Executed) : CacheMissType :=
  if e.line ≠ fetchbufferalignpc e.inc.pc then e.inc.cachesimIaccess e.inc.pc else .l1Hit

/-- **The record of the instruction** in a sample. -/
def inst (e : Executed) (seq : ℕ) : Inst :=
  { initInst (UInt32.ofNat seq) e.inc.pc (e.inc.getInstByte e.inc.pc e.inc.flag) with
    instCacheMiss := e.fetchMiss
    effAddr := e.accesses.map Prod.fst
    cacheMiss := e.worstMiss
    bpredMispred := e.mispredicted }

theorem inst_recorded (e : Executed) (seq : ℕ) : (e.inst seq).Recorded := ⟨_, _, _, rfl⟩

end Executed

/-- The last instruction is changed. -/
def updateLast (f : Executed → Executed) : List Executed → List Executed
  | [] => []
  | [e] => [f e]
  | e :: e' :: es => e :: updateLast f (e' :: es)

/-- The fetch line of the last instruction. -/
def lastLine (ex : List Executed) : UInt32 :=
  (ex.getLast?.map fun e => fetchbufferalignpc e.inc.pc).getD 0

/-- The next instruction decides about the branch of the last one. -/
def resolved (i : InstIncrement) : List Executed → List Executed :=
  updateLast fun e => { e with next := some i }

/-- What a helper call adds to the instructions executed. -/
def observe (ex : List Executed) (c : Call) : List Executed :=
  match c with
  | .instIncrement i => resolved i ex ++ [⟨i, lastLine ex, [], none⟩]
  | c => updateLast (fun e => { e with body := e.body ++ [c] }) ex

/-- **The instructions of a guest run.** -/
def executed (history : List Call) : List Executed := history.foldl observe []

/-- **The sample of a period**: its first instructions. -/
def sample (cfg : SampleConfig) (ex : List Executed) (k : ℕ) : InstQueue Inst where
  elems := ((ex.drop (k * cfg.defaultPeriod)).take cfg.length).mapIdx fun seq e => e.inst seq
  capacity := traceBufferCapacity

/-! ## The last instruction -/

section Last

variable {f : Executed → Executed} {ex : List Executed} {e : Executed}

@[simp] theorem updateLast_nil (f : Executed → Executed) : updateLast f [] = [] := rfl

@[simp] theorem updateLast_concat (f : Executed → Executed) (ex : List Executed) (e : Executed) :
    updateLast f (ex ++ [e]) = ex ++ [f e] := by
  induction ex with
  | nil => rfl
  | cons a ex ih =>
    cases ex with
    | nil => rfl
    | cons b ex => exact congrArg (a :: ·) ih

@[simp] theorem length_updateLast (f : Executed → Executed) (ex : List Executed) :
    (updateLast f ex).length = ex.length := by
  rcases List.eq_nil_or_concat ex with rfl | ⟨es, e, rfl⟩
  · rfl
  · simp

/-- Samples that end before the last instruction do not see it change. -/
theorem sample_updateLast {cfg : SampleConfig} {k : ℕ}
    (h : k * cfg.defaultPeriod + cfg.length < ex.length) :
    sample cfg (updateLast f ex) k = sample cfg ex k := by
  rcases List.eq_nil_or_concat ex with rfl | ⟨es, e, rfl⟩
  · rfl
  · simp only [List.concat_eq_append, List.length_append, List.length_singleton] at h
    have hdrop : k * cfg.defaultPeriod ≤ es.length := by omega
    have htake : cfg.length ≤ (es.drop (k * cfg.defaultPeriod)).length := by
      rw [List.length_drop]
      omega
    simp only [sample, List.concat_eq_append, updateLast_concat, List.drop_append_of_le_length hdrop,
      List.take_append_of_le_length htake]

/-- Nor do they see instructions that follow. -/
theorem sample_append {cfg : SampleConfig} {k : ℕ} (es : List Executed)
    (h : k * cfg.defaultPeriod + cfg.length ≤ ex.length) :
    sample cfg (ex ++ es) k = sample cfg ex k := by
  have hdrop : k * cfg.defaultPeriod ≤ ex.length := by omega
  have htake : cfg.length ≤ (ex.drop (k * cfg.defaultPeriod)).length := by
    rw [List.length_drop]
    omega
  simp only [sample, List.drop_append_of_le_length hdrop, List.take_append_of_le_length htake]

end Last

theorem executed_concat (history : List Call) (c : Call) :
    executed (history ++ [c]) = observe (executed history) c := by
  simp [executed]

end Sampling

end Tqsim
