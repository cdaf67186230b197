import Tqsim.TraceAnalyzer.Model.Queue

/-!
# Traces and their expansion

A `Trace` is what the recorder hands to the analyzer: a buffer that is not
overfull, of records nobody has decoded yet. `expandTrace` is the sequence
of instructions that leaves the front of the buffer when it is decoded,
expanded and emptied one record after the other, and `robTrace` the part of
it that goes through the reorder buffer.
-/

namespace Tqsim

namespace TraceAnalyzer

/-- A record as the recorder leaves it: made by `init_inst`, with only the
miss types, the addresses and the misprediction flag set since. -/
def Inst.Recorded (inst : Inst) : Prop :=
  ∃ seq pc code : UInt32, inst = { initInst seq pc code with
    instCacheMiss := inst.instCacheMiss
    effAddr := inst.effAddr
    cacheMiss := inst.cacheMiss
    bpredMispred := inst.bpredMispred }

/-- A queue holds no more than its capacity. -/
def InstQueue.Fits {α : Type} (q : InstQueue α) : Prop :=
  q.capacity = 0 ∨ (q.size : ℤ) ≤ q.capacity

instance {α : Type} (q : InstQueue α) : Decidable q.Fits :=
  inferInstanceAs (Decidable (_ ∨ _))

/-- The trace buffer as `trace_analysis` is given it. -/
structure Trace where
  queue : InstQueue Inst
  fits : queue.Fits
  recorded : ∀ inst ∈ queue.elems, inst.Recorded

/-- The micro-ops of a decoded record, in the order they are executed in. -/
def microops (inst : Inst) : List Inst :=
  match inst.type with
  | .pop => (List.range inst.effAddr.length).map (popMicroop inst) ++ [spMicroop inst]
  | .push => (List.range inst.effAddr.length).map (pushMicroop inst) ++ [spMicroop inst]
  | _ => [inst]

/-- How many of `n` records do not fit in a buffer of capacity `cap` that
holds `behind` others. -/
def lost (cap : ℤ) (behind n : ℕ) : ℕ :=
  if cap = 0 then 0 else behind + n - cap.toNat

/-- What becomes of a decoded record at the front of the buffer, with
`behind` records after it: its first micro-ops are lost if they do not fit. -/
def expandInst (cap : ℤ) (behind : ℕ) (inst : Inst) : List Inst :=
  (microops inst).drop (lost cap behind (microops inst).length)

/-- The micro-op expansion of a trace. -/
def expandTrace (disasm : UInt32 → Darm) (cap : ℤ) : List Inst → List Inst
  | [] => []
  | inst :: rest =>
    expandInst cap rest.length (decodeInst disasm inst) ++ expandTrace disasm cap rest

/-- No micro-op is lost for want of room in the buffer. -/
def ExpansionFits (disasm : UInt32 → Darm) (cap : ℤ) : List Inst → Prop
  | [] => True
  | inst :: rest =>
    lost cap rest.length (microops (decodeInst disasm inst)).length = 0 ∧
      ExpansionFits disasm cap rest

instance decidableExpansionFits (disasm : UInt32 → Darm) (cap : ℤ) :
    ∀ l : List Inst, Decidable (ExpansionFits disasm cap l)
  | [] => isTrue trivial
  | _ :: rest =>
    have := decidableExpansionFits disasm cap rest
    inferInstanceAs (Decidable (_ ∧ _))

/-- The instructions of a type the pipeline executes. -/
def supported (l : List Inst) : List Inst :=
  l.filter fun inst => inst.type ≠ .unsupported

/-- **The instructions of a trace that go through the reorder buffer.** -/
def robTrace (disasm : UInt32 → Darm) (q : InstQueue Inst) : List Inst :=
  supported (expandTrace disasm q.capacity q.elems)

/-- What of a record stays the same from its dispatch to its commit. -/
def Inst.fixed (inst : Inst) : Inst :=
  { inst with
    state := .ready
    remainingLatency := 0
    srcReg := []
    effAddr := []
    dispatchedCycle := 0
    issuedCycle := 0
    completedCycle := 0
    committedCycle := 0
    iqElem := none
    ldqElem := none
    stqElem := none }

end TraceAnalyzer

end Tqsim
