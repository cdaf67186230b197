import Tqsim.TraceAnalyzer.Model.Inst

/-!
# Instruction queues and micro-op expansion

An `InstQueue` is the sequence its linked list holds, oldest first, with its
capacity; `0` means unbounded. The trace buffer owns its records and holds
them by value; the queues of the pipeline hold pointers to records that
several of them share.

`convertMicroop` replaces a PUSH or POP at the front of the trace buffer by
its micro-ops. The buffer may be too small for them, and then the ones that
would have come first are lost while the count of fetched instructions still
includes them.
-/

namespace Tqsim

namespace TraceAnalyzer

/-- `InstQueue`. -/
structure InstQueue (α : Type) where
  elems : List α
  capacity : ℤ
  deriving DecidableEq, Repr

namespace InstQueue

variable {α : Type}

/-- `get_current_queue_size`. -/
def size (q : InstQueue α) : ℕ := q.elems.length

/-- The test `capacity == 0 || size < capacity` that guards every push. -/
def HasRoom (q : InstQueue α) : Prop :=
  q.capacity = 0 ∨ (q.size : ℤ) < q.capacity

instance (q : InstQueue α) : Decidable q.HasRoom :=
  inferInstanceAs (Decidable (_ ∨ _))

/-- `is_full_queue`. -/
def isFullQueue (q : InstQueue α) : Bool :=
  if q.capacity = 0 then false else decide (q.capacity ≤ q.size)

/-- `is_empty_queue`. -/
def isEmptyQueue (q : InstQueue α) : Bool := q.size == 0

/-- `front_inst_elem`, the record the element holds. -/
def frontInstElem (q : InstQueue α) : Option α := q.elems.head?

/-- `push_back_inst`: the queue after it, and the element it returns. -/
def pushBackInst (q : InstQueue α) (inst : α) : InstQueue α × Option α :=
  if q.HasRoom then ({ q with elems := q.elems ++ [inst] }, some inst) else (q, none)

/-- `push_front_inst`; a full queue drops the record. -/
def pushFrontInst (q : InstQueue α) (inst : α) : InstQueue α :=
  if q.HasRoom then { q with elems := inst :: q.elems } else q

/-- `pop_front_inst`, the queue after it. -/
def popFrontInst (q : InstQueue α) : InstQueue α :=
  { q with elems := q.elems.tail }

/-- `remove_from_list`. -/
def removeFromList [DecidableEq α] (q : InstQueue α) (elem : α) : InstQueue α :=
  { q with elems := q.elems.erase elem }

/-- `remove_from_list` on an element pointer that may be null, under the test
that its callers make. -/
def removeElem [DecidableEq α] (q : InstQueue α) (elem : Option α) : InstQueue α :=
  match elem with
  | some elem => q.removeFromList elem
  | none => q

end InstQueue

theorem isFullQueue_eq_false_iff {α : Type} (q : InstQueue α) :
    q.isFullQueue = false ↔ q.HasRoom := by
  simp only [InstQueue.isFullQueue, InstQueue.HasRoom]
  split
  · simp [*]
  · simp [*]

/-- The last micro-op of a PUSH or a POP, which updates the stack pointer. -/
def spMicroop (inst : Inst) : Inst :=
  { initInst inst.seq.toUInt32 inst.pc inst.code with
    decoded := true
    type := .intAlu
    dstReg := [13]
    srcReg := [13] }

/-- The micro-op of `convert_push_microop` for the address at index `i`. The
source copies `cache_miss` to the first one under a test that the fresh
record never passes. -/
def pushMicroop (inst : Inst) (i : ℕ) : Inst :=
  let m := { initInst inst.seq.toUInt32 inst.pc inst.code with
    decoded := true
    type := .memWrite
    effAddr := [inst.effAddr.getD i 0]
    srcReg := [inst.srcReg.getD i (-1)] }
  if i = 0 ∧ m.cacheMiss ≠ .l1Hit then { m with cacheMiss := inst.cacheMiss } else m

/-- The micro-op of `convert_pop_microop` for the address at index `i`. -/
def popMicroop (inst : Inst) (i : ℕ) : Inst :=
  let m := { initInst inst.seq.toUInt32 inst.pc inst.code with
    decoded := true
    type := .memRead
    effAddr := [inst.effAddr.getD i 0]
    dstReg := [inst.dstReg.getD i (-1)]
    srcReg := [13] }
  if i = 0 ∧ m.cacheMiss ≠ .l1Hit then { m with cacheMiss := inst.cacheMiss } else m

/-- The loop of both conversions: micro-ops `n - 1` down to `0` are pushed to
the front, and each is counted as fetched whether or not it fits. -/
def microopLoop (microop : ℕ → Inst) : ℕ → InstQueue Inst × ℕ → InstQueue Inst × ℕ
  | 0, acc => acc
  | i + 1, (traceBuffer, numFetched) =>
    microopLoop microop i (traceBuffer.pushFrontInst (microop i), numFetched + 1)

/-- `convert_push_microop`: the buffer and the count of fetched instructions
after it. -/
def convertPushMicroop (traceBuffer : InstQueue Inst) (inst : Inst) (numFetched : ℕ) :
    InstQueue Inst × ℕ :=
  microopLoop (pushMicroop inst) inst.effAddr.length
    (traceBuffer.popFrontInst.pushFrontInst (spMicroop inst), numFetched)

/-- `convert_pop_microop`. -/
def convertPopMicroop (traceBuffer : InstQueue Inst) (inst : Inst) (numFetched : ℕ) :
    InstQueue Inst × ℕ :=
  microopLoop (popMicroop inst) inst.effAddr.length
    (traceBuffer.popFrontInst.pushFrontInst (spMicroop inst), numFetched)

/-- `convert_microop`. -/
def convertMicroop (traceBuffer : InstQueue Inst) (inst : Inst) (numFetched : ℕ) :
    InstQueue Inst × ℕ :=
  match inst.type with
  | .pop => convertPopMicroop traceBuffer inst numFetched
  | .push => convertPushMicroop traceBuffer inst numFetched
  | _ => (traceBuffer, numFetched)

end TraceAnalyzer

end Tqsim
