import Tqsim.Common.Linked
import Tqsim.Common.Run
import Tqsim.TraceAnalyzer.Model.Queue

/-!
# Instruction queues in memory

`inst_queue.c` as it works on memory: a queue is a doubly linked list of
elements, and elements come from a pool, which is a queue itself. The queues
other than the pool have names of any type. Elements are numbered in the
order in which `malloc` returned them, and memory that was freed is not
handed out again under its old number. A function fails when it follows a
null pointer.
-/

namespace Tqsim

namespace TraceAnalyzer

/-- `InstQueue`, as it is in memory. -/
structure InstList where
  oldestInstElem : Option ℕ
  newestInstElem : Option ℕ
  size : ℤ
  capacity : ℤ
  deriving DecidableEq, Repr

namespace InstList

/-- `init_inst_queue`. -/
def initInstQueue (initialCapacity : ℤ) : InstList := ⟨none, none, 0, initialCapacity⟩

/-- The test `capacity == 0 || size < capacity` that guards every push. -/
def HasRoom (q : InstList) : Prop := q.capacity = 0 ∨ q.size < q.capacity

instance decidableHasRoom (q : InstList) : Decidable q.HasRoom :=
  inferInstanceAs (Decidable (_ ∨ _))

/-- `is_full_queue`. -/
def isFullQueue (q : InstList) : Bool :=
  if q.capacity = 0 then false else decide (q.capacity ≤ q.size)

end InstList

/-- `inst_elem_pool_size`. -/
def instElemPoolSize : ℕ := 5000

/-- The elements and the queues; `none` is `inst_elem_pool`. -/
structure InstMem (ι α : Type) where
  inst : ℕ → Option α
  links : Links ℕ
  /-- How many elements `malloc` has returned. -/
  numElems : ℕ
  freed : List ℕ
  queue : Option ι → InstList

namespace InstMem

variable {ι α : Type} [DecidableEq ι]

/-- A queue, stored back. -/
def setQueue (s : InstMem ι α) (a : Option ι) (q : InstList) : InstMem ι α :=
  { s with queue := Function.update s.queue a q }

/-- `malloc(sizeof(InstElem))`. -/
def malloc (s : InstMem ι α) : ℕ × InstMem ι α :=
  (s.numElems, { s with numElems := s.numElems + 1 })

/-- `free`. -/
def free (s : InstMem ι α) (elem : ℕ) : InstMem ι α := { s with freed := elem :: s.freed }

/-- `init_inst_elem`. -/
def initInstElem (s : InstMem ι α) (elem : ℕ) (inst : Option α) : InstMem ι α :=
  { s with
    inst := Function.update s.inst elem inst
    links := (s.links.setNext elem none).setPrev elem none }

/-- `push_back_inst_elem`: what it returns, and the memory after it. -/
def pushBackInstElem (s : InstMem ι α) (a : Option ι) (elem : ℕ) :
    Option (Option ℕ × InstMem ι α) :=
  let q := s.queue a
  if q.HasRoom then
    let links := (s.links.setNext elem none).setPrev elem q.newestInstElem
    if 0 < q.size then
      q.newestInstElem.map fun newest =>
        (some elem, { s with links := links.setNext newest (some elem) }.setQueue a
          { q with newestInstElem := some elem, size := q.size + 1 })
    else
      some (some elem, { s with links := links }.setQueue a
        { q with oldestInstElem := some elem, newestInstElem := some elem, size := q.size + 1 })
  else some (none, s)

/-- What `remove_from_list` writes before it disposes of the element. -/
def unlink (s : InstMem ι α) (a : Option ι) (elem : ℕ) : InstMem ι α :=
  let q := s.queue a
  let links := s.links.setPrevAt (s.links.next elem) (s.links.prev elem)
  let links := links.setNextAt (links.prev elem) (links.next elem)
  { s with links := (links.setNext elem none).setPrev elem none }.setQueue a
    { q with
      oldestInstElem :=
        if q.oldestInstElem = some elem then links.next elem else q.oldestInstElem
      newestInstElem :=
        if q.newestInstElem = some elem then links.prev elem else q.newestInstElem }

/-- The end of `remove_from_list`. -/
def shrink (s : InstMem ι α) (a : Option ι) : InstMem ι α :=
  s.setQueue a { s.queue a with size := (s.queue a).size - 1 }

/-- `remove_from_list`. An element that is to go back to the pool does so if the
pool is full, and is freed otherwise. -/
def removeFromList (s : InstMem ι α) (a : Option ι) (elem : ℕ) (pushBackInstElemPool : Bool) :
    Option (InstMem ι α) :=
  let s := s.unlink a elem
  if pushBackInstElemPool then
    if (s.queue none).isFullQueue then
      (s.pushBackInstElem none elem).map fun (_, s) => s.shrink a
    else some ((s.free elem).shrink a)
  else some (s.shrink a)

/-- `get_inst_elem_from_pool`. -/
def getInstElemFromPool (s : InstMem ι α) : Option (ℕ × InstMem ι α) :=
  match (s.queue none).oldestInstElem with
  | some elem =>
    (s.removeFromList none elem false).map fun s => (elem, s.initInstElem elem none)
  | none =>
    let (elem, s) := s.malloc
    some (elem, s.initInstElem elem none)

/-- `push_back_inst`. -/
def pushBackInst (s : InstMem ι α) (a : ι) (inst : α) : Option (Option ℕ × InstMem ι α) :=
  if (s.queue (some a)).HasRoom then
    s.getInstElemFromPool.bind fun (elem, s) =>
      let s := { s with
        inst := Function.update s.inst elem (some inst)
        links := (s.links.setNext elem none).setPrev elem (s.queue (some a)).newestInstElem }
      (s.pushBackInstElem (some a) elem).map fun (_, s) => (some elem, s)
  else some (none, s)

/-- `push_front_inst`, which takes an element from the pool before it looks
whether there is room for it. -/
def pushFrontInst (s : InstMem ι α) (a : ι) (inst : α) : Option (InstMem ι α) :=
  s.getInstElemFromPool.bind fun (elem, s) =>
    let s := { s with inst := Function.update s.inst elem (some inst) }
    let q := s.queue (some a)
    if q.HasRoom then
      let links := (s.links.setNext elem q.oldestInstElem).setPrev elem none
      if 0 < q.size then
        q.oldestInstElem.map fun oldest =>
          { s with links := links.setPrev oldest (some elem) }.setQueue (some a)
            { q with oldestInstElem := some elem, size := q.size + 1 }
      else
        some ({ s with links := links }.setQueue (some a)
          { q with oldestInstElem := some elem, size := q.size + 1 })
    else some s

/-- `pop_front_inst`. -/
def popFrontInst (s : InstMem ι α) (a : ι) : Option (Option α × InstMem ι α) :=
  match (s.queue (some a)).oldestInstElem with
  | some elem => (s.removeFromList (some a) elem true).map fun s' => (s.inst elem, s')
  | none => some (none, s)

/-- `pop_front_inst_elem`. -/
def popFrontInstElem (s : InstMem ι α) (a : ι) : Option (Option ℕ × InstMem ι α) :=
  match (s.queue (some a)).oldestInstElem with
  | some elem => (s.removeFromList (some a) elem true).map fun s' => (some elem, s')
  | none => some (none, s)

/-- The loop of `init_inst_elem_pool`, after some turns. -/
def initInstElemPoolLoop (s : InstMem ι α) : ℕ → Option (InstMem ι α)
  | 0 => some s
  | i + 1 => (s.initInstElemPoolLoop i).bind fun s =>
    let (elem, s) := s.malloc
    ((s.initInstElem elem none).pushBackInstElem none elem).map Prod.snd

/-- `init_inst_elem_pool`. -/
def initInstElemPool (s : InstMem ι α) : Option (InstMem ι α) :=
  (s.setQueue none (.initInstQueue instElemPoolSize)).initInstElemPoolLoop instElemPoolSize

/-- Queues of the given capacities after `init_inst_queue`, with the pool
filled. -/
def initial (capacity : ι → ℤ) : Option (InstMem ι α) :=
  initInstElemPool
    { inst := fun _ => none
      links := ⟨fun _ => none, fun _ => none⟩
      numElems := 0
      freed := []
      queue := fun a => .initInstQueue (a.elim 0 capacity) }

end InstMem

/-- The calls made on the queues. -/
inductive QueueOp (ι α : Type) where
  | pushBackInst (a : ι) (inst : α)
  | pushFrontInst (a : ι) (inst : α)
  | popFrontInst (a : ι)
  | popFrontInstElem (a : ι)
  /-- `remove_from_list` of the element at a place in the queue, counted from
  the oldest one. -/
  | removeFromList (a : ι) (k : ℕ)

variable {ι α : Type} [DecidableEq ι]

/-- The memory after a call. Nothing happens where no element is at the place of
the one to be removed. -/
def InstMem.call (s : InstMem ι α) : QueueOp ι α → Option (InstMem ι α)
  | .pushBackInst a inst => (s.pushBackInst a inst).map Prod.snd
  | .pushFrontInst a inst => s.pushFrontInst a inst
  | .popFrontInst a => (s.popFrontInst a).map Prod.snd
  | .popFrontInstElem a => (s.popFrontInstElem a).map Prod.snd
  | .removeFromList a k =>
    match (fun x => x.bind s.links.next)^[k] (s.queue (some a)).oldestInstElem with
    | some elem => s.removeFromList (some a) elem true
    | none => some s

/-- The memory after some calls, from the start. -/
def InstMem.after (capacity : ι → ℤ) (ops : List (QueueOp ι α)) : Option (InstMem ι α) :=
  (InstMem.initial capacity).bind (Run.play InstMem.call ops)

end TraceAnalyzer

end Tqsim
