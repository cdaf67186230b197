import Tqsim.TraceAnalyzer.Helpers.Calls

/-!
# The queues are deques

The queues in memory refine the sequences that the rest of this development
takes them for, as long as nothing is put at the front of an empty queue.
`push_front_inst` leaves the pointer to the newest element of such a queue
null, and the next `push_back_inst` follows it. That is what the conversion
of a PUSH or a POP does when it is the only instruction in the trace buffer.
-/

namespace Tqsim

namespace TraceAnalyzer

open Function

variable {ι α : Type} {s s' : InstMem ι α} {t : ι → InstQueue α} {op : QueueOp ι α} {a : ι}
  {own : Option ι → List ℕ} {capacity : ι → ℤ} {ops : List (QueueOp ι α)} {inst : α} {e : ℕ}

namespace InstMem

/-- **A queue in memory is a deque**: from its oldest element the `next` pointers
lead through the same elements as the `prev` pointers do from its newest one,
in the opposite order; there are `size` of them, and they hold the
instructions of a sequence. -/
def IsDeque (s : InstMem ι α) (a : ι) (q : InstQueue α) : Prop :=
  ∃ elems : List ℕ,
    s.links.walk elems.length (s.queue (some a)).oldestInstElem = some elems ∧
    s.links.flip.walk elems.length (s.queue (some a)).newestInstElem = some elems.reverse ∧
    (s.queue (some a)).size = elems.length ∧
    elems.map s.inst = q.elems.map some

/-- The instructions that queues hold, and their capacities. -/
def Contains (s : InstMem ι α) (own : Option ι → List ℕ) (t : ι → InstQueue α) : Prop :=
  ∀ a, (own (some a)).map s.inst = (t a).elems.map some ∧
    (s.queue (some a)).capacity = (t a).capacity

theorem Contains.length_eq (h : s.Contains own t) (a : ι) :
    (own (some a)).length = (t a).elems.length := by
  simpa using congrArg List.length (h a).1

/-- There is room in memory where there is in the sequence. -/
theorem Contains.hasRoom_iff (h : s.Contains own t) {E : Option ι → Prop} (hown : Owns E s own)
    (a : ι) : (s.queue (some a)).HasRoom ↔ (t a).HasRoom := by
  rw [InstList.HasRoom, InstQueue.HasRoom, (h a).2, hown.size, h.length_eq a]
  rfl

/-- **The memory holds sequences.** -/
def Refines (s : InstMem ι α) (t : ι → InstQueue α) : Prop :=
  ∃ own, Owns (fun _ => True) s own ∧ s.Contains own t

theorem Refines.isDeque (h : s.Refines t) (a : ι) : s.IsDeque a (t a) := by
  obtain ⟨own, hown, hinst⟩ := h
  refine ⟨own (some a), ?_, ?_, hown.size _, (hinst a).1⟩
  · rw [hown.oldest]
    exact (hown.seg _).walk_eq le_rfl
  · rw [hown.newest _ trivial, ← List.head?_reverse]
    exact (hown.seg _).flip.walk_eq (by rw [List.length_reverse])

/-- The instructions that were there are not changed by a push. -/
theorem Placed.map_inst (h : Placed s own inst e s') (b : ι) :
    (own (some b)).map s'.inst = (own (some b)).map s.inst :=
  List.map_congr_left fun x hx => h.inst x fun heq => h.fresh b (heq ▸ hx)

end InstMem

variable [DecidableEq ι]

/-- A call on sequences. -/
def QueueOp.apply (t : ι → InstQueue α) : QueueOp ι α → ι → InstQueue α
  | .pushBackInst a inst => update t a ((t a).pushBackInst inst).1
  | .pushFrontInst a inst => update t a ((t a).pushFrontInst inst)
  | .popFrontInst a => update t a (t a).popFrontInst
  | .popFrontInstElem a => update t a (t a).popFrontInst
  | .removeFromList a k => update t a { t a with elems := (t a).elems.eraseIdx k }

/-- The sequences after some calls. -/
def deques (capacity : ι → ℤ) (ops : List (QueueOp ι α)) : ι → InstQueue α :=
  ops.foldl QueueOp.apply fun a => ⟨[], capacity a⟩

namespace InstMem

/-! ## One call -/

/-- A push of either kind. -/
theorem Contains.placed (h : s.Contains own t) (hplaced : Placed s own inst e s') {l : List ℕ}
    {l' : List α} (hl : l.map s'.inst = l'.map some) :
    s'.Contains (update (update own none (own none).tail) (some a) l)
      (update t a { t a with elems := l' }) := by
  intro b
  rw [hplaced.capacity]
  by_cases hb : b = a
  · rw [hb, update_self, update_self]
    exact ⟨hl, (h a).2⟩
  · rw [update_of_ne (by simpa using hb), update_of_ne (by simp), update_of_ne hb,
      hplaced.map_inst b]
    exact h b

theorem Refines.pushBackInst (h : s.Refines t) (a : ι) (inst : α) :
    ∃ s', s.call (.pushBackInst a inst) = some s' ∧
      s'.Refines (QueueOp.apply t (.pushBackInst a inst)) := by
  obtain ⟨own, hown, hinst⟩ := h
  have hiff := hinst.hasRoom_iff hown a
  by_cases hroom : (s.queue (some a)).HasRoom
  · obtain ⟨e, s', hs', hplaced, howns⟩ := hown.pushBackInst hroom (hown.newest _ trivial) inst
    refine ⟨s', by rw [call, hs', Option.map_some], _, howns, ?_⟩
    rw [QueueOp.apply, InstQueue.pushBackInst, if_pos (hiff.1 hroom)]
    refine hinst.placed hplaced ?_
    rw [List.map_append, hplaced.map_inst a, (hinst a).1]
    simp [hplaced.inst_self]
  · refine ⟨s, by rw [call, pushBackInst_of_full hroom, Option.map_some], own, hown, ?_⟩
    rw [QueueOp.apply, InstQueue.pushBackInst, if_neg (mt hiff.2 hroom), update_eq_self]
    exact hinst

theorem Refines.pushFrontInst (h : s.Refines t) (a : ι) (inst : α)
    (hne : (t a).HasRoom → (t a).elems ≠ []) :
    ∃ s', s.call (.pushFrontInst a inst) = some s' ∧
      s'.Refines (QueueOp.apply t (.pushFrontInst a inst)) := by
  obtain ⟨own, hown, hinst⟩ := h
  have hiff := hinst.hasRoom_iff hown a
  by_cases hroom : (s.queue (some a)).HasRoom
  · have hown_ne : own (some a) ≠ [] := by
      have hpos := List.length_pos_iff.2 (hne (hiff.1 hroom))
      rw [← hinst.length_eq a] at hpos
      exact List.length_pos_iff.1 hpos
    obtain ⟨e, s', hs', hplaced, -, howns⟩ := hown.pushFrontInst hroom (fun _ => hown_ne) inst
    refine ⟨s', hs', _, howns, ?_⟩
    rw [QueueOp.apply, InstQueue.pushFrontInst, if_pos (hiff.1 hroom)]
    refine hinst.placed hplaced ?_
    rw [List.map_cons, hplaced.map_inst a, (hinst a).1]
    simp [hplaced.inst_self]
  · obtain ⟨e, s', hs', hplaced, howns⟩ := hown.pushFrontInst_of_full hroom inst
    refine ⟨s', hs', _, howns, fun b => ?_⟩
    rw [QueueOp.apply, InstQueue.pushFrontInst, if_neg (mt hiff.2 hroom), update_eq_self,
      update_of_ne (by simp), hplaced.map_inst b, hplaced.capacity]
    exact hinst b

/-- A removal, from any place. -/
theorem Refines.removeFromList (h : s.Refines t) (a : ι) (k : ℕ) :
    ∃ s', s.call (.removeFromList a k) = some s' ∧
      s'.Refines (QueueOp.apply t (.removeFromList a k)) := by
  obtain ⟨own, hown, hinst⟩ := h
  simp only [call, hown.oldest, (hown.seg _).iterate_next]
  by_cases hk : k < (own (some a)).length
  · obtain ⟨s', hs', hremoved, howns⟩ := hown.removeFromList (List.getElem_mem hk)
    rw [List.getElem?_eq_getElem hk]
    refine ⟨s', hs', _, howns, fun b => ?_⟩
    rw [hremoved.inst, hremoved.capacity, QueueOp.apply]
    by_cases hb : b = a
    · rw [hb, update_self, update_self, (hown.nodup _).erase_getElem, ← List.eraseIdx_map,
        (hinst a).1, List.eraseIdx_map]
      exact ⟨rfl, (hinst a).2⟩
    · rw [update_of_ne (by simpa using hb), update_of_ne hb]
      exact hinst b
  · have hlen := hinst.length_eq a
    rw [List.getElem?_eq_none (not_lt.1 hk), QueueOp.apply,
      List.eraseIdx_of_length_le (by omega), update_eq_self]
    exact ⟨s, rfl, own, hown, hinst⟩

/-- `pop_front_inst` removes the oldest element, if there is one. -/
theorem call_popFrontInst (s : InstMem ι α) (a : ι) :
    s.call (.popFrontInst a) = s.call (.removeFromList a 0) := by
  simp only [call, InstMem.popFrontInst, iterate_zero, id_eq]
  cases (s.queue (some a)).oldestInstElem with
  | none => rfl
  | some e => simp [Function.comp_def]

theorem call_popFrontInstElem (s : InstMem ι α) (a : ι) :
    s.call (.popFrontInstElem a) = s.call (.removeFromList a 0) := by
  simp only [call, InstMem.popFrontInstElem, iterate_zero, id_eq]
  cases (s.queue (some a)).oldestInstElem with
  | none => rfl
  | some e => simp [Function.comp_def]

theorem apply_removeFromList_zero (t : ι → InstQueue α) (a : ι) :
    QueueOp.apply t (.removeFromList a 0) = update t a (t a).popFrontInst := by
  rw [QueueOp.apply, List.eraseIdx_zero]
  rfl

/-- **Every call is matched** on the sequences, unless it puts the first element
into a queue at its front. -/
theorem Refines.call (h : s.Refines t) (op : QueueOp ι α)
    (hop : ∀ a inst, op = .pushFrontInst a inst → (t a).HasRoom → (t a).elems ≠ []) :
    ∃ s', s.call op = some s' ∧ s'.Refines (QueueOp.apply t op) := by
  cases op with
  | pushBackInst a inst => exact h.pushBackInst a inst
  | pushFrontInst a inst => exact h.pushFrontInst a inst (hop a inst rfl)
  | popFrontInst a =>
    rw [call_popFrontInst, QueueOp.apply, ← apply_removeFromList_zero]
    exact h.removeFromList a 0
  | popFrontInstElem a =>
    rw [call_popFrontInstElem, QueueOp.apply, ← apply_removeFromList_zero]
    exact h.removeFromList a 0
  | removeFromList a k => exact h.removeFromList a k

/-- **The first element at the front.** There is no pointer to it as the newest
one. -/
theorem Refines.pushFrontInst_first (h : s.Refines t) (hroom : (t a).HasRoom)
    (hnil : (t a).elems = []) (inst : α) :
    ∃ e s' own, s.call (.pushFrontInst a inst) = some s' ∧ Owns (fun b => b ≠ some a) s' own ∧
      own (some a) = [e] ∧ (s'.queue (some a)).newestInstElem = none ∧
      (s'.queue (some a)).capacity = (t a).capacity := by
  obtain ⟨own, hown, hinst⟩ := h
  have hown_nil : own (some a) = [] := by
    rw [← List.length_eq_zero_iff, hinst.length_eq a, hnil, List.length_nil]
  have hweak : Owns (fun b => b ≠ some a) s own :=
    { hown with newest := fun b _ => hown.newest b trivial }
  obtain ⟨e, s', hs', hplaced, hnew, howns⟩ :=
    hweak.pushFrontInst ((hinst.hasRoom_iff hown a).2 hroom) (fun hne => absurd rfl hne) inst
  refine ⟨e, s', _, hs', howns, by rw [update_self, hown_nil], ?_, ?_⟩
  · rw [hnew, hown.newest _ trivial, hown_nil, List.getLast?_nil]
  · rw [hplaced.capacity, (hinst a).2]

omit [DecidableEq ι] in
/-- A queue with an element but no pointer to the newest one is no deque. -/
theorem Owns.not_isDeque {E : Option ι → Prop} (h : Owns E s own) (hown : own (some a) = [e])
    (hnew : (s.queue (some a)).newestInstElem = none) (q : InstQueue α) : ¬ s.IsDeque a q := by
  rintro ⟨elems, hforth, hback, -, -⟩
  rw [hnew] at hback
  have helems : elems = [] := by
    cases elems with
    | nil => rfl
    | cons x elems => simp [Links.walk] at hback
  rw [helems, h.oldest, hown] at hforth
  simp [Links.walk] at hforth

/-! ## All calls -/

theorem refines_initial (capacity : ι → ℤ) :
    ∃ s : InstMem ι α, initial capacity = some s ∧ s.Refines (deques capacity []) := by
  obtain ⟨s, hs, hown, -, -, hcap⟩ := initial_owns (α := α) capacity
  exact ⟨s, hs, _, hown, fun a => ⟨rfl, hcap a⟩⟩

theorem after_concat (capacity : ι → ℤ) (ops : List (QueueOp ι α)) (op : QueueOp ι α) :
    after capacity (ops ++ [op]) = (after capacity ops).bind fun s => s.call op := by
  rw [after, after, Option.bind_assoc]
  refine Option.bind_congr fun s _ => ?_
  rw [Run.play_append]
  refine Option.bind_congr fun t _ => ?_
  rw [Run.play]
  cases t.call op <;> rfl

theorem exists_of_after_concat (h : after capacity (ops ++ [op]) = some s') :
    ∃ s, after capacity ops = some s ∧ s.call op = some s' :=
  Option.bind_eq_some_iff.1 ((after_concat capacity ops op).symm.trans h)

theorem deques_concat (capacity : ι → ℤ) (ops : List (QueueOp ι α)) (op : QueueOp ι α) :
    deques capacity (ops ++ [op]) = QueueOp.apply (deques capacity ops) op := by
  rw [deques, List.foldl_append]
  rfl

end InstMem

/-- No call puts the first element into a queue at its front. -/
def NeverFirstAtFront (capacity : ι → ℤ) (ops : List (QueueOp ι α)) : Prop :=
  ∀ done a inst rest, ops = done ++ .pushFrontInst a inst :: rest →
    (deques capacity done a).HasRoom → (deques capacity done a).elems ≠ []

theorem NeverFirstAtFront.of_append {done rest : List (QueueOp ι α)}
    (h : NeverFirstAtFront capacity (done ++ rest)) : NeverFirstAtFront capacity done :=
  fun before a inst after heq =>
    h before a inst (after ++ rest) (by rw [heq, List.append_assoc, List.cons_append])

/-- **The queues hold the sequences** after calls that meet the condition. -/
theorem NeverFirstAtFront.refines_after (h : NeverFirstAtFront capacity ops) :
    ∃ s, InstMem.after capacity ops = some s ∧ s.Refines (deques capacity ops) := by
  induction ops using List.reverseRecOn with
  | nil =>
    obtain ⟨s, hs, href⟩ := InstMem.refines_initial (α := α) capacity
    exact ⟨s, by rw [InstMem.after, hs]; rfl, href⟩
  | append_singleton ops op ih =>
    obtain ⟨s, hs, href⟩ := ih h.of_append
    obtain ⟨s', hs', href'⟩ := href.call op fun a inst hop =>
      h ops a inst [] (by rw [hop])
    refine ⟨s', ?_, by rwa [InstMem.deques_concat]⟩
    rw [InstMem.after_concat, hs]
    exact hs'

/-- **The queues are deques after every call**, if and only if no call puts the
first element into a queue at its front. -/
theorem isDeque_iff (capacity : ι → ℤ) (ops : List (QueueOp ι α)) :
    (∀ done rest, ops = done ++ rest → ∃ s, InstMem.after capacity done = some s ∧
      ∀ a, s.IsDeque a (deques capacity done a)) ↔ NeverFirstAtFront capacity ops := by
  constructor
  · intro h done
    -- the calls before the first that does not meet the condition do
    induction hn : done.length using Nat.strong_induction_on generalizing done with
    | _ n ih =>
      intro a inst rest heq hroom hnil
      have hdone : NeverFirstAtFront capacity done := by
        intro before b inst' after' heq'
        refine ih before.length (by rw [← hn, heq']; simp) before rfl b inst'
          (after' ++ .pushFrontInst a inst :: rest) ?_
        rw [heq, heq', List.append_assoc, List.cons_append]
      obtain ⟨s, hs, href⟩ := hdone.refines_after
      obtain ⟨e, s', own, hs', hown, hone, hnew, -⟩ := href.pushFrontInst_first hroom hnil inst
      obtain ⟨u, hu, hdeque⟩ := h (done ++ [.pushFrontInst a inst]) rest (by rw [heq]; simp)
      rw [InstMem.after_concat, hs, Option.bind_some, hs'] at hu
      exact hown.not_isDeque hone hnew _ (Option.some.inj hu ▸ hdeque a)
  · intro h done rest heq
    have hdone : NeverFirstAtFront capacity done := by
      rw [heq] at h
      exact h.of_append
    obtain ⟨s, hs, href⟩ := hdone.refines_after
    exact ⟨s, hs, href.isDeque⟩

/-- A PUSH as the only instruction in the trace buffer is replaced by its
micro-op. -/
def convertOnly : List (QueueOp Unit ℕ) :=
  [.pushBackInst () 0, .popFrontInst (), .pushFrontInst () 1]

/-- The capacity of `trace_buffer`. -/
def traceBufferCapacity : Unit → ℤ := fun _ => 1000001

/-- After the conversion no pointer leads backwards through the trace buffer, and
the next instruction that is put into it makes `push_back_inst` follow a null
pointer. -/
theorem not_isDeque_convertOnly :
    (∃ s, InstMem.after traceBufferCapacity convertOnly = some s ∧ ∀ q, ¬ s.IsDeque () q) ∧
      InstMem.after traceBufferCapacity (convertOnly ++ [.pushBackInst () 2]) = none := by
  have hfirst : NeverFirstAtFront traceBufferCapacity
      [.pushBackInst () 0, .popFrontInst ()] := by
    intro done a inst rest heq
    rcases done with _ | ⟨op, _ | ⟨op', done⟩⟩
    · simp at heq
    · simp at heq
    · simp at heq
  obtain ⟨s, hs, href⟩ := hfirst.refines_after
  obtain ⟨e, s', own, hs', hown, hone, hnew, hcap⟩ :=
    href.pushFrontInst_first (a := ()) (by decide) (by decide) 1
  have hafter : InstMem.after traceBufferCapacity convertOnly = some s' := by
    rw [show convertOnly = [.pushBackInst () 0, .popFrontInst ()] ++ [.pushFrontInst () 1] from rfl,
      InstMem.after_concat, hs]
    exact hs'
  refine ⟨⟨s', hafter, hown.not_isDeque hone hnew⟩, ?_⟩
  have hroom : (s'.queue (some ())).HasRoom := by
    rw [InstList.HasRoom, hcap, hown.size, hone, List.length_singleton]
    decide
  rw [InstMem.after_concat, hafter, Option.bind_some, InstMem.call,
    hown.pushBackInst_of_null hroom (by simp [hone]) hnew, Option.map_none]

end TraceAnalyzer

end Tqsim
