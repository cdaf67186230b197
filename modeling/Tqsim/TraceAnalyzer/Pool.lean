import Tqsim.TraceAnalyzer.Deque
import Mathlib.Algebra.BigOperators.Group.Finset.Basic

/-!
# The pool of elements

Elements go from the pool into the queues. None comes back: the test of
`remove_from_list` is the wrong way round, so that an element that could go
back to the pool is freed. So the elements in the pool and those in the
queues are as many as there were at the start only as long as none is removed
(and none is lost by `push_front_inst` on a full queue). That no queue holds
an element that was freed, or that is in the pool, is true all the same.
-/

namespace Tqsim

namespace TraceAnalyzer

open Function

variable {ι α : Type} {s s' : InstMem ι α} {op : QueueOp ι α} {a : ι}
  {own own' : Option ι → List ℕ} {capacity : ι → ℤ} {ops : List (QueueOp ι α)} {inst : α} {e : ℕ}

namespace InstMem

/-- The elements that a queue links, from the oldest one on. -/
def linked (s : InstMem ι α) (a : Option ι) : List ℕ :=
  (s.links.walk s.numElems (s.queue a).oldestInstElem).getD []

/-- **No element is where it should not be**: one that a queue links is neither
freed nor in the pool, nor in another queue. -/
def Separate (s : InstMem ι α) : Prop :=
  ∀ a, ∀ e ∈ s.linked (some a), e ∉ s.freed ∧ ∀ b ≠ some a, e ∉ s.linked b

/-- **What every call keeps**: the queues hold lists, and the pool has the right
pointer to its newest element. -/
def HoldsLists (s : InstMem ι α) : Prop := ∃ own, Owns (fun a => a = none) s own

theorem Owns.linked_eq {E : Option ι → Prop} (h : Owns E s own) (a : Option ι) :
    s.linked a = own a := by
  have hlen : (own a).length ≤ s.numElems := by
    have hsub : own a ⊆ List.range s.numElems := fun e he =>
      List.mem_range.2 (h.allocated a e he).1
    have := ((h.nodup a).subperm hsub).length_le
    rwa [List.length_range] at this
  rw [linked, h.oldest, (h.seg a).walk_eq hlen, Option.getD_some]

theorem HoldsLists.separate (h : s.HoldsLists) : s.Separate := by
  obtain ⟨own, h⟩ := h
  intro a e he
  rw [h.linked_eq] at he
  refine ⟨(h.allocated _ e he).2, fun b hb => ?_⟩
  rw [h.linked_eq]
  exact h.notMem_of_ne he hb

theorem HoldsLists.size_pool (h : s.HoldsLists) :
    (s.queue none).size = (s.linked none).length := by
  obtain ⟨own, h⟩ := h
  rw [h.size, h.linked_eq]

/-! ## Counting elements -/

/-- A call that takes an element out of a queue, or that has no room for the
element it takes from the pool. -/
def Loses (s : InstMem ι α) : QueueOp ι α → Prop
  | .pushBackInst _ _ => False
  | .pushFrontInst a _ => ¬ (s.queue (some a)).HasRoom
  | .popFrontInst a => s.linked (some a) ≠ []
  | .popFrontInstElem a => s.linked (some a) ≠ []
  | .removeFromList a k => k < (s.linked (some a)).length

variable [Fintype ι]

/-- How many elements the queues other than the pool link. -/
def numLinked (s : InstMem ι α) : ℕ := ∑ a, (s.linked (some a)).length

theorem Owns.numLinked_eq {E : Option ι → Prop} (h : Owns E s own) :
    s.numLinked = ∑ a, (own (some a)).length :=
  Finset.sum_congr rfl fun a _ => by rw [h.linked_eq]

/-- **Conservation**: the pool and the queues have the elements that were there
at the start, and `malloc` has been called for no other. -/
structure Conserved (s : InstMem ι α) : Prop where
  total : (s.queue none).size + s.numLinked = instElemPoolSize
  numElems : s.numElems = instElemPoolSize

/-- How the elements in the pool, in the queues and from `malloc` change when an
element is taken from the pool and put into a queue, or not. -/
structure Takes (s s' : InstMem ι α) (placed : ℕ) : Prop where
  pool : (s'.linked none).length = (s.linked none).length - 1
  numLinked : s'.numLinked = s.numLinked + placed
  numElems : s'.numElems = s.numElems + if (s.linked none).length = 0 then 1 else 0

/-- How they change when a number of elements is taken out of the queues. -/
structure Drops (s s' : InstMem ι α) (dropped : ℕ) : Prop where
  pool : (s'.linked none).length = (s.linked none).length
  numLinked : s'.numLinked + dropped = s.numLinked
  numElems : s'.numElems = s.numElems

/-- An element from the pool is put into a queue. There is one, since no more
than all elements are in use afterwards. -/
theorem Takes.conserved (ht : s.Takes s' 1) (h : s.HoldsLists) (h' : s'.HoldsLists)
    (hc : s.Conserved) (huse : s'.numLinked ≤ instElemPoolSize) : s'.Conserved := by
  obtain ⟨hpool, hlinked, hnum⟩ := ht
  obtain ⟨htotal, helems⟩ := hc
  rw [h.size_pool] at htotal
  have hpos : (s.linked none).length ≠ 0 := by omega
  rw [if_neg hpos] at hnum
  refine ⟨?_, by omega⟩
  rw [h'.size_pool]
  omega

theorem Drops.conserved (hd : s.Drops s' 0) (h : s.HoldsLists) (h' : s'.HoldsLists)
    (hc : s.Conserved) : s'.Conserved := by
  obtain ⟨hpool, hlinked, hnum⟩ := hd
  obtain ⟨htotal, helems⟩ := hc
  rw [h.size_pool] at htotal
  refine ⟨?_, by omega⟩
  rw [h'.size_pool]
  omega

/-- **An element that is lost is missing**, or was allocated in addition. -/
theorem not_conserved (hlost : s.Takes s' 0 ∨ s.Drops s' 1) (h : s.HoldsLists)
    (h' : s'.HoldsLists) (hc : s.Conserved) : ¬ s'.Conserved := by
  rintro ⟨htotal', helems'⟩
  obtain ⟨htotal, helems⟩ := hc
  rw [h.size_pool] at htotal
  rw [h'.size_pool] at htotal'
  rcases hlost with ⟨hpool, hlinked, hnum⟩ | ⟨hpool, hlinked, hnum⟩
  · by_cases hpos : (s.linked none).length = 0
    · rw [if_pos hpos] at hnum
      omega
    · omega
  · omega

/-! ## One call -/

variable [DecidableEq ι]

/-- The elements of one queue change. -/
theorem sum_update (own : Option ι → List ℕ) (a : ι) (l : List ℕ) :
    (∑ b, (update own (some a) l (some b)).length) + (own (some a)).length =
      (∑ b, (own (some b)).length) + l.length := by
  rw [← Finset.add_sum_erase _ _ (Finset.mem_univ a),
    ← Finset.add_sum_erase Finset.univ (fun b => (own (some b)).length) (Finset.mem_univ a)]
  have hrest : ∑ b ∈ Finset.univ.erase a, (update own (some a) l (some b)).length =
      ∑ b ∈ Finset.univ.erase a, (own (some b)).length := by
    refine Finset.sum_congr rfl fun b hb => ?_
    rw [update_of_ne (by simpa using Finset.ne_of_mem_erase hb)]
  rw [hrest, update_self]
  omega

theorem Owns.takes_placed {E : Option ι → Prop} (h : Owns E s own)
    (hplaced : Placed s own inst e s') {l : List ℕ} (hlen : l.length = (own (some a)).length + 1)
    (howns : Owns E s' (update (update own none (own none).tail) (some a) l)) : s.Takes s' 1 := by
  have hsum := sum_update (update own none (own none).tail) a l
  refine ⟨?_, ?_, ?_⟩
  · rw [howns.linked_eq, h.linked_eq, update_of_ne (by simp), update_self, List.length_tail]
  · rw [howns.numLinked_eq, h.numLinked_eq]
    simp only [update_of_ne (show some _ ≠ (none : Option ι) by simp)] at hsum
    omega
  · rw [hplaced.numElems, h.linked_eq]
    simp only [List.length_eq_zero_iff]

theorem Owns.takes_lost {E : Option ι → Prop} (h : Owns E s own) (hplaced : Placed s own inst e s')
    (howns : Owns E s' (update own none (own none).tail)) : s.Takes s' 0 := by
  refine ⟨?_, ?_, ?_⟩
  · rw [howns.linked_eq, h.linked_eq, update_self, List.length_tail]
  · rw [howns.numLinked_eq, h.numLinked_eq]
    simp
  · rw [hplaced.numElems, h.linked_eq]
    simp only [List.length_eq_zero_iff]

theorem Owns.drops {E : Option ι → Prop} (h : Owns E s own) (hremoved : Removed s e s')
    (he : e ∈ own (some a)) (howns : Owns E s' (update own (some a) ((own (some a)).erase e))) :
    s.Drops s' 1 := by
  have hsum := sum_update own a ((own (some a)).erase e)
  have hlen := List.length_erase_of_mem he
  have hpos := List.length_pos_of_mem he
  refine ⟨?_, ?_, hremoved.numElems⟩
  · rw [howns.linked_eq, h.linked_eq, update_of_ne (by simp)]
  · rw [howns.numLinked_eq, h.numLinked_eq]
    omega

/-- A removal. -/
theorem HoldsLists.removeFromList (h : s.HoldsLists) (a : ι) (k : ℕ) :
    ∃ s', s.call (.removeFromList a k) = some s' ∧ s'.HoldsLists ∧
      s.Drops s' (if k < (s.linked (some a)).length then 1 else 0) := by
  obtain ⟨own, h⟩ := h
  simp only [call, h.oldest, (h.seg _).iterate_next, h.linked_eq]
  by_cases hk : k < (own (some a)).length
  · obtain ⟨s', hs', hremoved, howns⟩ := h.removeFromList (List.getElem_mem hk)
    rw [List.getElem?_eq_getElem hk, if_pos hk]
    exact ⟨s', hs', ⟨_, howns⟩, h.drops hremoved (List.getElem_mem hk) howns⟩
  · rw [List.getElem?_eq_none (not_lt.1 hk), if_neg hk]
    exact ⟨s, rfl, ⟨own, h⟩, rfl, rfl, rfl⟩

/-- A call that loses an element returns. -/
theorem HoldsLists.exists_call (h : s.HoldsLists) (hop : s.Loses op) :
    ∃ s', s.call op = some s' := by
  cases op with
  | pushBackInst a inst => exact absurd hop id
  | pushFrontInst a inst =>
    obtain ⟨own, h⟩ := h
    obtain ⟨e, s', hs', -⟩ := h.pushFrontInst_of_full hop inst
    exact ⟨s', hs'⟩
  | popFrontInst a =>
    rw [call_popFrontInst]
    exact (h.removeFromList a 0).imp fun s' h => h.1
  | popFrontInstElem a =>
    rw [call_popFrontInstElem]
    exact (h.removeFromList a 0).imp fun s' h => h.1
  | removeFromList a k => exact (h.removeFromList a k).imp fun s' h => h.1

/-- A call that puts an element into a queue at its end, if it returns. -/
theorem HoldsLists.pushBackInst (h : s.HoldsLists)
    (hs' : s.call (.pushBackInst a inst) = some s') :
    s'.HoldsLists ∧ (s.Takes s' 1 ∨ s.Drops s' 0) := by
  obtain ⟨own, h⟩ := h
  by_cases hroom : (s.queue (some a)).HasRoom
  · have hnew : (s.queue (some a)).newestInstElem = (own (some a)).getLast? := by
      rcases h.newest_or (some a) with hnew | hnew
      · exact hnew
      · -- a null pointer is not followed where there is no element
        by_contra hne
        have hown : own (some a) ≠ [] := fun hnil => hne (by rw [hnew, hnil]; rfl)
        rw [call, h.pushBackInst_of_null hroom hown hnew] at hs'
        simp at hs'
    obtain ⟨e, t, ht, hplaced, howns⟩ := h.pushBackInst hroom hnew inst
    rw [call, ht, Option.map_some] at hs'
    obtain rfl := Option.some.inj hs'
    exact ⟨⟨_, howns⟩, .inl (h.takes_placed hplaced (by simp) howns)⟩
  · rw [call, pushBackInst_of_full hroom, Option.map_some] at hs'
    obtain rfl := Option.some.inj hs'
    exact ⟨⟨own, h⟩, .inr ⟨rfl, rfl, rfl⟩⟩

/-- **What a call does to the elements**, if it returns. -/
theorem HoldsLists.call_effect (h : s.HoldsLists) (hs' : s.call op = some s') : s'.HoldsLists ∧
    (s.Loses op → s.Takes s' 0 ∨ s.Drops s' 1) ∧
    (¬ s.Loses op → s.Takes s' 1 ∨ s.Drops s' 0) := by
  have hremove : ∀ a k, s.call (.removeFromList a k) = some s' → s'.HoldsLists ∧
      (k < (s.linked (some a)).length → s.Takes s' 0 ∨ s.Drops s' 1) ∧
      (¬ k < (s.linked (some a)).length → s.Takes s' 1 ∨ s.Drops s' 0) := by
    intro a k hs'
    obtain ⟨t, ht, hlists, hdrops⟩ := h.removeFromList a k
    obtain rfl := Option.some.inj (ht.symm.trans hs')
    refine ⟨hlists, fun hk => .inr ?_, fun hk => .inr ?_⟩
    · rwa [if_pos hk] at hdrops
    · rwa [if_neg hk] at hdrops
  cases op with
  | pushBackInst a inst =>
    obtain ⟨hlists, hkeeps⟩ := h.pushBackInst hs'
    exact ⟨hlists, fun hop => absurd hop id, fun _ => hkeeps⟩
  | pushFrontInst a inst =>
    obtain ⟨own, h⟩ := h
    by_cases hroom : (s.queue (some a)).HasRoom
    · obtain ⟨e, t, ht, hplaced, -, howns⟩ := h.pushFrontInst hroom (by simp) inst
      obtain rfl := Option.some.inj (ht.symm.trans hs')
      exact ⟨⟨_, howns⟩, fun hop => absurd hroom hop,
        fun _ => .inl (h.takes_placed hplaced (by simp) howns)⟩
    · obtain ⟨e, t, ht, hplaced, howns⟩ := h.pushFrontInst_of_full hroom inst
      obtain rfl := Option.some.inj (ht.symm.trans hs')
      exact ⟨⟨_, howns⟩, fun _ => .inl (h.takes_lost hplaced howns),
        fun hop => absurd hroom hop⟩
  | popFrontInst a =>
    rw [call_popFrontInst] at hs'
    simpa only [Loses, List.length_pos_iff] using hremove a 0 hs'
  | popFrontInstElem a =>
    rw [call_popFrontInstElem] at hs'
    simpa only [Loses, List.length_pos_iff] using hremove a 0 hs'
  | removeFromList a k => exact hremove a k hs'

/-- **Every call keeps lists**, and links no more than one new element. -/
theorem HoldsLists.call (h : s.HoldsLists) (hs' : s.call op = some s') :
    s'.HoldsLists ∧ s'.numLinked ≤ s.numLinked + 1 := by
  obtain ⟨hlists, hloses, hkeeps⟩ := h.call_effect hs'
  refine ⟨hlists, ?_⟩
  by_cases hop : s.Loses op
  · rcases hloses hop with htakes | hdrops
    · have := htakes.numLinked
      omega
    · have := hdrops.numLinked
      omega
  · rcases hkeeps hop with htakes | hdrops
    · exact htakes.numLinked.le
    · have := hdrops.numLinked
      omega

omit [Fintype ι] in
/-- At the start the pool has all elements. -/
theorem holdsLists_initial (capacity : ι → ℤ) :
    ∃ s : InstMem ι α, initial capacity = some s ∧ s.HoldsLists ∧
      (s.queue none).size = instElemPoolSize ∧ s.numElems = instElemPoolSize ∧
      ∀ a, s.linked (some a) = [] := by
  obtain ⟨s, hs, hown, hnum, -, -⟩ := initial_owns (α := α) capacity
  have hsize := hown.size none
  rw [poolOwn, List.length_range] at hsize
  exact ⟨s, hs, ⟨_, { hown with newest := fun a _ => hown.newest a trivial }⟩, hsize, hnum,
    fun a => hown.linked_eq (some a)⟩

/-! ## All calls -/

theorem holdsLists_after (hs : after capacity ops = some s) : s.HoldsLists := by
  obtain ⟨s₀, hs₀, hlists, -⟩ := holdsLists_initial (α := α) capacity
  rw [after, hs₀] at hs
  exact Run.play_invariant (fun _ _ _ h hs' => (h.call hs').1) hlists hs

theorem conserved_initial (hs : after capacity [] = some s) : s.Conserved := by
  obtain ⟨s₀, hs₀, -, hsize, hnum, hlinked⟩ := holdsLists_initial (α := α) capacity
  rw [after, hs₀] at hs
  obtain rfl := Option.some.inj hs
  exact ⟨by simp [numLinked, hlinked, hsize], hnum⟩

/-- No more elements are in use than calls were made. -/
theorem numLinked_after (hs : after capacity ops = some s) : s.numLinked ≤ ops.length := by
  induction ops using List.reverseRecOn generalizing s with
  | nil =>
    obtain ⟨s₀, hs₀, -, -, -, hlinked⟩ := holdsLists_initial (α := α) capacity
    rw [after, hs₀] at hs
    obtain rfl := Option.some.inj hs
    simp [numLinked, hlinked]
  | append_singleton ops op ih =>
    obtain ⟨t, ht, hcall⟩ := exists_of_after_concat hs
    have hle := ((holdsLists_after ht).call hcall).2
    have := ih ht
    rw [List.length_append, List.length_singleton]
    omega

/-- **Elements are conserved** by calls that lose none, as long as there are
enough. -/
theorem conserved_after
    (huse : ∀ done rest s, ops = done ++ rest → after capacity done = some s →
      s.numLinked ≤ instElemPoolSize)
    (hkeep : ∀ done op rest s, ops = done ++ op :: rest → after capacity done = some s →
      ¬ s.Loses op)
    (hs : after capacity ops = some s) : s.Conserved := by
  induction ops using List.reverseRecOn generalizing s with
  | nil => exact conserved_initial hs
  | append_singleton ops op ih =>
    obtain ⟨t, ht, hcall⟩ := exists_of_after_concat hs
    have hlists := holdsLists_after ht
    have hc : t.Conserved := ih
      (fun done rest u heq => huse done (rest ++ [op]) u (by rw [heq, List.append_assoc]))
      (fun done op' rest u heq => hkeep done op' (rest ++ [op]) u (by rw [heq]; simp)) ht
    obtain ⟨hlists', -, hkeeps⟩ := hlists.call_effect hcall
    rcases hkeeps (hkeep ops op [] t rfl ht) with htakes | hdrops
    · exact htakes.conserved hlists hlists' hc (huse (ops ++ [op]) [] s (by simp) hs)
    · exact hdrops.conserved hlists hlists' hc

end InstMem

/-- **The pool recycles nothing.** While no more elements are in use than the
pool had, no queue ever links an element that was freed, or that the pool or
another queue links; and the pool and the queues have all elements after every
call, if and only if no call takes an element out of a queue or puts one into
a full queue at the front. -/
theorem conserved_iff [Fintype ι] [DecidableEq ι] (capacity : ι → ℤ) (ops : List (QueueOp ι α))
    (huse : ∀ done rest s, ops = done ++ rest → InstMem.after capacity done = some s →
      s.numLinked ≤ instElemPoolSize) :
    (∀ done rest s, ops = done ++ rest → InstMem.after capacity done = some s → s.Separate) ∧
    ((∀ done rest s, ops = done ++ rest → InstMem.after capacity done = some s → s.Conserved) ↔
      ∀ done op rest s, ops = done ++ op :: rest → InstMem.after capacity done = some s →
        ¬ s.Loses op) := by
  refine ⟨fun done rest s _ hs => (InstMem.holdsLists_after hs).separate, fun h => ?_, fun h => ?_⟩
  · intro done op rest s heq hs hop
    have hlists := InstMem.holdsLists_after hs
    obtain ⟨s', hs'⟩ := hlists.exists_call hop
    obtain ⟨hlists', hloses, -⟩ := hlists.call_effect hs'
    refine InstMem.not_conserved (hloses hop) hlists hlists' (h done (op :: rest) s heq hs) ?_
    refine h (done ++ [op]) rest s' (by rw [heq]; simp) ?_
    rw [InstMem.after_concat, hs]
    exact hs'
  · intro done rest s heq hs
    refine InstMem.conserved_after (fun before rest' u heq' => ?_)
      (fun before op rest' u heq' => ?_) hs
    · exact huse before (rest' ++ rest) u (by rw [heq, heq', List.append_assoc])
    · exact h before op (rest' ++ rest) u (by rw [heq, heq']; simp)

/-- The capacity of `LDQ` and `STQ`. -/
def ldqCapacity : Unit → ℤ := fun _ => 16

/-- One element is put into the queue. -/
theorem conserved_push : ∃ s, InstMem.after ldqCapacity [.pushBackInst () 0] = some s ∧
    s.Separate ∧ s.Conserved := by
  have hfirst : NeverFirstAtFront ldqCapacity [.pushBackInst () 0] := by
    intro done a inst rest heq
    cases done <;> simp at heq
  obtain ⟨s, hs, -⟩ := hfirst.refines_after
  have huse : ∀ done rest u, [QueueOp.pushBackInst () 0] = done ++ rest →
      InstMem.after ldqCapacity done = some u → u.numLinked ≤ instElemPoolSize := by
    intro done rest u heq hu
    have hlen := congrArg List.length heq
    rw [List.length_singleton, List.length_append] at hlen
    have := InstMem.numLinked_after hu
    unfold instElemPoolSize
    omega
  obtain ⟨hsep, hiff⟩ := conserved_iff ldqCapacity [.pushBackInst () 0] huse
  refine ⟨s, hs, hsep _ [] s rfl hs, hiff.2 ?_ _ [] s rfl hs⟩
  intro done op rest u heq _
  cases done with
  | nil =>
    obtain ⟨rfl, -⟩ := List.cons.inj heq
    exact id
  | cons op' done => simp at heq

/-- An element is put into the queue and taken out again. It is freed, and not
put back into the pool. -/
theorem not_conserved_pushPop :
    ∃ s, InstMem.after ldqCapacity [.pushBackInst () 0, .popFrontInst ()] = some s ∧
      (s.queue none).size = 4999 ∧ s.numLinked = 0 := by
  obtain ⟨s₀, hs₀, hown₀, -, -, hcap⟩ := InstMem.initial_owns (α := ℕ) ldqCapacity
  have hroom : (s₀.queue (some ())).HasRoom := by
    refine .inr ?_
    rw [hown₀.size, hcap]
    decide
  obtain ⟨e, s₁, hs₁, -, hown₁⟩ := hown₀.pushBackInst hroom (hown₀.newest _ trivial) 0
  obtain ⟨s₂, hs₂, -, hown₂⟩ := hown₁.removeFromList (a := ()) (e := e) (by simp)
  refine ⟨s₂, ?_, ?_, ?_⟩
  · have holdest : (s₁.queue (some ())).oldestInstElem = some e := by
      rw [hown₁.oldest, update_self]
      rfl
    simp only [InstMem.after, hs₀, Option.bind_some, Run.play, InstMem.call, hs₁, Option.map_some,
      InstMem.popFrontInst, holdest, hs₂]
  · rw [hown₂.size, update_of_ne (by simp), update_of_ne (by simp), update_self, List.length_tail,
      InstMem.poolOwn, List.length_range]
    rfl
  · rw [hown₂.numLinked_eq]
    simp [InstMem.poolOwn]

end TraceAnalyzer

end Tqsim
