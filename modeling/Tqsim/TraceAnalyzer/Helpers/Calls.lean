import Tqsim.TraceAnalyzer.Helpers.Ownership

/-!
# What the calls on queues do

Each function of `inst_queue.c` as a change of the lists that the queues
hold. A push takes an element from the pool; `push_front_inst` does so even
where there is no room for it. No removal gives an element back.
-/

namespace Tqsim

namespace TraceAnalyzer

open Function

variable {ι α : Type} [DecidableEq ι] {s s' : InstMem ι α} {own : Option ι → List ℕ}
  {E : Option ι → Prop} {a : ι} {e : ℕ} {inst : α}

theorem InstList.isFullQueue_eq_false_iff (q : InstList) :
    q.isFullQueue = false ↔ q.HasRoom := by
  simp only [InstList.isFullQueue, InstList.HasRoom]
  split
  · simp [*]
  · simp [*]

namespace InstMem

/-- **What a push does**, apart from where the element goes. -/
structure Placed (s : InstMem ι α) (own : Option ι → List ℕ) (inst : α) (e : ℕ)
    (s' : InstMem ι α) : Prop where
  fresh : ∀ b : ι, e ∉ own (some b)
  inst_self : s'.inst e = some inst
  inst : ∀ x ≠ e, s'.inst x = s.inst x
  capacity : ∀ b, (s'.queue b).capacity = (s.queue b).capacity
  freed : s'.freed = s.freed
  numElems : s'.numElems = s.numElems + if own none = [] then 1 else 0

theorem Took.fresh (h : Took s own e s') (b : ι) : e ∉ own (some b) := by
  simpa using h.loose.1 (some b)

/-- **`push_back_inst`** where there is room, on a queue whose pointer to the
newest element is right. -/
theorem Owns.pushBackInst (h : Owns E s own) (hroom : (s.queue (some a)).HasRoom)
    (hnew : (s.queue (some a)).newestInstElem = (own (some a)).getLast?) (inst : α) :
    ∃ e s', s.pushBackInst a inst = some (some e, s') ∧ Placed s own inst e s' ∧
      Owns E s' (update (update own none (own none).tail) (some a) (own (some a) ++ [e])) := by
  obtain ⟨e, s₁, hget, htook⟩ := h.getInstElemFromPool
  -- the element before it is linked
  let s₂ : InstMem ι α := { s₁ with
    inst := update s₁.inst e (some inst)
    links := (s₁.links.setNext e none).setPrev e (s₁.queue (some a)).newestInstElem }
  have hown : Owns E s₂ (update own none (own none).tail) := by
    have h₁ := htook.owns E h
    have hout := htook.loose.1
    exact h₁.congr (fun b => (h₁.seg b).setBoth_of_notMem (hout b) _ _) rfl rfl le_rfl
  have hroom₂ : (s₂.queue (some a)).HasRoom := by
    show (s₁.queue (some a)).HasRoom
    rwa [htook.queue a]
  have hnew₂ : (s₂.queue (some a)).newestInstElem =
      (update own none (own none).tail (some a)).getLast? := by
    show (s₁.queue (some a)).newestInstElem = _
    rw [htook.queue a, hnew, update_of_ne (by simp)]
  obtain ⟨links, q, hpush, hcap, howns⟩ := hown.pushBackInstElem htook.loose hroom₂ hnew₂
  rw [update_of_ne (show some a ≠ none by simp) _ own] at howns
  refine ⟨e, { s₂ with links := links }.setQueue (some a) q, ?_, ⟨htook.fresh, ?_,
    fun x hx => ?_, fun b => ?_, htook.freed, htook.numElems⟩, howns⟩
  · rw [InstMem.pushBackInst, if_pos hroom, hget, Option.bind_some]
    simp only
    rw [show s₂.pushBackInstElem (some a) e = _ from hpush, Option.map_some]
  · exact update_self e (some inst) s₁.inst
  · exact (update_of_ne hx _ _).trans (htook.inst x hx)
  · by_cases hb : b = some a
    · simp only [setQueue, hb, update_self, hcap]
      exact htook.capacity _
    · simp only [setQueue, update_of_ne hb]
      exact htook.capacity b

theorem pushBackInst_of_full (hroom : ¬ (s.queue (some a)).HasRoom) (inst : α) :
    s.pushBackInst a inst = some (none, s) := if_neg hroom

/-- `push_back_inst` follows a null pointer, where there is an element but no
pointer to the newest one. -/
theorem Owns.pushBackInst_of_null (h : Owns E s own) (hroom : (s.queue (some a)).HasRoom)
    (hne : own (some a) ≠ []) (hnew : (s.queue (some a)).newestInstElem = none) (inst : α) :
    s.pushBackInst a inst = none := by
  obtain ⟨e, s₁, hget, htook⟩ := h.getInstElemFromPool
  have hsize : 0 < (s.queue (some a)).size := by
    have hpos := List.length_pos_iff.2 hne
    rw [h.size]
    omega
  rw [InstMem.pushBackInst, if_pos hroom, hget, Option.bind_some]
  simp only [InstMem.pushBackInstElem, htook.queue a, if_pos hroom, if_pos hsize, hnew,
    Option.map_none]

/-- **`push_front_inst`** where there is room. -/
theorem Owns.pushFrontInst (h : Owns E s own) (hroom : (s.queue (some a)).HasRoom)
    (hE : E (some a) → own (some a) ≠ []) (inst : α) :
    ∃ e s', s.pushFrontInst a inst = some s' ∧ Placed s own inst e s' ∧
      (s'.queue (some a)).newestInstElem = (s.queue (some a)).newestInstElem ∧
      Owns E s' (update (update own none (own none).tail) (some a) (e :: own (some a))) := by
  obtain ⟨e, s₁, hget, htook⟩ := h.getInstElemFromPool
  let s₂ : InstMem ι α := { s₁ with inst := update s₁.inst e (some inst) }
  have hown : Owns E s₂ (update own none (own none).tail) :=
    (htook.owns E h).congr (htook.owns E h).seg rfl rfl le_rfl
  have hsome : update own none (own none).tail (some a) = own (some a) := update_of_ne (by simp) _ _
  have howns := hown.pushFront (a := some a) htook.loose (by rwa [hsome])
  rw [hsome] at howns
  have hqueue : s₂.queue (some a) = s.queue (some a) := htook.queue a
  refine ⟨e, { s₂ with
      links := ((s₂.links.setNext e (own (some a)).head?).setPrev e none).setPrevAt
        (own (some a)).head? (some e) }.setQueue (some a)
          { s₂.queue (some a) with
            oldestInstElem := some e, size := (s₂.queue (some a)).size + 1 },
    ?_, ⟨htook.fresh, ?_, fun x hx => ?_, fun b => ?_, htook.freed, htook.numElems⟩, ?_, howns⟩
  · rw [InstMem.pushFrontInst, hget, Option.bind_some]
    simp only
    rw [show s₁.queue (some a) = s.queue (some a) from htook.queue a, if_pos hroom,
      h.oldest (some a)]
    cases hl : own (some a) with
    | nil =>
      have hsize : ¬ 0 < (s.queue (some a)).size := by simp [h.size, hl]
      rw [if_neg hsize]
      rfl
    | cons o l =>
      have hsize : 0 < (s.queue (some a)).size := by
        rw [h.size, hl, List.length_cons]
        omega
      rw [if_pos hsize]
      rfl
  · exact update_self e (some inst) s₁.inst
  · exact (update_of_ne hx _ _).trans (htook.inst x hx)
  · by_cases hb : b = some a
    · simp only [setQueue, hb, update_self]
      exact htook.capacity _
    · simp only [setQueue, update_of_ne hb]
      exact htook.capacity b
  · simp only [setQueue, update_self, hqueue]

/-- `push_front_inst` on a full queue: the element that it took is lost. -/
theorem Owns.pushFrontInst_of_full (h : Owns E s own) (hroom : ¬ (s.queue (some a)).HasRoom)
    (inst : α) :
    ∃ e s', s.pushFrontInst a inst = some s' ∧ Placed s own inst e s' ∧
      Owns E s' (update own none (own none).tail) := by
  obtain ⟨e, s₁, hget, htook⟩ := h.getInstElemFromPool
  refine ⟨e, { s₁ with inst := update s₁.inst e (some inst) }, ?_, ⟨htook.fresh, ?_,
    fun x hx => ?_, htook.capacity, htook.freed, htook.numElems⟩,
    (htook.owns E h).congr (htook.owns E h).seg rfl rfl le_rfl⟩
  · rw [InstMem.pushFrontInst, hget, Option.bind_some]
    simp only
    rw [htook.queue a, if_neg hroom]
  · exact update_self e (some inst) s₁.inst
  · exact (update_of_ne hx _ _).trans (htook.inst x hx)

/-- **What a removal does**, apart from where the element was. -/
structure Removed (s : InstMem ι α) (e : ℕ) (s' : InstMem ι α) : Prop where
  inst : s'.inst = s.inst
  capacity : ∀ b, (s'.queue b).capacity = (s.queue b).capacity
  freed : s'.freed = if (s.queue none).HasRoom then e :: s.freed else s.freed
  numElems : s'.numElems = s.numElems

/-- **`remove_from_list`** of an element in the queue. It is freed where the pool
has room for it, and lost otherwise. -/
theorem Owns.removeFromList (h : Owns E s own) (he : e ∈ own (some a)) :
    ∃ s', s.removeFromList (some a) e true = some s' ∧ Removed s e s' ∧
      Owns E s' (update own (some a) ((own (some a)).erase e)) := by
  have howns := h.shrink_unlink he
  have hpool : (s.unlink (some a) e).queue none = s.queue none := by simp [unlink, setQueue]
  have hcap : ∀ b, (((s.unlink (some a) e).shrink (some a)).queue b).capacity =
      (s.queue b).capacity := by
    intro b
    by_cases hb : b = some a
    · simp [hb, unlink, shrink, setQueue]
    · simp [hb, unlink, shrink, setQueue]
  unfold InstMem.removeFromList
  simp only [if_true, hpool]
  by_cases hroom : (s.queue none).HasRoom
  · rw [(InstList.isFullQueue_eq_false_iff _).2 hroom, if_neg (by simp)]
    exact ⟨_, rfl, ⟨rfl, hcap, (if_pos hroom).symm, rfl⟩, howns.free (h.loose_erase he)⟩
  · have hfull : (s.queue none).isFullQueue = true := by
      rw [← Bool.not_eq_false, InstList.isFullQueue_eq_false_iff]
      exact hroom
    have hpush : (s.unlink (some a) e).pushBackInstElem none e =
        some (none, s.unlink (some a) e) := by
      unfold InstMem.pushBackInstElem
      simp only [hpool, if_neg hroom]
    rw [if_pos hfull, hpush, Option.map_some]
    exact ⟨_, rfl, ⟨rfl, hcap, (if_neg hroom).symm, rfl⟩, howns⟩

/-! ## The start -/

/-- The pool holds the first elements, and the other queues none. -/
def poolOwn (ι : Type) (n : ℕ) : Option ι → List ℕ
  | none => List.range n
  | some _ => []

/-- The loop that fills the pool. -/
theorem initInstElemPoolLoop_owns (hcap : (s.queue none).capacity = instElemPoolSize)
    (hown : Owns (fun _ => True) s (poolOwn ι 0)) (hnum : s.numElems = 0) {i : ℕ}
    (hi : i ≤ instElemPoolSize) :
    ∃ s', s.initInstElemPoolLoop i = some s' ∧ Owns (fun _ => True) s' (poolOwn ι i) ∧
      s'.numElems = i ∧ ∀ a, (s'.queue a).capacity = (s.queue a).capacity := by
  induction i with
  | zero => exact ⟨s, rfl, hown, hnum, fun _ => rfl⟩
  | succ i ih =>
    obtain ⟨t, ht, htown, htnum, htcap⟩ := ih (Nat.le_of_succ_le hi)
    have hnew : ∀ a, t.numElems ∉ poolOwn ι i a := fun a hmem =>
      absurd (htown.allocated a _ hmem).1 (lt_irrefl _)
    let u : InstMem ι α := t.malloc.2.initInstElem t.numElems none
    have hu : Owns (fun _ => True) u (poolOwn ι i) :=
      htown.congr (fun a => (htown.seg a).setBoth_of_notMem (hnew a) _ _) rfl rfl (Nat.le_succ _)
    have hloose : Loose u (poolOwn ι i) t.numElems :=
      ⟨hnew, Nat.lt_succ_self _, fun hmem => absurd (htown.freed _ hmem) (lt_irrefl _)⟩
    have hroom : (u.queue none).HasRoom := by
      refine .inr ?_
      have hsize := hu.size none
      have hucap : (u.queue none).capacity = instElemPoolSize := (htcap none).trans hcap
      rw [poolOwn, List.length_range] at hsize
      rw [hsize, hucap]
      omega
    obtain ⟨links, q, hpush, hqcap, howns⟩ :=
      hu.pushBackInstElem hloose hroom (hu.newest none trivial)
    refine ⟨{ u with links := links }.setQueue none q, ?_, ?_, congrArg (· + 1) htnum, fun a => ?_⟩
    · rw [initInstElemPoolLoop, ht, Option.bind_some]
      simp only [malloc]
      rw [show (InstMem.initInstElem { t with numElems := t.numElems + 1 } t.numElems
        none).pushBackInstElem none t.numElems = _ from hpush]
      rfl
    · have heq : update (poolOwn ι i) none (poolOwn ι i none ++ [t.numElems]) =
          poolOwn ι (i + 1) := by
        funext a
        cases a with
        | none => simp [poolOwn, htnum, List.range_succ]
        | some a => simp [poolOwn]
      rwa [heq] at howns
    · cases a with
      | none =>
        simp only [setQueue, update_self, hqcap]
        exact htcap none
      | some a =>
        simp only [setQueue, update_of_ne (show some a ≠ none by simp)]
        exact htcap (some a)

/-- **The start**: the pool holds all elements. -/
theorem initial_owns (capacity : ι → ℤ) :
    ∃ s : InstMem ι α, initial capacity = some s ∧
      Owns (fun _ => True) s (poolOwn ι instElemPoolSize) ∧ s.numElems = instElemPoolSize ∧
      (s.queue none).capacity = instElemPoolSize ∧
      ∀ a, (s.queue (some a)).capacity = capacity a := by
  let s₀ : InstMem ι α :=
    { inst := fun _ => none
      links := ⟨fun _ => none, fun _ => none⟩
      numElems := 0
      freed := []
      queue := fun a => .initInstQueue (a.elim 0 capacity) }
  have hempty : poolOwn ι 0 = fun _ => [] := by
    funext a
    cases a <;> rfl
  have hown : Owns (fun _ => True) (s₀.setQueue none (.initInstQueue instElemPoolSize))
      (poolOwn ι 0) := by
    rw [hempty]
    refine ⟨fun _ => trivial, fun a => ?_, fun a _ => ?_, fun a => .inr ?_, fun a => ?_,
      fun _ => List.nodup_nil, by simp, by simp, by simp [s₀, setQueue]⟩
    all_goals cases a <;> rfl
  obtain ⟨s, hs, hsown, hnum, hcap⟩ := initInstElemPoolLoop_owns (α := α)
    (by simp [setQueue, InstList.initInstQueue]) hown rfl le_rfl
  refine ⟨s, hs, hsown, hnum, ?_, fun a => ?_⟩
  · rw [hcap none]
    simp [setQueue, InstList.initInstQueue]
  · rw [hcap (some a)]
    simp [setQueue, InstList.initInstQueue, s₀]

end InstMem

end TraceAnalyzer

end Tqsim
