import Tqsim.TraceAnalyzer.Model.InstList

/-!
# Who holds an element

Every queue, the pool included, holds a list of elements, and no two of them
the same one. What each function does to the memory is a change of these
lists: an element is taken out of one, put at the front of one, or added at
the end of one. The pointer to the newest element is the last of the list, or
null where `push_front_inst` has left it so; `E` says for which queues it is
known not to be.
-/

namespace Tqsim

namespace TraceAnalyzer

open Function

variable {ι α : Type} {s s' : InstMem ι α} {own : Option ι → List ℕ} {E : Option ι → Prop}
  {a b : Option ι} {e : ℕ}

namespace InstMem

/-- What `remove_from_list` writes, for an element that is not its own
neighbour. -/
theorem shrink_unlink_eq [DecidableEq ι] (s : InstMem ι α) (a : Option ι) {e : ℕ}
    (hnext : s.links.next e ≠ some e) (hprev : s.links.prev e ≠ some e) :
    (s.unlink a e).shrink a =
      { s with
        links := (((s.links.setPrevAt (s.links.next e) (s.links.prev e)).setNextAt
          (s.links.prev e) (s.links.next e)).setNext e none).setPrev e none }.setQueue a
        { oldestInstElem :=
            if (s.queue a).oldestInstElem = some e then s.links.next e
            else (s.queue a).oldestInstElem
          newestInstElem :=
            if (s.queue a).newestInstElem = some e then s.links.prev e
            else (s.queue a).newestInstElem
          size := (s.queue a).size - 1
          capacity := (s.queue a).capacity } := by
  have hprev' : (s.links.setPrevAt (s.links.next e) (s.links.prev e)).prev e = s.links.prev e :=
    Links.setPrevAt_prev_of_ne _ hnext
  have hnext' : ((s.links.setPrevAt (s.links.next e) (s.links.prev e)).setNextAt (s.links.prev e)
      (s.links.next e)).next e = s.links.next e := by
    rw [Links.setNextAt_next_of_ne _ hprev, Links.setPrevAt_next]
  simp only [shrink, unlink, setQueue, update_self, update_idem, hprev', Links.setPrevAt_next,
    hnext', Links.setNextAt_prev]

/-- **The memory holds lists.** -/
structure Owns (E : Option ι → Prop) (s : InstMem ι α) (own : Option ι → List ℕ) : Prop where
  seg : ∀ a, s.links.Seg none (own a) none
  oldest : ∀ a, (s.queue a).oldestInstElem = (own a).head?
  newest : ∀ a, E a → (s.queue a).newestInstElem = (own a).getLast?
  newest_or : ∀ a, (s.queue a).newestInstElem = (own a).getLast? ∨
    (s.queue a).newestInstElem = none
  size : ∀ a, (s.queue a).size = (own a).length
  nodup : ∀ a, (own a).Nodup
  disjoint : ∀ a b e, e ∈ own a → e ∈ own b → a = b
  allocated : ∀ a, ∀ e ∈ own a, e < s.numElems ∧ e ∉ s.freed
  freed : ∀ e ∈ s.freed, e < s.numElems

/-- An element that no queue holds. -/
def Loose (s : InstMem ι α) (own : Option ι → List ℕ) (e : ℕ) : Prop :=
  (∀ a, e ∉ own a) ∧ e < s.numElems ∧ e ∉ s.freed

namespace Owns

theorem notMem_of_ne (h : Owns E s own) (he : e ∈ own a) (hb : b ≠ a) : e ∉ own b :=
  fun hmem => hb (h.disjoint b a e hmem he)

/-- Nothing that the lists depend on changes. -/
theorem congr (h : Owns E s own) (hlinks : ∀ a, s'.links.Seg none (own a) none)
    (hqueue : s'.queue = s.queue) (hfreed : s'.freed = s.freed) (hnum : s.numElems ≤ s'.numElems) :
    Owns E s' own where
  seg := hlinks
  oldest a := by rw [hqueue]; exact h.oldest a
  newest a := by rw [hqueue]; exact h.newest a
  newest_or a := by rw [hqueue]; exact h.newest_or a
  size a := by rw [hqueue]; exact h.size a
  nodup := h.nodup
  disjoint := h.disjoint
  allocated a e he := by
    obtain ⟨hlt, hnot⟩ := h.allocated a e he
    exact ⟨hlt.trans_le hnum, hfreed ▸ hnot⟩
  freed e he := (h.freed e (hfreed ▸ he)).trans_le hnum

/-- An element that no queue holds is freed. -/
theorem free (h : Owns E s own) (he : Loose s own e) : Owns E (s.free e) own :=
  { h with
    allocated := fun a x hx => by
      obtain ⟨hlt, hnot⟩ := h.allocated a x hx
      refine ⟨hlt, fun hmem => ?_⟩
      rcases List.mem_cons.1 hmem with rfl | hmem
      · exact he.1 a hx
      · exact hnot hmem
    freed := fun x hx => by
      rcases List.mem_cons.1 hx with rfl | hx
      · exact he.2.1
      · exact h.freed x hx }

variable [DecidableEq ι]

/-- The links of one list are written, and its elements may change. -/
theorem setList (h : Owns E s own) {links : Links ℕ} {q : InstList} {l : List ℕ}
    (hlinks : ∀ b ≠ a, links.Seg none (own b) none) (hseg : links.Seg none l none)
    (holdest : q.oldestInstElem = l.head?)
    (hnewest : E a → q.newestInstElem = l.getLast?)
    (hnewest' : q.newestInstElem = l.getLast? ∨ q.newestInstElem = none)
    (hsize : q.size = l.length) (hnodup : l.Nodup)
    (hmem : ∀ e ∈ l, e ∈ own a ∨ Loose s own e) :
    Owns E ({ s with links := links }.setQueue a q) (update own a l) := by
  have hout : ∀ b ≠ a, ∀ e ∈ own b, e ∉ l := by
    intro b hb e he hel
    rcases hmem e hel with hea | hloose
    · exact h.notMem_of_ne hea hb he
    · exact hloose.1 b he
  refine ⟨fun b => ?_, fun b => ?_, fun b => ?_, fun b => ?_, fun b => ?_, fun b => ?_,
    fun b c e => ?_, fun b e => ?_, h.freed⟩
  all_goals by_cases hb : b = a
  all_goals simp only [setQueue, hb, update_self, ne_eq, not_false_eq_true, update_of_ne]
  · exact hseg
  · exact hlinks b hb
  · exact holdest
  · exact h.oldest b
  · exact hnewest
  · exact h.newest b
  · exact hnewest'
  · exact h.newest_or b
  · exact hsize
  · exact h.size b
  · exact hnodup
  · exact h.nodup b
  · intro he he'
    by_contra hc
    rw [update_of_ne (Ne.symm hc)] at he'
    exact hout c (Ne.symm hc) e he' he
  · intro he he'
    by_cases hc : c = a
    · rw [hc, update_self] at he'
      exact absurd he' (hout b hb e he)
    · rw [update_of_ne hc] at he'
      exact h.disjoint b c e he he'
  · intro he
    rcases hmem e he with hea | hloose
    · exact h.allocated a e hea
    · exact hloose.2
  · exact h.allocated b e

/-- **An element is taken out.** -/
theorem shrink_unlink (h : Owns E s own) (he : e ∈ own a) :
    Owns E ((s.unlink a e).shrink a) (update own a ((own a).erase e)) := by
  obtain ⟨l₁, l₂, hown, hl₁⟩ := List.eq_append_cons_of_mem he
  have hseg := hown ▸ h.seg a
  have hnd := hown ▸ h.nodup a
  obtain ⟨hmem, hnd'⟩ := List.nodup_cons.1 (List.perm_middle.nodup_iff.1 hnd)
  have hl₂ : e ∉ l₂ := fun hx => hmem (List.mem_append_right l₁ hx)
  have hnext : s.links.next e = l₂.head? := by rw [hseg.next_eq, Option.or_none]
  have hprev : s.links.prev e = l₁.getLast? := by rw [hseg.prev_eq, Option.or_none]
  have herase : (own a).erase e = l₁ ++ l₂ := by
    rw [hown, List.erase_append_right _ hl₁, List.erase_cons_head]
  have hlast : (if (own a).getLast? = some e then s.links.prev e else (own a).getLast?) =
      (l₁ ++ l₂).getLast? := by
    rw [hown, hprev]
    cases l₂ with
    | nil => simp
    | cons c l₂ =>
      have hne : (c :: l₂).getLast? ≠ some e := fun heq => hl₂ (List.mem_of_getLast? heq)
      simp only [List.getLast?_append, List.getLast?_cons_cons]
      rw [List.getLast?_eq_some_getLast (List.cons_ne_nil c l₂)] at hne ⊢
      simp only [Option.some_or]
      exact if_neg hne
  rw [shrink_unlink_eq s a (by rw [hnext]; exact fun heq => hl₂ (List.mem_of_head? heq))
    (by rw [hprev]; exact fun heq => hl₁ (List.mem_of_getLast? heq)), herase]
  refine h.setList (fun b hb => ?_) ?_ ?_ (fun hE => ?_) ?_ ?_ hnd' fun x hx => .inl ?_
  · -- the nodes written are in this list
    have hout : ∀ x ∈ own a, x ∉ own b := fun x hx => h.notMem_of_ne hx hb
    refine (((h.seg b).setPrevAt_of_notMem (fun x hx => hout x ?_) _).setNextAt_of_notMem
      (fun x hx => hout x ?_) _).setBoth_of_notMem (hout e he) _ _
    · rw [hnext] at hx
      simp [hown, List.mem_of_head? hx]
    · rw [hprev] at hx
      simp [hown, List.mem_of_getLast? hx]
  · exact (hseg.unlink hnd).setBoth_of_notMem hmem _ _
  · rw [h.oldest a, hnext, hown]
    cases l₁ with
    | nil => simp
    | cons c l₁ =>
      have hc : c ≠ e := fun heq => hl₁ (by simp [heq])
      simp [hc]
  · rw [h.newest a hE]
    exact hlast
  · rcases h.newest_or a with hnew | hnew
    · rw [hnew]
      exact .inl hlast
    · exact .inr (by rw [hnew]; simp)
  · rw [h.size a, hown]
    simp only [List.length_append, List.length_cons]
    omega
  · rw [hown]
    simp only [List.mem_append, List.mem_cons] at hx ⊢
    tauto

/-- **An element is added at the end**, of a queue whose pointer to the newest
element is right. -/
theorem pushBackInstElem (h : Owns E s own) (he : Loose s own e) (hroom : (s.queue a).HasRoom)
    (hnew : (s.queue a).newestInstElem = (own a).getLast?) :
    ∃ (links : Links ℕ) (q : InstList), s.pushBackInstElem a e =
        some (some e, { s with links := links }.setQueue a q) ∧
      q.capacity = (s.queue a).capacity ∧
      Owns E ({ s with links := links }.setQueue a q) (update own a (own a ++ [e])) := by
  have hmem : ∀ x ∈ own a ++ [e], x ∈ own a ∨ Loose s own x := by
    intro x hx
    rcases List.mem_append.1 hx with hx | hx
    · exact .inl hx
    · exact .inr (List.mem_singleton.1 hx ▸ he)
  have hnd : (own a ++ [e]).Nodup :=
    List.nodup_append.2 ⟨h.nodup a, by simp, fun x hx y hy heq =>
      he.1 a (by rwa [← List.mem_singleton.1 hy, ← heq])⟩
  have hother : ∀ b, (((s.links.setNext e none).setPrev e (s.queue a).newestInstElem)).Seg none
      (own b) none := fun b =>
    (h.seg b).setBoth_of_notMem (he.1 b) _ _
  unfold InstMem.pushBackInstElem
  simp only [if_pos hroom]
  rcases List.eq_nil_or_concat (own a) with hnil | ⟨init, last, hlast⟩
  · -- the queue is empty
    have hsize : ¬ 0 < (s.queue a).size := by simp [h.size a, hnil]
    rw [if_neg hsize]
    refine ⟨_, _, rfl, rfl, h.setList (fun b _ => hother b) ?_ ?_ (fun _ => ?_) (.inl ?_) ?_ hnd
      hmem⟩
    · rw [hnew, hnil]
      exact ⟨by simp, by simp, trivial⟩
    · simp [hnil]
    · simp
    · simp
    · simp [h.size a, hnil]
  · rw [List.concat_eq_append] at hlast
    have hsize : 0 < (s.queue a).size := by
      simp only [h.size a, hlast, List.length_append, List.length_singleton]
      omega
    have hnew' : (s.queue a).newestInstElem = some last := by simp [hnew, hlast]
    rw [if_pos hsize]
    simp only [hnew', Option.map_some]
    refine ⟨_, _, rfl, rfl, h.setList (fun b hb => ?_) ?_ ?_ (fun _ => ?_) (.inl ?_) ?_ hnd hmem⟩
    · have hout : last ∉ own b := h.notMem_of_ne (a := a) (by simp [hlast]) hb
      have := hother b
      rw [hnew'] at this
      exact this.setNext_of_notMem hout _
    · have hseg := (h.seg a).setNext_of_notMem (he.1 a) none
      have he' := he.1 a
      have hnd' := h.nodup a
      rw [hlast] at hseg he' hnd' ⊢
      exact hseg.pushBack hnd' he' (by simp)
    · rw [h.oldest a, hlast]
      cases init <;> simp
    · simp
    · simp
    · simp only [h.size a, hlast, List.length_append, List.length_singleton]
      omega

/-- **An element is put at the front.** That leaves the pointer to the newest
element of an empty queue null. -/
theorem pushFront (h : Owns E s own) (he : Loose s own e) (hE : E a → own a ≠ []) :
    Owns E ({ s with
      links := (((s.links.setNext e (own a).head?).setPrev e none)).setPrevAt (own a).head?
        (some e) }.setQueue a
          { s.queue a with oldestInstElem := some e, size := (s.queue a).size + 1 })
      (update own a (e :: own a)) := by
  have hmem : ∀ x ∈ e :: own a, x ∈ own a ∨ Loose s own x := by
    intro x hx
    rcases List.mem_cons.1 hx with rfl | hx
    · exact .inr he
    · exact .inl hx
  refine h.setList (fun b hb => ?_) ?_ rfl (fun ha => ?_) ?_ ?_
    (List.nodup_cons.2 ⟨he.1 a, h.nodup a⟩) hmem
  · exact ((h.seg b).setBoth_of_notMem (he.1 b) _ _).setPrevAt_of_notMem
      (fun x hx => h.notMem_of_ne (List.mem_of_head? hx) hb) _
  · have hseg := ((h.seg a).setPrev_of_notMem (he.1 a) none)
    have hnd := h.nodup a
    have hout := he.1 a
    cases hown : own a with
    | nil => exact ⟨by simp [Links.setPrevAt], by simp [Links.setPrevAt], trivial⟩
    | cons o l =>
      rw [hown] at hseg hnd hout
      have hpush := hseg.pushFront hnd hout
      rw [Links.setPrev_prev_self] at hpush
      exact hpush
  · rw [h.newest a ha, List.getLast?_cons, List.getLast?_eq_some_getLast (hE ha)]
    simp
  · rcases h.newest_or a with hnew | hnew
    · cases hown : own a with
      | nil => exact .inr (by rw [hnew, hown]; rfl)
      | cons o l => exact .inl (by rw [hnew, hown, List.getLast?_cons_cons])
    · exact .inr hnew
  · simp [h.size a]

/-- The element that was taken out is held by no queue. -/
theorem loose_erase (h : Owns E s own) (he : e ∈ own a) :
    Loose s (update own a ((own a).erase e)) e := by
  refine ⟨fun b hb => ?_, h.allocated a e he⟩
  by_cases hba : b = a
  · rw [hba, update_self] at hb
    exact (List.Nodup.mem_erase_iff (h.nodup a)).1 hb |>.1 rfl
  · rw [update_of_ne hba] at hb
    exact h.notMem_of_ne he hba hb

end Owns

/-! ## Elements from the pool -/

variable [DecidableEq ι]

/-- **An element has been taken from the pool**, or allocated where the pool is
empty. -/
structure Took (s : InstMem ι α) (own : Option ι → List ℕ) (e : ℕ) (s' : InstMem ι α) : Prop where
  owns : ∀ E, Owns E s own → Owns E s' (update own none (own none).tail)
  loose : Loose s' (update own none (own none).tail) e
  freed : s'.freed = s.freed
  queue : ∀ b : ι, s'.queue (some b) = s.queue (some b)
  capacity : ∀ b, (s'.queue b).capacity = (s.queue b).capacity
  inst : ∀ x ≠ e, s'.inst x = s.inst x
  numElems : s'.numElems = s.numElems + if own none = [] then 1 else 0

theorem Owns.getInstElemFromPool (h : Owns E s own) :
    ∃ e s', s.getInstElemFromPool = some (e, s') ∧ Took s own e s' := by
  unfold InstMem.getInstElemFromPool
  rw [h.oldest none]
  cases hpool : own none with
  | nil =>
    -- `malloc` returns a new element
    have hnew : ∀ a, s.numElems ∉ own a := fun a hmem =>
      absurd (h.allocated a _ hmem).1 (lt_irrefl _)
    have hown : update own none ([] : List ℕ).tail = own := by
      rw [List.tail_nil, ← hpool, update_eq_self]
    refine ⟨s.numElems, _, rfl, ?_⟩
    refine ⟨fun E h => ?_, ?_, rfl, fun _ => rfl, fun _ => rfl, fun x hx => update_of_ne hx _ _, ?_⟩
    · rw [hpool, hown]
      exact h.congr (fun a => (h.seg a).setBoth_of_notMem (hnew a) _ _) rfl rfl (Nat.le_succ _)
    · rw [hpool, hown]
      exact ⟨hnew, Nat.lt_succ_self _, fun hmem => absurd (h.freed _ hmem) (lt_irrefl _)⟩
    · rw [if_pos hpool]
      rfl
  | cons e l =>
    have he : e ∈ own none := by simp [hpool]
    have herase : (own none).erase e = (own none).tail := by simp [hpool]
    have hloose := h.loose_erase he
    rw [herase] at hloose
    refine ⟨e, _, rfl, ?_⟩
    refine ⟨fun E h => ?_, hloose, rfl, fun b => ?_, fun b => ?_,
      fun x hx => update_of_ne hx _ _, ?_⟩
    · have hown := h.shrink_unlink he
      rw [herase] at hown
      exact hown.congr (fun a => (hown.seg a).setBoth_of_notMem (hloose.1 a) _ _) rfl rfl le_rfl
    · simp [initInstElem, shrink, unlink, setQueue]
    · cases b <;> simp [initInstElem, shrink, unlink, setQueue]
    · simp [hpool, initInstElem, shrink, unlink, setQueue]

end InstMem

end TraceAnalyzer

end Tqsim
