import Mathlib.Tactic

/-!
# Doubly linked lists

The link fields of a heap of nodes, apart from the other fields, and the
list that a part of the heap spells: `Seg L p l n` says that the nodes `l`
follow each other in the order of the list, the first one with the
predecessor `p` and the last one with the successor `n`. Pointer programs
write a few link fields; the rules below say what list there is after the
writes that take a node out, put one in front, or add one at the end, and
what the loops that follow the links find, in either direction.
-/

/-- The two link fields of every node. -/
structure Links (α : Type*) where
  next : α → Option α
  prev : α → Option α

namespace Links

variable {α : Type*} {L L' : Links α} {a b : α} {l l₁ l₂ : List α} {p n : Option α}

/-! ## Writes -/

section Writes

variable [DecidableEq α]

def setNext (L : Links α) (a : α) (v : Option α) : Links α :=
  { L with next := Function.update L.next a v }

def setPrev (L : Links α) (a : α) (v : Option α) : Links α :=
  { L with prev := Function.update L.prev a v }

/-- A write behind a pointer that may be null. -/
def setNextAt (L : Links α) (x v : Option α) : Links α := x.elim L (L.setNext · v)

def setPrevAt (L : Links α) (x v : Option α) : Links α := x.elim L (L.setPrev · v)

@[simp] theorem setNext_next_self (v : Option α) : (L.setNext a v).next a = v := by
  simp [setNext]

@[simp] theorem setNext_next_of_ne (v : Option α) (h : b ≠ a) :
    (L.setNext a v).next b = L.next b := by
  simp [setNext, h]

@[simp] theorem setNext_prev (v : Option α) : (L.setNext a v).prev = L.prev := rfl

@[simp] theorem setPrev_prev_self (v : Option α) : (L.setPrev a v).prev a = v := by
  simp [setPrev]

@[simp] theorem setPrev_prev_of_ne (v : Option α) (h : b ≠ a) :
    (L.setPrev a v).prev b = L.prev b := by
  simp [setPrev, h]

@[simp] theorem setPrev_next (v : Option α) : (L.setPrev a v).next = L.next := rfl

@[simp] theorem setNextAt_prev (x v : Option α) : (L.setNextAt x v).prev = L.prev := by
  cases x <;> rfl

@[simp] theorem setPrevAt_next (x v : Option α) : (L.setPrevAt x v).next = L.next := by
  cases x <;> rfl

theorem setNextAt_next_of_ne {x : Option α} (v : Option α) (h : x ≠ some b) :
    (L.setNextAt x v).next b = L.next b := by
  cases x with
  | none => rfl
  | some a => exact setNext_next_of_ne v fun he => h (by rw [he])

theorem setPrevAt_prev_of_ne {x : Option α} (v : Option α) (h : x ≠ some b) :
    (L.setPrevAt x v).prev b = L.prev b := by
  cases x with
  | none => rfl
  | some a => exact setPrev_prev_of_ne v fun he => h (by rw [he])

/-- Writes to different fields commute. -/
theorem setPrevAt_setNextAt (x y v w : Option α) :
    (L.setPrevAt x v).setNextAt y w = (L.setNextAt y w).setPrevAt x v := by
  cases x <;> cases y <;> rfl

end Writes

/-! ## Segments -/

/-- The nodes of a list follow each other, between a predecessor and a
successor. -/
def Seg (L : Links α) : Option α → List α → Option α → Prop
  | _, [], _ => True
  | p, a :: l, n => L.prev a = p ∧ L.next a = l.head?.or n ∧ Seg L (some a) l n

/-- The cut of a segment. -/
theorem seg_append : L.Seg p (l₁ ++ l₂) n ↔
    L.Seg p l₁ (l₂.head?.or n) ∧ L.Seg (l₁.getLast?.or p) l₂ n := by
  induction l₁ generalizing p with
  | nil => simp [Seg]
  | cons a l₁ ih =>
    have hhead : (l₁ ++ l₂).head?.or n = l₁.head?.or (l₂.head?.or n) := by
      cases l₁ <;> simp
    have hlast : (a :: l₁).getLast?.or p = l₁.getLast?.or (some a) := by
      cases l₁ <;> simp [List.getLast?_cons]
    simp only [List.cons_append, Seg, ih, hhead, hlast]
    tauto

/-- Only the link fields of the nodes matter. -/
theorem Seg.congr (h : L.Seg p l n) (hnext : ∀ a ∈ l, L'.next a = L.next a)
    (hprev : ∀ a ∈ l, L'.prev a = L.prev a) : L'.Seg p l n := by
  induction l generalizing p with
  | nil => trivial
  | cons a l ih =>
    obtain ⟨h1, h2, h3⟩ := h
    exact ⟨(hprev a (by simp)).trans h1, (hnext a (by simp)).trans h2,
      ih h3 (fun x hx => hnext x (by simp [hx])) fun x hx => hprev x (by simp [hx])⟩

theorem Seg.next_eq (h : L.Seg p (l₁ ++ b :: l₂) n) : L.next b = l₂.head?.or n :=
  (seg_append.1 h).2.2.1

theorem Seg.prev_eq (h : L.Seg p (l₁ ++ b :: l₂) n) : L.prev b = l₁.getLast?.or p :=
  (seg_append.1 h).2.1

/-- A segment, field by field: its ends, and that the nodes between them are
linked in both directions. -/
theorem seg_iff_isChain : L.Seg p l n ↔ (∀ a ∈ l.head?, L.prev a = p) ∧
    (∀ a ∈ l.getLast?, L.next a = n) ∧
      l.IsChain fun a b => L.next a = some b ∧ L.prev b = some a := by
  induction l generalizing p with
  | nil => simp [Seg]
  | cons a l ih =>
    cases l with
    | nil => simp [Seg]
    | cons b l =>
      rw [Seg, ih, List.isChain_cons_cons, List.getLast?_cons_cons]
      simp only [List.head?_cons, Option.some_or, Option.mem_some_iff, forall_eq']
      tauto

/-- The links in the other direction. -/
def flip (L : Links α) : Links α := ⟨L.prev, L.next⟩

/-- **A list is a list backwards.** -/
theorem Seg.flip (h : L.Seg p l n) : L.flip.Seg n l.reverse p := by
  obtain ⟨hprev, hnext, hlinked⟩ := seg_iff_isChain.1 h
  refine seg_iff_isChain.2 ⟨?_, ?_, ?_⟩
  · rw [List.head?_reverse]
    exact hnext
  · rw [List.getLast?_reverse]
    exact hprev
  · rw [List.isChain_reverse]
    exact hlinked.imp fun a b hab => ⟨hab.2, hab.1⟩

section Writes

variable [DecidableEq α]

/-- The last node gets another successor. -/
theorem Seg.setNext_last (h : L.Seg p (l ++ [a]) n) (ha : a ∉ l) (v : Option α) :
    (L.setNext a v).Seg p (l ++ [a]) v := by
  obtain ⟨h1, h2, -⟩ := seg_append.1 h
  refine seg_append.2 ⟨?_, h2, by simp, trivial⟩
  refine Seg.congr (L := L) ?_ (fun x hx => ?_) fun x _ => rfl
  · simpa using h1
  · exact setNext_next_of_ne v (by rintro rfl; exact ha hx)

/-- The first node gets another predecessor. -/
theorem Seg.setPrev_head (h : L.Seg p (a :: l) n) (ha : a ∉ l) (v : Option α) :
    (L.setPrev a v).Seg v (a :: l) n := by
  obtain ⟨-, h2, h3⟩ := h
  exact ⟨by simp, h2, h3.congr (fun x _ => rfl) fun x hx =>
    setPrev_prev_of_ne v (by rintro rfl; exact ha hx)⟩

/-- A write to a node elsewhere. -/
theorem Seg.setNext_of_notMem (h : L.Seg p l n) (ha : a ∉ l) (v : Option α) :
    (L.setNext a v).Seg p l n :=
  h.congr (fun x hx => setNext_next_of_ne v (by rintro rfl; exact ha hx)) fun _ _ => rfl

theorem Seg.setPrev_of_notMem (h : L.Seg p l n) (ha : a ∉ l) (v : Option α) :
    (L.setPrev a v).Seg p l n :=
  h.congr (fun _ _ => rfl) fun x hx => setPrev_prev_of_ne v (by rintro rfl; exact ha hx)

/-- Both pointers of an element outside the segment. -/
theorem Seg.setBoth_of_notMem (h : L.Seg p l n) (ha : a ∉ l) (v w : Option α) :
    ((L.setNext a v).setPrev a w).Seg p l n :=
  (h.setNext_of_notMem ha v).setPrev_of_notMem ha w

theorem Seg.setNextAt_of_notMem (h : L.Seg p l n) {x : Option α} (hx : ∀ a ∈ x, a ∉ l)
    (v : Option α) : (L.setNextAt x v).Seg p l n := by
  cases x with
  | none => exact h
  | some a => exact h.setNext_of_notMem (hx a rfl) v

theorem Seg.setPrevAt_of_notMem (h : L.Seg p l n) {x : Option α} (hx : ∀ a ∈ x, a ∉ l)
    (v : Option α) : (L.setPrevAt x v).Seg p l n := by
  cases x with
  | none => exact h
  | some a => exact h.setPrev_of_notMem (hx a rfl) v

/-- **Taking a node out.** Its neighbours are linked to each other. -/
theorem Seg.bypass (h : L.Seg p (l₁ ++ b :: l₂) none) (hnd : (l₁ ++ b :: l₂).Nodup)
    (hne : l₁ ≠ []) :
    ((L.setNextAt (L.prev b) (L.next b)).setPrevAt (L.next b) (L.prev b)).Seg p (l₁ ++ l₂)
      none := by
  obtain ⟨init, last, rfl⟩ := List.eq_nil_or_concat l₁ |>.resolve_left hne
  rw [List.concat_eq_append] at h hnd ⊢
  have hnext := h.next_eq
  have hprev := h.prev_eq
  obtain ⟨h1, -, -, h2⟩ := seg_append.1 h
  have hnd' := List.nodup_append.1 hnd
  have hlast : last ∉ init := by
    have := hnd'.1
    simp only [List.nodup_append, List.mem_singleton] at this
    exact fun hm => this.2.2 last hm last rfl rfl
  have hdisj : ∀ x ∈ init ++ [last], x ∉ l₂ := fun x hx hx' =>
    hnd'.2.2 x hx x (by simp [hx']) rfl
  simp only [List.getLast?_append, List.getLast?_singleton, Option.some_or,
    Option.or_none] at hnext hprev
  rw [hnext, hprev]
  simp only [setNextAt, Option.elim_some]
  cases l₂ with
  | nil => simpa [setPrevAt] using h1.setNext_last hlast none
  | cons c l₂ =>
    have hc : c ∉ l₂ := (List.nodup_cons.1 (List.nodup_cons.1 hnd'.2.1).2).1
    refine seg_append.2 ⟨?_, ?_⟩
    · exact (h1.setNext_last hlast (some c)).setPrev_of_notMem
        (fun hm => hdisj c hm (by simp)) _
    · have h3 := h2.setNext_of_notMem (a := last) (hdisj last (by simp)) (some c)
      simpa [setPrevAt] using h3.setPrev_head hc (some last)

/-- Taking a node out, wherever it is. -/
theorem Seg.unlink (h : L.Seg none (l₁ ++ b :: l₂) none) (hnd : (l₁ ++ b :: l₂).Nodup) :
    ((L.setPrevAt (L.next b) (L.prev b)).setNextAt (L.prev b) (L.next b)).Seg none (l₁ ++ l₂)
      none := by
  rw [setPrevAt_setNextAt]
  cases l₁ with
  | cons a l₁ => exact h.bypass hnd (by simp)
  | nil =>
    obtain ⟨hprev, hnext, hl⟩ := h
    rw [hprev, hnext]
    cases l₂ with
    | nil => trivial
    | cons c l₂ =>
      have hc : c ∉ l₂ := (List.nodup_cons.1 (List.nodup_cons.1 hnd).2).1
      exact hl.setPrev_head hc none

/-- **Putting a node in front.** -/
theorem Seg.pushFront (h : L.Seg p (a :: l) n) (hnd : (a :: l).Nodup) (hb : b ∉ a :: l) :
    ((L.setNext b (some a)).setPrev a (some b)).Seg (L.prev b) (b :: a :: l) n := by
  have hba : b ≠ a := fun he => hb (by simp [he])
  refine ⟨setPrev_prev_of_ne _ hba, by simp, ?_⟩
  exact (h.setNext_of_notMem hb _).setPrev_head (List.nodup_cons.1 hnd).1 _

/-- **Adding a node at the end.** -/
theorem Seg.pushBack (h : L.Seg p (l ++ [a]) none) (hnd : (l ++ [a]).Nodup) (hb : b ∉ l ++ [a])
    (hnext : L.next b = none) :
    ((L.setNext a (some b)).setPrev b (some a)).Seg p (l ++ [a] ++ [b]) none := by
  have hal : a ∉ l := fun hm => by
    simp only [List.nodup_append, List.mem_singleton] at hnd
    exact hnd.2.2 a hm a rfl rfl
  have hba : b ≠ a := fun he => hb (by simp [he])
  refine seg_append.2 ⟨?_, by simp, ?_, trivial⟩
  · exact (h.setNext_last hal (some b)).setPrev_of_notMem hb _
  · simpa [hba] using hnext

end Writes

/-! ## Loops -/

/-- `while (x != NULL) { if (q x) break; x = x->next; }`: the node found, or
the end. The loop fails when it has not come to an end after `fuel`
nodes. -/
def find (L : Links α) (q : α → Bool) : ℕ → Option α → Option (Option α)
  | _, none => some none
  | 0, some _ => none
  | fuel + 1, some a => if q a then some (some a) else L.find q fuel (L.next a)

theorem Seg.find_eq (h : L.Seg p l none) (q : α → Bool) {fuel : ℕ} (hfuel : l.length ≤ fuel) :
    L.find q fuel l.head? = some (l.find? q) := by
  induction l generalizing p fuel with
  | nil => cases fuel <;> rfl
  | cons a l ih =>
    obtain ⟨-, hnext, hl⟩ := h
    cases fuel with
    | zero => cases hfuel
    | succ fuel =>
      simp only [List.head?_cons, find, List.find?_cons]
      cases q a with
      | true => rfl
      | false =>
        rw [Option.or_none] at hnext
        simpa [hnext] using ih hl (Nat.le_of_succ_le_succ hfuel)

/-- `while (x != NULL) { ...; x = x->next; }`, with a body that writes no link:
the nodes it visits. -/
def walk (L : Links α) : ℕ → Option α → Option (List α)
  | _, none => some []
  | 0, some _ => none
  | fuel + 1, some a => (L.walk fuel (L.next a)).map (a :: ·)

theorem Seg.walk_eq (h : L.Seg p l none) {fuel : ℕ} (hfuel : l.length ≤ fuel) :
    L.walk fuel l.head? = some l := by
  induction l generalizing p fuel with
  | nil => cases fuel <;> rfl
  | cons a l ih =>
    obtain ⟨-, hnext, hl⟩ := h
    cases fuel with
    | zero => cases hfuel
    | succ fuel =>
      rw [Option.or_none] at hnext
      simp only [List.head?_cons, walk, hnext, ih hl (Nat.le_of_succ_le_succ hfuel),
        Option.map_some]

/-- `while (x->next != NULL) x = x->next;`. -/
def last (L : Links α) : ℕ → α → Option α
  | 0, _ => none
  | fuel + 1, a => match L.next a with
    | none => some a
    | some b => L.last fuel b

theorem Seg.last_eq (h : L.Seg p (a :: l) none) {fuel : ℕ} (hfuel : (a :: l).length ≤ fuel) :
    L.last fuel a = (a :: l).getLast? := by
  induction l generalizing p a fuel with
  | nil =>
    cases fuel with
    | zero => cases hfuel
    | succ fuel => simp [last, h.2.1]
  | cons b l ih =>
    obtain ⟨-, hnext, hl⟩ := h
    cases fuel with
    | zero => cases hfuel
    | succ fuel =>
      rw [List.getLast?_cons_cons, ← ih hl (Nat.le_of_succ_le_succ hfuel)]
      simp only [last, hnext, List.head?_cons, Option.some_or]

/-- **Steps along the links** from the head reach the nodes in their order. -/
theorem Seg.iterate_next (h : L.Seg p l none) (k : ℕ) :
    (fun x => x.bind L.next)^[k] l.head? = l[k]? := by
  induction k generalizing p l with
  | zero => exact List.head?_eq_getElem?
  | succ k ih =>
    rw [Function.iterate_succ_apply]
    cases l with
    | nil => exact ih (p := p) (l := []) trivial
    | cons a l =>
      obtain ⟨-, hnext, htail⟩ := h
      rw [List.head?_cons, Option.bind_some, hnext, Option.or_none, ih htail,
        List.getElem?_cons_succ]

end Links
