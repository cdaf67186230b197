import Tqsim.Common.Circular

/-!
# A ring with one writer and one reader

The writer waits until the ring is not full, copies an item into the slot
`last`, word by word, and then advances `last`; the reader waits until the
ring is not empty, copies the item in the slot `first` out, and then advances
`first`. The two take their steps in any order, one word at a time, so that a
test is out of date when it is acted on. Whatever the order, the items come
out as they went in. The ring of `size` slots never holds more than
`size - 1` items, and the two parties never copy from and to the same slot.
-/

namespace Spsc

open Circular

/-- An item of `words` words. -/
abbrev Item (β : Type*) (words : ℕ) := Fin words → β

/-- The memory that both parties share. -/
structure Ring (β : Type*) (words : ℕ) where
  first : ℕ
  last : ℕ
  elems : ℕ → Item β words

/-- Where a party is, with the item it copies from or to. -/
inductive Party (β : Type*) (words : ℕ) where
  | idle
  /-- Before a test that has not succeeded. -/
  | waiting (item : Item β words)
  /-- With a number of words copied. -/
  | copying (item : Item β words) (copied : ℕ)

/-- The two parties, and the items that have gone in and out. -/
structure State (β : Type*) (words : ℕ) where
  ring : Ring β words
  writer : Party β words
  reader : Party β words
  sent : List (Item β words)
  received : List (Item β words)

/-- Who takes a step. -/
inductive Move (β : Type*) (words : ℕ) where
  /-- The writer has an item to send. -/
  | send (item : Item β words)
  | writer
  /-- The reader wants an item, in place of what is there. -/
  | recv (item : Item β words)
  | reader

variable {β : Type*} {words size : ℕ}

/-- A step of the writer. -/
def writerStep (size : ℕ) (s : State β words) : Option (State β words) :=
  match s.writer with
  | .idle => none
  | .waiting item =>
    if (s.ring.last + 1) % size = s.ring.first then some s
    else some { s with writer := .copying item 0 }
  | .copying item k =>
    if h : k < words then
      some { s with
        ring := { s.ring with
          elems := Function.update s.ring.elems s.ring.last
            (Function.update (s.ring.elems s.ring.last) ⟨k, h⟩ (item ⟨k, h⟩)) }
        writer := .copying item (k + 1) }
    else
      some { s with
        ring := { s.ring with last := (s.ring.last + 1) % size }
        writer := .idle
        sent := s.sent ++ [item] }

/-- A step of the reader. -/
def readerStep (size : ℕ) (s : State β words) : Option (State β words) :=
  match s.reader with
  | .idle => none
  | .waiting item =>
    if s.ring.last = s.ring.first then some s
    else some { s with reader := .copying item 0 }
  | .copying item k =>
    if h : k < words then
      some { s with
        reader := .copying
          (Function.update item ⟨k, h⟩ (s.ring.elems s.ring.first ⟨k, h⟩)) (k + 1) }
    else
      some { s with
        ring := { s.ring with first := (s.ring.first + 1) % size }
        reader := .idle
        received := s.received ++ [item] }

def step (size : ℕ) (s : State β words) : Move β words → Option (State β words)
  | .send item => match s.writer with
    | .idle => some { s with writer := .waiting item }
    | _ => none
  | .writer => writerStep size s
  | .recv item => match s.reader with
    | .idle => some { s with reader := .waiting item }
    | _ => none
  | .reader => readerStep size s

/-- What the writer knows. -/
def WriterAt (size : ℕ) (s : State β words) : Prop :=
  match s.writer with
  | .idle | .waiting _ => s.sent.length < s.received.length + size
  | .copying item k => s.sent.length + 1 < s.received.length + size ∧ k ≤ words ∧
      ∀ j : Fin words, j.val < k → s.ring.elems s.ring.last j = item j

/-- What the reader knows. -/
def ReaderAt (s : State β words) : Prop :=
  match s.reader with
  | .idle | .waiting _ => True
  | .copying item k => k ≤ words ∧ ∃ x, s.sent[s.received.length]? = some x ∧
      ∀ j : Fin words, j.val < k → item j = x j

/-- **The invariant.** The ring holds, from `first` to `last`, the items that
have gone in and not out. -/
structure Inv (size : ℕ) (s : State β words) : Prop where
  first : s.ring.first = slot size 0 s.received.length
  last : s.ring.last = slot size 0 s.sent.length
  out : s.received <+: s.sent
  stored : ∀ r x, s.received.length ≤ r → s.sent[r]? = some x →
    s.ring.elems (slot size 0 r) = x
  writer : WriterAt size s
  reader : ReaderAt s

namespace Inv

variable {s s' : State β words}

theorem le (h : Inv size s) : s.received.length ≤ s.sent.length := h.out.length_le

/-- There is always a free slot. -/
theorem lt (h : Inv size s) : s.sent.length < s.received.length + size := by
  have hw := h.writer
  unfold WriterAt at hw
  split at hw
  · exact hw
  · exact hw
  · omega

/-- The slot after the last item is no item's. -/
theorem slot_ne (h : Inv size s) {r : ℕ} (hr : s.received.length ≤ r) (hr' : r < s.sent.length) :
    slot size 0 r ≠ slot size 0 s.sent.length := by
  have hlt := h.lt
  rw [Ne, slot_inj hr h.le (by omega) hlt]
  omega

/-- **The ring is full** when only one slot is free. -/
theorem full_iff (h : Inv size s) : (s.ring.last + 1) % size = s.ring.first ↔
    s.sent.length + 1 = s.received.length + size := by
  have hlt := h.lt
  have hle := h.le
  rw [h.first, h.last, slot_succ]
  constructor
  · intro heq
    by_contra hne
    have hinj := (slot_inj (show s.received.length ≤ s.sent.length + 1 by omega) le_rfl
      (by omega) (by omega)).1 heq
    omega
  · intro heq
    rw [heq, slot_add_cap]

/-- **The ring is empty** when nothing has gone in that has not gone out. -/
theorem empty_iff (h : Inv size s) : s.ring.last = s.ring.first ↔
    s.sent.length = s.received.length := by
  have hlt := h.lt
  rw [h.first, h.last, slot_inj h.le le_rfl hlt (by have := h.le; omega)]

/-! ## The steps -/

/-- The writer goes on in its copy. -/
theorem writeWord (h : Inv size s) {item : Item β words} {k : ℕ}
    (hw : s.writer = .copying item k) (hk : k < words) :
    Inv size { s with
      ring := { s.ring with
        elems := Function.update s.ring.elems s.ring.last
          (Function.update (s.ring.elems s.ring.last) ⟨k, hk⟩ (item ⟨k, hk⟩)) }
      writer := .copying item (k + 1) } := by
  have hwriter := h.writer
  simp only [WriterAt, hw] at hwriter
  obtain ⟨hroom, -, hcopied⟩ := hwriter
  refine ⟨h.first, h.last, h.out, fun r x hr hx => ?_, ⟨hroom, hk, fun j hj => ?_⟩, h.reader⟩
  · -- the slot written is no item's
    have hlt := (List.getElem?_eq_some_iff.1 hx).1
    simp only [h.last, Function.update_of_ne (h.slot_ne hr hlt)]
    exact h.stored r x hr hx
  · simp only [Function.update_self]
    by_cases hjk : j = ⟨k, hk⟩
    · rw [hjk, Function.update_self]
    · rw [Function.update_of_ne hjk]
      exact hcopied j (by have : j.val ≠ k := fun he => hjk (Fin.ext he); omega)

/-- The writer ends its copy. -/
theorem advanceLast (h : Inv size s) {item : Item β words} {k : ℕ}
    (hw : s.writer = .copying item k) (hk : ¬ k < words) :
    Inv size { s with
      ring := { s.ring with last := (s.ring.last + 1) % size }
      writer := .idle
      sent := s.sent ++ [item] } := by
  have hwriter := h.writer
  simp only [WriterAt, hw] at hwriter
  obtain ⟨hroom, -, hcopied⟩ := hwriter
  have hitem : s.ring.elems s.ring.last = item :=
    funext fun j => hcopied j (lt_of_lt_of_le j.isLt (not_lt.1 hk))
  refine ⟨h.first, ?_, h.out.trans (List.prefix_append _ _), fun r x hr hx => ?_, ?_, ?_⟩
  · simp only [h.last, slot_succ, List.length_append, List.length_singleton]
  · rcases Nat.lt_or_ge r s.sent.length with hlt | hge
    · rw [List.getElem?_append_left hlt] at hx
      exact h.stored r x hr hx
    · have hlen := (List.getElem?_eq_some_iff.1 hx).1
      rw [List.length_append, List.length_singleton] at hlen
      obtain rfl : r = s.sent.length := by omega
      obtain rfl : item = x := by simpa using hx
      rw [← h.last]
      exact hitem
  · simp only [WriterAt, List.length_append, List.length_singleton]
    exact hroom
  · have hreader := h.reader
    unfold ReaderAt at hreader ⊢
    cases hr : s.reader with
    | idle | waiting item => trivial
    | copying item k =>
      simp only [hr] at hreader ⊢
      obtain ⟨hk, x, hx, hcopied⟩ := hreader
      exact ⟨hk, x, by
        rw [List.getElem?_append_left (List.getElem?_eq_some_iff.1 hx).1]; exact hx, hcopied⟩

theorem writerStep (h : Inv size s) (hs' : Spsc.writerStep size s = some s') : Inv size s' := by
  unfold Spsc.writerStep at hs'
  split at hs'
  next => cases hs'
  next item hw =>
    split at hs'
    next => exact Option.some.inj hs' ▸ h
    next hfull =>
      obtain rfl := Option.some.inj hs'
      have hroom : s.sent.length + 1 < s.received.length + size := by
        have hlt := h.lt
        have hne := h.full_iff.not.1 hfull
        omega
      exact ⟨h.first, h.last, h.out, h.stored,
        ⟨hroom, Nat.zero_le _, fun j hj => absurd hj (Nat.not_lt_zero _)⟩, h.reader⟩
  next item k hw =>
    split at hs'
    next hk => exact Option.some.inj hs' ▸ h.writeWord hw hk
    next hk => exact Option.some.inj hs' ▸ h.advanceLast hw hk

/-- The reader goes on in its copy. -/
theorem readWord (h : Inv size s) {item : Item β words} {k : ℕ}
    (hr : s.reader = .copying item k) (hk : k < words) :
    Inv size { s with
      reader := .copying
        (Function.update item ⟨k, hk⟩ (s.ring.elems s.ring.first ⟨k, hk⟩)) (k + 1) } := by
  have hreader := h.reader
  simp only [ReaderAt, hr] at hreader
  obtain ⟨-, x, hx, hcopied⟩ := hreader
  refine ⟨h.first, h.last, h.out, h.stored, h.writer, ⟨hk, x, hx, fun j hj => ?_⟩⟩
  by_cases hjk : j = ⟨k, hk⟩
  · rw [hjk, Function.update_self, h.first, h.stored _ x le_rfl hx]
  · rw [Function.update_of_ne hjk]
    exact hcopied j (by have : j.val ≠ k := fun he => hjk (Fin.ext he); omega)

/-- The reader ends its copy. -/
theorem advanceFirst (h : Inv size s) {item : Item β words} {k : ℕ}
    (hr : s.reader = .copying item k) (hk : ¬ k < words) :
    Inv size { s with
      ring := { s.ring with first := (s.ring.first + 1) % size }
      reader := .idle
      received := s.received ++ [item] } := by
  have hreader := h.reader
  simp only [ReaderAt, hr] at hreader
  obtain ⟨-, x, hx, hcopied⟩ := hreader
  obtain rfl : item = x := funext fun j => hcopied j (lt_of_lt_of_le j.isLt (not_lt.1 hk))
  refine ⟨?_, h.last, ?_, fun r y hr hy => ?_, ?_, trivial⟩
  · simp only [h.first, slot_succ, List.length_append, List.length_singleton]
  · -- it is the next of the items sent
    obtain ⟨rest, hrest⟩ := h.out
    rw [← hrest, List.getElem?_append_right le_rfl, Nat.sub_self] at hx
    obtain ⟨rest, rfl⟩ : ∃ rest', rest = item :: rest' := by
      cases rest with
      | nil => simp at hx
      | cons y rest => exact ⟨rest, by simpa using hx⟩
    exact ⟨rest, by rw [← hrest, List.append_assoc]; rfl⟩
  · rw [List.length_append, List.length_singleton] at hr
    exact h.stored r y (Nat.le_of_succ_le hr) hy
  · have hwriter := h.writer
    unfold WriterAt at hwriter ⊢
    cases hw : s.writer with
    | idle | waiting item =>
      simp only [hw, List.length_append, List.length_singleton] at hwriter ⊢
      omega
    | copying item k =>
      simp only [hw, List.length_append, List.length_singleton] at hwriter ⊢
      exact ⟨by omega, hwriter.2⟩

theorem readerStep (h : Inv size s) (hs' : Spsc.readerStep size s = some s') : Inv size s' := by
  unfold Spsc.readerStep at hs'
  split at hs'
  next => cases hs'
  next item hr =>
    split at hs'
    next => exact Option.some.inj hs' ▸ h
    next hempty =>
      obtain rfl := Option.some.inj hs'
      have hle := h.le
      have hne := h.empty_iff.not.1 hempty
      have hlt : s.received.length < s.sent.length := by omega
      exact ⟨h.first, h.last, h.out, h.stored, h.writer,
        ⟨Nat.zero_le _, _, List.getElem?_eq_getElem hlt, fun j hj => absurd hj (Nat.not_lt_zero _)⟩⟩
  next item k hr =>
    split at hs'
    next hk => exact Option.some.inj hs' ▸ h.readWord hr hk
    next hk => exact Option.some.inj hs' ▸ h.advanceFirst hr hk

/-- **Every step keeps the invariant.** -/
theorem step (h : Inv size s) {m : Move β words} (hs' : Spsc.step size s m = some s') :
    Inv size s' := by
  cases m with
  | send item =>
    simp only [Spsc.step] at hs'
    split at hs'
    next hw =>
      obtain rfl := Option.some.inj hs'
      exact ⟨h.first, h.last, h.out, h.stored, h.lt, h.reader⟩
    next => cases hs'
  | writer => exact h.writerStep hs'
  | recv item =>
    simp only [Spsc.step] at hs'
    split at hs'
    next hr =>
      obtain rfl := Option.some.inj hs'
      exact ⟨h.first, h.last, h.out, h.stored, h.writer, trivial⟩
    next => cases hs'
  | reader => exact h.readerStep hs'

/-- An empty ring. -/
theorem of_empty (hsize : 0 < size) (elems : ℕ → Item β words) :
    Inv size ⟨⟨0, 0, elems⟩, .idle, .idle, [], []⟩ where
  first := (Nat.zero_mod size).symm
  last := (Nat.zero_mod size).symm
  out := List.prefix_refl _
  stored r x _ hx := by simp at hx
  writer := by simpa [WriterAt] using hsize
  reader := trivial

/-- **The slot that is read is not the one that is written.** -/
theorem last_ne_first (h : Inv size s) {item : Item β words} {k : ℕ}
    (hr : s.reader = .copying item k) : s.ring.last ≠ s.ring.first := by
  have hreader := h.reader
  simp only [ReaderAt, hr] at hreader
  obtain ⟨-, x, hx, -⟩ := hreader
  have hlt := (List.getElem?_eq_some_iff.1 hx).1
  rw [Ne, h.empty_iff]
  omega

end Inv

end Spsc
