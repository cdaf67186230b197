import Mathlib.Tactic
import Mathlib.Logic.Function.Basic

/-!
# Strings in a buffer

A C string starts where a pointer points and ends before the first null
character. A parser that works in place cuts a text into strings: it writes
a null character over each delimiter and keeps pointers to what follows.
The strings it is left with are the pieces of the text, as `List.splitOn`
gives them.
-/

open Function

namespace CBuffer

/-- The bytes of a buffer by their index. A pointer into it is an index. -/
abbrev Buffer := ℕ → Char

variable {buf : Buffer} {p q : ℕ} {s t : List Char} {d : Char}

/-- Bytes written one after the other. -/
def write (buf : Buffer) : ℕ → List Char → Buffer
  | _, [] => buf
  | p, c :: s => write (update buf p c) (p + 1) s

/-- The first `n` bytes from a pointer on, up to a null character. -/
def stringUpTo (buf : Buffer) : ℕ → ℕ → List Char
  | 0, _ => []
  | n + 1, p => if buf p = '\x00' then [] else buf p :: stringUpTo buf n (p + 1)

/-- The string at a pointer into a buffer of `size` bytes. -/
def stringAt (size : ℕ) (buf : Buffer) (p : ℕ) : List Char := stringUpTo buf (size - p) p

/-- The bytes from a pointer on start with these. -/
def Holds (buf : Buffer) : ℕ → List Char → Prop
  | _, [] => True
  | p, c :: s => buf p = c ∧ Holds buf (p + 1) s

/-- The string at a pointer. -/
def Spells (buf : Buffer) (p : ℕ) (s : List Char) : Prop :=
  Holds buf p (s ++ ['\x00']) ∧ '\x00' ∉ s

/-! ## Writing and reading -/

theorem write_cons (buf : Buffer) (p : ℕ) (c : Char) (s : List Char) :
    write buf p (c :: s) = write (update buf p c) (p + 1) s := rfl

theorem write_of_lt {buf : Buffer} {p j : ℕ} (s : List Char) (hj : j < p) :
    write buf p s j = buf j := by
  induction s generalizing buf p with
  | nil => rfl
  | cons c s ih => rw [write_cons, ih (by omega), update_of_ne (by omega)]

theorem holds_write (buf : Buffer) (p : ℕ) (s : List Char) : Holds (write buf p s) p s := by
  induction s generalizing buf p with
  | nil => trivial
  | cons c s ih =>
    refine ⟨?_, ih _ _⟩
    rw [write_cons, write_of_lt s (Nat.lt_succ_self p), update_self]

/-- Bytes written where they are already. -/
theorem write_cons_of_eq {c : Char} (h : buf p = c) (s : List Char) :
    write buf p (c :: s) = write buf (p + 1) s := by
  rw [write_cons, ← h, update_eq_self]

theorem Holds.of_append (h : Holds buf p (s ++ t)) : Holds buf p s := by
  induction s generalizing p with
  | nil => trivial
  | cons c s ih => exact ⟨h.1, ih h.2⟩

theorem Holds.update_of_lt (h : Holds buf p s) (hq : q < p) (c : Char) :
    Holds (update buf q c) p s := by
  induction s generalizing p with
  | nil => trivial
  | cons c' s ih =>
    exact ⟨by rw [Function.update_of_ne (by omega)]; exact h.1, ih h.2 (by omega)⟩

theorem stringUpTo_of_spells {n : ℕ} (h : Spells buf p s) (hn : s.length < n) :
    stringUpTo buf n p = s := by
  obtain ⟨n, rfl⟩ := Nat.exists_eq_add_one_of_ne_zero (Nat.ne_zero_of_lt hn)
  obtain ⟨h, hnul⟩ := h
  induction s generalizing p n with
  | nil => rw [stringUpTo, if_pos h.1]
  | cons c s ih =>
    rw [List.mem_cons, not_or] at hnul
    rw [List.length_cons, Nat.add_lt_add_iff_right] at hn
    obtain ⟨n, rfl⟩ := Nat.exists_eq_add_one_of_ne_zero (Nat.ne_zero_of_lt hn)
    rw [stringUpTo, h.1, if_neg (Ne.symm hnul.1), ih n hn h.2 hnul.2]

theorem stringAt_of_spells {size : ℕ} (h : Spells buf p s) (hsize : p + s.length < size) :
    stringAt size buf p = s :=
  stringUpTo_of_spells h (by omega)

/-! ## Cutting -/

/-- What is left of a character once the text is cut. -/
def cutChar (d c : Char) : Char := if c = d then '\x00' else c

/-- The text once it is cut, with what ends it. -/
def cutText (d : Char) (s : List Char) : List Char := s.map (cutChar d) ++ ['\x00']

/-- Pointers to what follows each delimiter of a text. -/
def marks (d : Char) : ℕ → List Char → List ℕ
  | _, [] => []
  | p, c :: s => if c = d then (p + 1) :: marks d (p + 1) s else marks d (p + 1) s

theorem length_splitOn (d : Char) (s : List Char) : (s.splitOn d).length = s.count d + 1 := by
  induction s with
  | nil => rw [List.splitOn_nil]; rfl
  | cons c s ih =>
    rw [List.splitOn_cons_eq_if_modifyHead, List.count_cons]
    split
    · rw [List.length_cons, ih]
    · rw [List.length_modifyHead, ih]

/-- What holds of two lists side by side holds of their last elements. -/
theorem rel_getLast_of_forall₂ {α β : Type*} {R : α → β → Prop} {as : List α} {bs : List β}
    (h : List.Forall₂ R as bs) : Option.Rel R as.getLast? bs.getLast? := by
  induction h with
  | nil => exact .none
  | @cons a b as bs hab _ ih =>
    rw [List.getLast?_cons, List.getLast?_cons]
    generalize as.getLast? = a' at ih
    generalize bs.getLast? = b' at ih
    cases ih with
    | none => exact .some hab
    | some h => exact .some h

theorem lt_of_mem_marks (h : q ∈ marks d p s) : p < q := by
  induction s generalizing p with
  | nil => cases h
  | cons c s ih =>
    rw [marks] at h
    split at h
    · rcases List.mem_cons.1 h with rfl | h
      · exact Nat.lt_succ_self p
      · exact (Nat.lt_succ_self p).trans (ih h)
    · exact (Nat.lt_succ_self p).trans (ih h)

/-- **A text that was cut is left in pieces**, and they end no later than
it does. -/
theorem forall₂_marks (hnul : '\x00' ∉ s) (h : Holds buf p (cutText d s)) :
    List.Forall₂ (fun q piece => Spells buf q piece ∧ q + piece.length ≤ p + s.length)
      (p :: marks d p s) (s.splitOn d) := by
  induction s generalizing p with
  | nil =>
    rw [List.splitOn_nil]
    exact .cons ⟨⟨h, List.not_mem_nil⟩, le_rfl⟩ .nil
  | cons c s ih =>
    rw [List.mem_cons, not_or] at hnul
    obtain ⟨hc, h⟩ := h
    specialize ih hnul.2 h
    have hend : p + 1 + s.length = p + (c :: s).length := by rw [List.length_cons]; omega
    rw [hend] at ih
    rw [List.splitOn_cons_eq_if_modifyHead, marks]
    unfold cutChar at hc
    by_cases hcd : c = d
    · rw [if_pos hcd] at hc
      rw [if_pos hcd, if_pos (beq_iff_eq.2 hcd)]
      exact .cons ⟨⟨⟨hc, trivial⟩, List.not_mem_nil⟩, Nat.le_add_right _ _⟩ ih
    · rw [if_neg hcd] at hc
      rw [if_neg hcd, if_neg (by simpa using hcd)]
      -- the character joins the first piece
      cases hs : s.splitOn d with
      | nil => exact absurd hs (List.splitOn_ne_nil d s)
      | cons piece pieces =>
        rw [hs] at ih
        obtain ⟨⟨⟨hpiece, hmem⟩, hle⟩, ih⟩ := List.forall₂_cons.1 ih
        refine .cons ⟨⟨⟨hc, hpiece⟩, List.not_mem_cons_of_ne_of_not_mem hnul.1 hmem⟩, ?_⟩ ih
        simp only [List.length_cons] at hle ⊢
        omega

end CBuffer
