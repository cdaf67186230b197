import Mathlib.Data.List.SplitBy

/-!
# Groups of a list

`List.splitBy r` cuts a list wherever two neighbours are not related: its
pieces are the maximal runs of related neighbours. A list that is read from
the left is cut without looking back further than one element, and the first
elements of the pieces are found on the way.
-/

namespace Groups

variable {α : Type*} {r : α → α → Bool} {l : List α} {a : α}

/-- The first elements of the groups. -/
def heads (r : α → α → Bool) (l : List α) : List α := (l.splitBy r).filterMap List.head?

theorem length_heads (r : α → α → Bool) (l : List α) :
    (heads r l).length = (l.splitBy r).length := by
  refine List.filterMap_length_eq_length.2 fun g hg => ?_
  cases g with
  | nil => exact absurd hg (List.nil_notMem_splitBy r l)
  | cons a g => rfl

/-- **An element that is related to the last one** joins its group. -/
theorem splitBy_concat_of_rel (hl : ∀ x ∈ l.getLast?, r x a = true) (hne : l ≠ []) :
    ∃ gs g, g ≠ [] ∧ l.splitBy r = gs ++ [g] ∧ (l ++ [a]).splitBy r = gs ++ [g ++ [a]] := by
  obtain ⟨gs, g, heq⟩ := List.eq_nil_or_concat (l.splitBy r) |>.resolve_left
    (List.splitBy_ne_nil.2 hne)
  rw [List.concat_eq_append] at heq
  have hg : g ≠ [] := List.ne_nil_of_mem_splitBy (r := r) (l := l) (by simp [heq])
  obtain ⟨hflat, hnil, hchain, hcut⟩ := List.splitBy_eq_iff.1 heq
  have hlast : g.getLast? = l.getLast? := by
    rw [hflat, List.flatten_append, List.flatten_singleton, List.getLast?_append_of_ne_nil _ hg]
  refine ⟨gs, g, hg, heq, List.splitBy_eq_iff.2 ⟨?_, ?_, ?_, ?_⟩⟩
  · rw [hflat]
    simp
  · simp only [List.mem_append, List.mem_singleton, not_or] at hnil ⊢
    exact ⟨hnil.1, by simp⟩
  · intro m hm
    rcases List.mem_append.1 hm with hm | hm
    · exact hchain m (by simp [hm])
    · rw [List.mem_singleton.1 hm]
      refine List.isChain_append.2 ⟨hchain g (by simp), by simp, ?_⟩
      intro x hx y hy
      obtain rfl : a = y := by simpa using hy
      exact hl x (hlast ▸ hx)
  · -- the group begins where it did
    obtain ⟨h1, -, h3⟩ := List.isChain_append.1 hcut
    refine List.isChain_append.2 ⟨h1, by simp, ?_⟩
    intro x hx y hy
    obtain rfl : g ++ [a] = y := by simpa using hy
    obtain ⟨ha, hb, hr⟩ := h3 x hx g (by simp)
    exact ⟨ha, by simp, by rwa [List.head_append_of_ne_nil hb]⟩

/-- **The groups, element by element**: a group begins with an element that is
not related to the one before it. -/
theorem heads_concat (r : α → α → Bool) (l : List α) (a : α) :
    heads r (l ++ [a]) = if l.getLast?.any (r · a) then heads r l else heads r l ++ [a] := by
  unfold heads
  cases hlast : l.getLast? with
  | none =>
    obtain rfl := List.getLast?_eq_none_iff.1 hlast
    rfl
  | some x =>
    rw [Option.any_some]
    by_cases hr : r x a = true
    · have hne : l ≠ [] := by
        rintro rfl
        simp at hlast
      obtain ⟨gs, g, hg, h1, h2⟩ := splitBy_concat_of_rel (a := a) (r := r) (l := l)
        (by simpa [hlast] using hr) hne
      rw [if_pos hr, h1, h2, List.filterMap_append, List.filterMap_append]
      simp [List.filterMap_cons, List.head?_append_of_ne_nil _ hg]
    · rw [if_neg hr, List.splitBy_append_cons [] (by simpa [hlast] using hr),
        List.filterMap_append]
      rfl

theorem heads_subset (r : α → α → Bool) (l : List α) : heads r l ⊆ l := by
  intro a ha
  obtain ⟨g, hg, hhead⟩ := List.mem_filterMap.1 ha
  rw [← List.flatten_splitBy r l]
  exact List.mem_flatten.2 ⟨g, hg, List.mem_of_mem_head? hhead⟩

/-- **The heads of the groups keep apart** as far as an element and the next one
of another group do, however far back the group began. -/
theorem pairwise_heads {R S : α → α → Prop} (hS : ∀ x, S x x)
    (hR : ∀ x y a, S x y → r y a = false → R x a) (hl : l.Pairwise S) :
    (heads r l).Pairwise R := by
  induction l using List.reverseRecOn with
  | nil => exact .nil
  | append_singleton l a ih =>
    obtain ⟨hinit, -, -⟩ := List.pairwise_append.1 hl
    rw [heads_concat]
    split_ifs with hr
    · exact ih hinit
    · refine List.pairwise_append.2 ⟨ih hinit, List.pairwise_singleton _ _, ?_⟩
      intro x hx b hb
      obtain rfl := List.mem_singleton.1 hb
      have hxl := heads_subset r l hx
      -- the last element is not before any head
      obtain ⟨l', y, rfl⟩ := List.eq_nil_or_concat l |>.resolve_left (List.ne_nil_of_mem hxl)
      rw [List.concat_eq_append] at hinit hxl hr
      refine hR x y b ?_ (by simpa using hr)
      rcases List.mem_append.1 hxl with hx | hx
      · exact (List.pairwise_append.1 hinit).2.2 x hx y (by simp)
      · rw [List.mem_singleton.1 hx]
        exact hS y

end Groups
