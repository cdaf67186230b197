import Mathlib.Tactic
import Mathlib.Data.List.Dedup

/-!
# Least recently used

`recency h` lists the distinct items of a history, the most recent first, so
that `(recency h).take n` are the `n` most recently used ones. A store of `n`
places need not keep the history: `touch n` moves an item it holds to the
front, and puts a new one in front of the others, where the last one drops
out when there is no place left. `frames n s` are the `n` places of such a
store, the items in front and the empty places behind.
-/

namespace Lru

variable {β : Type*} [DecidableEq β] {h s : List β} {b : β} {n : ℕ}

/-- The distinct items of a history, the most recent first. -/
def recency (h : List β) : List β := h.dedup.reverse

theorem nodup_recency (h : List β) : (recency h).Nodup := List.nodup_reverse.2 h.nodup_dedup

theorem dedup_concat (h : List β) (b : β) : (h ++ [b]).dedup = h.dedup.erase b ++ [b] := by
  induction h with
  | nil => rfl
  | cons a h ih =>
    by_cases hab : a = b
    · subst hab
      rw [List.cons_append, List.dedup_cons_of_mem (by simp), ih]
      by_cases ha : a ∈ h
      · rw [List.dedup_cons_of_mem ha]
      · rw [List.dedup_cons_of_notMem ha, List.erase_cons_head,
          List.erase_of_not_mem (by simpa using ha)]
    · by_cases ha : a ∈ h
      · rw [List.cons_append, List.dedup_cons_of_mem (by simp [ha]), List.dedup_cons_of_mem ha, ih]
      · rw [List.cons_append, List.dedup_cons_of_notMem (by simp [ha, hab]),
          List.dedup_cons_of_notMem ha, ih, List.erase_cons_tail (by simpa using hab)]
        rfl

/-- Using an item puts it in front. -/
theorem recency_concat (h : List β) (b : β) :
    recency (h ++ [b]) = b :: (recency h).erase b := by
  have hnd := nodup_recency h
  rw [recency] at hnd ⊢
  rw [recency, dedup_concat, List.reverse_append, List.reverse_singleton, List.singleton_append,
    (List.nodup_dedup h).erase_eq_filter, hnd.erase_eq_filter, List.filter_reverse]

theorem take_erase_of_mem {l : List β} (hb : b ∈ l.take (n + 1)) :
    (l.erase b).take n = (l.take (n + 1)).erase b := by
  induction l generalizing n with
  | nil => simp at hb
  | cons a l ih =>
    rw [List.take_succ_cons] at hb ⊢
    by_cases hab : a = b
    · rw [hab, List.erase_cons_head, List.erase_cons_head]
    · have hb : b ∈ l.take n := (List.mem_cons.1 hb).resolve_left fun he => hab he.symm
      cases n with
      | zero => simp at hb
      | succ n =>
        rw [List.erase_cons_tail (by simpa using hab), List.erase_cons_tail (by simpa using hab),
          List.take_succ_cons, ih hb]

theorem take_erase_of_notMem {l : List β} (hb : b ∉ l.take n) : (l.erase b).take n = l.take n := by
  induction l generalizing n with
  | nil => rfl
  | cons a l ih =>
    cases n with
    | zero => rfl
    | succ n =>
      rw [List.take_succ_cons, List.mem_cons, not_or] at hb
      rw [List.erase_cons_tail (by simpa using Ne.symm hb.1), List.take_succ_cons, ih hb.2,
        List.take_succ_cons]

/-- The use of an item by a store of `n` places that holds `s`. -/
def touch (n : ℕ) (s : List β) (b : β) : List β :=
  if b ∈ s then b :: s.erase b else b :: s.take (n - 1)

/-- **The store keeps the most recently used items.** -/
theorem take_recency_concat (hn : 0 < n) (h : List β) (b : β) :
    (recency (h ++ [b])).take n = touch n ((recency h).take n) b := by
  obtain ⟨n, rfl⟩ := Nat.exists_eq_succ_of_ne_zero hn.ne'
  rw [recency_concat, List.take_succ_cons, touch, Nat.succ_sub_one]
  split
  next hb => rw [take_erase_of_mem hb]
  next hb =>
    have hb' : b ∉ (recency h).take n := fun hm =>
      hb (List.take_subset_take_left _ n.le_succ hm)
    rw [take_erase_of_notMem hb', List.take_take, Nat.min_eq_left n.le_succ]

/-! ## Places -/

/-- The places of a store: the items in front, the empty places behind. -/
def frames (n : ℕ) (s : List β) : List (Option β) :=
  s.map some ++ List.replicate (n - s.length) none

omit [DecidableEq β] in
@[simp] theorem mem_frames : some b ∈ frames n s ↔ b ∈ s := by simp [frames]

omit [DecidableEq β] in
theorem frames_cons (n : ℕ) (s : List β) (b : β) :
    frames (n + 1) (b :: s) = some b :: frames n s := by
  simp [frames]

omit [DecidableEq β] in
theorem getElem?_of_frames {i : ℕ} (hi : (frames n s)[i]? = some (some b)) : s[i]? = some b := by
  rw [frames, List.getElem?_append] at hi
  split at hi
  next => simpa using hi
  next => simp [List.getElem?_replicate] at hi

omit [DecidableEq β] in
/-- An item has one place. -/
theorem frames_inj (hs : s.Nodup) {i j : ℕ} (hi : (frames n s)[i]? = some (some b))
    (hj : (frames n s)[j]? = some (some b)) : i = j := by
  have hi := getElem?_of_frames hi
  have hj := getElem?_of_frames hj
  exact (List.getElem?_inj (List.getElem?_eq_some_iff.1 hi).1 hs).1 (hi.trans hj.symm)

/-- **The use of an item that the store holds** moves its place to the
front. -/
theorem frames_touch_of_mem (hn : 0 < n) (hs : s.length ≤ n) (hb : b ∈ s) :
    frames n (touch n s b) = some b :: (frames n s).erase (some b) := by
  obtain ⟨n, rfl⟩ := Nat.exists_eq_succ_of_ne_zero hn.ne'
  have hpos := List.length_pos_of_mem hb
  rw [touch, if_pos hb, frames_cons, frames, frames,
    List.erase_append_left _ (List.mem_map_of_mem hb), List.map_erase (Option.some_injective β),
    List.length_erase_of_mem hb]
  congr 3
  omega

/-- **The use of another item** takes the last place for it. -/
theorem frames_touch_of_notMem (hn : 0 < n) (hs : s.length ≤ n) (hb : b ∉ s) :
    frames n (touch n s b) = some b :: (frames n s).dropLast := by
  obtain ⟨n, rfl⟩ := Nat.exists_eq_succ_of_ne_zero hn.ne'
  rw [touch, if_neg hb, frames_cons, Nat.succ_sub_one]
  congr 1
  rcases Nat.lt_or_ge n s.length with hlt | hle
  · have hlen : s.length = n + 1 := by omega
    simp [frames, hlen, List.dropLast_eq_take]
  · have hsub : n + 1 - s.length = (n - s.length) + 1 := by omega
    simp [frames, hsub, List.take_of_length_le hle, List.replicate_succ']

end Lru
