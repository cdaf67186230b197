import Tqsim.Cachesim.Model.Cache

/-!
# The list of blocks of a set

A set spells a list of its blocks. The functions on it are functions on the
list: it is built block by block, and a block is moved to its front.
-/

namespace Tqsim

namespace Cachesim

variable {set set' : CacheSet} {l l₁ l₂ : List ℕ} {b : ℕ}

namespace CacheSet

/-- **A well-formed set**: the blocks from the first to the last, in their
order. -/
structure Spells (set : CacheSet) (l : List ℕ) : Prop where
  seg : set.links.Seg none l none
  firstBlk : set.firstBlk = l.head?
  lastBlk : set.lastBlk = l.getLast?
  nodup : l.Nodup

/-- **A set as it is built.** -/
theorem spells_cachesetInitialize (assoc : ℕ) :
    (cachesetInitialize assoc).Spells (List.range assoc) ∧
      ∀ b, ((cachesetInitialize assoc).blk b).valid = false := by
  induction assoc with
  | zero => exact ⟨⟨trivial, rfl, rfl, .nil⟩, fun _ => rfl⟩
  | succ i ih =>
    obtain ⟨h, hblk⟩ := ih
    have hi : i ∉ List.range i := by simp
    have hvalid : ∀ b, (((cachesetInitialize i).cacheblockInitialize i).blk b).valid = false := by
      intro b
      by_cases hb : b = i
      · simp [cacheblockInitialize, hb]
      · simpa [cacheblockInitialize, hb] using hblk b
    unfold cachesetInitialize
    cases i with
    | zero => exact ⟨⟨⟨rfl, rfl, trivial⟩, rfl, rfl, by simp⟩, hvalid⟩
    | succ i =>
      have hlast : (cachesetInitialize (i + 1)).lastBlk = some i := by
        rw [h.lastBlk, List.range_succ, List.getLast?_concat]
      simp only [cacheblockInitialize, hlast, Nat.succ_ne_zero, if_false]
      refine ⟨⟨?_, ?_, by simp [List.range_succ], List.nodup_range⟩, hvalid⟩
      · -- the block is linked behind the last one
        have hseg := (((h.seg.setPrev_of_notMem hi none).setNext_of_notMem hi none).setPrev_of_notMem
          hi (some i)).setNext_of_notMem hi none
        rw [List.range_succ] at hseg ⊢
        rw [List.range_succ, Links.seg_append]
        exact ⟨hseg.setNext_last (by simp) (some (i + 1)), by simp [Links.setNextAt],
          by simp [Links.setNextAt], trivial⟩
      · rw [h.firstBlk]
        simp [List.range_succ_eq_map]

/-- **A block is moved to the front.** -/
theorem Spells.cachesetMoveBlkAtFirst (h : set.Spells l) (hb : b ∈ l) :
    ∃ set', set.cachesetMoveBlkAtFirst b = some set' ∧ set'.Spells (b :: l.erase b) ∧
      set'.blk = set.blk := by
  obtain ⟨l₁, l₂, rfl, hl₁⟩ := List.eq_append_cons_of_mem hb
  rw [List.erase_append_right _ hl₁, List.erase_cons_head]
  cases l₁ with
  | nil => exact ⟨set, if_pos h.firstBlk, h, rfl⟩
  | cons a l₁ =>
    have hperm : (b :: (a :: l₁ ++ l₂)).Perm (a :: l₁ ++ b :: l₂) := List.perm_middle.symm
    have hnd : (b :: (a :: l₁ ++ l₂)).Nodup := hperm.nodup_iff.2 h.nodup
    obtain ⟨hb', hnd'⟩ := List.nodup_cons.1 hnd
    have hfirst : set.firstBlk ≠ some b := by
      rw [h.firstBlk]
      simpa using fun he => hl₁ (by simp [he])
    -- the block before it is the last one of the first part
    have hprev : set.links.prev b = some ((a :: l₁).getLast (by simp)) := by
      rw [h.seg.prev_eq, List.getLast?_eq_some_getLast (by simp), Option.some_or]
    have hne : b ≠ (a :: l₁).getLast (by simp) := fun he => hl₁ (he ▸ List.getLast_mem _)
    have hnext : set.links.next b = l₂.head? := by rw [h.seg.next_eq, Option.or_none]
    have hout := h.seg.bypass h.nodup (by simp)
    have hin := (hout.setPrev_of_notMem hb' none).pushFront hnd' hb'
    simp only [hprev, hnext, Links.setNextAt, Option.elim_some, Links.setPrev_prev_self] at hin
    simp only [CacheSet.cachesetMoveBlkAtFirst, if_neg hfirst, hprev, Links.setNext_next_of_ne _ hne,
      hnext]
    cases l₂ with
    | nil =>
      simp only [List.head?_nil, h.firstBlk, List.cons_append, List.head?_cons, Option.map_some]
      refine ⟨_, rfl, ⟨hin, rfl, ?_, hnd⟩, rfl⟩
      rw [List.append_nil, List.getLast?_cons_cons, List.getLast?_eq_some_getLast (by simp)]
    | cons c l₂ =>
      simp only [List.head?_cons, h.firstBlk, List.cons_append, Option.map_some]
      refine ⟨_, rfl, ⟨hin, rfl, ?_, hnd⟩, rfl⟩
      rw [h.lastBlk]
      simp [List.getLast?_cons, List.getLast?_append]

/-- The search for a tag. -/
theorem Spells.lookup_eq (h : set.Spells l) {assoc : ℕ} (hlen : l.length ≤ assoc) (tag : UInt32) :
    set.lookup assoc tag = some (l.find? (set.hasTag tag)) := by
  rw [lookup, h.firstBlk]
  exact h.seg.find_eq _ hlen

/-- The loop that clears the blocks. -/
theorem foldl_clear (l : List ℕ) (set : CacheSet) :
    (l.foldl clear set).links = set.links ∧ (l.foldl clear set).firstBlk = set.firstBlk ∧
      (l.foldl clear set).lastBlk = set.lastBlk ∧
      ∀ b, b ∈ l ∨ (set.blk b).valid = false → ((l.foldl clear set).blk b).valid = false := by
  induction l generalizing set with
  | nil => exact ⟨rfl, rfl, rfl, fun b hb => hb.resolve_left (by simp)⟩
  | cons a l ih =>
    obtain ⟨h1, h2, h3, h4⟩ := ih (set.clear a)
    refine ⟨h1, h2, h3, fun b hb => h4 b ?_⟩
    by_cases hba : b = a
    · exact .inr (by simp [clear, hba])
    · rcases hb with hb | hb
      · exact .inl ((List.mem_cons.1 hb).resolve_left hba)
      · exact .inr (by simpa [clear, hba] using hb)

/-- The blocks of a set are invalidated where they are. -/
theorem Spells.invalidateSet (h : set.Spells l) {c : Cache} (hlen : l.length ≤ c.config.assoc) :
    ∃ set', c.invalidateSet set = some set' ∧ set'.Spells l ∧
      ∀ b ∈ l, (set'.blk b).valid = false := by
  obtain ⟨hlinks, hfirst, hlast, hvalid⟩ := foldl_clear l set
  refine ⟨l.foldl clear set, ?_, ?_, fun b hb => hvalid b (.inl hb)⟩
  · rw [Cache.invalidateSet, h.firstBlk, h.seg.walk_eq hlen, Option.map_some]
  · exact ⟨hlinks ▸ h.seg, hfirst.trans h.firstBlk, hlast.trans h.lastBlk, h.nodup⟩

end CacheSet

/-- **`cache_invalidate`** goes from set to set, and changes nothing else. -/
theorem invalidateLoop_eq {c : Cache} {i : ℕ}
    (h : ∀ idx < i, ∃ set', c.invalidateSet (c.cacheSet idx) = some set') :
    ∃ sets, c.invalidateLoop i = some { c with cacheSet := sets } ∧
      (∀ idx < i, c.invalidateSet (c.cacheSet idx) = some (sets idx)) ∧
      ∀ idx, i ≤ idx → sets idx = c.cacheSet idx := by
  induction i with
  | zero => exact ⟨c.cacheSet, rfl, by simp, fun _ _ => rfl⟩
  | succ i ih =>
    obtain ⟨sets, hloop, hdone, hrest⟩ := ih fun idx hidx => h idx (Nat.lt_succ_of_lt hidx)
    obtain ⟨set', hset'⟩ := h i (Nat.lt_succ_self i)
    refine ⟨Function.update sets i set', ?_, fun idx hidx => ?_, fun idx hidx => ?_⟩
    · rw [← hrest i le_rfl] at hset'
      rw [Cache.invalidateLoop, hloop, Option.bind_some]
      exact congrArg (Option.map _) hset'
    · by_cases heq : idx = i
      · rw [heq, Function.update_self]
        exact hset'
      · rw [Function.update_of_ne heq]
        exact hdone idx (by omega)
    · rw [Function.update_of_ne (by omega)]
      exact hrest idx (by omega)

end Cachesim

end Tqsim
