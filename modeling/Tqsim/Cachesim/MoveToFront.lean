import Tqsim.Cachesim.Helpers.Access
import Tqsim.Cachesim.Replacement

/-!
# Moving a block to the front

What the writes of `cacheset_moveBlkAtFirst` do to the blocks of a set, as a
function on lists, and that the sets of a cache are doubly linked lists after
any calls, with every policy.
-/

namespace Tqsim

namespace Cachesim

variable {set set' : CacheSet} {l : List ℕ} {b : ℕ} {c c' : Cache}

/-- **A doubly linked set**, with its blocks in forward order: the pointers of
its ends, and the links between the blocks, which are inverse to each
other. -/
structure CacheSet.Forward (set : CacheSet) (l : List ℕ) : Prop where
  firstBlk : set.firstBlk = l.head?
  lastBlk : set.lastBlk = l.getLast?
  prev_first : ∀ b ∈ l.head?, set.links.prev b = none
  next_last : ∀ b ∈ l.getLast?, set.links.next b = none
  linked : l.IsChain fun a b => set.links.next a = some b ∧ set.links.prev b = some a
  nodup : l.Nodup

theorem CacheSet.forward_iff_spells : set.Forward l ↔ set.Spells l := by
  constructor
  · intro h
    exact ⟨Links.seg_iff_isChain.2 ⟨h.prev_first, h.next_last, h.linked⟩, h.firstBlk, h.lastBlk,
      h.nodup⟩
  · intro h
    obtain ⟨hprev, hnext, hlinked⟩ := Links.seg_iff_isChain.1 h.seg
    exact ⟨h.firstBlk, h.lastBlk, hprev, hnext, hlinked, h.nodup⟩

/-! ## All calls -/

/-- An invalidation leaves every block where it is. -/
theorem Cache.Linked.cacheInvalidate (hc : c.Linked) :
    ∃ c', c.cacheInvalidate = some c' ∧ c'.config = c.config ∧ c'.Linked := by
  have hset : ∀ idx, ∃ set' l, c.invalidateSet (c.cacheSet idx) = some set' ∧ set'.Spells l ∧
      l.Perm (List.range c.config.assoc) := by
    intro idx
    obtain ⟨l, hl, hperm⟩ := hc.sets idx
    obtain ⟨set', hset', hspells, -⟩ := hl.invalidateSet (c := c)
      (CacheSet.Holds.length_le hperm)
    exact ⟨set', l, hset', hspells, hperm⟩
  have hreturns : ∀ idx < c.config.nset, ∃ set', c.invalidateSet (c.cacheSet idx) = some set' := by
    intro idx _
    obtain ⟨set', -, hset', -⟩ := hset idx
    exact ⟨set', hset'⟩
  obtain ⟨sets, hloop, hdone, hrest⟩ := invalidateLoop_eq hreturns
  refine ⟨_, hloop, rfl, hc.assoc, fun idx => ?_⟩
  by_cases hidx : idx < c.config.nset
  · obtain ⟨set', l, hset', hspells, hperm⟩ := hset idx
    obtain rfl := Option.some.inj (hset'.symm.trans (hdone idx hidx))
    exact ⟨l, hspells, hperm⟩
  · obtain ⟨l, hl, hperm⟩ := hc.sets idx
    rw [← hrest idx (not_lt.1 hidx)] at hl
    exact ⟨l, hl, hperm⟩

/-- An access changes no configuration. -/
theorem config_cacheAccess {hit : Bool} {robSize : Int32} {rand : ℕ} {instId : UInt64}
    {type : CacheAccessType} {addr : UInt32}
    (hacc : c.cacheAccess robSize rand instId type addr = some (hit, c')) :
    c'.config = c.config := by
  obtain ⟨set, rfl⟩ := cacheAccess_eq hacc
  cases hit with
  | true => rfl
  | false => cases type <;> rfl

/-- **Every call returns**, and leaves lists. -/
theorem Cache.Linked.call (hc : c.Linked) (call : Call) :
    ∃ c', c.call call = some c' ∧ c'.config = c.config ∧ c'.Linked := by
  cases call with
  | access robSize rand instId type addr =>
    obtain ⟨hit, c', hacc, hlinked⟩ := hc.cacheAccess robSize rand instId type addr
    exact ⟨c', by rw [Cache.call, hacc]; rfl, config_cacheAccess hacc, hlinked⟩
  | invalidate => exact hc.cacheInvalidate

/-- **`cacheset_moveBlkAtFirst` is move-to-front**, for a set of any number of
blocks; and the sets of a cache are doubly linked lists of its blocks after
any calls. -/
theorem cachesetMoveBlkAtFirst_refines :
    (∀ (set : CacheSet) (l : List ℕ), set.Forward l → ∀ b ∈ l,
      ∃ set', set.cachesetMoveBlkAtFirst b = some set' ∧ set'.Forward (b :: l.erase b) ∧
        (b :: l.erase b).Perm l ∧ set'.blk = set.blk) ∧
    ∀ config : CacheConfig, 1 ≤ config.assoc → ∀ calls : List Call,
      ∃ c, Run.play Cache.call calls (cacheInitialize config) = some c ∧
        ∀ idx, ∃ l, (c.cacheSet idx).Forward l ∧ l.Perm (List.range config.assoc) := by
  constructor
  · intro set l h b hb
    obtain ⟨set', hmove, hspells, hblk⟩ :=
      (CacheSet.forward_iff_spells.1 h).cachesetMoveBlkAtFirst hb
    exact ⟨set', hmove, CacheSet.forward_iff_spells.2 hspells, (List.perm_cons_erase hb).symm, hblk⟩
  · intro config hassoc calls
    obtain ⟨c, hrun, hconfig, hlinked⟩ := Run.play_total
      (P := fun c : Cache => c.config = config ∧ c.Linked) (fun c call hc => by
        obtain ⟨c', hcall, hconfig, hlinked⟩ := hc.2.call call
        exact ⟨c', hcall, hconfig.trans hc.1, hlinked⟩) calls
      ⟨rfl, linked_cacheInitialize hassoc⟩
    refine ⟨c, hrun, fun idx => ?_⟩
    obtain ⟨l, hl, hperm⟩ := hlinked.sets idx
    exact ⟨l, CacheSet.forward_iff_spells.2 hl, hconfig ▸ hperm⟩

/-- The last of three blocks is moved to the front, and a cache of two-block
sets that are filled first in, first out is read three times. -/
theorem cachesetMoveBlkAtFirst_sample :
    (∃ set', (CacheSet.cachesetInitialize 3).cachesetMoveBlkAtFirst 2 = some set' ∧
      set'.Forward [2, 0, 1]) ∧
    ∃ c, Run.play Cache.call [sampleRead 0x000, sampleRead 0x100, sampleRead 0x200]
        (cacheInitialize ⟨4, 64, 2, .fifo⟩) = some c ∧
      ∃ l, (c.cacheSet 0).Forward l ∧ l.Perm (List.range 2) := by
  obtain ⟨hmove, hcalls⟩ := cachesetMoveBlkAtFirst_refines
  constructor
  · obtain ⟨set', hset', hforward, -⟩ := hmove (CacheSet.cachesetInitialize 3) (List.range 3)
      (CacheSet.forward_iff_spells.2 (CacheSet.spells_cachesetInitialize 3).1) 2 (by decide)
    exact ⟨set', hset', hforward⟩
  · obtain ⟨c, hrun, hsets⟩ := hcalls ⟨4, 64, 2, .fifo⟩ (by decide)
      [sampleRead 0x000, sampleRead 0x100, sampleRead 0x200]
    exact ⟨c, hrun, hsets 0⟩

end Cachesim

end Tqsim
