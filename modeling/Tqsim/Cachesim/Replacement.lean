import Tqsim.Common.Lru
import Tqsim.Common.Run
import Tqsim.Cachesim.Helpers.Sets

/-!
# Replacement

With the policy `LRU`, a set holds the blocks of memory that were accessed
last, in the order of their last accesses: an access hits just when its block
is one of them.
-/

namespace Tqsim

namespace Cachesim

open Lru

variable {set set' : CacheSet} {nset assoc idx : ℕ} {s : List ℕ} {tag : UInt32}

/-! ## A set -/

namespace CacheSet

/-- The number of the memory block that a block holds. -/
def held (set : CacheSet) (nset idx b : ℕ) : Option ℕ :=
  if (set.blk b).valid then some ((set.blk b).tag.toNat * nset + idx) else none

/-- **A set that holds memory blocks**, the most recent one first, and whose
other blocks are behind. -/
def Holds (set : CacheSet) (nset assoc idx : ℕ) (s : List ℕ) : Prop :=
  ∃ l, set.Spells l ∧ l.Perm (List.range assoc) ∧ l.map (set.held nset idx) = frames assoc s

/-- The test of the search for a tag. -/
theorem held_eq_some_iff (hn : 0 < nset) {b : ℕ} :
    set.held nset idx b = some (tag.toNat * nset + idx) ↔ set.hasTag tag b = true := by
  unfold held hasTag
  cases (set.blk b).valid with
  | false => simp
  | true =>
    simp only [if_true, Option.some.injEq, Nat.add_right_cancel_iff, Bool.true_and, beq_iff_eq]
    rw [Nat.mul_left_inj hn.ne', UInt32.toNat_inj]

theorem Holds.length_le {l : List ℕ} (h : l.Perm (List.range assoc)) : l.length ≤ assoc := by
  rw [h.length_eq, List.length_range]

/-- **A hit** moves the block found to the front. -/
theorem Holds.hit (hn : 0 < nset) (ha : 0 < assoc) (h : set.Holds nset assoc idx s)
    (hs : s.length ≤ assoc) (hmem : tag.toNat * nset + idx ∈ s) :
    ∃ b set', set.lookup assoc tag = some (some b) ∧ set.cachesetMoveBlkAtFirst b = some set' ∧
      set'.Holds nset assoc idx (touch assoc s (tag.toNat * nset + idx)) := by
  obtain ⟨l, hl, hperm, hmap⟩ := h
  -- some block passes the test; the search stops at the first
  obtain ⟨b₀, hb₀, heq₀⟩ := List.mem_map.1 (hmap ▸ mem_frames.2 hmem)
  obtain ⟨b, hb⟩ : ∃ b, l.find? (set.hasTag tag) = some b :=
    Option.isSome_iff_exists.1 (List.find?_isSome.2 ⟨b₀, hb₀, (held_eq_some_iff hn).1 heq₀⟩)
  obtain ⟨hpb, l₁, l₂, rfl, hl₁⟩ := List.find?_eq_some_iff_append.1 hb
  have hheld : set.held nset idx b = some (tag.toNat * nset + idx) := (held_eq_some_iff hn).2 hpb
  have hb₁ : b ∉ l₁ := fun hm => by simpa [hpb] using hl₁ b hm
  have hx₁ : some (tag.toNat * nset + idx) ∉ l₁.map (set.held nset idx) := by
    intro hm
    obtain ⟨c, hc, hc'⟩ := List.mem_map.1 hm
    simpa [(held_eq_some_iff hn).1 hc'] using hl₁ c hc
  obtain ⟨set', hset', hspells, hblk⟩ := hl.cachesetMoveBlkAtFirst (b := b) (by simp)
  refine ⟨b, set', (hl.lookup_eq (length_le hperm) tag).trans (congrArg some hb), hset', _, hspells,
    ?_, ?_⟩
  · exact (List.perm_cons_erase (by simp)).symm.trans hperm
  · have hsame : set'.held nset idx = set.held nset idx := by
      funext c
      simp only [held, hblk]
    have herase : ((l₁ ++ b :: l₂).map (set.held nset idx)).erase (some (tag.toNat * nset + idx)) =
        (l₁ ++ l₂).map (set.held nset idx) := by
      rw [List.map_append, List.map_cons, hheld, List.erase_append_right _ hx₁,
        List.erase_cons_head, List.map_append]
    rw [frames_touch_of_mem ha hs hmem, ← hmap, herase, hsame, List.erase_append_right _ hb₁,
      List.erase_cons_head, List.map_cons, hheld]

/-- **A miss** puts the tag into the last block, which moves to the front. -/
theorem Holds.miss (hn : 0 < nset) (ha : 0 < assoc) (h : set.Holds nset assoc idx s)
    (hs : s.length ≤ assoc) (hmem : tag.toNat * nset + idx ∉ s) :
    set.lookup assoc tag = some none ∧ ∃ b set', set.lastBlk = some b ∧
      (set.fill b tag).cachesetMoveBlkAtFirst b = some set' ∧
      set'.Holds nset assoc idx (touch assoc s (tag.toNat * nset + idx)) := by
  obtain ⟨l, hl, hperm, hmap⟩ := h
  have hnone : l.find? (set.hasTag tag) = none := by
    rw [List.find?_eq_none]
    intro b hb hpb
    have hin := List.mem_map_of_mem (f := set.held nset idx) hb
    rw [(held_eq_some_iff hn).2 hpb, hmap] at hin
    exact hmem (mem_frames.1 hin)
  refine ⟨(hl.lookup_eq (length_le hperm) tag).trans (congrArg some hnone), ?_⟩
  have hne : l ≠ [] := by
    rintro rfl
    have := hperm.length_eq
    rw [List.length_range] at this
    exact ha.ne this
  obtain ⟨l₁, b, rfl⟩ := List.eq_nil_or_concat l |>.resolve_left hne
  rw [List.concat_eq_append] at hl hperm hmap
  have hb₁ : b ∉ l₁ := fun hm => by
    have := hl.nodup
    simp only [List.nodup_append, List.mem_singleton] at this
    exact this.2.2 b hm b rfl rfl
  have hfill : (set.fill b tag).Spells (l₁ ++ [b]) := ⟨hl.seg, hl.firstBlk, hl.lastBlk, hl.nodup⟩
  obtain ⟨set', hset', hspells, hblk⟩ := hfill.cachesetMoveBlkAtFirst (b := b) (by simp)
  refine ⟨b, set', by rw [hl.lastBlk, List.getLast?_concat], hset', _, hspells, ?_, ?_⟩
  · exact (List.perm_cons_erase (by simp)).symm.trans hperm
  · have hnew : set'.held nset idx b = some (tag.toNat * nset + idx) := by
      simp [held, hblk, fill]
    have hold : l₁.map (set'.held nset idx) = l₁.map (set.held nset idx) :=
      List.map_congr_left fun c hc => by
        have hcb : c ≠ b := fun he => hb₁ (he ▸ hc)
        simp [held, hblk, fill, hcb]
    rw [frames_touch_of_notMem ha hs hmem, ← hmap, List.erase_append_right _ hb₁,
      List.erase_cons_head, List.append_nil, List.map_cons, hnew, hold, List.map_append,
      List.map_singleton, List.dropLast_concat]

theorem held_eq_none {b : ℕ} (h : (set.blk b).valid = false) : set.held nset idx b = none := by
  simp [held, h]

/-- A set whose blocks are all invalid holds nothing. -/
theorem Holds.of_invalid {l : List ℕ} (hl : set.Spells l) (hperm : l.Perm (List.range assoc))
    (h : ∀ b ∈ l, (set.blk b).valid = false) : set.Holds nset assoc idx [] := by
  refine ⟨l, hl, hperm, ?_⟩
  rw [List.map_congr_left (g := fun _ => none) fun b hb => held_eq_none (h b hb), List.map_const',
    hperm.length_eq, List.length_range]
  rfl

/-- No two of its blocks hold the same. -/
theorem Holds.eq_of_hasTag (hn : 0 < nset) (h : set.Holds nset assoc idx s) (hs : s.Nodup)
    {b b' : ℕ} (hb : b < assoc) (hb' : b' < assoc) (ht : set.hasTag tag b = true)
    (ht' : set.hasTag tag b' = true) : b = b' := by
  obtain ⟨l, hl, hperm, hmap⟩ := h
  -- both are at the place of the same memory block
  have hplace : ∀ c < assoc, set.hasTag tag c = true → ∃ i : ℕ, l[i]? = some c ∧
      (frames assoc s)[i]? = some (some (tag.toNat * nset + idx)) := by
    intro c hc htag
    obtain ⟨i, hi⟩ := List.mem_iff_getElem?.1 (hperm.mem_iff.2 (List.mem_range.2 hc))
    refine ⟨i, hi, ?_⟩
    rw [← hmap, List.getElem?_map, hi, Option.map_some, (held_eq_some_iff hn).2 htag]
  obtain ⟨i, hi, hf⟩ := hplace b hb ht
  obtain ⟨i', hi', hf'⟩ := hplace b' hb' ht'
  obtain rfl := frames_inj hs hf hf'
  exact Option.some.inj (hi.symm.trans hi')

end CacheSet

/-! ## The cache -/

/-- A cache as the simulator configures it, with the policy `LRU`. -/
structure CacheConfig.IsLru (config : CacheConfig) : Prop where
  policy : config.policy = .lru
  nset : ∃ i, config.nset = 2 ^ i
  bsize : ∃ j, config.bsize = 2 ^ j
  size : config.nset * config.bsize < 2 ^ 32
  assoc : 1 ≤ config.assoc

/-- The memory block of an address. -/
def CacheConfig.blockOf (config : CacheConfig) (addr : UInt32) : ℕ := addr.toNat / config.bsize

/-- The blocks accessed that belong to a set. -/
def CacheConfig.setHistory (config : CacheConfig) (h : List UInt32) (idx : ℕ) : List ℕ :=
  (h.map config.blockOf).filter (· % config.nset = idx)

/-- **The reference**: the blocks of a set that were accessed last, as many as
it has room for. -/
def CacheConfig.mostRecent (config : CacheConfig) (h : List UInt32) (idx : ℕ) : List ℕ :=
  (recency (config.setHistory h idx)).take config.assoc

/-- **What a cache is after its accesses** since it was last invalidated. -/
structure Cache.Follows (c : Cache) (config : CacheConfig) (h : List UInt32) : Prop where
  config_eq : c.config = config
  lenIdxBit : c.lenIdxBit = Nat.log2 config.nset
  lenOffsetBit : c.lenOffsetBit = Nat.log2 config.bsize
  sets : ∀ idx < config.nset,
    (c.cacheSet idx).Holds config.nset config.assoc idx (config.mostRecent h idx)

variable {c : Cache} {config : CacheConfig} {h : List UInt32}

theorem CacheConfig.IsLru.nset_pos (hc : config.IsLru) : 0 < config.nset := by
  obtain ⟨i, hi⟩ := hc.nset
  rw [hi]
  exact Nat.two_pow_pos i

theorem mask_toNat {i : ℕ} (hi : i < 32) :
    ((1 : UInt32) <<< UInt32.ofNat i - 1).toNat = 2 ^ i - 1 := by
  have hlt : 2 ^ i < 2 ^ 32 := Nat.pow_lt_pow_right Nat.one_lt_two hi
  have hpos := Nat.two_pow_pos i
  have hshift : ((1 : UInt32) <<< UInt32.ofNat i).toNat = 2 ^ i := by
    rw [UInt32.toNat_shiftLeft, UInt32.toNat_ofNat_of_lt' (by simp only [UInt32.size]; omega),
      Nat.mod_eq_of_lt hi, UInt32.toNat_one, Nat.one_shiftLeft, Nat.mod_eq_of_lt hlt]
  rw [UInt32.toNat_sub_of_le _ _ (UInt32.le_iff_toNat_le.2 (by rw [hshift]; exact hpos)), hshift,
    UInt32.toNat_one]

theorem shiftRight_toNat (addr : UInt32) {i : ℕ} (hi : i < 32) :
    (addr >>> UInt32.ofNat i).toNat = addr.toNat / 2 ^ i := by
  rw [UInt32.toNat_shiftRight, UInt32.toNat_ofNat_of_lt' (by simp only [UInt32.size]; omega),
    Nat.mod_eq_of_lt hi, Nat.shiftRight_eq_div_pow]

/-- **The split of an address**: the set, and with the tag the block. -/
theorem Cache.Follows.split (hc : config.IsLru) (hf : c.Follows config h) (addr : UInt32) :
    (c.idx addr).toNat = config.blockOf addr % config.nset ∧
      (c.tag addr).toNat * config.nset + (c.idx addr).toNat = config.blockOf addr := by
  obtain ⟨i, hi⟩ := hc.nset
  obtain ⟨j, hj⟩ := hc.bsize
  have hsum : i + j < 32 := by
    have hsize := hc.size
    rw [hi, hj, ← Nat.pow_add] at hsize
    exact (Nat.pow_lt_pow_iff_right Nat.one_lt_two).1 hsize
  have hidx : (c.idx addr).toNat = config.blockOf addr % config.nset := by
    rw [Cache.idx, hf.lenIdxBit, hf.lenOffsetBit, hi, hj, Nat.log2_two_pow, Nat.log2_two_pow,
      UInt32.toNat_and, mask_toNat (by omega), shiftRight_toNat _ (by omega),
      Nat.and_two_pow_sub_one_eq_mod, CacheConfig.blockOf, hj]
  have htag : (c.tag addr).toNat = config.blockOf addr / config.nset := by
    rw [Cache.tag, hf.lenIdxBit, hf.lenOffsetBit, hi, hj, Nat.log2_two_pow, Nat.log2_two_pow,
      shiftRight_toNat _ (by omega), CacheConfig.blockOf, hj, Nat.div_div_eq_div_mul, Nat.pow_add]
  refine ⟨hidx, ?_⟩
  rw [hidx, htag, Nat.mul_comm]
  exact Nat.div_add_mod _ _

theorem mostRecent_nodup (config : CacheConfig) (h : List UInt32) (idx : ℕ) :
    (config.mostRecent h idx).Nodup :=
  (nodup_recency _).sublist (List.take_sublist _ _)

theorem length_mostRecent_le (config : CacheConfig) (h : List UInt32) (idx : ℕ) :
    (config.mostRecent h idx).length ≤ config.assoc := List.length_take_le _ _

/-- The reference, after an access to the set. -/
theorem mostRecent_concat_self (hc : config.IsLru) (h : List UInt32) (addr : UInt32) :
    config.mostRecent (h ++ [addr]) (config.blockOf addr % config.nset) =
      touch config.assoc (config.mostRecent h (config.blockOf addr % config.nset))
        (config.blockOf addr) := by
  rw [CacheConfig.mostRecent, CacheConfig.mostRecent, ← take_recency_concat hc.assoc]
  simp [CacheConfig.setHistory]

/-- The reference, after an access to another set. -/
theorem mostRecent_concat_of_ne {addr : UInt32} (hne : config.blockOf addr % config.nset ≠ idx) :
    config.mostRecent (h ++ [addr]) idx = config.mostRecent h idx := by
  simp [CacheConfig.mostRecent, CacheConfig.setHistory, hne]

/-- A set, stored back after an access. -/
theorem Cache.Follows.setSet (hc : config.IsLru) (hf : c.Follows config h) {addr : UInt32}
    {set : CacheSet} (hset : set.Holds config.nset config.assoc (c.idx addr).toNat
      (touch config.assoc (config.mostRecent h (c.idx addr).toNat) (config.blockOf addr)))
    {c' : Cache} (hconfig : c'.config = config) (hidx : c'.lenIdxBit = c.lenIdxBit)
    (hoff : c'.lenOffsetBit = c.lenOffsetBit)
    (hsets : c'.cacheSet = Function.update c.cacheSet (c.idx addr).toNat set) :
    c'.Follows config (h ++ [addr]) := by
  have hsplit := (hf.split hc addr).1
  refine ⟨hconfig, hidx.trans hf.lenIdxBit, hoff.trans hf.lenOffsetBit,
    fun idx hlt => ?_⟩
  rw [hsets]
  by_cases heq : idx = (c.idx addr).toNat
  · subst heq
    rw [Function.update_self, hsplit, mostRecent_concat_self hc]
    rw [hsplit] at hset
    exact hset
  · rw [Function.update_of_ne heq, mostRecent_concat_of_ne (by rw [← hsplit]; exact Ne.symm heq)]
    exact hf.sets idx hlt

/-- **An access** hits just when its block is one of the most recent of its
set. -/
theorem Cache.Follows.cacheAccess (hc : config.IsLru) (hf : c.Follows config h) (robSize : Int32)
    (rand : ℕ) (instId : UInt64) (type : CacheAccessType) (addr : UInt32) :
    ∃ hit c', c.cacheAccess robSize rand instId type addr = some (hit, c') ∧
      (hit = true ↔
        config.blockOf addr ∈ config.mostRecent h (config.blockOf addr % config.nset)) ∧
      c'.Follows config (h ++ [addr]) := by
  obtain ⟨hidx, hblock⟩ := hf.split hc addr
  have hlt : (c.idx addr).toNat < config.nset := hidx ▸ Nat.mod_lt _ hc.nset_pos
  have hset := hf.sets _ hlt
  have hlen := length_mostRecent_le config h (c.idx addr).toNat
  rw [← hidx]
  unfold Cache.cacheAccess
  simp only [hf.config_eq]
  by_cases hmem : config.blockOf addr ∈ config.mostRecent h (c.idx addr).toNat
  · obtain ⟨b, set', hlookup, hmove, hholds⟩ :=
      hset.hit hc.nset_pos hc.assoc hlen (hblock.symm ▸ hmem)
    rw [hblock] at hholds
    simp only [hlookup, Option.bind_some, hc.policy, if_true, hmove, Option.map_some]
    exact ⟨true, _, rfl, by simp [hmem], hf.setSet hc hholds rfl rfl rfl rfl⟩
  · obtain ⟨hlookup, b, set', hlast, hmove, hholds⟩ :=
      hset.miss hc.nset_pos hc.assoc hlen (hblock.symm ▸ hmem)
    rw [hblock] at hholds
    simp only [hlookup, Option.bind_some, CacheSet.victim, hc.policy, hlast, hmove,
      Option.map_some]
    refine ⟨false, _, rfl, by simp [hmem], hf.setSet hc hholds ?_ ?_ ?_ ?_⟩ <;>
      cases type <;> rfl

/-- **An invalidation** forgets all accesses. -/
theorem Cache.Follows.cacheInvalidate (hf : c.Follows config h) :
    ∃ c', c.cacheInvalidate = some c' ∧ c'.Follows config [] := by
  have hset : ∀ idx < config.nset, ∃ set', c.invalidateSet (c.cacheSet idx) = some set' ∧
      set'.Holds config.nset config.assoc idx [] := by
    intro idx hidx
    obtain ⟨l, hl, hperm, -⟩ := hf.sets idx hidx
    obtain ⟨set', hset', hspells, hvalid⟩ := hl.invalidateSet (c := c)
      (hf.config_eq ▸ CacheSet.Holds.length_le hperm)
    exact ⟨set', hset', .of_invalid hspells hperm hvalid⟩
  obtain ⟨sets, hloop, hdone, -⟩ := invalidateLoop_eq fun idx hidx =>
    (hset idx hidx).imp fun set' h => h.1
  rw [← hf.config_eq] at hloop
  refine ⟨_, hloop, hf.config_eq, hf.lenIdxBit, hf.lenOffsetBit, fun idx hidx => ?_⟩
  obtain ⟨set', hset', hholds⟩ := hset idx hidx
  have hnone : config.mostRecent [] idx = [] := List.take_nil
  obtain rfl := Option.some.inj (hset'.symm.trans (hdone idx hidx))
  rw [hnone]
  exact hholds

theorem follows_cacheInitialize (config : CacheConfig) :
    (cacheInitialize config).Follows config [] where
  config_eq := rfl
  lenIdxBit := rfl
  lenOffsetBit := rfl
  sets idx _ := by
    obtain ⟨hspells, hblk⟩ := CacheSet.spells_cachesetInitialize config.assoc
    have hnone : config.mostRecent [] idx = [] := List.take_nil
    rw [hnone]
    exact .of_invalid hspells (.refl _) fun b _ => hblk b

/-! ## All calls -/

/-- The addresses accessed since the last invalidation. -/
def accessed (calls : List Call) : List UInt32 :=
  calls.foldl (fun h call => match call with
    | .access _ _ _ _ addr => h ++ [addr]
    | .invalidate => []) []

/-- **The cache is a least-recently-used cache**: after any calls, an access
hits just when its block is among those of its set that were accessed last
since the last invalidation; and no set holds a block twice. -/
theorem hit_iff_mostRecent (config : CacheConfig) (hc : config.IsLru) (calls : List Call) :
    ∃ c, Run.play Cache.call calls (cacheInitialize config) = some c ∧
      (∀ robSize rand instId type addr, ∃ hit c',
        c.cacheAccess robSize rand instId type addr = some (hit, c') ∧
          (hit = true ↔ config.blockOf addr ∈
            config.mostRecent (accessed calls) (config.blockOf addr % config.nset))) ∧
      ∀ idx < config.nset, ∀ tag, ∀ b < config.assoc, ∀ b' < config.assoc,
        (c.cacheSet idx).hasTag tag b = true → (c.cacheSet idx).hasTag tag b' = true → b = b' := by
  have hstep : ∀ (c : Cache) (h : List UInt32) (call : Call), c.Follows config h →
      ∃ c', c.call call = some c' ∧ c'.Follows config (match call with
        | .access _ _ _ _ addr => h ++ [addr]
        | .invalidate => []) := by
    intro c h call hf
    cases call with
    | access robSize rand instId type addr =>
      obtain ⟨hit, c', hc', -, hf'⟩ := hf.cacheAccess hc robSize rand instId type addr
      exact ⟨c', by rw [Cache.call, hc']; rfl, hf'⟩
    | invalidate => exact hf.cacheInvalidate
  obtain ⟨c, hrun, hf⟩ := Run.play_simulates hstep calls (follows_cacheInitialize config)
  refine ⟨c, hrun, fun robSize rand instId type addr => ?_, fun idx hidx tag b hb b' hb' => ?_⟩
  · obtain ⟨hit, c', hc', hiff, -⟩ := hf.cacheAccess hc robSize rand instId type addr
    exact ⟨hit, c', hc', hiff⟩
  · exact (hf.sets idx hidx).eq_of_hasTag hc.nset_pos (mostRecent_nodup _ _ _) hb hb'

/-- A read. -/
def sampleRead (addr : UInt32) : Call := .access 60 0 0 .read addr

/-- In a set of two blocks, the third block takes the place of the second,
since the first one has been read again. -/
theorem hit_iff_mostRecent_sample : ∃ c,
    Run.play Cache.call [sampleRead 0x000, sampleRead 0x100, sampleRead 0x000, sampleRead 0x200]
        (cacheInitialize ⟨4, 64, 2, .lru⟩) = some c ∧
      (∃ c', c.cacheAccess 60 0 0 .read 0x020 = some (true, c')) ∧
      ∃ c', c.cacheAccess 60 0 0 .read 0x100 = some (false, c') := by
  have hlru : CacheConfig.IsLru ⟨4, 64, 2, .lru⟩ := ⟨rfl, ⟨2, rfl⟩, ⟨6, rfl⟩, by decide, by decide⟩
  obtain ⟨c, hrun, hhit, -⟩ := hit_iff_mostRecent ⟨4, 64, 2, .lru⟩ hlru
    [sampleRead 0x000, sampleRead 0x100, sampleRead 0x000, sampleRead 0x200]
  refine ⟨c, hrun, ?_, ?_⟩
  · obtain ⟨hit, c', hc', hiff⟩ := hhit 60 0 0 .read 0x020
    obtain rfl : hit = true := hiff.2 (by decide)
    exact ⟨c', hc'⟩
  · obtain ⟨hit, c', hc', hiff⟩ := hhit 60 0 0 .read 0x100
    obtain rfl : hit = false := Bool.eq_false_iff.2 fun h => absurd (hiff.1 h) (by decide)
    exact ⟨c', hc'⟩

end Cachesim

end Tqsim
