import Tqsim.Cachesim.Helpers.Sets
import Tqsim.Cachesim.Model.Hierarchy

/-!
# What an access changes

The counters of a cache after an access, and of the hierarchy after an
instruction fetch or a data access. An access to a well-formed cache leaves
its block at the front of the set; one to a block that is there already
changes nothing but the count of accesses.
-/

namespace Tqsim

namespace Cachesim

variable {c c' : Cache} {h h' : Hierarchy} {hit : Bool} {robSize : Int32} {rand : ℕ}
  {instId : UInt64} {type : CacheAccessType} {addr : UInt32}

/-- **What an access does**: it is counted, as a miss if it is one, and its
set is stored back. -/
theorem cacheAccess_eq (hacc : c.cacheAccess robSize rand instId type addr = some (hit, c')) :
    ∃ set, c' = (if hit then { c with numAccess := c.numAccess + 1 }
      else { c with numAccess := c.numAccess + 1 }.countMiss robSize instId type).setSet
        (c.idx addr) set := by
  unfold Cache.cacheAccess at hacc
  obtain ⟨found, -, hacc⟩ := Option.bind_eq_some_iff.1 hacc
  cases found with
  | some b =>
    simp only at hacc
    split at hacc
    · obtain ⟨set, -, hset⟩ := Option.map_eq_some_iff.1 hacc
      obtain ⟨rfl, rfl⟩ := Prod.mk.inj hset
      exact ⟨set, rfl⟩
    · obtain ⟨rfl, rfl⟩ := Prod.mk.inj (Option.some.inj hacc)
      exact ⟨c.cacheSet (c.idx addr).toNat, by simp [Cache.setSet]⟩
  | none =>
    obtain ⟨b, -, hacc⟩ := Option.bind_eq_some_iff.1 hacc
    obtain ⟨set, -, hset⟩ := Option.map_eq_some_iff.1 hacc
    obtain ⟨rfl, rfl⟩ := Prod.mk.inj hset
    exact ⟨set, rfl⟩

/-- A read miss is counted once, and nothing else is. -/
theorem numReadMiss_cacheAccess
    (hacc : c.cacheAccess robSize rand instId type addr = some (hit, c')) :
    c'.numReadMiss = c.numReadMiss ∨ c'.numReadMiss = c.numReadMiss + 1 := by
  obtain ⟨set, rfl⟩ := cacheAccess_eq hacc
  cases hit with
  | true => exact .inl rfl
  | false =>
    cases type with
    | read => exact .inr rfl
    | write => exact .inl rfl

/-! ## Caches whose sets are lists -/

/-- A cache whose sets spell their blocks, with whatever policy. -/
structure Cache.Linked (c : Cache) : Prop where
  assoc : 1 ≤ c.config.assoc
  sets : ∀ idx, ∃ l, (c.cacheSet idx).Spells l ∧ l.Perm (List.range c.config.assoc)

theorem linked_cacheInitialize {config : CacheConfig} (hassoc : 1 ≤ config.assoc) :
    (cacheInitialize config).Linked :=
  ⟨hassoc, fun _ => ⟨_, (CacheSet.spells_cachesetInitialize config.assoc).1, List.Perm.refl _⟩⟩

/-- **There is a block to replace**, and it is one of the set. -/
theorem CacheSet.Spells.victim {set : CacheSet} {l : List ℕ} (h : set.Spells l)
    {config : CacheConfig} (hlen : l.length = config.assoc) (hassoc : 1 ≤ config.assoc) (rand : ℕ) :
    ∃ b ∈ l, set.victim config rand = some b := by
  have hne : l ≠ [] := List.ne_nil_of_length_pos (by omega)
  have hlast : set.lastBlk = some (l.getLast hne) :=
    h.lastBlk.trans (List.getLast?_eq_some_getLast hne)
  unfold CacheSet.victim
  cases config.policy with
  | lru => exact ⟨_, List.getLast_mem hne, hlast⟩
  | fifo => exact ⟨_, List.getLast_mem hne, hlast⟩
  | random =>
    -- the draw is below the number of blocks
    have hlt : rand % config.assoc < l.length := by
      have := Nat.mod_lt rand hassoc
      omega
    refine ⟨l[rand % config.assoc], List.getElem_mem hlt, ?_⟩
    simp only [h.firstBlk, h.seg.iterate_next]
    exact List.getElem?_eq_getElem hlt

/-- Two caches with the same sets, and the same parts of an address. -/
structure Cache.SameSets (c' c : Cache) : Prop where
  config : c'.config = c.config
  cacheSet : c'.cacheSet = c.cacheSet
  lenIdxBit : c'.lenIdxBit = c.lenIdxBit
  lenOffsetBit : c'.lenOffsetBit = c.lenOffsetBit

/-- A set with the block of an address at its front. -/
structure Cache.Fronted (c : Cache) (addr : UInt32) (set : CacheSet) (b : ℕ) (l : List ℕ) :
    Prop where
  spells : set.Spells (b :: l)
  perm : (b :: l).Perm (List.range c.config.assoc)
  hasTag : set.hasTag (c.tag addr) b = true

/-- **What an access does to the sets.** It returns, with the block at the front
of its set; only a hit leaves the sets alone, and not with the policy
`LRU`. -/
theorem Cache.Linked.cacheAccess_sets (hc : c.Linked) (robSize : Int32) (rand : ℕ)
    (instId : UInt64) (type : CacheAccessType) (addr : UInt32) :
    ∃ hit c', c.cacheAccess robSize rand instId type addr = some (hit, c') ∧
      ((c.config.policy ≠ .lru ∧ c'.SameSets c) ∨
        ∃ (c₁ : Cache) (set : CacheSet) (b : ℕ) (l : List ℕ), c' = c₁.setSet (c.idx addr) set ∧
          c₁.SameSets c ∧ c.Fronted addr set b l) := by
  obtain ⟨l, hl, hperm⟩ := hc.sets (c.idx addr).toNat
  have hlen : l.length = c.config.assoc := by rw [hperm.length_eq, List.length_range]
  unfold Cache.cacheAccess
  simp only [hl.lookup_eq hlen.le, Option.bind_some]
  cases hfind : l.find? ((c.cacheSet (c.idx addr).toNat).hasTag (c.tag addr)) with
  | some b =>
    have hb := List.mem_of_find?_eq_some hfind
    obtain ⟨set', hmove, hspells, hblk⟩ := hl.cachesetMoveBlkAtFirst hb
    by_cases hlru : c.config.policy = .lru
    · have htag : set'.hasTag (c.tag addr) b = true := by
        have := List.find?_some hfind
        rwa [CacheSet.hasTag, hblk]
      simp only [if_pos hlru, hmove, Option.map_some]
      exact ⟨true, _, rfl, .inr ⟨_, set', b, l.erase b, rfl, ⟨rfl, rfl, rfl, rfl⟩, hspells,
        (List.perm_cons_erase hb).symm.trans hperm, htag⟩⟩
    · simp only [if_neg hlru]
      exact ⟨true, _, rfl, .inl ⟨hlru, rfl, rfl, rfl, rfl⟩⟩
  | none =>
    -- the block that is replaced is filled first
    obtain ⟨b, hb, hvictim⟩ := hl.victim hlen hc.assoc rand
    have hfill : ((c.cacheSet (c.idx addr).toNat).fill b (c.tag addr)).Spells l :=
      ⟨hl.seg, hl.firstBlk, hl.lastBlk, hl.nodup⟩
    obtain ⟨set', hmove, hspells, hblk⟩ := hfill.cachesetMoveBlkAtFirst hb
    have htag : set'.hasTag (c.tag addr) b = true := by
      simp [CacheSet.hasTag, hblk, CacheSet.fill]
    simp only [hvictim, Option.bind_some, hmove, Option.map_some]
    refine ⟨false, _, rfl, .inr ⟨_, set', b, l.erase b, rfl, ?_, hspells,
      (List.perm_cons_erase hb).symm.trans hperm, htag⟩⟩
    cases type <;> exact ⟨rfl, rfl, rfl, rfl⟩

/-- A set of blocks, stored back. -/
theorem Cache.Linked.setSet (hc : c.Linked) (hsame : c'.SameSets c) {set : CacheSet} {l : List ℕ}
    (hset : set.Spells l) (hperm : l.Perm (List.range c.config.assoc)) (idx : UInt32) :
    (c'.setSet idx set).Linked := by
  refine ⟨?_, fun i => ?_⟩
  · simp only [Cache.setSet, hsame.config]
    exact hc.assoc
  · simp only [Cache.setSet, hsame.config, hsame.cacheSet]
    by_cases hi : i = idx.toNat
    · rw [hi, Function.update_self]
      exact ⟨l, hset, hperm⟩
    · rw [Function.update_of_ne hi]
      exact hc.sets i

/-- **An access returns**, whatever the policy. -/
theorem Cache.Linked.cacheAccess (hc : c.Linked) (robSize : Int32) (rand : ℕ) (instId : UInt64)
    (type : CacheAccessType) (addr : UInt32) :
    ∃ hit c', c.cacheAccess robSize rand instId type addr = some (hit, c') ∧ c'.Linked := by
  obtain ⟨hit, c', hacc, hsets⟩ := hc.cacheAccess_sets robSize rand instId type addr
  refine ⟨hit, c', hacc, ?_⟩
  rcases hsets with ⟨-, hsame⟩ | ⟨c₁, set, b, l, rfl, hsame, hfront⟩
  · exact ⟨hsame.config ▸ hc.assoc, fun i => by rw [hsame.config, hsame.cacheSet]; exact hc.sets i⟩
  · exact hc.setSet hsame hfront.spells hfront.perm _

/-! ## Well-formed caches -/

/-- A cache with the policy `LRU` whose sets spell their blocks. -/
structure Cache.WellFormed (c : Cache) : Prop where
  policy : c.config.policy = .lru
  assoc : 1 ≤ c.config.assoc
  sets : ∀ idx, ∃ l, (c.cacheSet idx).Spells l ∧ l.Perm (List.range c.config.assoc)

/-- The block of an address is at the front of its set. -/
def Cache.AtFront (c : Cache) (addr : UInt32) : Prop :=
  ∃ b, (c.cacheSet (c.idx addr).toNat).firstBlk = some b ∧
    (c.cacheSet (c.idx addr).toNat).hasTag (c.tag addr) b = true

theorem wellFormed_cacheInitialize {config : CacheConfig} (hpolicy : config.policy = .lru)
    (hassoc : 1 ≤ config.assoc) : (cacheInitialize config).WellFormed :=
  ⟨hpolicy, hassoc, fun _ =>
    ⟨_, (CacheSet.spells_cachesetInitialize config.assoc).1, List.Perm.refl _⟩⟩

theorem Cache.WellFormed.linked (hc : c.WellFormed) : c.Linked := ⟨hc.assoc, hc.sets⟩

/-- The set of an address, stored back with the block at its front. -/
theorem Cache.WellFormed.setSet (hc : c.WellFormed) (hsame : c'.SameSets c) {set : CacheSet} {b : ℕ}
    {l : List ℕ} (hfront : c.Fronted addr set b l) :
    (c'.setSet (c.idx addr) set).WellFormed ∧ (c'.setSet (c.idx addr) set).AtFront addr := by
  have hlinked := hc.linked.setSet hsame hfront.spells hfront.perm (c.idx addr)
  have htag := hfront.hasTag
  refine ⟨⟨?_, hlinked.assoc, hlinked.sets⟩, b, ?_, ?_⟩
  · simp only [Cache.setSet, hsame.config]
    exact hc.policy
  · simp [Cache.setSet, Cache.idx, hsame.lenIdxBit, hsame.lenOffsetBit, hfront.spells.firstBlk]
  · simpa [Cache.setSet, Cache.idx, Cache.tag, hsame.lenIdxBit, hsame.lenOffsetBit] using htag

/-- **An access to a well-formed cache** succeeds, and leaves its block at the
front. -/
theorem Cache.WellFormed.cacheAccess (hc : c.WellFormed) (robSize : Int32) (rand : ℕ)
    (instId : UInt64) (type : CacheAccessType) (addr : UInt32) :
    ∃ hit c', c.cacheAccess robSize rand instId type addr = some (hit, c') ∧ c'.WellFormed ∧
      c'.AtFront addr := by
  obtain ⟨hit, c', hacc, hsets⟩ := hc.linked.cacheAccess_sets robSize rand instId type addr
  refine ⟨hit, c', hacc, ?_⟩
  rcases hsets with ⟨hpolicy, -⟩ | ⟨c₁, set, b, l, rfl, hsame, hfront⟩
  · exact absurd hc.policy hpolicy
  · exact hc.setSet hsame hfront

/-- **An access to a block at the front** changes the count of accesses
only. -/
theorem Cache.WellFormed.cacheAccess_of_atFront (hc : c.WellFormed) (hfront : c.AtFront addr)
    (robSize : Int32) (rand : ℕ) (instId : UInt64) (type : CacheAccessType) :
    c.cacheAccess robSize rand instId type addr =
      some (true, { c with numAccess := c.numAccess + 1 }) := by
  obtain ⟨l, hl, hperm⟩ := hc.sets (c.idx addr).toNat
  have hlen : l.length = c.config.assoc := by rw [hperm.length_eq, List.length_range]
  obtain ⟨b, hfirst, htag⟩ := hfront
  have hhead : l.head? = some b := hl.firstBlk ▸ hfirst
  obtain ⟨l', rfl⟩ := List.head?_eq_some_iff.1 hhead
  unfold Cache.cacheAccess
  simp only [hl.lookup_eq hlen.le, Option.bind_some, hc.policy, List.find?_cons, htag, if_true,
    CacheSet.cachesetMoveBlkAtFirst, hfirst, Option.map_some, Cache.setSet]
  rw [Function.update_eq_self]

/-! ## The count of accesses -/

/-- A cache with another count of accesses. -/
def Cache.recount (c : Cache) (n : UInt64) : Cache := { c with numAccess := n }

/-- The count of accesses matters to nothing else. -/
theorem Cache.cacheAccess_recount (c : Cache) (n : UInt64) :
    (c.recount n).cacheAccess robSize rand instId type addr =
      (c.cacheAccess robSize rand instId type addr).map fun (hit, c') =>
        (hit, c'.recount (n + 1)) := by
  unfold Cache.cacheAccess
  rw [Option.map_bind]
  refine Option.bind_congr fun found _ => ?_
  cases found with
  | some b =>
    simp only [Function.comp_apply]
    by_cases hp : c.config.policy = .lru
    · rw [if_pos hp, if_pos (show (c.recount n).config.policy = .lru from hp), Option.map_map]
      rfl
    · rw [if_neg hp, if_neg (show ¬ (c.recount n).config.policy = .lru from hp)]
      rfl
  | none =>
    simp only [Function.comp_apply]
    rw [Option.map_bind]
    refine Option.bind_congr fun b _ => ?_
    simp only [Function.comp_apply, Option.map_map]
    cases type <;> rfl

/-! ## The hierarchy -/

/-- The instruction cache counts no more than one miss in a fetch. -/
theorem il1_filterFetch {hsim : Bool} {stack missType : CacheMissType} {previousPc prev pc : UInt32}
    {curCycle : UInt64}
    (hfetch : filterFetch h hsim robSize stack previousPc curCycle pc = some (missType, h', prev)) :
    h'.il1MissLatency = h.il1MissLatency ∧
      (h'.il1NumMiss = h.il1NumMiss ∨ h'.il1NumMiss = h.il1NumMiss + 1) := by
  unfold filterFetch at hfetch
  split at hfetch
  · obtain ⟨⟨m, h₁⟩, hacc, heq⟩ := Option.map_eq_some_iff.1 hfetch
    simp only [Prod.mk.injEq] at heq
    obtain ⟨-, rfl, -⟩ := heq
    obtain ⟨⟨m₁, il1⟩, hfirst, hacc⟩ := Option.bind_eq_some_iff.1 hacc
    obtain ⟨⟨m₂, ul2⟩, -, heq⟩ := Option.map_eq_some_iff.1 hacc
    obtain ⟨-, rfl⟩ := Prod.mk.inj heq
    simp only [Hierarchy.il1MissLatency, Hierarchy.il1NumMiss]
    unfold accessFirst at hfirst
    split at hfirst
    next l hl =>
      obtain ⟨⟨hit, l'⟩, hlevel, heq⟩ := Option.map_eq_some_iff.1 hfirst
      obtain ⟨-, rfl⟩ := Prod.mk.inj heq
      obtain ⟨⟨hit', c'⟩, hcache, heq⟩ := Option.map_eq_some_iff.1 hlevel
      obtain ⟨-, rfl⟩ := Prod.mk.inj heq
      rw [hl]
      exact ⟨rfl, numReadMiss_cacheAccess hcache⟩
    next hl =>
      obtain ⟨-, rfl⟩ := Prod.mk.inj (Option.some.inj hfirst)
      rw [hl]
      exact ⟨rfl, .inl rfl⟩
  · simp only [Option.some.injEq, Prod.mk.injEq] at hfetch
    obtain ⟨-, rfl, -⟩ := hfetch
    exact ⟨rfl, .inl rfl⟩

/-- A data access does not touch the instruction cache. -/
theorem il1_cachesimDaccess {hsim : Bool} {stack missType : CacheMissType} {curCycle : UInt64}
    {isWrite : Bool}
    (hacc : cachesimDaccess h hsim robSize stack curCycle addr isWrite = some (missType, h')) :
    h'.il1 = h.il1 := by
  obtain ⟨⟨m₁, dl1⟩, -, hacc⟩ := Option.bind_eq_some_iff.1 hacc
  obtain ⟨⟨m₂, ul2⟩, -, heq⟩ := Option.map_eq_some_iff.1 hacc
  obtain ⟨-, rfl⟩ := Prod.mk.inj heq
  rfl

end Cachesim

end Tqsim
