import Tqsim.Cachesim.Helpers.Levels

/-!
# The fetch filter

`inst_increment` accesses the instruction cache only when the 64-byte block
of the program counter changes. The accesses that it leaves out would have
found their block at the front of its set, so that they change nothing but
the count of accesses: `cachesim_iaccess` itself rounds the address down to
such a block, whatever the block size of the cache.
-/

namespace Tqsim

namespace Cachesim

variable {h : Hierarchy} {pc prev : UInt32} (hsim : Bool) (robSize : Int32)
  (stack : CacheMissType) (curCycle : UInt64)

/-! ## The hierarchy -/

/-- The hierarchy with another count of accesses of the instruction cache. -/
def Hierarchy.recount (h : Hierarchy) (n : UInt64) : Hierarchy :=
  { h with il1 := h.il1.map fun l => { l with cache := l.cache.recount n } }

/-- All caches that there are are well formed, and there is one for
instructions. -/
structure Hierarchy.WellFormed (h : Hierarchy) : Prop where
  il1 : ∃ l, h.il1 = some l ∧ l.cache.WellFormed
  dl1 : ∀ l ∈ h.dl1, l.cache.WellFormed
  ul2 : ∀ l ∈ h.ul2, l.cache.WellFormed

theorem Hierarchy.WellFormed.formed (hw : h.WellFormed) : h.Formed := by
  obtain ⟨l, hil1, hl⟩ := hw.il1
  exact ⟨by simpa [hil1] using hl, hw.dl1, hw.ul2⟩

theorem Hierarchy.Formed.wellFormed (hf : h.Formed) (hil1 : h.il1.isSome) : h.WellFormed := by
  obtain ⟨l, hl⟩ := Option.isSome_iff_exists.1 hil1
  exact ⟨⟨l, hl, hf.il1 l hl⟩, hf.dl1, hf.ul2⟩

theorem Hierarchy.WellFormed.il1_isSome (hw : h.WellFormed) : h.il1.isSome := by
  obtain ⟨l, hil1, -⟩ := hw.il1
  rw [hil1]
  rfl

/-- **A fetch** leaves its block at the front. -/
theorem Hierarchy.WellFormed.iaccess (hw : h.WellFormed) (pc : UInt32) :
    ∃ m h', cachesimIaccess h hsim robSize stack curCycle pc = some (m, h') ∧ h'.WellFormed ∧
      h'.AtFront (fetchbufferalignpc pc) := by
  obtain ⟨m, h', hacc, hf, hfront, hsome⟩ := hw.formed.iaccess hsim robSize stack curCycle pc
  exact ⟨m, h', hacc, hf.wellFormed (hsome.trans hw.il1_isSome), hfront⟩

/-- **A data access** leaves the instruction cache alone. -/
theorem Hierarchy.WellFormed.daccess (hw : h.WellFormed) (addr : UInt32) (isWrite : Bool) :
    ∃ m h', cachesimDaccess h hsim robSize stack curCycle addr isWrite = some (m, h') ∧
      h'.WellFormed ∧ h'.il1 = h.il1 := by
  obtain ⟨m, h', hacc, hf, hil1⟩ := hw.formed.daccess hsim robSize stack curCycle addr isWrite
  exact ⟨m, h', hacc, hf.wellFormed (hil1 ▸ hw.il1_isSome), hil1⟩

/-- A fetch, with another count of accesses before it. -/
theorem cachesimIaccess_recount (h : Hierarchy) (n : UInt64) (pc : UInt32) :
    ∃ n', cachesimIaccess (h.recount n) hsim robSize stack curCycle pc =
      (cachesimIaccess h hsim robSize stack curCycle pc).map fun (m, h') => (m, h'.recount n') := by
  obtain ⟨il1, dl1, ul2⟩ := h
  cases il1 with
  | none =>
    refine ⟨n, ?_⟩
    simp only [cachesimIaccess, Hierarchy.recount, accessFirst, Option.map_none, Option.bind_some,
      Option.map_map]
    rfl
  | some l =>
    refine ⟨n + 1, ?_⟩
    simp only [cachesimIaccess, Hierarchy.recount, accessFirst, Level.access, Option.map_some,
      Cache.cacheAccess_recount, Option.map_map, Option.bind_map, Option.map_bind]
    refine Option.bind_congr fun x _ => ?_
    simp only [Function.comp_apply, Option.map_map]
    rfl

/-- A data access, with another count of accesses of the instruction
cache. -/
theorem cachesimDaccess_recount (h : Hierarchy) (n : UInt64) (addr : UInt32) (isWrite : Bool) :
    cachesimDaccess (h.recount n) hsim robSize stack curCycle addr isWrite =
      (cachesimDaccess h hsim robSize stack curCycle addr isWrite).map fun (m, h') =>
        (m, h'.recount n) := by
  simp only [cachesimDaccess, Hierarchy.recount, Option.map_bind]
  refine Option.bind_congr fun x _ => ?_
  simp only [Function.comp_apply, Option.map_map]
  rfl

/-- **A fetch of a block at the front** changes the count of accesses only. -/
theorem Hierarchy.WellFormed.iaccess_of_atFront (hw : h.WellFormed)
    (hfront : h.AtFront (fetchbufferalignpc pc)) (n : UInt64) :
    ∃ n', cachesimIaccess (h.recount n) hsim robSize stack curCycle pc =
      some (.l1Hit, h.recount n') := by
  obtain ⟨l, hil1, hl⟩ := hw.il1
  refine ⟨n + 1, ?_⟩
  have hacc := hl.cacheAccess_of_atFront (hfront l hil1) robSize 0 curCycle .read
  have hfirst : accessFirst (h.recount n).il1 robSize stack curCycle .read
      (fetchbufferalignpc pc) =
        some (.l1Hit, some { l with cache := l.cache.recount (n + 1) }) := by
    simp only [Hierarchy.recount, hil1, Option.map_some, accessFirst, Level.access,
      Cache.cacheAccess_recount, hacc, if_true]
    rfl
  -- a hit does not reach the second level
  have hsecond : ∀ ul2 : Option Level, accessSecond ul2 hsim robSize .l1Hit curCycle .read
      (fetchbufferalignpc pc) = some (.l1Hit, ul2) := by
    intro ul2
    cases ul2 <;> simp [accessSecond]
  simp only [cachesimIaccess, hfirst, Option.bind_some, hsecond, Option.map_some]
  simp only [Hierarchy.recount, hil1, Option.map_some]

/-! ## The two runs -/

/-- The program counter of an instruction. -/
def SimCall.pc? : SimCall → Option UInt32
  | .iaccess _ pc _ => some pc
  | .daccess .. => none

/-- A call, with the filter of `inst_increment` before the instruction
cache. -/
def filteredCall (hsim : Bool) (robSize : Int32) :
    Hierarchy × UInt32 → SimCall → Option (Hierarchy × UInt32)
  | (h, previousPc), .iaccess curCycle pc stack =>
    (filterFetch h hsim robSize stack previousPc curCycle pc).map Prod.snd
  | (h, previousPc), .daccess curCycle addr isWrite stack =>
    (cachesimDaccess h hsim robSize stack curCycle addr isWrite).map fun (_, h) => (h, previousPc)

/-- The block that starts at zero is not that of an address from 64 on. -/
theorem fetchbufferalignpc_ne_zero (hpc : 64 ≤ pc) : fetchbufferalignpc pc ≠ 0 := by
  intro hzero
  rw [fetchbufferalignpc] at hzero
  have hsplit : pc &&& (63 ||| ~~~63) = (pc &&& 63) ||| (pc &&& ~~~63) := by
    apply UInt32.toNat_inj.1
    rw [UInt32.toNat_and, UInt32.toNat_or, Nat.and_or_distrib_left]
    rfl
  rw [UInt32.or_not_self, UInt32.and_neg_one, hzero, UInt32.or_zero] at hsplit
  have hle : (pc &&& 63).toNat ≤ 63 := by
    rw [UInt32.toNat_and]
    exact Nat.and_le_right
  have hge : 64 ≤ pc.toNat := UInt32.le_iff_toNat_le.1 hpc
  rw [← hsplit] at hle
  omega

/-- What the filter knows: the block of `previous_pc` is at the front, or no
instruction has been fetched and the first one is not in the block that
`previous_pc` starts with. -/
def FilterReady (h : Hierarchy) (prev : UInt32) (calls : List SimCall) : Prop :=
  h.AtFront prev ∨ prev = 0 ∧ ∀ pc ∈ (calls.filterMap SimCall.pc?).head?, 64 ≤ pc

/-- **One fetch.** The filter skips it only where its block is at the
front. -/
theorem filterFetch_recount (hw : h.WellFormed) {calls : List SimCall}
    (hready : FilterReady h prev (.iaccess curCycle pc stack :: calls)) (n : UInt64) :
    ∃ h' n', filteredCall hsim robSize (h, prev) (.iaccess curCycle pc stack) =
        some (h', fetchbufferalignpc pc) ∧
      plainCall hsim robSize (h.recount n) (.iaccess curCycle pc stack) = some (h'.recount n') ∧
      h'.WellFormed ∧ h'.AtFront (fetchbufferalignpc pc) := by
  by_cases hne : prev = fetchbufferalignpc pc
  · -- the access is left out
    have hfront : h.AtFront (fetchbufferalignpc pc) := by
      rcases hready with hfront | ⟨rfl, hfirst⟩
      · exact hne ▸ hfront
      · exact absurd hne.symm (fetchbufferalignpc_ne_zero (hfirst pc rfl))
    obtain ⟨n', hplain⟩ := hw.iaccess_of_atFront hsim robSize stack curCycle hfront n
    refine ⟨h, n', ?_, ?_, hw, hfront⟩
    · simp only [filteredCall, filterFetch, hne, ne_eq, not_true_eq_false, if_false,
        Option.map_some]
    · rw [plainCall, hplain, Option.map_some]
  · obtain ⟨m, h', hacc, hw', hfront⟩ := hw.iaccess hsim robSize stack curCycle pc
    obtain ⟨n', hplain⟩ := cachesimIaccess_recount hsim robSize stack curCycle h n pc
    refine ⟨h', n', ?_, ?_, hw', hfront⟩
    · simp only [filteredCall, filterFetch, ne_eq, hne, not_false_eq_true, if_true, hacc,
        Option.map_some]
    · rw [plainCall, hplain, hacc, Option.map_some, Option.map_some]

/-- **The two runs**, from any state in which the filter is ready. -/
theorem filtered_simulates_plain {calls : List SimCall} (hw : h.WellFormed)
    (hready : FilterReady h prev calls) (n : UInt64) :
    ∃ h' prev' n', Run.play (filteredCall hsim robSize) calls (h, prev) = some (h', prev') ∧
      Run.play (plainCall hsim robSize) calls (h.recount n) = some (h'.recount n') := by
  induction calls generalizing h prev n with
  | nil => exact ⟨h, prev, n, rfl, rfl⟩
  | cons call calls ih =>
    cases call with
    | iaccess curCycle pc stack =>
      obtain ⟨h₁, n₁, hfilt, hplain, hw₁, hfront⟩ :=
        filterFetch_recount hsim robSize stack curCycle hw hready n
      obtain ⟨h', prev', n', hfilt', hplain'⟩ := ih hw₁ (.inl hfront) n₁
      refine ⟨h', prev', n', ?_, ?_⟩
      · rw [Run.play, hfilt]
        exact hfilt'
      · rw [Run.play, hplain]
        exact hplain'
    | daccess curCycle addr isWrite stack =>
      obtain ⟨m, h₁, hacc, hw₁, hil1⟩ := hw.daccess hsim robSize stack curCycle addr isWrite
      have hready₁ : FilterReady h₁ prev calls := by
        rcases hready with hfront | hfirst
        · exact .inl fun l hl => hfront l (hil1 ▸ hl)
        · exact .inr hfirst
      obtain ⟨h', prev', n', hfilt', hplain'⟩ := ih hw₁ hready₁ n
      refine ⟨h', prev', n', ?_, ?_⟩
      · rw [Run.play, filteredCall, hacc]
        exact hfilt'
      · rw [Run.play, plainCall, cachesimDaccess_recount, hacc]
        exact hplain'

/-- A configuration with an instruction cache, and room in every set. -/
structure CachesimConfig.HasIl1 (cfg : CachesimConfig) : Prop where
  il1 : ∃ l, cfg.il1 = some l ∧ 1 ≤ l.assoc
  dl1 : ∀ l ∈ cfg.dl1, 1 ≤ l.assoc
  ul2 : ∀ l ∈ cfg.ul2, 1 ≤ l.assoc

theorem CachesimConfig.HasIl1.wellFormed {cfg : CachesimConfig} (hcfg : cfg.HasIl1) :
    (cachesimInitialize cfg).WellFormed := by
  obtain ⟨l, hil1, hassoc⟩ := hcfg.il1
  have hways : cfg.HasWays := ⟨by simpa [hil1] using hassoc, hcfg.dl1, hcfg.ul2⟩
  exact (formed_cachesimInitialize hways).wellFormed (by simp [cachesimInitialize, hil1])

/-- **The filter is exact.** With and without it, every sequence of fetches
and data accesses whose first program counter is at least 64 leaves the same
hierarchy, but for the count of accesses of the instruction cache. -/
theorem filter_exact {cfg : CachesimConfig} (hcfg : cfg.HasIl1) (hsim : Bool) (robSize : Int32)
    {calls : List SimCall} (hfirst : ∀ pc ∈ (calls.filterMap SimCall.pc?).head?, 64 ≤ pc) :
    ∃ h previousPc n,
      Run.play (filteredCall hsim robSize) calls (cachesimInitialize cfg, 0) =
        some (h, previousPc) ∧
      Run.play (plainCall hsim robSize) calls (cachesimInitialize cfg) = some (h.recount n) := by
  obtain ⟨l, hil1, -⟩ := hcfg.il1
  have hsame : (cachesimInitialize cfg).recount 0 = cachesimInitialize cfg := by
    simp only [Hierarchy.recount, cachesimInitialize, hil1, Option.map_some]
    rfl
  obtain ⟨h, prev, n, hfilt, hplain⟩ :=
    filtered_simulates_plain hsim robSize hcfg.wellFormed
      (.inr ⟨rfl, hfirst⟩) 0
  exact ⟨h, prev, n, hfilt, hsame ▸ hplain⟩

/-- Blocks of 32 bytes, smaller than those of the filter. -/
def smallBlocks : CachesimConfig := ⟨some ⟨4, 32, 2, 1⟩, some ⟨4, 32, 2, 1⟩, some ⟨8, 64, 2, 8⟩, 100⟩

/-- Three instructions of one fetch block with a store between them, and one
of another. -/
def shortFetches : List SimCall :=
  [.iaccess 0 64 .l1Hit, .iaccess 1 96 .l1Hit, .daccess 2 4096 true .l1Hit, .iaccess 2 68 .l1Hit,
    .iaccess 3 128 .l1Hit]

theorem filter_exact_smallBlocks : ∃ h previousPc n,
    Run.play (filteredCall false 60) shortFetches (cachesimInitialize smallBlocks, 0) =
      some (h, previousPc) ∧
    Run.play (plainCall false 60) shortFetches (cachesimInitialize smallBlocks) =
      some (h.recount n) := by
  refine filter_exact ⟨⟨_, rfl, by decide⟩, by simp [smallBlocks], by simp [smallBlocks]⟩ false 60
    fun pc hpc => ?_
  obtain rfl : 64 = pc := Option.some.inj hpc
  exact UInt32.le_refl 64

end Cachesim

end Tqsim
