import Tqsim.Cachesim.Accounting
import Tqsim.Cachesim.Replacement

/-!
# More ways

With the policy `LRU`, a cache with more ways holds at every time what one
with fewer ways and the same sets holds. Whatever the calls, no access hits in
the smaller one and misses in the larger one, so that more ways never count
more misses.
-/

namespace Tqsim

namespace Cachesim

variable {narrow wide : CacheConfig} {h : List UInt32} {c d c' : Cache} {t u : Tally}

/-- Two configurations that differ in the number of ways. -/
structure CacheConfig.Wider (wide narrow : CacheConfig) : Prop where
  nset : wide.nset = narrow.nset
  bsize : wide.bsize = narrow.bsize
  assoc : narrow.assoc ≤ wide.assoc

/-- Both have the same sets. -/
theorem CacheConfig.Wider.blockOf (hw : wide.Wider narrow) : wide.blockOf = narrow.blockOf := by
  funext addr
  rw [CacheConfig.blockOf, CacheConfig.blockOf, hw.bsize]

/-- **The larger cache holds what the smaller one does.** -/
theorem CacheConfig.Wider.mostRecent_subset (hw : wide.Wider narrow) (h : List UInt32) (idx : ℕ) :
    narrow.mostRecent h idx ⊆ wide.mostRecent h idx := by
  have hset : wide.setHistory h idx = narrow.setHistory h idx := by
    rw [CacheConfig.setHistory, CacheConfig.setHistory, hw.blockOf, hw.nset]
  rw [CacheConfig.mostRecent, CacheConfig.mostRecent, hset]
  exact List.take_subset_take_left _ hw.assoc

/-! ## The counters -/

/-- Fewer misses among the same accesses, of all of them and of the reads. -/
structure Tally.Fewer (u t : Tally) : Prop where
  numAccess : u.numAccess = t.numAccess
  numMiss : u.numMiss ≤ t.numMiss
  numReadMiss : u.numReadMiss ≤ t.numReadMiss

/-- An access that hits in the one cache hits in the other. -/
theorem Tally.Fewer.access (hf : u.Fewer t) (type : CacheAccessType) {hit hit' : Bool}
    (himp : hit = true → hit' = true) (star star' : Bool) :
    (u.access type hit' star').Fewer (t.access type hit star) := by
  have h1 := hf.numAccess
  have h2 := hf.numMiss
  have h3 := hf.numReadMiss
  cases hit with
  | true =>
    rw [himp rfl]
    exact ⟨congrArg (· + 1) h1, h2, h3⟩
  | false =>
    cases hit' <;> cases type <;> constructor <;> simp only [Tally.access] <;> grind

/-- An invalidation counts nothing. -/
theorem invalidateLoop_cacheSet {i : ℕ} (hinv : c.invalidateLoop i = some c') :
    ∃ sets, c' = { c with cacheSet := sets } := by
  induction i generalizing c' with
  | zero => exact ⟨c.cacheSet, (Option.some.inj hinv).symm⟩
  | succ i ih =>
    obtain ⟨c₁, hloop, hmap⟩ := Option.bind_eq_some_iff.1 hinv
    obtain ⟨set, -, rfl⟩ := Option.map_eq_some_iff.1 hmap
    obtain ⟨sets, rfl⟩ := ih hloop
    exact ⟨_, rfl⟩

theorem Cache.Shows.cacheInvalidate (hs : c.Shows t) (hinv : c.cacheInvalidate = some c') :
    c'.Shows t := by
  obtain ⟨sets, rfl⟩ := invalidateLoop_cacheSet hinv
  exact ⟨hs.numAccess, hs.numMiss, hs.numReadMiss, hs.numMissStar⟩

/-! ## Both caches -/

/-- A cache and its accounts, after the accesses `h` since the last
invalidation. -/
structure Cache.Accounted (c : Cache) (config : CacheConfig) (h : List UInt32) (t : Tally) :
    Prop where
  follows : c.Follows config h
  shows : c.Shows t
  nested : t.Nested

theorem accounted_cacheInitialize (config : CacheConfig) :
    (cacheInitialize config).Accounted config [] ⟨0, 0, 0, 0⟩ :=
  ⟨follows_cacheInitialize config, ⟨rfl, rfl, rfl, rfl⟩, ⟨le_rfl, le_rfl, le_rfl⟩⟩

/-- **An access** hits as the reference says, and is entered in the accounts. -/
theorem Cache.Accounted.cacheAccess {config : CacheConfig} (hc : config.IsLru)
    (ha : c.Accounted config h t) (robSize : Int32) (rand : ℕ) (instId : UInt64)
    (type : CacheAccessType) (addr : UInt32) :
    ∃ hit star c', c.cacheAccess robSize rand instId type addr = some (hit, c') ∧
      (hit = true ↔
        config.blockOf addr ∈ config.mostRecent h (config.blockOf addr % config.nset)) ∧
      c'.Accounted config (h ++ [addr]) (t.access type hit star) := by
  obtain ⟨hit, c', hacc, hiff, hfollows⟩ := ha.follows.cacheAccess hc robSize rand instId type addr
  obtain ⟨star, hshows⟩ := ha.shows.cacheAccess hacc
  exact ⟨hit, star, c', hacc, hiff, hfollows, hshows, ha.nested.access type hit star⟩

theorem Cache.Accounted.cacheInvalidate {config : CacheConfig} (ha : c.Accounted config h t) :
    ∃ c', c.cacheInvalidate = some c' ∧ c'.Accounted config [] t := by
  obtain ⟨c', hinv, hfollows⟩ := ha.follows.cacheInvalidate
  exact ⟨c', hinv, hfollows, ha.shows.cacheInvalidate hinv, ha.nested⟩

/-- **The two caches, side by side**, after the same calls, of which at most
`n` were accesses. -/
def Beside (narrow wide : CacheConfig) (n : ℕ) (c d : Cache) : Prop :=
  ∃ h t u, c.Accounted narrow h t ∧ d.Accounted wide h u ∧ u.Fewer t ∧ t.numAccess ≤ n

variable (hn : narrow.IsLru) (hl : wide.IsLru) (hw : wide.Wider narrow)

include hn hl hw

/-- **An access** that hits in the smaller cache hits in the larger one. -/
theorem Beside.cacheAccess {n : ℕ} (hb : Beside narrow wide n c d) (robSize : Int32) (rand : ℕ)
    (instId : UInt64) (type : CacheAccessType) (addr : UInt32) :
    ∃ hit hit' c' d', c.cacheAccess robSize rand instId type addr = some (hit, c') ∧
      d.cacheAccess robSize rand instId type addr = some (hit', d') ∧
      (hit = true → hit' = true) ∧ Beside narrow wide (n + 1) c' d' := by
  obtain ⟨h, t, u, hc, hd, hfewer, hcount⟩ := hb
  obtain ⟨hit, star, c', hacc, hiff, hc'⟩ := hc.cacheAccess hn robSize rand instId type addr
  obtain ⟨hit', star', d', hacc', hiff', hd'⟩ := hd.cacheAccess hl robSize rand instId type addr
  have himp : hit = true → hit' = true := by
    intro hhit
    rw [hiff', hw.blockOf, hw.nset]
    exact hw.mostRecent_subset h _ (hiff.1 hhit)
  have hnum : (t.access type hit star).numAccess = t.numAccess + 1 := by
    cases hit <;> cases type <;> rfl
  exact ⟨hit, hit', c', d', hacc, hacc', himp, _, _, _, hc', hd',
    hfewer.access type himp star star', by omega⟩

theorem Beside.call {n : ℕ} (hb : Beside narrow wide n c d) (call : Call) :
    ∃ c' d', c.call call = some c' ∧ d.call call = some d' ∧ Beside narrow wide (n + 1) c' d' := by
  cases call with
  | access robSize rand instId type addr =>
    obtain ⟨hit, hit', c', d', hacc, hacc', -, hb'⟩ :=
      hb.cacheAccess hn hl hw robSize rand instId type addr
    exact ⟨c', d', by rw [Cache.call, hacc]; rfl, by rw [Cache.call, hacc']; rfl, hb'⟩
  | invalidate =>
    obtain ⟨h, t, u, hc, hd, hfewer, hcount⟩ := hb
    obtain ⟨c', hinv, hc'⟩ := hc.cacheInvalidate
    obtain ⟨d', hinv', hd'⟩ := hd.cacheInvalidate
    exact ⟨c', d', hinv, hinv', [], t, u, hc', hd', hfewer, by omega⟩

theorem Beside.play (calls : List Call) {n : ℕ} (hb : Beside narrow wide n c d) :
    ∃ c' d', Run.play Cache.call calls c = some c' ∧ Run.play Cache.call calls d = some d' ∧
      Beside narrow wide (n + calls.length) c' d' := by
  induction calls generalizing n c d with
  | nil => exact ⟨c, d, rfl, rfl, hb⟩
  | cons call calls ih =>
    obtain ⟨c₁, d₁, hcall, hcall', hb₁⟩ := hb.call hn hl hw call
    obtain ⟨c', d', hplay, hplay', hb'⟩ := ih hb₁
    refine ⟨c', d', ?_, ?_, ?_⟩
    · rw [Run.play, hcall, Option.bind_some, hplay]
    · rw [Run.play, hcall', Option.bind_some, hplay']
    · rw [List.length_cons, Nat.add_comm calls.length 1, ← Nat.add_assoc]
      exact hb'

/-- **More ways never miss more.** Two caches with the policy `LRU` that differ
in the number of ways get the same calls: whatever the calls, the next access
hits in the larger one if it hits in the smaller one; and below 2⁶⁴ calls, the
larger one has counted as many accesses and no more misses, of all accesses
and of the reads. -/
theorem CacheConfig.Wider.misses_le (calls : List Call) :
    ∃ c d, Run.play Cache.call calls (cacheInitialize narrow) = some c ∧
      Run.play Cache.call calls (cacheInitialize wide) = some d ∧
      (∀ robSize rand instId type addr, ∃ hit hit' c' d',
        c.cacheAccess robSize rand instId type addr = some (hit, c') ∧
        d.cacheAccess robSize rand instId type addr = some (hit', d') ∧
        (hit = true → hit' = true)) ∧
      (calls.length < 2 ^ 64 → d.numAccess = c.numAccess ∧ d.numMiss ≤ c.numMiss ∧
        d.numReadMiss ≤ c.numReadMiss) := by
  have hstart : Beside narrow wide 0 (cacheInitialize narrow) (cacheInitialize wide) :=
    ⟨[], _, _, accounted_cacheInitialize narrow, accounted_cacheInitialize wide,
      ⟨rfl, le_rfl, le_rfl⟩, le_rfl⟩
  obtain ⟨c, d, hc, hd, hb⟩ := hstart.play hn hl hw calls
  refine ⟨c, d, hc, hd, fun robSize rand instId type addr => ?_, fun hlt => ?_⟩
  · obtain ⟨hit, hit', c', d', hacc, hacc', himp, -⟩ :=
      hb.cacheAccess hn hl hw robSize rand instId type addr
    exact ⟨hit, hit', c', d', hacc, hacc', himp⟩
  · obtain ⟨h, t, u, hct, hdu, hfewer, hcount⟩ := hb
    -- the counters are the accounts, as none of them has wrapped around
    have hteq : c.tally = t := hct.shows.tally_eq hct.nested (by omega)
    have hueq : d.tally = u := hdu.shows.tally_eq hdu.nested (by rw [hfewer.numAccess]; omega)
    rw [← hteq, ← hueq] at hfewer
    exact ⟨UInt64.toNat_inj.1 hfewer.numAccess, UInt64.le_iff_toNat_le.2 hfewer.numMiss,
      UInt64.le_iff_toNat_le.2 hfewer.numReadMiss⟩

omit hn hl hw

/-- Three blocks of one set are read in turn, twice, in caches with two ways and
with four. -/
theorem CacheConfig.Wider.misses_le_threeBlocks :
    ∃ c d, Run.play Cache.call ([0x000, 0x100, 0x200, 0x000, 0x100, 0x200].map sampleRead)
        (cacheInitialize ⟨4, 64, 2, .lru⟩) = some c ∧
      Run.play Cache.call ([0x000, 0x100, 0x200, 0x000, 0x100, 0x200].map sampleRead)
        (cacheInitialize ⟨4, 64, 4, .lru⟩) = some d ∧ d.numMiss ≤ c.numMiss := by
  have hnarrow : CacheConfig.IsLru ⟨4, 64, 2, .lru⟩ :=
    ⟨rfl, ⟨2, rfl⟩, ⟨6, rfl⟩, by decide, by decide⟩
  have hwide : CacheConfig.IsLru ⟨4, 64, 4, .lru⟩ :=
    ⟨rfl, ⟨2, rfl⟩, ⟨6, rfl⟩, by decide, by decide⟩
  obtain ⟨c, d, hc, hd, -, hcount⟩ := CacheConfig.Wider.misses_le hnarrow hwide ⟨rfl, rfl, by decide⟩
    ([0x000, 0x100, 0x200, 0x000, 0x100, 0x200].map sampleRead)
  exact ⟨c, d, hc, hd, (hcount (by decide)).2.1⟩

end Cachesim

end Tqsim
