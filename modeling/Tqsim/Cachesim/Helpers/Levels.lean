import Tqsim.Cachesim.Helpers.Access
import Tqsim.Common.Run

/-!
# The levels of the hierarchy

An access to a hierarchy whose caches are well formed returns and leaves it
so, whichever of the caches there are. With room for a block in every set,
the caches are well formed from the start.
-/

namespace Tqsim

namespace Cachesim

variable {h h' : Hierarchy} (hsim : Bool) (robSize : Int32) (stack : CacheMissType)
  (curCycle : UInt64)

theorem Level.access_wellFormed {l : Level} (hl : l.cache.WellFormed) (type : CacheAccessType)
    (addr : UInt32) :
    ∃ hit l', l.access robSize curCycle type addr = some (hit, l') ∧ l'.cache.WellFormed ∧
      l'.cache.AtFront addr := by
  obtain ⟨hit, c', hacc, hwf, hfront⟩ := hl.cacheAccess robSize 0 curCycle type addr
  exact ⟨hit, { l with cache := c' }, by rw [Level.access, hacc]; rfl, hwf, hfront⟩

theorem accessFirst_wellFormed {l : Option Level} (hl : ∀ x ∈ l, x.cache.WellFormed)
    (type : CacheAccessType) (addr : UInt32) :
    ∃ m l', accessFirst l robSize stack curCycle type addr = some (m, l') ∧
      (∀ x ∈ l', x.cache.WellFormed ∧ x.cache.AtFront addr) ∧ l'.isSome = l.isSome := by
  cases l with
  | none => exact ⟨stack, none, rfl, by simp, rfl⟩
  | some l =>
    obtain ⟨hit, l', hacc, hwf⟩ :=
      Level.access_wellFormed robSize curCycle (hl l rfl) type addr
    exact ⟨_, some l', by rw [accessFirst, hacc]; rfl, by simpa using hwf, rfl⟩

theorem accessSecond_wellFormed {l : Option Level} (hl : ∀ x ∈ l, x.cache.WellFormed)
    (missType : CacheMissType) (type : CacheAccessType) (addr : UInt32) :
    ∃ m l', accessSecond l hsim robSize missType curCycle type addr = some (m, l') ∧
      ∀ x ∈ l', x.cache.WellFormed := by
  cases l with
  | none => exact ⟨missType, none, rfl, by simp⟩
  | some l =>
    by_cases hcond : hsim = false ∧ missType = .l1Miss
    · obtain ⟨hit, l', hacc, hwf, -⟩ :=
        Level.access_wellFormed robSize curCycle (hl l rfl) type addr
      refine ⟨if hit then missType else .l2Miss, some l', ?_, by simpa using hwf⟩
      simp only [accessSecond, if_pos hcond, hacc, Option.map_some]
    · exact ⟨missType, some l, by simp only [accessSecond, if_neg hcond], hl⟩

/-- All caches that there are are well formed. -/
structure Hierarchy.Formed (h : Hierarchy) : Prop where
  il1 : ∀ l ∈ h.il1, l.cache.WellFormed
  dl1 : ∀ l ∈ h.dl1, l.cache.WellFormed
  ul2 : ∀ l ∈ h.ul2, l.cache.WellFormed

/-- The fetch block is at the front of its set in the instruction cache. -/
def Hierarchy.AtFront (h : Hierarchy) (addr : UInt32) : Prop :=
  ∀ l ∈ h.il1, l.cache.AtFront addr

/-- **A fetch** leaves its block at the front. -/
theorem Hierarchy.Formed.iaccess (hf : h.Formed) (pc : UInt32) :
    ∃ m h', cachesimIaccess h hsim robSize stack curCycle pc = some (m, h') ∧ h'.Formed ∧
      h'.AtFront (fetchbufferalignpc pc) ∧ h'.il1.isSome = h.il1.isSome := by
  obtain ⟨m, il1, hfirst, hil1, hsome⟩ :=
    accessFirst_wellFormed robSize stack curCycle hf.il1 .read (fetchbufferalignpc pc)
  obtain ⟨m', ul2, hsecond, hul2⟩ :=
    accessSecond_wellFormed hsim robSize curCycle hf.ul2 m .read (fetchbufferalignpc pc)
  refine ⟨m', { h with il1 := il1, ul2 := ul2 }, ?_, ⟨fun l hl => (hil1 l hl).1, hf.dl1, hul2⟩,
    fun l hl => (hil1 l hl).2, hsome⟩
  simp only [cachesimIaccess, hfirst, Option.bind_some, hsecond, Option.map_some]

/-- **A data access** leaves the instruction cache alone. -/
theorem Hierarchy.Formed.daccess (hf : h.Formed) (addr : UInt32) (isWrite : Bool) :
    ∃ m h', cachesimDaccess h hsim robSize stack curCycle addr isWrite = some (m, h') ∧
      h'.Formed ∧ h'.il1 = h.il1 := by
  obtain ⟨m, dl1, hfirst, hdl1, -⟩ :=
    accessFirst_wellFormed robSize stack curCycle hf.dl1 (if isWrite then .write else .read) addr
  obtain ⟨m', ul2, hsecond, hul2⟩ :=
    accessSecond_wellFormed hsim robSize curCycle hf.ul2 m (if isWrite then .write else .read) addr
  refine ⟨m', { h with dl1 := dl1, ul2 := ul2 }, ?_, ⟨hf.il1, fun l hl => (hdl1 l hl).1, hul2⟩, rfl⟩
  simp only [cachesimDaccess, hfirst, Option.bind_some, hsecond, Option.map_some]

/-! ## Runs -/

/-- A configuration with room in every set. -/
structure CachesimConfig.HasWays (cfg : CachesimConfig) : Prop where
  il1 : ∀ l ∈ cfg.il1, 1 ≤ l.assoc
  dl1 : ∀ l ∈ cfg.dl1, 1 ≤ l.assoc
  ul2 : ∀ l ∈ cfg.ul2, 1 ≤ l.assoc

theorem formed_cachesimInitialize {cfg : CachesimConfig} (hcfg : cfg.HasWays) :
    (cachesimInitialize cfg).Formed := by
  have hlevel : ∀ (l : Option LevelConfig) (behind : UInt32), (∀ x ∈ l, 1 ≤ x.assoc) →
      ∀ x ∈ l.map (·.level behind), x.cache.WellFormed := by
    intro l behind hl x hx
    obtain ⟨y, hy, rfl⟩ := Option.map_eq_some_iff.1 hx
    exact wellFormed_cacheInitialize rfl (hl y hy)
  exact ⟨hlevel _ _ hcfg.il1, hlevel _ _ hcfg.dl1, hlevel _ _ hcfg.ul2⟩

/-- A call of the cache simulator, with its cycle argument. -/
inductive SimCall where
  | iaccess (curCycle : UInt64) (pc : UInt32) (stack : CacheMissType)
  | daccess (curCycle : UInt64) (addr : UInt32) (isWrite : Bool) (stack : CacheMissType)

/-- A call: the class that it returns, and the hierarchy after it. -/
def simCall (hsim : Bool) (robSize : Int32) (h : Hierarchy) :
    SimCall → Option (CacheMissType × Hierarchy)
  | .iaccess curCycle pc stack => cachesimIaccess h hsim robSize stack curCycle pc
  | .daccess curCycle addr isWrite stack =>
    cachesimDaccess h hsim robSize stack curCycle addr isWrite

/-- The hierarchy after a call. -/
def plainCall (hsim : Bool) (robSize : Int32) (h : Hierarchy) : SimCall → Option Hierarchy
  | .iaccess curCycle pc stack =>
    (cachesimIaccess h hsim robSize stack curCycle pc).map Prod.snd
  | .daccess curCycle addr isWrite stack =>
    (cachesimDaccess h hsim robSize stack curCycle addr isWrite).map Prod.snd

/-- **Every hierarchy that calls lead to is well formed.** -/
theorem Hierarchy.Formed.play {calls : List SimCall} (hf : h.Formed)
    (hplay : Run.play (plainCall hsim robSize) calls h = some h') : h'.Formed := by
  refine Run.play_invariant (fun s call t hs ht => ?_) hf hplay
  cases call with
  | iaccess curCycle pc stack =>
    obtain ⟨m, u, hacc, hu, -⟩ := hs.iaccess hsim robSize stack curCycle pc
    simp only [plainCall, hacc, Option.map_some, Option.some.injEq] at ht
    exact ht ▸ hu
  | daccess curCycle addr isWrite stack =>
    obtain ⟨m, u, hacc, hu, -⟩ := hs.daccess hsim robSize stack curCycle addr isWrite
    simp only [plainCall, hacc, Option.map_some, Option.some.injEq] at ht
    exact ht ▸ hu

end Cachesim

end Tqsim
