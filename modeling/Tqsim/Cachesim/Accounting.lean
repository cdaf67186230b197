import Tqsim.Cachesim.Helpers.Levels

/-!
# The accounts of the hierarchy

Each cache keeps four counters, and the second level is accessed after a
miss in the first. The counters of the three caches and the classes that the
calls return agree over every sequence of fetches and data accesses. The
counters have 64 bits; the accounts are kept in numbers (`Tally`), of which
the counters are the last 64 bits.
-/

namespace Tqsim

namespace Cachesim

/-- The counters of a cache, as numbers. -/
structure Tally where
  numAccess : ℕ
  numMiss : ℕ
  numReadMiss : ℕ
  numMissStar : ℕ
  deriving DecidableEq, Repr

/-- The counters after an access; `star` is whether it begins a cluster. -/
def Tally.access (t : Tally) (type : CacheAccessType) (hit star : Bool) : Tally :=
  if hit then { t with numAccess := t.numAccess + 1 }
  else match type with
    | .read =>
      ⟨t.numAccess + 1, t.numMiss + 1, t.numReadMiss + 1, t.numMissStar + star.toNat⟩
    | .write => { t with numAccess := t.numAccess + 1, numMiss := t.numMiss + 1 }

/-- Each counter counts some of what the one before it counts. -/
structure Tally.Nested (t : Tally) : Prop where
  star : t.numMissStar ≤ t.numReadMiss
  readMiss : t.numReadMiss ≤ t.numMiss
  miss : t.numMiss ≤ t.numAccess

variable {c c' : Cache} {h h' : Hierarchy} {t t₁ t₂ t₁' t₂' : Tally} {robSize : Int32}

theorem Tally.Nested.access (h : t.Nested) (type : CacheAccessType) (hit star : Bool) :
    (t.access type hit star).Nested := by
  have h1 := h.star
  have h2 := h.readMiss
  have h3 := h.miss
  have h4 := star.toNat_le
  cases hit <;> cases type <;> constructor <;> simp only [Tally.access] <;> grind

/-- The counters of a cache are those of a tally, in 64 bits. -/
structure Cache.Shows (c : Cache) (t : Tally) : Prop where
  numAccess : c.numAccess = UInt64.ofNat t.numAccess
  numMiss : c.numMiss = UInt64.ofNat t.numMiss
  numReadMiss : c.numReadMiss = UInt64.ofNat t.numReadMiss
  numMissStar : c.numMissStar = UInt64.ofNat t.numMissStar

/-- The counters themselves. -/
def Cache.tally (c : Cache) : Tally where
  numAccess := c.numAccess.toNat
  numMiss := c.numMiss.toNat
  numReadMiss := c.numReadMiss.toNat
  numMissStar := c.numMissStar.toNat

/-- As long as the accesses can be counted, so can everything else. -/
theorem Cache.Shows.tally_eq (hs : c.Shows t) (hn : t.Nested) (hlt : t.numAccess < 2 ^ 64) :
    c.tally = t := by
  have hmiss : t.numMiss < 2 ^ 64 := hn.miss.trans_lt hlt
  have hread : t.numReadMiss < 2 ^ 64 := hn.readMiss.trans_lt hmiss
  have hstar : t.numMissStar < 2 ^ 64 := hn.star.trans_lt hread
  unfold Cache.tally
  rw [hs.numAccess, hs.numMiss, hs.numReadMiss, hs.numMissStar, UInt64.toNat_ofNat_of_lt' hlt,
    UInt64.toNat_ofNat_of_lt' hmiss, UInt64.toNat_ofNat_of_lt' hread,
    UInt64.toNat_ofNat_of_lt' hstar]

/-- **An access** is entered in the accounts. -/
theorem Cache.Shows.cacheAccess (hs : c.Shows t) {rand : ℕ} {instId : UInt64}
    {type : CacheAccessType} {addr : UInt32} {hit : Bool}
    (hacc : c.cacheAccess robSize rand instId type addr = some (hit, c')) :
    ∃ star, c'.Shows (t.access type hit star) := by
  obtain ⟨set, rfl⟩ := cacheAccess_eq hacc
  obtain ⟨h1, h2, h3, h4⟩ := hs
  cases hit with
  | true => exact ⟨false, by simp [Cache.setSet, h1, Tally.access], h2, h3, h4⟩
  | false =>
    cases type with
    | write =>
      exact ⟨false, by simp [Cache.setSet, Cache.countMiss, h1, Tally.access],
        by simp [Cache.setSet, Cache.countMiss, h2, Tally.access], h3, h4⟩
    | read =>
      refine ⟨decide (c.lastMissInstId = -1 ∨
        instId - c.lastMissInstId > robSize.toInt64.toUInt64), ?_, ?_, ?_, ?_⟩
      · simp [Cache.setSet, Cache.countMiss, h1, Tally.access]
      · simp [Cache.setSet, Cache.countMiss, h2, Tally.access]
      · simp [Cache.setSet, Cache.countMiss, h3, Tally.access]
      · simp only [Cache.setSet, Cache.countMiss, h4, Tally.access]
        by_cases hnew : c.lastMissInstId = -1 ∨
          instId - c.lastMissInstId > robSize.toInt64.toUInt64
        · simp [hnew]
        · simp [hnew]

/-! ## Two levels -/

/-- **What a call does to the accounts** of its first level and of the second,
by the class that it returns. -/
inductive Served (type : CacheAccessType) (t₁ t₂ : Tally) : CacheMissType → Tally → Tally → Prop
  /-- The second level is not accessed. -/
  | l1Hit : Served type t₁ t₂ .l1Hit (t₁.access type true false) t₂
  /-- The second level hits. -/
  | l1Miss (star : Bool) :
      Served type t₁ t₂ .l1Miss (t₁.access type false star) (t₂.access type true false)
  /-- Both levels miss. -/
  | l2Miss (star star' : Bool) :
      Served type t₁ t₂ .l2Miss (t₁.access type false star) (t₂.access type false star')

theorem Tally.access_true (t : Tally) (type : CacheAccessType) (star : Bool) :
    t.access type true star = t.access type true false := rfl

theorem Level.access_shows {l l' : Level} (hs : l.cache.Shows t) {curCycle : UInt64}
    {type : CacheAccessType} {addr : UInt32} {hit : Bool}
    (hacc : l.access robSize curCycle type addr = some (hit, l')) :
    ∃ star, l'.cache.Shows (t.access type hit star) := by
  obtain ⟨⟨hit', c'⟩, hcache, heq⟩ := Option.map_eq_some_iff.1 hacc
  obtain ⟨rfl, rfl⟩ := Prod.mk.inj heq
  exact hs.cacheAccess hcache

/-- **A call on two levels.** -/
theorem served_of_access {l₁ l₂ : Level} (hs₁ : l₁.cache.Shows t₁) (hs₂ : l₂.cache.Shows t₂)
    {stack m m' : CacheMissType} {curCycle : UInt64} {type : CacheAccessType} {addr : UInt32}
    {o₁ o₂ : Option Level}
    (hfirst : accessFirst (some l₁) robSize stack curCycle type addr = some (m, o₁))
    (hsecond : accessSecond (some l₂) false robSize m curCycle type addr = some (m', o₂)) :
    ∃ l₁' l₂' t₁' t₂', o₁ = some l₁' ∧ o₂ = some l₂' ∧ l₁'.cache.Shows t₁' ∧
      l₂'.cache.Shows t₂' ∧ Served type t₁ t₂ m' t₁' t₂' := by
  obtain ⟨⟨hit, l₁'⟩, hacc, heq⟩ := Option.map_eq_some_iff.1 hfirst
  obtain ⟨rfl, rfl⟩ := Prod.mk.inj heq
  obtain ⟨star, hs₁'⟩ := Level.access_shows hs₁ hacc
  cases hit with
  | true =>
    -- the class is that of a hit, and the second level stays as it is
    obtain ⟨rfl, rfl⟩ := Prod.mk.inj (Option.some.inj hsecond)
    exact ⟨l₁', l₂, _, t₂, rfl, rfl, Tally.access_true t₁ type star ▸ hs₁', hs₂, .l1Hit⟩
  | false =>
    obtain ⟨⟨hit₂, l₂'⟩, hacc₂, heq⟩ := Option.map_eq_some_iff.1 hsecond
    obtain ⟨rfl, rfl⟩ := Prod.mk.inj heq
    obtain ⟨star', hs₂'⟩ := Level.access_shows hs₂ hacc₂
    cases hit₂ with
    | true =>
      exact ⟨l₁', l₂', _, _, rfl, rfl, hs₁', Tally.access_true t₂ type star' ▸ hs₂',
        .l1Miss star⟩
    | false => exact ⟨l₁', l₂', _, _, rfl, rfl, hs₁', hs₂', .l2Miss star star'⟩

/-- The first level is accessed once, and the second once for a miss in the
first. -/
theorem Served.numAccess {type : CacheAccessType} {m : CacheMissType}
    (h : Served type t₁ t₂ m t₁' t₂') :
    t₁'.numAccess = t₁.numAccess + 1 ∧
      t₁'.numMiss + t₂.numAccess = t₁.numMiss + t₂'.numAccess := by
  cases h <;> cases type <;> simp only [Tally.access] <;> grind

/-- The class tells which of the levels missed. -/
theorem Served.numMiss {type : CacheAccessType} {m : CacheMissType}
    (h : Served type t₁ t₂ m t₁' t₂') :
    t₂'.numMiss = t₂.numMiss + [m].count .l2Miss ∧
      t₂'.numAccess + [m].count .l1Hit = t₂.numAccess + 1 := by
  cases h <;> cases type <;> simp [Tally.access]

theorem Served.nested {type : CacheAccessType} {m : CacheMissType}
    (h : Served type t₁ t₂ m t₁' t₂') (h₁ : t₁.Nested) (h₂ : t₂.Nested) :
    t₁'.Nested ∧ t₂'.Nested := by
  cases h with
  | l1Hit => exact ⟨h₁.access _ _ _, h₂⟩
  | l1Miss star => exact ⟨h₁.access _ _ _, h₂.access _ _ _⟩
  | l2Miss star star' => exact ⟨h₁.access _ _ _, h₂.access _ _ _⟩

/-- All misses of reads are read misses. -/
theorem Served.numReadMiss {m : CacheMissType} (h : Served .read t₁ t₂ m t₁' t₂')
    (heq : t₁.numReadMiss = t₁.numMiss) : t₁'.numReadMiss = t₁'.numMiss := by
  cases h <;> simp [Tally.access, heq]

/-! ## The accounts -/

/-- **The accounts agree**: with each other, and with the classes that the
calls returned. -/
structure Accounted (answers : List CacheMissType) (il1 dl1 ul2 : Tally) : Prop where
  ul2_numAccess : ul2.numAccess = il1.numMiss + dl1.numMiss
  l2Miss : answers.count .l2Miss = ul2.numMiss
  l1Hit : answers.count .l1Hit = il1.numAccess + dl1.numAccess - ul2.numAccess
  il1_nested : il1.Nested
  dl1_nested : dl1.Nested
  ul2_nested : ul2.Nested
  il1_numReadMiss : il1.numReadMiss = il1.numMiss
  calls : answers.length = il1.numAccess + dl1.numAccess

section Entries

variable {answers : List CacheMissType} {il1 dl1 ul2 il1' dl1' ul2' : Tally} {m : CacheMissType}

theorem accounted_nil : Accounted [] ⟨0, 0, 0, 0⟩ ⟨0, 0, 0, 0⟩ ⟨0, 0, 0, 0⟩ := by
  have hzero : Tally.Nested ⟨0, 0, 0, 0⟩ := ⟨le_rfl, le_rfl, le_rfl⟩
  exact ⟨rfl, rfl, rfl, hzero, hzero, hzero, rfl, rfl⟩

/-- The entry of a call, whichever first level `t₁` it goes to; `t` is the
other one. -/
theorem Served.entry {type : CacheAccessType} (hs : Served type t₁ t₂ m t₁' t₂')
    (hsecond : t₂.numAccess = t₁.numMiss + t.numMiss)
    (hmiss : answers.count .l2Miss = t₂.numMiss)
    (hhit : answers.count .l1Hit = t₁.numAccess + t.numAccess - t₂.numAccess)
    (hcalls : answers.length = t₁.numAccess + t.numAccess) (h₁ : t₁.Nested) (h : t.Nested) :
    t₂'.numAccess = t₁'.numMiss + t.numMiss ∧
      (answers ++ [m]).count .l2Miss = t₂'.numMiss ∧
      (answers ++ [m]).count .l1Hit = t₁'.numAccess + t.numAccess - t₂'.numAccess ∧
      (answers ++ [m]).length = t₁'.numAccess + t.numAccess := by
  have haccess := hs.numAccess
  have hcount := hs.numMiss
  have hle₁ := h₁.miss
  have hle := h.miss
  rw [List.count_append, List.count_append, List.length_append, List.length_singleton]
  omega

/-- **A fetch.** -/
theorem Accounted.iaccess (h : Accounted answers il1 dl1 ul2)
    (hs : Served .read il1 ul2 m il1' ul2') : Accounted (answers ++ [m]) il1' dl1 ul2' := by
  obtain ⟨hi, hu⟩ := hs.nested h.il1_nested h.ul2_nested
  obtain ⟨hsecond, hmiss, hhit, hcalls⟩ := hs.entry h.ul2_numAccess h.l2Miss h.l1Hit h.calls
    h.il1_nested h.dl1_nested
  exact ⟨hsecond, hmiss, hhit, hi, h.dl1_nested, hu, hs.numReadMiss h.il1_numReadMiss, hcalls⟩

/-- **A data access.** -/
theorem Accounted.daccess (h : Accounted answers il1 dl1 ul2) {type : CacheAccessType}
    (hs : Served type dl1 ul2 m dl1' ul2') : Accounted (answers ++ [m]) il1 dl1' ul2' := by
  obtain ⟨hd, hu⟩ := hs.nested h.dl1_nested h.ul2_nested
  have hsecond := h.ul2_numAccess
  have hhit := h.l1Hit
  have hcalls := h.calls
  obtain ⟨hsecond', hmiss', hhit', hcalls'⟩ := hs.entry (by omega) h.l2Miss (by omega) (by omega)
    h.dl1_nested h.il1_nested
  exact ⟨by omega, hmiss', by omega, h.il1_nested, hd, hu, h.il1_numReadMiss, by omega⟩

end Entries

/-- A hierarchy of three caches whose counters show tallies. -/
structure Hierarchy.Books (h : Hierarchy) (answers : List CacheMissType) (ti td tu : Tally) :
    Prop where
  il1 : ∃ l, h.il1 = some l ∧ l.cache.Shows ti
  dl1 : ∃ l, h.dl1 = some l ∧ l.cache.Shows td
  ul2 : ∃ l, h.ul2 = some l ∧ l.cache.Shows tu
  accounted : Accounted answers ti td tu

/-- **One call.** -/
theorem Hierarchy.Books.simCall {answers : List CacheMissType} {il1 dl1 ul2 : Tally}
    (hb : h.Books answers il1 dl1 ul2) {call : SimCall} {m : CacheMissType}
    (hcall : Cachesim.simCall false robSize h call = some (m, h')) :
    ∃ il1' dl1' ul2', h'.Books (answers ++ [m]) il1' dl1' ul2' := by
  obtain ⟨li, hli, hsi⟩ := hb.il1
  obtain ⟨ld, hld, hsd⟩ := hb.dl1
  obtain ⟨lu, hlu, hsu⟩ := hb.ul2
  cases call with
  | iaccess curCycle pc stack =>
    obtain ⟨⟨m₁, o₁⟩, hfirst, hcall⟩ := Option.bind_eq_some_iff.1 hcall
    obtain ⟨⟨m₂, o₂⟩, hsecond, heq⟩ := Option.map_eq_some_iff.1 hcall
    obtain ⟨rfl, rfl⟩ := Prod.mk.inj heq
    rw [hli] at hfirst
    rw [hlu] at hsecond
    obtain ⟨li', lu', ti, tu, rfl, rfl, hsi', hsu', hserved⟩ :=
      served_of_access hsi hsu hfirst hsecond
    exact ⟨ti, dl1, tu, ⟨li', rfl, hsi'⟩, hb.dl1, ⟨lu', rfl, hsu'⟩,
      hb.accounted.iaccess hserved⟩
  | daccess curCycle addr isWrite stack =>
    obtain ⟨⟨m₁, o₁⟩, hfirst, hcall⟩ := Option.bind_eq_some_iff.1 hcall
    obtain ⟨⟨m₂, o₂⟩, hsecond, heq⟩ := Option.map_eq_some_iff.1 hcall
    obtain ⟨rfl, rfl⟩ := Prod.mk.inj heq
    rw [hld] at hfirst
    rw [hlu] at hsecond
    obtain ⟨ld', lu', td, tu, rfl, rfl, hsd', hsu', hserved⟩ :=
      served_of_access hsd hsu hfirst hsecond
    exact ⟨il1, td, tu, hb.il1, ⟨ld', rfl, hsd'⟩, ⟨lu', rfl, hsu'⟩,
      hb.accounted.daccess hserved⟩

theorem books_cachesimInitialize {cfg : CachesimConfig} (hil1 : cfg.il1.isSome)
    (hdl1 : cfg.dl1.isSome) (hul2 : cfg.ul2.isSome) :
    (cachesimInitialize cfg).Books [] ⟨0, 0, 0, 0⟩ ⟨0, 0, 0, 0⟩ ⟨0, 0, 0, 0⟩ := by
  obtain ⟨li, hli⟩ := Option.isSome_iff_exists.1 hil1
  obtain ⟨ld, hld⟩ := Option.isSome_iff_exists.1 hdl1
  obtain ⟨lu, hlu⟩ := Option.isSome_iff_exists.1 hul2
  have hzero : ∀ config, (cacheInitialize config).Shows ⟨0, 0, 0, 0⟩ :=
    fun _ => ⟨rfl, rfl, rfl, rfl⟩
  simp only [cachesimInitialize, hli, hld, hlu, Option.map_some]
  exact ⟨⟨_, rfl, hzero _⟩, ⟨_, rfl, hzero _⟩, ⟨_, rfl, hzero _⟩, accounted_nil⟩

/-- Every call of a hierarchy that is well formed returns. -/
theorem Hierarchy.Formed.simCall (hf : h.Formed) (hsim : Bool) (robSize : Int32) (call : SimCall) :
    ∃ m h', Cachesim.simCall hsim robSize h call = some (m, h') ∧ h'.Formed := by
  cases call with
  | iaccess curCycle pc stack =>
    obtain ⟨m, h', hacc, hf', -⟩ := hf.iaccess hsim robSize stack curCycle pc
    exact ⟨m, h', hacc, hf'⟩
  | daccess curCycle addr isWrite stack =>
    obtain ⟨m, h', hacc, hf', -⟩ := hf.daccess hsim robSize stack curCycle addr isWrite
    exact ⟨m, h', hacc, hf'⟩

/-- **The accounts of the hierarchy.** After every sequence of fetches and data
accesses the counters of the three caches are the last 64 bits of tallies that
agree with each other and with the classes returned; and as long as the calls
themselves can be counted in 64 bits, the counters are the tallies. -/
theorem accounted_calls (cfg : CachesimConfig) (hways : cfg.HasWays) (hil1 : cfg.il1.isSome)
    (hdl1 : cfg.dl1.isSome) (hul2 : cfg.ul2.isSome) (robSize : Int32) (calls : List SimCall) :
    ∃ log h il1 dl1 ul2,
      Run.log (simCall false robSize) calls (cachesimInitialize cfg) = some (log, h) ∧
        h.il1 = some il1 ∧ h.dl1 = some dl1 ∧ h.ul2 = some ul2 ∧
        (∃ ti td tu, il1.cache.Shows ti ∧ dl1.cache.Shows td ∧ ul2.cache.Shows tu ∧
          Accounted (log.map Prod.snd) ti td tu) ∧
        (calls.length < 2 ^ 64 → Accounted (log.map Prod.snd) il1.cache.tally dl1.cache.tally
          ul2.cache.tally) := by
  obtain ⟨log, h, hlog, -⟩ := Run.log_total (fun h call hf =>
    Hierarchy.Formed.simCall hf false robSize call) calls (formed_cachesimInitialize hways)
  obtain ⟨ti, td, tu, hbooks⟩ : ∃ ti td tu, h.Books (log.map Prod.snd) ti td tu := by
    refine Run.log_invariant (P := fun l h => ∃ ti td tu, h.Books (l.map Prod.snd) ti td tu)
      (l := []) ?_ ⟨_, _, _, books_cachesimInitialize hil1 hdl1 hul2⟩ hlog
    rintro l s call m s' ⟨ti, td, tu, hb⟩ hcall
    rw [List.map_append]
    exact hb.simCall hcall
  obtain ⟨il1, hil1, hsi⟩ := hbooks.il1
  obtain ⟨dl1, hdl1, hsd⟩ := hbooks.dl1
  obtain ⟨ul2, hul2, hsu⟩ := hbooks.ul2
  have hacc := hbooks.accounted
  refine ⟨log, h, il1, dl1, ul2, hlog, hil1, hdl1, hul2, ⟨ti, td, tu, hsi, hsd, hsu, hacc⟩,
    fun hlen => ?_⟩
  -- no cache has been accessed more often than there were calls
  have hcalls := hacc.calls
  rw [List.length_map, ← List.length_map (f := Prod.fst), Run.log_fst hlog] at hcalls
  have hul2 := hacc.ul2_numAccess
  have := hacc.il1_nested.miss
  have := hacc.dl1_nested.miss
  rw [hsi.tally_eq hacc.il1_nested (by omega), hsd.tally_eq hacc.dl1_nested (by omega),
    hsu.tally_eq hacc.ul2_nested (by omega)]
  exact hacc

/-- Three small caches. -/
def smallHierarchy : CachesimConfig where
  il1 := some ⟨4, 64, 2, 1⟩
  dl1 := some ⟨4, 64, 2, 1⟩
  ul2 := some ⟨16, 64, 4, 10⟩
  memLatency := 100

theorem hasWays_smallHierarchy : smallHierarchy.HasWays := by
  constructor <;> simp [smallHierarchy]

/-- A fetch, a read of the line that it brought into the second level, and a
write that misses both levels. -/
def mixedCalls : List SimCall :=
  [.iaccess 0 0x1000 .l1Hit, .daccess 1 0x1010 false .l1Hit, .daccess 2 0x8000 true .l1Hit]

theorem accounted_mixedCalls : ∃ log h il1 dl1 ul2,
    Run.log (simCall false 60) mixedCalls (cachesimInitialize smallHierarchy) = some (log, h) ∧
      log.map Prod.snd = [.l2Miss, .l1Miss, .l2Miss] ∧
      h.il1 = some il1 ∧ h.dl1 = some dl1 ∧ h.ul2 = some ul2 ∧
      Accounted [.l2Miss, .l1Miss, .l2Miss] il1.cache.tally dl1.cache.tally ul2.cache.tally := by
  obtain ⟨log, h, il1, dl1, ul2, hlog, hil1, hdl1, hul2, -, hacc⟩ := accounted_calls smallHierarchy
    hasWays_smallHierarchy (by decide) (by decide) (by decide) 60 mixedCalls
  have hanswers : (Run.log (simCall false 60) mixedCalls (cachesimInitialize smallHierarchy)).map
      (fun x => x.1.map Prod.snd) = some [.l2Miss, .l1Miss, .l2Miss] := by decide
  rw [hlog, Option.map_some, Option.some.injEq] at hanswers
  exact ⟨log, h, il1, dl1, ul2, hlog, hanswers, hil1, hdl1, hul2, hanswers ▸ hacc (by decide)⟩

end Cachesim

end Tqsim
