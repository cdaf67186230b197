import Tqsim.Cachesim.Model.Cache
import Tqsim.Model.Config

/-!
# The cache hierarchy

`cachesim.c`: an instruction cache, a data cache and a second level behind
both, each of which may be absent. All three are configured with the policy
`LRU`, so that the random number of `cache_access` is of no use here.

With `CONFIG_HSIM` the second level is not simulated (`hsim`). Where the
first level is absent, `miss_type` is returned as its memory has it
(`stack`).
-/

namespace Tqsim

namespace Cachesim

/-- `struct cache_config`, as far as it is used. -/
structure LevelConfig where
  numSet : ℕ
  sizeBlk : ℕ
  assoc : ℕ
  latency : UInt32
  deriving DecidableEq, Repr

/-- What `cachesim_initialize` reads of the configuration. -/
structure CachesimConfig where
  il1 : Option LevelConfig
  dl1 : Option LevelConfig
  ul2 : Option LevelConfig
  memLatency : UInt32
  deriving DecidableEq, Repr

/-- A cache with its latencies. -/
structure Level where
  cache : Cache
  hitLat : UInt32
  missLat : UInt32

structure Hierarchy where
  il1 : Option Level
  dl1 : Option Level
  ul2 : Option Level

/-- The call of `cache_initialize` for one of the caches, in front of
something with latency `behind`. -/
def LevelConfig.level (l : LevelConfig) (behind : UInt32) : Level where
  cache := cacheInitialize ⟨l.numSet, l.sizeBlk, l.assoc, .lru⟩
  hitLat := l.latency
  missLat := behind + l.latency * 2

/-- `cachesim_initialize`. -/
def cachesimInitialize (cfg : CachesimConfig) : Hierarchy :=
  let behind := match cfg.ul2 with
    | some ul2 => ul2.latency
    | none => cfg.memLatency
  { il1 := cfg.il1.map (·.level behind)
    dl1 := cfg.dl1.map (·.level behind)
    ul2 := cfg.ul2.map (·.level cfg.memLatency) }

/-- `fetchbufferalignpc`, of which `op_helper.c` has a copy. -/
def fetchbufferalignpc (addr : UInt32) : UInt32 := addr &&& ~~~63

/-- `cache_access` on one of the caches. -/
def Level.access (l : Level) (robSize : Int32) (curCycle : UInt64) (type : CacheAccessType)
    (addr : UInt32) : Option (Bool × Level) :=
  (l.cache.cacheAccess robSize 0 curCycle type addr).map fun (hit, cache) =>
    (hit, { l with cache := cache })

/-- The access of the first level. -/
def accessFirst (l : Option Level) (robSize : Int32) (stack : CacheMissType) (curCycle : UInt64)
    (type : CacheAccessType) (addr : UInt32) : Option (CacheMissType × Option Level) :=
  match l with
  | some l => (l.access robSize curCycle type addr).map fun (hit, l) =>
      (if hit then .l1Hit else .l1Miss, some l)
  | none => some (stack, none)

/-- The access of the second level, after a miss in the first. -/
def accessSecond (l : Option Level) (hsim : Bool) (robSize : Int32) (missType : CacheMissType)
    (curCycle : UInt64) (type : CacheAccessType) (addr : UInt32) :
    Option (CacheMissType × Option Level) :=
  match l with
  | some l =>
    if hsim = false ∧ missType = .l1Miss then
      (l.access robSize curCycle type addr).map fun (hit, l) =>
        (if hit then missType else .l2Miss, some l)
    else some (missType, some l)
  | none => some (missType, none)

/-- `cachesim_iaccess`. -/
def cachesimIaccess (c : Hierarchy) (hsim : Bool) (robSize : Int32) (stack : CacheMissType)
    (curCycle : UInt64) (addr : UInt32) : Option (CacheMissType × Hierarchy) :=
  let eaddr := fetchbufferalignpc addr
  (accessFirst c.il1 robSize stack curCycle .read eaddr).bind fun (missType, il1) =>
    (accessSecond c.ul2 hsim robSize missType curCycle .read eaddr).map fun (missType, ul2) =>
      (missType, { c with il1 := il1, ul2 := ul2 })

/-- `cachesim_daccess`. -/
def cachesimDaccess (c : Hierarchy) (hsim : Bool) (robSize : Int32) (stack : CacheMissType)
    (curCycle : UInt64) (addr : UInt32) (isWrite : Bool) : Option (CacheMissType × Hierarchy) :=
  let type := if isWrite then .write else .read
  (accessFirst c.dl1 robSize stack curCycle type addr).bind fun (missType, dl1) =>
    (accessSecond c.ul2 hsim robSize missType curCycle type addr).map fun (missType, ul2) =>
      (missType, { c with dl1 := dl1, ul2 := ul2 })

/-- The filter of `inst_increment`: the instruction cache is accessed only
when the fetch block changes. The result has the new `previous_pc`. -/
def filterFetch (c : Hierarchy) (hsim : Bool) (robSize : Int32) (stack : CacheMissType)
    (previousPc : UInt32) (curCycle : UInt64) (pc : UInt32) :
    Option (CacheMissType × Hierarchy × UInt32) :=
  if previousPc ≠ fetchbufferalignpc pc then
    (cachesimIaccess c hsim robSize stack curCycle pc).map fun (missType, c) =>
      (missType, c, fetchbufferalignpc pc)
  else some (.l1Hit, c, previousPc)

namespace Hierarchy

/-- `cachesim_il1_num_miss`. -/
def il1NumMiss (c : Hierarchy) : UInt64 := (c.il1.map (·.cache.numReadMiss)).getD 0

/-- `cachesim_il1_num_access`. -/
def il1NumAccess (c : Hierarchy) : UInt64 := (c.il1.map (·.cache.numAccess)).getD 0

/-- `cachesim_dl1_num_miss`. -/
def dl1NumMiss (c : Hierarchy) : UInt64 := (c.dl1.map (·.cache.numReadMiss)).getD 0

/-- `cachesim_ul2_num_miss`. -/
def ul2NumMiss (c : Hierarchy) : UInt64 := (c.ul2.map (·.cache.numMissStar)).getD 0

/-- `cachesim_il1_miss_latency`, converted to `int`. -/
def il1MissLatency (c : Hierarchy) : Int32 := (c.il1.map (·.missLat.toInt32)).getD 0

/-- `cachesim_ul2_miss_latency`, converted to `int`. -/
def ul2MissLatency (c : Hierarchy) : Int32 := (c.ul2.map (·.missLat.toInt32)).getD 0

end Hierarchy

end Cachesim

end Tqsim
