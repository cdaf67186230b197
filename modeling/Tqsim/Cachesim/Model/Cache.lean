import Tqsim.Common.Linked

/-!
# The cache

`cache.c`: a cache of `nset` sets of `assoc` blocks each, the blocks of a set
in a doubly linked list in the order of replacement. The blocks of a set are
numbered in the order in which they were allocated. A function fails when it
follows a null pointer, or when a loop over the blocks has not come to an end
after as many blocks as there are.
-/

namespace Tqsim

namespace Cachesim

/-- `Cache_policy`. -/
inductive CachePolicy where
  | lru
  | random
  | fifo
  deriving DecidableEq, Repr

/-- `CacheAccessType`. -/
inductive CacheAccessType where
  | read
  | write
  deriving DecidableEq, Repr

/-- `Cache_config`, apart from the name and the latencies, which no function
here reads. -/
structure CacheConfig where
  nset : ℕ
  bsize : ℕ
  assoc : ℕ
  policy : CachePolicy
  deriving DecidableEq, Repr

/-- `Cache_blk_t`, apart from its links and its data, which is never
filled. -/
structure CacheBlk where
  valid : Bool
  dirty : Bool
  tag : UInt32
  deriving DecidableEq, Repr

/-- `Cache_set_t`, with the blocks of the set. -/
structure CacheSet where
  blk : ℕ → CacheBlk
  links : Links ℕ
  firstBlk : Option ℕ
  lastBlk : Option ℕ

/-- `Cache_t`. -/
structure Cache where
  cacheSet : ℕ → CacheSet
  config : CacheConfig
  numAccess : UInt64
  numMiss : UInt64
  numReadMiss : UInt64
  numMissStar : UInt64
  lenIdxBit : ℕ
  lenOffsetBit : ℕ
  lastMissInstId : UInt64

namespace CacheSet

/-- `cacheblock_initialize`, of a new block. -/
def cacheblockInitialize (set : CacheSet) (blk : ℕ) : CacheSet :=
  { set with
    blk := Function.update set.blk blk ⟨false, false, 0⟩
    links := (set.links.setPrev blk none).setNext blk none }

/-- `cacheset_initialize`: its loop, after `assoc` turns. -/
def cachesetInitialize : ℕ → CacheSet
  | 0 => ⟨fun _ => ⟨false, false, 0⟩, ⟨fun _ => none, fun _ => none⟩, none, none⟩
  | i + 1 =>
    let set := (cachesetInitialize i).cacheblockInitialize i
    if i = 0 then { set with firstBlk := some i, lastBlk := some i }
    else
      { set with
        links := ((set.links.setPrev i set.lastBlk).setNext i none).setNextAt set.lastBlk (some i)
        lastBlk := some i }

/-- `cacheset_moveBlkAtFirst`. -/
def cachesetMoveBlkAtFirst (set : CacheSet) (blk : ℕ) : Option CacheSet :=
  if set.firstBlk = some blk then some set
  else
    -- remove
    let prev := set.links.prev blk
    let set := match prev with
      | some p => { set with links := set.links.setNext p (set.links.next blk) }
      | none => { set with firstBlk := set.links.next blk }
    let set := match set.links.next blk with
      | some n => { set with links := set.links.setPrev n prev }
      | none => { set with lastBlk := prev }
    -- add
    set.firstBlk.map fun first =>
      { set with
        links := ((set.links.setPrev blk none).setNext blk (some first)).setPrev first (some blk)
        firstBlk := some blk }

/-- `target_blk->valid && target_blk->tag == tag`. -/
def hasTag (set : CacheSet) (tag : UInt32) (b : ℕ) : Bool :=
  (set.blk b).valid && (set.blk b).tag == tag

/-- The loop of `cache_access` that looks for a tag. -/
def lookup (set : CacheSet) (assoc : ℕ) (tag : UInt32) : Option (Option ℕ) :=
  set.links.find (set.hasTag tag) assoc set.firstBlk

/-- The block to be replaced. -/
def victim (set : CacheSet) (config : CacheConfig) (rand : ℕ) : Option ℕ :=
  match config.policy with
  | .lru | .fifo => set.lastBlk
  | .random => (fun b => b.bind set.links.next)^[rand % config.assoc] set.firstBlk

/-- `target_blk->valid = true; target_blk->tag = tag;`. -/
def fill (set : CacheSet) (blk : ℕ) (tag : UInt32) : CacheSet :=
  { set with blk := Function.update set.blk blk { set.blk blk with valid := true, tag := tag } }

/-- What `cache_invalidate` does to a block. -/
def clear (set : CacheSet) (blk : ℕ) : CacheSet :=
  { set with
    blk := Function.update set.blk blk { set.blk blk with valid := false, dirty := false } }

end CacheSet

/-- `cache_initialize`. -/
def cacheInitialize (config : CacheConfig) : Cache where
  cacheSet _ := CacheSet.cachesetInitialize config.assoc
  config := config
  numAccess := 0
  numMiss := 0
  numReadMiss := 0
  numMissStar := 0
  lenIdxBit := Nat.log2 config.nset
  lenOffsetBit := Nat.log2 config.bsize
  lastMissInstId := -1

namespace Cache

/-- `idx` of `cache_access`. -/
def idx (c : Cache) (addr : UInt32) : UInt32 :=
  (addr >>> UInt32.ofNat c.lenOffsetBit) &&& ((1 <<< UInt32.ofNat c.lenIdxBit) - 1)

/-- `tag` of `cache_access`. -/
def tag (c : Cache) (addr : UInt32) : UInt32 :=
  addr >>> UInt32.ofNat (c.lenOffsetBit + c.lenIdxBit)

/-- The counters after a miss. The size of the window, an `int`, is converted
for the comparison. -/
def countMiss (c : Cache) (robSize : Int32) (instId : UInt64) (type : CacheAccessType) : Cache :=
  match type with
  | .read =>
    { c with
      numMissStar :=
        if c.lastMissInstId = -1 ∨ instId - c.lastMissInstId > robSize.toInt64.toUInt64 then
          c.numMissStar + 1
        else c.numMissStar
      lastMissInstId := instId
      numReadMiss := c.numReadMiss + 1
      numMiss := c.numMiss + 1 }
  | .write => { c with numMiss := c.numMiss + 1 }

/-- A set, stored back. -/
def setSet (c : Cache) (idx : UInt32) (set : CacheSet) : Cache :=
  { c with cacheSet := Function.update c.cacheSet idx.toNat set }

/-- `cache_access`. The size of the window and the random number come from
outside. -/
def cacheAccess (c : Cache) (robSize : Int32) (rand : ℕ) (instId : UInt64)
    (type : CacheAccessType) (addr : UInt32) : Option (Bool × Cache) :=
  let idx := c.idx addr
  let tag := c.tag addr
  let c := { c with numAccess := c.numAccess + 1 }
  let set := c.cacheSet idx.toNat
  (set.lookup c.config.assoc tag).bind fun
    | some targetBlk =>
      if c.config.policy = .lru then
        (set.cachesetMoveBlkAtFirst targetBlk).map fun set => (true, c.setSet idx set)
      else some (true, c)
    | none =>
      (set.victim c.config rand).bind fun targetBlk =>
        ((set.fill targetBlk tag).cachesetMoveBlkAtFirst targetBlk).map fun set =>
          (false, (c.countMiss robSize instId type).setSet idx set)

/-- The blocks of a set are invalidated. -/
def invalidateSet (c : Cache) (set : CacheSet) : Option CacheSet :=
  (set.links.walk c.config.assoc set.firstBlk).map fun blks => blks.foldl CacheSet.clear set

/-- `cache_invalidate`: its loop over the sets, after `i` turns. -/
def invalidateLoop (c : Cache) : ℕ → Option Cache
  | 0 => some c
  | i + 1 => (c.invalidateLoop i).bind fun c =>
    (c.invalidateSet (c.cacheSet i)).map fun set =>
      { c with cacheSet := Function.update c.cacheSet i set }

def cacheInvalidate (c : Cache) : Option Cache := c.invalidateLoop c.config.nset

end Cache

/-- The calls made on a cache. -/
inductive Call where
  | access (robSize : Int32) (rand : ℕ) (instId : UInt64) (type : CacheAccessType) (addr : UInt32)
  | invalidate

def Cache.call (c : Cache) : Call → Option Cache
  | .access robSize rand instId type addr =>
    (c.cacheAccess robSize rand instId type addr).map Prod.snd
  | .invalidate => c.cacheInvalidate

end Cachesim

end Tqsim
