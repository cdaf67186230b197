import Tqsim.Common.Linked

/-!
# The memory map

`hsim_mmap.c`: the regions of the simulated platform, in a doubly linked list
that each lookup reorders. Nodes are numbered in the order in which they were
allocated. A lookup fails when it follows a null pointer, or when its loop
has not come to an end after as many nodes as there are.
-/

namespace Tqsim

namespace Hsim

/-- `MemoryType`. The type of a region comes from a file, as a number. -/
inductive MemoryType where
  | memVirtual
  | memInternal
  | memLocal
  | memScratchpad
  | memSharedC
  | memSharedNc
  | memUnknown
  | memUndefined
  | other (code : UInt32)
  deriving DecidableEq, Repr

/-- `mem_region`, apart from its links and its latency, which nothing
reads. -/
structure MemRegion where
  base : UInt32
  size : UInt32
  type : MemoryType
  deriving DecidableEq, Repr

/-- The heap of regions, and `mem_region_head`. -/
structure Memmap where
  region : ℕ → MemRegion
  links : Links ℕ
  head : Option ℕ
  numRegions : ℕ

/-- `SYS_REG_BASE`. -/
def sysRegBase : UInt32 := 0xE0000000

/-- `NUM_SYS_REG`. -/
def numSysReg : ℕ := 8

/-- `memmap_initialize`. -/
def memmapInitialize : Memmap where
  region _ := ⟨0, 0, .memUnknown⟩
  links := ⟨fun _ => none, fun _ => none⟩
  head := none
  numRegions := 0

/-- `memmap_add_region`, of a new node. -/
def memmapAddRegion (m : Memmap) (r : MemRegion) : Option Memmap :=
  let pRegion := m.numRegions
  let links := (m.links.setPrev pRegion none).setNext pRegion none
  let m := { m with
    region := Function.update m.region pRegion r
    links := links
    numRegions := m.numRegions + 1 }
  match m.head with
  | none => some { m with head := some pRegion }
  | some head => do
    let prevRegion ← m.links.last m.numRegions head
    some { m with
      links := (m.links.setNext prevRegion (some pRegion)).setPrev pRegion (some prevRegion) }

/-- `addr >= base && addr < base + size`, in 32 bits. -/
def MemRegion.contains (r : MemRegion) (addr : UInt32) : Bool :=
  r.base ≤ addr && addr < r.base + r.size

/-- The end of `memmap_find_mem_region`: the region found becomes the head. -/
def pullUp (m : Memmap) (pRegion head : ℕ) : Option Memmap := do
  let prev ← m.links.prev pRegion
  -- remove selected item
  let links := m.links.setNext prev (m.links.next pRegion)
  let links := links.setPrevAt (links.next pRegion) (some prev)
  -- insert selected to top
  let links := (links.setNext pRegion (some head)).setPrev head (some pRegion)
  some { m with links := links, head := some pRegion }

/-- `memmap_find_mem_region`. -/
def memmapFindMemRegion (m : Memmap) (addr : UInt32) : Option (Option ℕ × Memmap) := do
  let found ← m.links.find (fun r => (m.region r).contains addr) m.numRegions m.head
  match found, m.head with
  | some pRegion, some head =>
    if pRegion = head then some (found, m)
    else (pullUp m pRegion head).map (found, ·)
  | _, _ => some (found, m)

/-- `memmap_get_type`. -/
def memmapGetType (m : Memmap) (addr : UInt32) : Option (MemoryType × Memmap) :=
  if sysRegBase ≤ addr ∧ addr < sysRegBase + UInt32.ofNat numSysReg * 4 then
    some (.memInternal, m)
  else
    (memmapFindMemRegion m addr).map fun (pRegion, m) =>
      (pRegion.elim .memUnknown fun r => (m.region r).type, m)

/-- `memmap_is_local`: below `MEM_LOCAL_BASE + MEM_LOCAL_SIZE`. -/
def memmapIsLocal (addr : UInt32) : Bool := addr < 0x00000000 + 0x30000000

/-- `memmap_is_shared`, which looks the address up first. -/
def memmapIsShared (m : Memmap) (addr : UInt32) : Option (Bool × Memmap) :=
  (memmapFindMemRegion m addr).map fun (pRegion, m) =>
    if sysRegBase ≤ addr ∧ addr < sysRegBase + UInt32.ofNat numSysReg * 4 then (true, m)
    else match pRegion with
      | some r =>
        if (m.region r).type = .memScratchpad ∨ (m.region r).type = .memSharedC ∨
          (m.region r).type = .memSharedNc then (true, m)
        else (false, m)
      | none => (false, m)

end Hsim

end Tqsim
