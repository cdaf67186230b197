import Tqsim.Hsim.Helpers.Regions
import Tqsim.Common.Run

/-!
# Lookups of a region

Every lookup reorders the list of regions, so that the next one walks it in
an order that all earlier ones had a part in. As long as the regions are
disjoint, none of this shows: after any calls the list holds each region that
was added once, with its links in order, and a lookup returns the one region
that holds the address.
-/

namespace Tqsim

namespace Hsim

variable {m m' : Memmap} {regions : List MemRegion} {addr : UInt32}

/-- A call on the memory map. -/
inductive MapCall where
  | addRegion (r : MemRegion)
  | findMemRegion (addr : UInt32)
  | getType (addr : UInt32)
  | isShared (addr : UInt32)

/-- The map after a call. -/
def Memmap.call (m : Memmap) : MapCall → Option Memmap
  | .addRegion r => memmapAddRegion m r
  | .findMemRegion addr => (memmapFindMemRegion m addr).map Prod.snd
  | .getType addr => (memmapGetType m addr).map Prod.snd
  | .isShared addr => (memmapIsShared m addr).map Prod.snd

/-- The region that a call adds. -/
def MapCall.adds : MapCall → Option MemRegion
  | .addRegion r => some r
  | _ => none

/-- The regions that calls add, in their order. -/
def added (calls : List MapCall) : List MemRegion := calls.filterMap MapCall.adds

/-- The address lies in the region, as an interval of numbers. -/
def MemRegion.Holds (r : MemRegion) (addr : UInt32) : Prop :=
  r.base.toNat ≤ addr.toNat ∧ addr.toNat < r.base.toNat + r.size.toNat

instance (r : MemRegion) (addr : UInt32) : Decidable (r.Holds addr) :=
  inferInstanceAs (Decidable (_ ∧ _))

/-- The regions end before `2 ^ 32`, and no address lies in two of them. -/
structure Apart (regions : List MemRegion) : Prop where
  bounded : ∀ r ∈ regions, r.base.toNat + r.size.toNat < 2 ^ 32
  disjoint : regions.Pairwise fun r r' => ∀ addr, ¬ (r.Holds addr ∧ r'.Holds addr)

/-- **The list of regions**: node `i` is the region that was added as the
`i`th, and the nodes, each of them once, are linked from the head to the last
one. Nothing is said about the `prev` of the head. -/
structure Memmap.Lists (m : Memmap) (regions : List MemRegion) : Prop where
  region : ∀ i r, regions[i]? = some r → m.region i = r
  linked : ∃ l : List ℕ, l.Perm (List.range regions.length) ∧ m.head = l.head? ∧
    (∀ l₁ a b l₂, l = l₁ ++ a :: b :: l₂ → m.links.next a = some b ∧ m.links.prev b = some a) ∧
    ∀ l₁ a, l = l₁ ++ [a] → m.links.next a = none

/-- A lookup's answer: node `i` just if the region added as the `i`th holds the
address. -/
def Answers (regions : List MemRegion) (addr : UInt32) (found : Option ℕ) : Prop :=
  ∀ i, found = some i ↔ ∃ r, regions[i]? = some r ∧ r.Holds addr

/-- The type of a region that was found. -/
def typeAt (regions : List MemRegion) (found : Option ℕ) : MemoryType :=
  (found.bind (regions[·]?)).elim .memUnknown MemRegion.type

/-! ## The list -/

/-- The nodes of the map, and the regions in them. -/
structure Memmap.Stores (m : Memmap) (regions : List MemRegion) (l : List ℕ) : Prop where
  spells : m.Spells l
  perm : l.Perm (List.range regions.length)
  numRegions : m.numRegions = regions.length
  region : ∀ i r, regions[i]? = some r → m.region i = r

namespace Memmap.Stores

variable {l : List ℕ}

theorem start : memmapInitialize.Stores [] [] where
  spells := spells_memmapInitialize
  perm := .nil
  numRegions := rfl
  region := nofun

/-- Consecutive nodes point at each other. -/
theorem lists (h : m.Stores regions l) : m.Lists regions := by
  obtain ⟨p, hseg⟩ := h.spells.seg
  refine ⟨h.region, l, h.perm, h.spells.head, ?_, ?_⟩
  · rintro l₁ a b l₂ rfl
    refine ⟨hseg.next_eq, ?_⟩
    rw [show l₁ ++ a :: b :: l₂ = (l₁ ++ [a]) ++ b :: l₂ by simp] at hseg
    simpa using hseg.prev_eq
  · rintro l₁ a rfl
    exact hseg.next_eq

theorem addRegion (h : m.Stores regions l) (r : MemRegion) :
    ∃ m' l', memmapAddRegion m r = some m' ∧ m'.Stores (regions ++ [r]) l' := by
  obtain ⟨m', hm', hspells, hnum, hregion⟩ := h.spells.addRegion r
  refine ⟨m', _, hm', hspells, ?_, ?_, fun i r' hi => ?_⟩
  · rw [List.length_append, List.length_singleton, List.range_succ, h.numRegions]
    exact h.perm.append_right _
  · rw [hnum, h.numRegions, List.length_append, List.length_singleton]
  · rw [hregion, h.numRegions]
    by_cases hlt : i < regions.length
    · rw [List.getElem?_append_left hlt] at hi
      rw [Function.update_of_ne (Nat.ne_of_lt hlt), h.region i r' hi]
    · have hlen := (List.getElem?_eq_some_iff.1 hi).1
      rw [List.length_append, List.length_singleton] at hlen
      obtain rfl : i = regions.length := by omega
      rw [Function.update_self]
      simpa using hi

theorem promote_perm (q : ℕ → Bool) (l : List ℕ) : (promote q l).Perm l := by
  unfold promote
  split
  next => exact .refl _
  next r hr => exact (List.perm_cons_erase (List.mem_of_find?_eq_some hr)).symm

/-- A lookup only reorders the list. -/
theorem findMemRegion (h : m.Stores regions l) (addr : UInt32) :
    ∃ m' l', memmapFindMemRegion m addr =
        some (l.find? fun r => (m.region r).contains addr, m') ∧ m'.Stores regions l' ∧
      m'.region = m.region := by
  obtain ⟨m', hm', hspells, hnum, hregion⟩ := h.spells.findMemRegion addr
  exact ⟨m', _, hm', ⟨hspells, (promote_perm _ l).trans h.perm, hnum.trans h.numRegions,
    fun i r hi => hregion ▸ h.region i r hi⟩, hregion⟩

/-- **No call fails.** -/
theorem call (h : m.Stores regions l) (c : MapCall) :
    ∃ m' l', m.call c = some m' ∧ m'.Stores (regions ++ c.adds.toList) l' := by
  have hsame : regions ++ (none : Option MemRegion).toList = regions := List.append_nil _
  cases c with
  | addRegion r => exact h.addRegion r
  | findMemRegion addr =>
    obtain ⟨m', l', hm', hl', -⟩ := h.findMemRegion addr
    exact ⟨m', l', by rw [Memmap.call, hm']; rfl, hsame.symm ▸ hl'⟩
  | getType addr =>
    obtain ⟨m', l', hm', hl', -⟩ := h.findMemRegion addr
    rw [Memmap.call, memmapGetType]
    split
    next => exact ⟨m, l, rfl, hsame.symm ▸ h⟩
    next => exact ⟨m', l', by rw [hm']; rfl, hsame.symm ▸ hl'⟩
  | isShared addr =>
    obtain ⟨m', l', hm', hl', -⟩ := h.findMemRegion addr
    exact ⟨m', l', by rw [Memmap.call, isShared_of_find hm']; rfl, hsame.symm ▸ hl'⟩

/-- **Nor does a sequence of calls.** -/
theorem play (h : m.Stores regions l) (calls : List MapCall) :
    ∃ m' l', Run.play Memmap.call calls m = some m' ∧ m'.Stores (regions ++ added calls) l' := by
  induction calls generalizing m regions l with
  | nil => exact ⟨m, l, rfl, (List.append_nil regions).symm ▸ h⟩
  | cons c calls ih =>
    obtain ⟨m₁, l₁, hm₁, h₁⟩ := h.call c
    obtain ⟨m', l', hm', h'⟩ := ih h₁
    have hadded : added (c :: calls) = c.adds.toList ++ added calls := by
      rw [added, List.filterMap_cons]
      cases c.adds <;> rfl
    refine ⟨m', l', by rw [Run.play, hm₁]; exact hm', ?_⟩
    rwa [hadded, ← List.append_assoc]

end Memmap.Stores

/-! ## The answers -/

/-- The test of the code, in 32 bits. -/
theorem contains_iff_holds {r : MemRegion} (h : r.base.toNat + r.size.toNat < 2 ^ 32) :
    r.contains addr = true ↔ r.Holds addr := by
  rw [MemRegion.contains, Bool.and_eq_true, decide_eq_true_eq, decide_eq_true_eq,
    UInt32.le_iff_toNat_le, UInt32.lt_iff_toNat_lt, UInt32.toNat_add, Nat.mod_eq_of_lt h]
  rfl

/-- An address lies in one region at most. -/
theorem Apart.eq_of_holds (h : Apart regions) {i j : ℕ} {r r' : MemRegion}
    (hi : regions[i]? = some r) (hj : regions[j]? = some r') (hr : r.Holds addr)
    (hr' : r'.Holds addr) : i = j := by
  obtain ⟨hilt, rfl⟩ := List.getElem?_eq_some_iff.1 hi
  obtain ⟨hjlt, rfl⟩ := List.getElem?_eq_some_iff.1 hj
  have hd := List.pairwise_iff_getElem.1 h.disjoint
  rcases Nat.lt_trichotomy i j with hlt | heq | hlt
  · exact absurd ⟨hr, hr'⟩ (hd i j hilt hjlt hlt addr)
  · exact heq
  · exact absurd ⟨hr', hr⟩ (hd j i hjlt hilt hlt addr)

/-- What the walk stops at is one of the regions, and passes the test. -/
theorem Memmap.Stores.contains_of_find {l : List ℕ} (h : m.Stores regions l) {i : ℕ}
    (hi : l.find? (fun r => (m.region r).contains addr) = some i) :
    ∃ r, regions[i]? = some r ∧ r.contains addr = true := by
  have hlt : i < regions.length :=
    List.mem_range.1 (h.perm.mem_iff.1 (List.mem_of_find?_eq_some hi))
  have hget := List.getElem?_eq_getElem hlt
  have hc := List.find?_some hi
  simp only [h.region i _ hget] at hc
  exact ⟨_, hget, hc⟩

/-- **The walk stops** just if some region passes the test, in whatever order it
meets the nodes. -/
theorem Memmap.Stores.find_isSome {l : List ℕ} (h : m.Stores regions l) :
    (l.find? fun r => (m.region r).contains addr).isSome ↔
      ∃ r ∈ regions, r.contains addr = true := by
  constructor
  · intro hsome
    obtain ⟨i, hi⟩ := Option.isSome_iff_exists.1 hsome
    obtain ⟨r, hr, hc⟩ := h.contains_of_find hi
    exact ⟨r, List.mem_of_getElem? hr, hc⟩
  · rintro ⟨r, hr, hc⟩
    obtain ⟨i, hi⟩ := List.mem_iff_getElem?.1 hr
    have hmem : i ∈ l := h.perm.mem_iff.2 (List.mem_range.2 (List.getElem?_eq_some_iff.1 hi).1)
    refine List.find?_isSome.2 ⟨i, hmem, ?_⟩
    rwa [h.region i r hi]

/-- **The walk finds the region that holds the address.** -/
theorem Memmap.Stores.answers {l : List ℕ} (h : m.Stores regions l) (hapart : Apart regions)
    (addr : UInt32) : Answers regions addr (l.find? fun r => (m.region r).contains addr) := by
  have hfound : ∀ i, l.find? (fun r => (m.region r).contains addr) = some i →
      ∃ r, regions[i]? = some r ∧ r.Holds addr := by
    intro i hi
    obtain ⟨r, hr, hc⟩ := h.contains_of_find hi
    exact ⟨r, hr, (contains_iff_holds (hapart.bounded r (List.mem_of_getElem? hr))).1 hc⟩
  intro i
  refine ⟨hfound i, ?_⟩
  rintro ⟨r, hr, hholds⟩
  have hmem := List.mem_of_getElem? hr
  obtain ⟨j, hj⟩ := Option.isSome_iff_exists.1 (h.find_isSome.2
    ⟨r, hmem, (contains_iff_holds (hapart.bounded r hmem)).2 hholds⟩)
  obtain ⟨r', hr', hholds'⟩ := hfound j hj
  rw [hj, hapart.eq_of_holds hr' hr hholds' hholds]

theorem Memmap.Stores.typeAt_eq {l : List ℕ} (h : m.Stores regions l) (hm' : m'.region = m.region)
    {found : Option ℕ} (hans : Answers regions addr found) :
    (found.elim .memUnknown fun r => (m'.region r).type) = typeAt regions found := by
  cases found with
  | none => rfl
  | some i =>
    obtain ⟨r, hr, -⟩ := (hans i).1 rfl
    simp only [typeAt, Option.elim_some, Option.bind_some, hr, hm', h.region i r hr]

/-- **Lookups are transparent.** After any calls that add disjoint regions, the
list holds each of them once, and whatever the calls before were, a lookup of
any address answers with the region that holds it, or with none. -/
theorem lookup_transparent (calls : List MapCall) (hapart : Apart (added calls)) :
    ∃ m, Run.play Memmap.call calls memmapInitialize = some m ∧ m.Lists (added calls) ∧
      ∀ addr, ∃ found, Answers (added calls) addr found ∧
        (∃ m', memmapFindMemRegion m addr = some (found, m')) ∧
        (∃ m', memmapGetType m addr =
          some (if SysReg addr then .memInternal else typeAt (added calls) found, m')) ∧
        ∃ m', memmapIsShared m addr =
          some (decide (SysReg addr ∨ (typeAt (added calls) found).Shared), m') := by
  obtain ⟨m, l, hplay, h⟩ := Memmap.Stores.start.play calls
  rw [List.nil_append] at h
  refine ⟨m, hplay, h.lists, fun addr => ⟨_, h.answers hapart addr, ?_⟩⟩
  obtain ⟨m', l', hm', -, hregion⟩ := h.findMemRegion addr
  have htype := h.typeAt_eq hregion (h.answers hapart addr)
  refine ⟨⟨m', hm'⟩, ?_, m', ?_⟩
  · by_cases hsys : SysReg addr
    · exact ⟨m, by rw [memmapGetType, if_pos (show _ ∧ _ from hsys), if_pos hsys]⟩
    · exact ⟨m', by rw [getType_of_find hsys hm', if_neg hsys, htype]⟩
  · rw [isShared_of_find hm', htype]

/-- Two regions, with lookups that swap them and swap them back. -/
def sampleCalls : List MapCall :=
  [.addRegion ⟨0x1000, 0x1000, .memLocal⟩, .addRegion ⟨0x8000, 0x100, .memSharedC⟩,
    .isShared 0x8010, .findMemRegion 0x1FFF, .getType 0x80FF]

theorem apart_sampleCalls : Apart (added sampleCalls) where
  bounded := by decide
  disjoint := by
    refine List.pairwise_pair.2 fun addr h => ?_
    have h₁ : addr.toNat < 0x1000 + 0x1000 := h.1.2
    have h₂ : 0x8000 ≤ addr.toNat := h.2.1
    omega

/-- The last of these lookups, made once more. -/
theorem lookup_transparent_sample : ∃ m m', Run.play Memmap.call sampleCalls memmapInitialize =
      some m ∧ m.Lists (added sampleCalls) ∧ memmapFindMemRegion m 0x80FF = some (some 1, m') := by
  obtain ⟨m, hplay, hlists, hlookup⟩ := lookup_transparent sampleCalls apart_sampleCalls
  obtain ⟨found, hans, ⟨m', hm'⟩, -⟩ := hlookup 0x80FF
  obtain rfl := (hans 1).2 ⟨_, rfl, by decide⟩
  exact ⟨m, m', hplay, hlists, hm'⟩

end Hsim

end Tqsim
