import Tqsim.Hsim.Model.Memmap

/-!
# The list of regions

The memory map spells a list of regions: a region is added at its end, and a
lookup moves what it finds to the front. No lookup fails.
-/

namespace Tqsim

namespace Hsim

variable {m m' : Memmap} {l : List ℕ}

/-- The nodes of the map, in their order. The predecessor field of the first
one is whatever a lookup left there. -/
structure Memmap.Spells (m : Memmap) (l : List ℕ) : Prop where
  seg : ∃ p, m.links.Seg p l none
  head : m.head = l.head?
  nodup : l.Nodup
  lt : ∀ r ∈ l, r < m.numRegions

theorem spells_memmapInitialize : memmapInitialize.Spells [] where
  seg := ⟨none, trivial⟩
  head := rfl
  nodup := .nil
  lt := nofun

theorem Memmap.Spells.length_le (h : m.Spells l) : l.length ≤ m.numRegions := by
  rw [← List.toFinset_card_of_nodup h.nodup, ← Finset.card_range m.numRegions]
  exact Finset.card_le_card fun r hr => Finset.mem_range.2 (h.lt r (List.mem_toFinset.1 hr))

/-- **A region is added at the end.** -/
theorem Memmap.Spells.addRegion (h : m.Spells l) (r : MemRegion) :
    ∃ m', memmapAddRegion m r = some m' ∧ m'.Spells (l ++ [m.numRegions]) ∧
      m'.numRegions = m.numRegions + 1 ∧ m'.region = Function.update m.region m.numRegions r := by
  have hnew : m.numRegions ∉ l := fun hm => (h.lt _ hm).false
  obtain ⟨p, hseg⟩ := h.seg
  have hseg' : ((m.links.setPrev m.numRegions none).setNext m.numRegions none).Seg p l none :=
    (hseg.setPrev_of_notMem hnew none).setNext_of_notMem hnew none
  have hlt : ∀ r ∈ l ++ [m.numRegions], r < m.numRegions + 1 := fun r hr => by
    rcases List.mem_append.1 hr with hr | hr
    · exact Nat.lt_succ_of_lt (h.lt r hr)
    · rw [List.mem_singleton.1 hr]
      exact Nat.lt_succ_self _
  have hnd : (l ++ [m.numRegions]).Nodup :=
    h.nodup.append (List.nodup_singleton _) (by simpa using hnew)
  unfold memmapAddRegion
  cases l with
  | nil =>
    have hhead : m.head = none := h.head
    simp only [hhead]
    exact ⟨_, rfl, ⟨⟨none, by simp [Links.setPrev, Links.setNext], by simp, trivial⟩, rfl, hnd, hlt⟩,
      rfl, rfl⟩
  | cons a l =>
    have hhead : m.head = some a := h.head
    obtain ⟨init, last, heq⟩ := List.eq_nil_or_concat (a :: l) |>.resolve_left (by simp)
    rw [List.concat_eq_append] at heq
    have hfuel : (a :: l).length ≤ m.numRegions + 1 := Nat.le_succ_of_le h.length_le
    have hlast := hseg'.last_eq hfuel
    rw [heq, List.getLast?_append, List.getLast?_singleton, Option.some_or] at hlast
    simp only [hhead, hlast, Option.bind_eq_bind, Option.bind_some]
    refine ⟨_, rfl, ⟨⟨p, ?_⟩, by simp, hnd, hlt⟩, rfl, rfl⟩
    rw [heq] at hseg' hnew ⊢
    exact hseg'.pushBack (heq ▸ h.nodup) hnew (by simp)

/-- The region found becomes the head. -/
theorem Memmap.Spells.pullUp {l₁ l₂ : List ℕ} {head r : ℕ}
    (h : m.Spells (head :: l₁ ++ r :: l₂)) : ∃ m', Hsim.pullUp m r head = some m' ∧
      m'.Spells (r :: (head :: l₁ ++ l₂)) ∧ m'.numRegions = m.numRegions ∧
      m'.region = m.region := by
  obtain ⟨p, hseg⟩ := h.seg
  have hperm : (r :: (head :: l₁ ++ l₂)).Perm (head :: l₁ ++ r :: l₂) := List.perm_middle.symm
  have hnd : (r :: (head :: l₁ ++ l₂)).Nodup := hperm.nodup_iff.2 h.nodup
  have hr : r ∉ head :: l₁ ++ l₂ := (List.nodup_cons.1 hnd).1
  -- its predecessor is the last node before it
  have hprev : m.links.prev r = some ((head :: l₁).getLast (by simp)) := by
    rw [hseg.prev_eq, List.getLast?_eq_some_getLast (by simp), Option.some_or]
  have hne : r ≠ (head :: l₁).getLast (by simp) := fun he =>
    hr (List.mem_append_left _ (he ▸ List.getLast_mem _))
  have hout := hseg.bypass h.nodup (by simp)
  have hin := hout.pushFront (List.nodup_cons.1 hnd).2 hr
  simp only [hprev, Links.setNextAt, Option.elim_some] at hout hin
  simp only [Hsim.pullUp, hprev, Option.bind_eq_bind, Option.bind_some,
    Links.setNext_next_of_ne _ hne]
  exact ⟨_, rfl, ⟨⟨_, hin⟩, rfl, hnd, fun x hx => h.lt x (hperm.mem_iff.1 hx)⟩, rfl,
    rfl⟩

/-- The first node that meets a test, pulled up. -/
def promote (q : ℕ → Bool) (l : List ℕ) : List ℕ :=
  match l.find? q with
  | none => l
  | some r => r :: l.erase r

/-- **A lookup** finds the first region of the list that contains the address,
and moves it to the front. -/
theorem Memmap.Spells.findMemRegion (h : m.Spells l) (addr : UInt32) :
    ∃ m', memmapFindMemRegion m addr =
        some (l.find? fun r => (m.region r).contains addr, m') ∧
      m'.Spells (promote (fun r => (m.region r).contains addr) l) ∧
      m'.numRegions = m.numRegions ∧ m'.region = m.region := by
  obtain ⟨p, hseg⟩ := h.seg
  have hfind := hseg.find_eq (fun r => (m.region r).contains addr) h.length_le
  unfold memmapFindMemRegion promote
  rw [h.head, hfind]
  simp only [Option.bind_eq_bind, Option.bind_some]
  cases hr : l.find? fun r => (m.region r).contains addr with
  | none => exact ⟨m, rfl, h, rfl, rfl⟩
  | some r =>
    obtain ⟨l₁, l₂, heq, hl₁⟩ := List.find?_eq_some_iff_append.1 hr |>.2
    cases l₁ with
    | nil =>
      obtain rfl : l = r :: l₂ := heq
      simp only [List.head?_cons, if_true, List.erase_cons_head]
      exact ⟨m, rfl, h, rfl, rfl⟩
    | cons head l₁ =>
      obtain rfl : l = head :: l₁ ++ r :: l₂ := heq
      have hnd := h.nodup
      have hr₁ : r ∉ head :: l₁ := fun hm => by
        simpa [(List.find?_eq_some_iff_append.1 hr).1] using hl₁ r hm
      obtain ⟨m', hm', hspells, hsame⟩ := h.pullUp
      have hne : r ≠ head := fun he => hr₁ (by simp [he])
      simp only [List.cons_append, List.head?_cons, if_neg hne, hm', Option.map_some]
      refine ⟨m', rfl, ?_, hsame⟩
      rwa [← List.cons_append, List.erase_append_right _ hr₁, List.erase_cons_head]

/-- **No lookup fails**, and the nodes stay the same. -/
theorem Memmap.Spells.getType (h : m.Spells l) (addr : UInt32) :
    ∃ type m' l', memmapGetType m addr = some (type, m') ∧ m'.Spells l' := by
  unfold memmapGetType
  split
  next => exact ⟨_, m, l, rfl, h⟩
  next =>
    obtain ⟨m', hm', hspells, -⟩ := h.findMemRegion addr
    rw [hm']
    exact ⟨_, m', _, rfl, hspells⟩

/-! ## The types -/

/-- The address of a system register. -/
def SysReg (addr : UInt32) : Prop :=
  sysRegBase ≤ addr ∧ addr < sysRegBase + UInt32.ofNat numSysReg * 4

instance (addr : UInt32) : Decidable (SysReg addr) :=
  inferInstanceAs (Decidable (_ ∧ _))

/-- The types that `memmap_is_shared` takes for shared. -/
def MemoryType.Shared (t : MemoryType) : Prop :=
  t = .memScratchpad ∨ t = .memSharedC ∨ t = .memSharedNc

instance (t : MemoryType) : Decidable t.Shared :=
  inferInstanceAs (Decidable (_ ∨ _))

/-- The type of what a lookup found. -/
theorem getType_of_find {addr : UInt32} {found : Option ℕ} (hreg : ¬ SysReg addr)
    (h : memmapFindMemRegion m addr = some (found, m')) :
    memmapGetType m addr = some (found.elim .memUnknown fun r => (m'.region r).type, m') := by
  rw [memmapGetType, if_neg (show ¬ (_ ∧ _) from hreg), h, Option.map_some]

/-- The test, from what a lookup found. -/
theorem isShared_of_find {addr : UInt32} {found : Option ℕ}
    (h : memmapFindMemRegion m addr = some (found, m')) :
    memmapIsShared m addr = some (decide (SysReg addr ∨
      (found.elim .memUnknown fun r => (m'.region r).type : MemoryType).Shared), m') := by
  rw [memmapIsShared, h, Option.map_some]
  by_cases hsys : SysReg addr
  · simp only [if_pos (show _ ∧ _ from hsys), hsys, true_or, decide_true]
  · simp only [if_neg (show ¬ (_ ∧ _) from hsys), hsys, false_or]
    cases found with
    | none => rfl
    | some r =>
      simp only [Option.elim_some]
      by_cases hshared : (m'.region r).type.Shared
      · simp only [if_pos (show _ ∨ _ from hshared), hshared, decide_true]
      · simp only [if_neg (show ¬ (_ ∨ _) from hshared), hshared, decide_false]

/-- **The test does not fail either.** -/
theorem Memmap.Spells.isShared (h : m.Spells l) (addr : UInt32) :
    ∃ shared m' l', memmapIsShared m addr = some (shared, m') ∧ m'.Spells l' := by
  obtain ⟨m', hm', hspells, -⟩ := h.findMemRegion addr
  exact ⟨_, m', _, isShared_of_find hm', hspells⟩

/-- What was found is found again. -/
theorem find?_promote (q : ℕ → Bool) (l : List ℕ) : (promote q l).find? q = l.find? q := by
  unfold promote
  split
  next => rfl
  next r hr => rw [List.find?_cons_of_pos (List.find?_some hr), hr]

/-- **A second lookup** of the address finds what the first one did, since that
is in front by then. -/
theorem Memmap.Spells.findMemRegion_twice (h : m.Spells l) (addr : UInt32) :
    ∃ m₁ m₂ l₂, memmapFindMemRegion m addr =
        some (l.find? fun r => (m.region r).contains addr, m₁) ∧
      memmapFindMemRegion m₁ addr = some (l.find? fun r => (m.region r).contains addr, m₂) ∧
      m₂.Spells l₂ ∧ m₁.region = m.region ∧ m₂.region = m.region := by
  obtain ⟨m₁, hm₁, hspells, -, hregion⟩ := h.findMemRegion addr
  obtain ⟨m₂, hm₂, hspells₂, -, hregion₂⟩ := hspells.findMemRegion addr
  rw [hregion, find?_promote] at hm₂
  exact ⟨m₁, m₂, _, hm₁, hm₂, hspells₂, hregion, hregion₂.trans hregion⟩

/-- **The type that is found after the test** is one of those that the test is
for just if it said so. -/
theorem Memmap.Spells.getType_of_isShared (h : m.Spells l) {addr : UInt32} {shared : Bool}
    (hshared : memmapIsShared m addr = some (shared, m')) (hreg : ¬ SysReg addr) :
    ∃ type m'' l', memmapGetType m' addr = some (type, m'') ∧ m''.Spells l' ∧
      (shared = true ↔ type.Shared) := by
  obtain ⟨m₁, m₂, l₂, hm₁, hm₂, hspells, hregion, hregion₂⟩ := h.findMemRegion_twice addr
  rw [isShared_of_find hm₁, Option.some.injEq, Prod.mk.injEq] at hshared
  obtain ⟨rfl, rfl⟩ := hshared
  refine ⟨_, m₂, l₂, getType_of_find hreg hm₂, hspells, ?_⟩
  rw [hregion, hregion₂, decide_eq_true_eq]
  exact or_iff_right hreg

end Hsim

end Tqsim
