import Tqsim.Hsim.Lookup

/-!
# The top of the address space

`memmap_find_mem_region` computes the end of a region in 32 bits. A region
that reaches up to `2 ^ 32` ends at zero then, and no address is found in it;
all others are found, however they overlap and in whatever order the list is.
-/

namespace Tqsim

namespace Hsim

variable {m m' : Memmap} {regions : List MemRegion} {addr : UInt32}

/-- The region ends at `2 ^ 32` or before. -/
def MemRegion.Fits (r : MemRegion) : Prop := r.base.toNat + r.size.toNat ≤ 2 ^ 32

instance MemRegion.decidableFits (r : MemRegion) : Decidable r.Fits :=
  inferInstanceAs (Decidable (_ ≤ _))

/-- **Membership is exact**: a lookup finds a region just if the address lies in
one, and the region that it finds is one of those. -/
def Exact (regions : List MemRegion) (m : Memmap) (addr : UInt32) : Prop :=
  ∃ found m', memmapFindMemRegion m addr = some (found, m') ∧
    (found.isSome ↔ ∃ r ∈ regions, r.Holds addr) ∧
    ∀ i, found = some i → ∃ r, regions[i]? = some r ∧ r.Holds addr

/-- **The test of the code**: a region that ends at `2 ^ 32` holds nothing. -/
theorem contains_iff_of_fits {r : MemRegion} (h : r.Fits) :
    r.contains addr = true ↔ r.Holds addr ∧ r.base.toNat + r.size.toNat < 2 ^ 32 := by
  by_cases hlt : r.base.toNat + r.size.toNat < 2 ^ 32
  · rw [contains_iff_holds hlt]
    exact ⟨fun hr => ⟨hr, hlt⟩, fun hr => hr.1⟩
  · have htop : r.base.toNat + r.size.toNat = 2 ^ 32 := by
      unfold MemRegion.Fits at h
      omega
    have hzero : (r.base + r.size).toNat = 0 := by
      rw [UInt32.toNat_add, htop]
      rfl
    rw [MemRegion.contains, Bool.and_eq_true, decide_eq_true_eq, decide_eq_true_eq,
      UInt32.lt_iff_toNat_lt, hzero]
    omega

/-- The address at the top lies in the regions that end there, and in no
other. -/
theorem holds_top_iff {r : MemRegion} (h : r.Fits) :
    r.Holds (-1) ↔ r.base.toNat + r.size.toNat = 2 ^ 32 := by
  have hbase := r.base.toNat_lt
  have htop : (-1 : UInt32).toNat = 2 ^ 32 - 1 := by decide
  unfold MemRegion.Holds
  unfold MemRegion.Fits at h
  rw [htop]
  omega

/-- **When membership is exact up to the top of the address space**: after any
calls, for every address, just if no region ends at `2 ^ 32`. -/
theorem exact_iff (calls : List MapCall) (hfits : ∀ r ∈ added calls, r.Fits) :
    ∃ m, Run.play Memmap.call calls memmapInitialize = some m ∧
      ((∀ addr, Exact (added calls) m addr) ↔
        ∀ r ∈ added calls, r.base.toNat + r.size.toNat < 2 ^ 32) := by
  obtain ⟨m, l, hplay, h⟩ := Memmap.Stores.start.play calls
  rw [List.nil_append] at h
  refine ⟨m, hplay, ?_, ?_⟩
  · intro hexact r hr
    by_contra hge
    have htop : r.base.toNat + r.size.toNat = 2 ^ 32 := by
      have := hfits r hr
      unfold MemRegion.Fits at this
      omega
    -- the topmost address lies in the region, and yet nothing is found
    obtain ⟨found, m', hfind, hsome, -⟩ := hexact (-1)
    obtain ⟨m₁, l₁, hm₁, -, -⟩ := h.findMemRegion (-1)
    obtain ⟨rfl, -⟩ := Prod.mk.inj (Option.some.inj (hm₁.symm.trans hfind))
    obtain ⟨r', hr', hc⟩ := h.find_isSome.1 (hsome.2 ⟨r, hr, (holds_top_iff (hfits r hr)).2 htop⟩)
    obtain ⟨hholds, hlt⟩ := (contains_iff_of_fits (hfits r' hr')).1 hc
    have := (holds_top_iff (hfits r' hr')).1 hholds
    omega
  · intro hlt addr
    obtain ⟨m', l', hm', -, -⟩ := h.findMemRegion addr
    refine ⟨_, m', hm', ?_, ?_⟩
    · rw [h.find_isSome]
      constructor
      · rintro ⟨r, hr, hc⟩
        exact ⟨r, hr, (contains_iff_holds (hlt r hr)).1 hc⟩
      · rintro ⟨r, hr, hholds⟩
        exact ⟨r, hr, (contains_iff_holds (hlt r hr)).2 hholds⟩
    · intro i hi
      obtain ⟨r, hr, hc⟩ := h.contains_of_find hi
      exact ⟨r, hr, (contains_iff_holds (hlt r (List.mem_of_getElem? hr))).1 hc⟩

/-- Two regions that overlap, looked up in both orders. -/
def overlappingCalls : List MapCall :=
  [.addRegion ⟨0x1000, 0x2000, .memSharedC⟩, .addRegion ⟨0x2000, 0x2000, .memSharedNc⟩,
    .findMemRegion 0x3800, .findMemRegion 0x2800]

theorem exact_overlappingCalls : ∃ m,
    Run.play Memmap.call overlappingCalls memmapInitialize = some m ∧
      ∀ addr, Exact (added overlappingCalls) m addr := by
  obtain ⟨m, hplay, hiff⟩ := exact_iff overlappingCalls (by decide)
  exact ⟨m, hplay, hiff.2 (by decide)⟩

/-- **A region at the top of the address space** is never found. -/
theorem not_exact_top : ∃ m,
    Run.play Memmap.call [.addRegion ⟨0xFFFFF000, 0x1000, .memSharedC⟩] memmapInitialize = some m ∧
      (⟨0xFFFFF000, 0x1000, .memSharedC⟩ : MemRegion).Fits ∧
      (⟨0xFFFFF000, 0x1000, .memSharedC⟩ : MemRegion).Holds 0xFFFFF010 ∧
      ∃ m', memmapFindMemRegion m 0xFFFFF010 = some (none, m') :=
  ⟨_, rfl, by decide, by decide, _, rfl⟩

end Hsim

end Tqsim
