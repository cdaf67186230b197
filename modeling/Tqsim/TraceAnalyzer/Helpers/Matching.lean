import Tqsim.TraceAnalyzer.Helpers.Scan

/-!
# What a search finds

Both dependency searches look for the entries of a new record among those of
the older ones, youngest first, and take an entry out as soon as it is
found. What they mark are therefore the youngest holders of an entry
(`scanOlder_sound`), and they mark all of them (`scanOlder_complete`) as long
as the count of entries to be found does not run out too early. A finished
entry is compared again with the rest of the record it was found in, so that
the mark of a finished entry among the targets is counted as another find.
-/

namespace Tqsim

namespace TraceAnalyzer

variable {α : Type} {K : ScanKind α} {x : α} {xs ys : List α} {a c : ℕ}
variable {heap : ℕ → Inst} {as : List ℕ} {count : ℤ}

/-- The comparison of a search is equality. -/
def ScanKind.Exact (K : ScanKind α) : Prop := ∀ x y, K.same x y = true ↔ x = y

theorem regsScan_exact : regsScan.Exact := fun _ _ => beq_iff_eq

theorem memsScan_exact : memsScan.Exact := fun x y => by
  have hmask : ∀ z : UInt32, z &&& ~~~0 = z := fun z => by simp
  simp only [memsScan, hmask, beq_iff_eq]

/-! ## One older record -/

theorem matchEntry_of_notMem (hK : K.Exact) (h : x ∉ ys) (count : ℤ) (marked : Bool) :
    matchEntry K.same K.done ys (x, count, marked) = (x, count, marked) := by
  induction ys with
  | nil => rfl
  | cons y ys ih =>
    obtain ⟨hne, hys⟩ := not_or.1 (mt List.mem_cons.2 h)
    rw [matchEntry, if_neg (mt (hK x y).1 hne), ih hys]

/-- A finished entry stays finished. -/
theorem matchEntry_done (K : ScanKind α) (ys : List α) (count : ℤ) :
    ∃ count', matchEntry K.same K.done ys (K.done, count, true) = (K.done, count', true) := by
  induction ys generalizing count with
  | nil => exact ⟨count, rfl⟩
  | cons y ys ih =>
    rw [matchEntry]
    split
    · exact ih _
    · exact ih _

/-- An entry that is found is finished, and counted once unless a target after
it is the mark of a finished entry. -/
theorem matchEntry_of_mem (hK : K.Exact) (h : x ∈ ys) (count : ℤ) (marked : Bool) :
    ∃ count', matchEntry K.same K.done ys (x, count, marked) = (K.done, count', true) ∧
      (K.done ∉ ys.tail → count' = count - 1) := by
  induction ys with
  | nil => cases h
  | cons y ys ih =>
    rw [matchEntry]
    by_cases hxy : x = y
    · rw [if_pos ((hK x y).2 hxy)]
      obtain ⟨count', hc⟩ := matchEntry_done K ys (count - 1)
      refine ⟨count', hc, fun hdone => ?_⟩
      rw [List.tail_cons] at hdone
      rw [matchEntry_of_notMem hK hdone] at hc
      exact (congrArg (fun z => z.2.1) hc).symm
    · rw [if_neg (mt (hK x y).1 hxy)]
      obtain ⟨count', hc, hcount⟩ := ih ((List.mem_cons.1 h).resolve_left hxy)
      exact ⟨count', hc, fun hdone => hcount fun hm => hdone (List.mem_of_mem_tail hm)⟩

variable [DecidableEq α]

/-- The entries left after the comparison with one older record. -/
def leftOver (done : α) (ys xs : List α) : List α :=
  xs.map fun x => if x ∈ ys then done else x

theorem mem_of_mem_leftOver {done : α} (h : x ∈ leftOver done ys xs) (hne : x ≠ done) :
    x ∈ xs ∧ x ∉ ys := by
  obtain ⟨z, hz, rfl⟩ := List.mem_map.1 h
  split at hne
  · exact absurd rfl hne
  next hy => simpa only [if_neg hy] using ⟨hz, hy⟩

theorem mem_leftOver {done : α} (h : x ∈ xs) (hy : x ∉ ys) : x ∈ leftOver done ys xs :=
  List.mem_map.2 ⟨x, h, if_neg hy⟩

/-- The entries to be found. -/
def wanted (done : α) (xs : List α) : ℕ := xs.countP (· ≠ done)

/-- **All entries against one older record**: what is found is finished, and
the count falls by as much as the number of entries to be found, unless a
target after the first is the mark of a finished entry. -/
theorem matchEntries_eq (hK : K.Exact) (ys xs : List α) (count : ℤ) (marked : Bool) :
    ∃ count', matchEntries K.same K.done ys xs (count, marked) =
        (leftOver K.done ys xs, count', marked || xs.any fun x => x ≠ K.done ∧ x ∈ ys) ∧
      (((∃ x ∈ xs, x ≠ K.done ∧ x ∈ ys) → K.done ∉ ys.tail) →
        count' - wanted K.done (leftOver K.done ys xs) = count - wanted K.done xs) := by
  induction xs generalizing count marked with
  | nil => exact ⟨count, by simp [matchEntries, leftOver], fun _ => rfl⟩
  | cons x xs ih =>
    rw [matchEntries]
    by_cases hx : x = K.done
    · obtain ⟨count', hm, hc⟩ := ih count marked
      refine ⟨count', ?_, fun hdone => ?_⟩
      · simp [hx, hm, leftOver]
      · have := hc fun ⟨z, hz, h⟩ => hdone ⟨z, List.mem_cons_of_mem _ hz, h⟩
        simpa [wanted, leftOver, hx] using this
    · rw [if_neg hx]
      by_cases hy : x ∈ ys
      · obtain ⟨c₁, hm₁, hc₁⟩ := matchEntry_of_mem hK hy count marked
        obtain ⟨count', hm, hc⟩ := ih c₁ true
        refine ⟨count', ?_, fun hdone => ?_⟩
        · simp [hm₁, hm, leftOver, hx, hy]
        · have h₁ := hc₁ (hdone ⟨x, List.mem_cons_self .., hx, hy⟩)
          have := hc fun ⟨z, hz, h⟩ => hdone ⟨z, List.mem_cons_of_mem _ hz, h⟩
          simp only [wanted, leftOver, List.map_cons, hy, if_true, List.countP_cons, ne_eq,
            not_true_eq_false, decide_false, Bool.false_eq_true, if_false, hx, not_false_eq_true,
            decide_true] at this ⊢
          push_cast
          omega
      · obtain ⟨count', hm, hc⟩ := ih count marked
        refine ⟨count', ?_, fun hdone => ?_⟩
        · simp [matchEntry_of_notMem hK hy, hm, leftOver, hy]
        · have := hc fun ⟨z, hz, h⟩ => hdone ⟨z, List.mem_cons_of_mem _ hz, h⟩
          simp only [wanted, leftOver, List.map_cons, hy, if_false, List.countP_cons, ne_eq, hx,
            not_false_eq_true, decide_true, if_true] at this ⊢
          push_cast
          omega

/-! ## All older records -/

/-- One turn of the scan. -/
theorem scanOlder_cons (hK : K.Exact) (heap : ℕ → Inst) (a : ℕ) (as : List ℕ) (hcount : count ≠ 0)
    (xs : List α) :
    ∃ count', scanOlder K heap (a :: as) count xs =
        ((scanOlder K heap as count' (leftOver K.done (K.targets (heap a)) xs)).1,
          if xs.any fun x => x ≠ K.done ∧ x ∈ K.targets (heap a) then
            a :: (scanOlder K heap as count' (leftOver K.done (K.targets (heap a)) xs)).2
          else (scanOlder K heap as count' (leftOver K.done (K.targets (heap a)) xs)).2) ∧
      (((∃ x ∈ xs, x ≠ K.done ∧ x ∈ K.targets (heap a)) → K.done ∉ (K.targets (heap a)).tail) →
        count' - wanted K.done (leftOver K.done (K.targets (heap a)) xs) =
          count - wanted K.done xs) := by
  obtain ⟨count', hm, hc⟩ := matchEntries_eq hK (K.targets (heap a)) xs count false
  refine ⟨count', ?_, hc⟩
  rw [scanOlder, if_neg hcount]
  simp only [hm, Bool.false_or]

/-- The entries a search leaves are entries of the record. -/
theorem scanOlder_entries (hK : K.Exact) (hx : x ∈ (scanOlder K heap as count xs).1)
    (hne : x ≠ K.done) : x ∈ xs := by
  induction as generalizing count xs with
  | nil => exact hx
  | cons a as ih =>
    by_cases hcount : count = 0
    · rw [scanOlder, if_pos hcount] at hx
      exact hx
    · obtain ⟨count', hs, -⟩ := scanOlder_cons hK heap a as hcount xs
      rw [hs] at hx
      exact (mem_of_mem_leftOver (ih hx) hne).1

/-- **A search marks youngest holders only.** -/
theorem scanOlder_sound (hK : K.Exact) (hsorted : as.Pairwise (· > ·))
    (hc : c ∈ (scanOlder K heap as count xs).2) :
    ∃ x ∈ xs, x ≠ K.done ∧ x ∈ K.targets (heap c) ∧
      ∀ a ∈ as, c < a → x ∉ K.targets (heap a) := by
  induction as generalizing count xs with
  | nil => cases hc
  | cons a as ih =>
    obtain ⟨hnewer, hsorted⟩ := List.pairwise_cons.1 hsorted
    by_cases hcount : count = 0
    · rw [scanOlder, if_pos hcount] at hc
      cases hc
    · obtain ⟨count', hs, -⟩ := scanOlder_cons hK heap a as hcount xs
      rw [hs] at hc
      have hrest : c ∈ (scanOlder K heap as count' (leftOver K.done (K.targets (heap a)) xs)).2 →
          ∃ x ∈ xs, x ≠ K.done ∧ x ∈ K.targets (heap c) ∧
            ∀ b ∈ a :: as, c < b → x ∉ K.targets (heap b) := by
        intro hmem
        obtain ⟨x, hx, hne, hxc, hlast⟩ := ih hsorted hmem
        obtain ⟨hxs, hxa⟩ := mem_of_mem_leftOver hx hne
        refine ⟨x, hxs, hne, hxc, fun b hb hcb => ?_⟩
        rcases List.mem_cons.1 hb with rfl | hb
        · exact hxa
        · exact hlast b hb hcb
      simp only at hc
      split at hc
      next hany =>
        rcases List.mem_cons.1 hc with rfl | hc
        · simp only [List.any_eq_true, decide_eq_true_eq] at hany
          obtain ⟨x, hx, hne, hxa⟩ := hany
          refine ⟨x, hx, hne, hxa, fun b hb hcb => ?_⟩
          rcases List.mem_cons.1 hb with rfl | hb
          · exact absurd hcb (Nat.lt_irrefl _)
          · exact absurd hcb (Nat.not_lt.2 (Nat.le_of_lt (hnewer b hb)))
        · exact hrest hc
      next => exact hrest hc

/-- **A search marks the youngest holder of an entry**, if no younger record
shares an entry with the new one and has the mark of a finished entry among
its targets. -/
theorem scanOlder_complete (hK : K.Exact) (hsorted : as.Pairwise (· > ·))
    (hcount : wanted K.done xs ≤ count) (hx : x ∈ xs) (hne : x ≠ K.done) (hc : c ∈ as)
    (hholds : x ∈ K.targets (heap c)) (hlast : ∀ a ∈ as, c < a → x ∉ K.targets (heap a))
    (hclean : ∀ a ∈ as, c < a → (∃ y ∈ xs, y ≠ K.done ∧ y ∈ K.targets (heap a)) →
      K.done ∉ (K.targets (heap a)).tail) :
    c ∈ (scanOlder K heap as count xs).2 := by
  induction as generalizing count xs with
  | nil => cases hc
  | cons a as ih =>
    have hpos : 0 < wanted K.done xs := List.countP_pos_iff.2 ⟨x, hx, by simpa using hne⟩
    obtain ⟨count', hs, hcnt⟩ := scanOlder_cons hK heap a as (show count ≠ 0 by omega) xs
    rw [hs]
    by_cases hac : a = c
    · subst hac
      have hany : (xs.any fun z => decide (z ≠ K.done ∧ z ∈ K.targets (heap a))) = true := by
        simp only [List.any_eq_true, decide_eq_true_eq]
        exact ⟨x, hx, hne, hholds⟩
      simp only [hany, if_true]
      exact List.mem_cons_self ..
    · have hmem : c ∈ as := (List.mem_cons.1 hc).resolve_left (Ne.symm hac)
      obtain ⟨hnewer, hsorted⟩ := List.pairwise_cons.1 hsorted
      have hca := hnewer c hmem
      have hfall := hcnt (hclean a (List.mem_cons_self ..) hca)
      have hrec := ih hsorted (show wanted K.done _ ≤ count' by omega)
        (mem_leftOver hx (hlast a (List.mem_cons_self ..) hca)) hmem
        (fun b hb => hlast b (List.mem_cons_of_mem _ hb))
        (fun b hb hcb ⟨y, hy, hyne, hyb⟩ => hclean b (List.mem_cons_of_mem _ hb) hcb
          ⟨y, (mem_of_mem_leftOver hy hyne).1, hyne, hyb⟩)
      simp only
      split
      · exact List.mem_cons_of_mem _ hrec
      · exact hrec

theorem wanted_le_length (done : α) (xs : List α) : (wanted done xs : ℤ) ≤ xs.length :=
  Int.ofNat_le.2 List.countP_le_length

end TraceAnalyzer

end Tqsim
