import Tqsim.TraceAnalyzer.Helpers.Window

/-!
# The scans towards older records

`has_dependency`, `find_regs_dependency` and `find_mems_dependency` walk the
slots from a record back to the oldest one. Within a window each of them is
a walk over the numbers of the older records, youngest first: `Waits` is
what the first one tests, and `scanOlder` what the other two compute. None
of them reads a slot outside the window.
-/

namespace Tqsim

namespace TraceAnalyzer

open Circular (slot)

variable {F : Type} {cap base a b lo n : ℕ}

/-- The `n` records from `lo` on, youngest first. -/
def older (lo : ℕ) : ℕ → List ℕ
  | 0 => []
  | n + 1 => (lo + n) :: older lo n

@[simp] theorem mem_older : a ∈ older lo n ↔ lo ≤ a ∧ a < lo + n := by
  induction n with
  | zero =>
    simp only [older, List.not_mem_nil, false_iff]
    omega
  | succ n ih =>
    rw [older, List.mem_cons, ih]
    omega

theorem older_sorted (lo n : ℕ) : (older lo n).Pairwise (· > ·) := by
  induction n with
  | zero => exact List.Pairwise.nil
  | succ n ih => exact List.Pairwise.cons (fun a ha => (mem_older.1 ha).2) ih

/-! ## Waiting -/

/-- The record waits for an older one that cannot forward yet. -/
def Waits (s : State F) (b : ℕ) : Prop :=
  ∃ a, s.pipe.oldest ≤ a ∧ a < b ∧ ¬ AcrossWrap s.rob a b ∧ s.Marked b a ∧
    canForward (s.pipe.heap a) = false

/-- The test `has_dependency` makes at one older record. -/
def blocks (s : State F) (b a : ℕ) : Bool :=
  isDependent s.rob s.depMat a b && !canForward (s.pipe.heap a)

theorem hasDependencyLoop_eq {s : State F} (hW : Window cap base s.pipe s.rob) {fuel : ℕ}
    (hfuel : n < fuel) (hn : s.pipe.oldest + n < s.pipe.next) :
    hasDependencyLoop s b fuel (slot cap base (s.pipe.oldest + n + 1)) =
      some ((older s.pipe.oldest (n + 1)).any (blocks s b)) := by
  induction n generalizing fuel with
  | zero =>
    obtain ⟨fuel, rfl⟩ := Nat.exists_eq_add_of_lt hfuel
    have hin : s.pipe.InFlight s.pipe.oldest := ⟨le_rfl, hn⟩
    have hstart := (hW.slot_eq_start hin).2 rfl
    have hget := hstart ▸ hW.robGetInst hin
    simp only [hasDependencyLoop, add_zero, hW.prevIdx (hW.cap_pos hin), hstart, hget,
      Option.bind_eq_bind, Option.bind_some, if_true]
    simp only [older, add_zero, List.any_cons, List.any_nil, Bool.or_false, blocks]
    split <;> simp_all
  | succ n ih =>
    obtain ⟨fuel, rfl⟩ := Nat.exists_eq_add_of_lt hfuel
    have hin : s.pipe.InFlight (s.pipe.oldest + (n + 1)) := ⟨by omega, hn⟩
    have hne : slot cap base (s.pipe.oldest + (n + 1)) ≠ s.rob.startIdx := by
      rw [Ne, hW.slot_eq_start hin]
      omega
    rw [hasDependencyLoop]
    simp only [hW.prevIdx (hW.cap_pos hin), hW.robGetInst hin,
      Option.bind_eq_bind, Option.bind_some, if_neg hne]
    have hrec : hasDependencyLoop s b (n + 1 + fuel) _ = _ := ih (by omega) (by omega)
    rw [← add_assoc, hrec]
    simp only [older, List.any_cons, blocks, Nat.add_assoc]
    split <;> simp [*]

/-- **`has_dependency` never leaves the window**, and tells whether the record
waits. -/
theorem hasDependency_spec {s : State F} (hW : Window cap base s.pipe s.rob)
    (hb : s.pipe.InFlight b) : ∃ w, hasDependency s b = some w ∧ (w = true ↔ Waits s b) := by
  have hle := hb.1
  have hlt := hW.lt_cap hb
  rw [hasDependency, hW.idx b hb]
  by_cases h0 : b = s.pipe.oldest
  · rw [if_pos ((hW.slot_eq_start hb).2 h0)]
    refine ⟨false, rfl, by simp, ?_⟩
    rintro ⟨a, ha, hab, -⟩
    omega
  · have hnext := hb.2
    obtain ⟨n, rfl⟩ : ∃ n, b = s.pipe.oldest + n + 1 := ⟨b - s.pipe.oldest - 1, by omega⟩
    rw [if_neg (fun h => h0 ((hW.slot_eq_start hb).1 h)),
      hasDependencyLoop_eq hW (by rw [hW.capacity]; omega) (by omega)]
    refine ⟨_, rfl, ?_⟩
    simp only [List.any_eq_true, mem_older, blocks, Bool.and_eq_true, Bool.not_eq_true']
    constructor
    · rintro ⟨a, ⟨ha, hab⟩, hdep, hfwd⟩
      rw [hW.isDependent_eq s.depMat ⟨ha, by omega⟩ hb (by omega)] at hdep
      simp only [Bool.and_eq_true, decide_eq_true_eq] at hdep
      exact ⟨a, ha, by omega, hdep.1, hdep.2, hfwd⟩
    · rintro ⟨a, ha, hab, hacross, hdep, hfwd⟩
      refine ⟨a, ⟨ha, by omega⟩, ?_, hfwd⟩
      rw [hW.isDependent_eq s.depMat ⟨ha, by omega⟩ hb (by omega)]
      simp only [State.Marked] at hdep
      simp [hacross, hdep]

/-- The oldest record never waits. -/
theorem not_waits_oldest (s : State F) : ¬ Waits s s.pipe.oldest := by
  rintro ⟨a, ha, hab, -⟩
  omega

/-! ## Finding the dependences of a new record -/

section Scan

variable {α : Type} [DecidableEq α]

/-- The scan over older records: the entries left, and the records that were
marked. -/
def scanOlder (K : ScanKind α) (heap : ℕ → Inst) : List ℕ → ℤ → List α → List α × List ℕ
  | [], _, xs => (xs, [])
  | a :: rest, count, xs =>
    if count = 0 then (xs, [])
    else
      let (xs, count, marked) := matchEntries K.same K.done (K.targets (heap a)) xs (count, false)
      let (ys, marks) := scanOlder K heap rest count xs
      (ys, if marked then a :: marks else marks)

/-- Setting a list of dependences of one record. -/
def markAll (rob : ROB) (b : ℕ) (marks : List ℕ) (d : DepMat) : DepMat :=
  marks.foldl (fun d a => setDependency rob d a b) d

/-- The entries of a record are a field of it. -/
structure ScanKind.Lawful (K : ScanKind α) : Prop where
  get_set : ∀ inst xs, K.sources (K.setSources inst xs) = xs
  set_get : ∀ inst, K.setSources inst (K.sources inst) = inst
  set_set : ∀ inst xs ys, K.setSources (K.setSources inst xs) ys = K.setSources inst ys

theorem regsScan_lawful : regsScan.Lawful where
  get_set _ _ := rfl
  set_get _ := rfl
  set_set _ _ _ := rfl

theorem memsScan_lawful : memsScan.Lawful where
  get_set _ _ := rfl
  set_get _ := rfl
  set_set _ _ _ := rfl

/-- The scan reads the older records only. -/
theorem scanOlder_congr (K : ScanKind α) {heap heap' : ℕ → Inst} {as : List ℕ}
    (h : ∀ a ∈ as, heap a = heap' a) (count : ℤ) (xs : List α) :
    scanOlder K heap as count xs = scanOlder K heap' as count xs := by
  induction as generalizing count xs with
  | nil => rfl
  | cons a as ih =>
    simp only [scanOlder, h a (List.mem_cons_self ..),
      ih fun c hc => h c (List.mem_cons_of_mem _ hc)]

/-- The state after a scan, in one piece. -/
def scanned (K : ScanKind α) (s : State F) (b : ℕ) (result : List α × List ℕ) : State F :=
  { s with
    pipe := s.pipe.setInst b (K.setSources (s.pipe.heap b) result.1)
    depMat := markAll s.rob b result.2 s.depMat }

omit [DecidableEq α] in
theorem scanned_nil {K : ScanKind α} (hK : K.Lawful) (s : State F) (b : ℕ) :
    scanned K s b (K.sources (s.pipe.heap b), []) = s := by
  simp [scanned, hK.set_get, Pipe.setInst, markAll]

variable {s : State F} {K : ScanKind α}

theorem findLoop_eq (hK : K.Lawful) (hW : Window cap base s.pipe s.rob) (hb : s.pipe.InFlight b)
    {fuel : ℕ} (hfuel : n < fuel) (hn : s.pipe.oldest + n < b) (count : ℤ) :
    findLoop K b fuel (slot cap base (s.pipe.oldest + n + 1)) count s =
      some (scanned K s b (scanOlder K s.pipe.heap (older s.pipe.oldest (n + 1)) count
        (K.sources (s.pipe.heap b)))) := by
  induction n generalizing fuel count s with
  | zero =>
    obtain ⟨fuel, rfl⟩ := Nat.exists_eq_add_of_lt hfuel
    have hin : s.pipe.InFlight s.pipe.oldest := ⟨le_rfl, by have := hb.2; omega⟩
    have hstart := (hW.slot_eq_start hin).2 rfl
    have hget := hstart ▸ hW.robGetInst hin
    simp only [findLoop, older, scanOlder, add_zero]
    split
    · rw [scanned_nil hK]
    · simp only [hW.prevIdx (hW.cap_pos hin), hstart, hget, hW.deref hb,
        Option.bind_eq_bind, Option.bind_some, if_true]
      simp only [scanned, markAll]
      split <;> rfl
  | succ n ih =>
    obtain ⟨fuel, rfl⟩ := Nat.exists_eq_add_of_lt hfuel
    have hin : s.pipe.InFlight (s.pipe.oldest + (n + 1)) := ⟨by omega, by have := hb.2; omega⟩
    have hne : slot cap base (s.pipe.oldest + (n + 1)) ≠ s.rob.startIdx := by
      rw [Ne, hW.slot_eq_start hin]
      omega
    rw [findLoop, older, scanOlder]
    split
    · rw [scanned_nil hK]
    · simp only [hW.prevIdx (hW.cap_pos hin), hW.robGetInst hin, hW.deref hb,
        Option.bind_eq_bind, Option.bind_some, if_neg hne]
      generalize hm : matchEntries K.same K.done (K.targets (s.pipe.heap (s.pipe.oldest + (n + 1))))
        (K.sources (s.pipe.heap b)) (count, false) = m
      obtain ⟨xs, count', marked⟩ := m
      -- the state after the first older record, from which the induction hypothesis goes on
      set t : State F := { s with
        pipe := s.pipe.setInst b (K.setSources (s.pipe.heap b) xs)
        depMat := if marked then setDependency s.rob s.depMat (s.pipe.oldest + (n + 1)) b
          else s.depMat } with ht
      have htW : Window cap base t.pipe t.rob := hW.congr rfl rfl rfl
      have hrec : findLoop K b (n + 1 + fuel) _ count' t = _ :=
        ih htW hb (by omega) (by show s.pipe.oldest + n < b; omega) count'
      have hsrc : K.sources (t.pipe.heap b) = xs := by
        simp [ht, Pipe.setInst, hK.get_set]
      have hscan : scanOlder K t.pipe.heap (older s.pipe.oldest (n + 1)) count' xs =
          scanOlder K s.pipe.heap (older s.pipe.oldest (n + 1)) count' xs := by
        refine scanOlder_congr K (fun a ha => ?_) count' xs
        have hab : a ≠ b := by rw [mem_older] at ha; omega
        simp only [ht, Pipe.setInst, Function.update_of_ne hab]
      have hold : t.pipe.oldest = s.pipe.oldest := rfl
      rw [hold, hsrc, hscan] at hrec
      rw [show s.pipe.oldest + (n + 1) = s.pipe.oldest + n + 1 from rfl, hrec]
      simp only [scanned, ht, Pipe.setInst, Function.update_self, hK.set_set, Function.update_idem]
      cases marked <;> rfl

/-- **Either dependency search never leaves the window**, and computes the
scan over the records in flight before the new one. -/
theorem findDependency_eq (hK : K.Lawful) (hW : Window cap base s.pipe s.rob)
    (hb : s.pipe.InFlight b) :
    findDependency K s b = some (scanned K s b
      (scanOlder K s.pipe.heap (older s.pipe.oldest (b - s.pipe.oldest))
        (K.sources (s.pipe.heap b)).length (K.sources (s.pipe.heap b)))) := by
  have hle := hb.1
  have hlt := hW.lt_cap hb
  rw [findDependency, hW.idx b hb]
  by_cases h0 : b = s.pipe.oldest
  · rw [if_pos ((hW.slot_eq_start hb).2 h0), h0, Nat.sub_self]
    exact congrArg some (scanned_nil hK s s.pipe.oldest).symm
  · obtain ⟨n, rfl⟩ : ∃ n, b = s.pipe.oldest + n + 1 := ⟨b - s.pipe.oldest - 1, by omega⟩
    rw [if_neg (fun h => h0 ((hW.slot_eq_start hb).1 h)),
      findLoop_eq hK hW hb (by rw [hW.capacity]; omega) (by omega),
      show s.pipe.oldest + n + 1 - s.pipe.oldest = n + 1 by omega]

/-- Every record the scan marks is one it visits. -/
theorem scanOlder_marks_subset {heap : ℕ → Inst} {as : List ℕ} {count : ℤ} {xs : List α} :
    ∀ a ∈ (scanOlder K heap as count xs).2, a ∈ as := by
  induction as generalizing count xs with
  | nil => simp [scanOlder]
  | cons c as ih =>
    intro a ha
    simp only [scanOlder] at ha
    split at ha
    · cases ha
    · simp only at ha
      split at ha
      · rcases List.mem_cons.1 ha with rfl | ha
        · exact List.mem_cons_self ..
        · exact List.mem_cons_of_mem _ (ih a ha)
      · exact List.mem_cons_of_mem _ (ih a ha)

end Scan

/-- A cell of the matrix after a list of dependences was set. -/
theorem markAll_apply (rob : ROB) (b : ℕ) (marks : List ℕ) (d : DepMat) (x y : ℕ) :
    markAll rob b marks d x y = true ↔
      d x y = true ∨ (x = rob.robIdx b ∧ ∃ a ∈ marks, rob.robIdx a = y) := by
  induction marks generalizing d with
  | nil => simp [markAll]
  | cons a marks ih =>
    rw [markAll, List.foldl_cons]
    refine (ih _).trans ?_
    by_cases hx : x = rob.robIdx b
    · subst hx
      by_cases hy : y = rob.robIdx a
      · subst hy
        simp [setDependency]
      · simp [setDependency, Function.update_of_ne hy, Ne.symm hy]
    · simp [setDependency, hx]

end TraceAnalyzer

end Tqsim
