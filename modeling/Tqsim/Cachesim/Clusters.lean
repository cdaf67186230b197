import Tqsim.Cachesim.Helpers.Access
import Tqsim.Common.Groups
import Tqsim.Common.Run
import Tqsim.Common.Words

/-!
# Clusters of misses

`num_miss_star` is to count misses that overlap in the reorder buffer once. A
read miss is counted when it is more than `rob_size` instructions after the
last one, counted or not, so that the count is that of the maximal runs of
read misses whose neighbours are that close. The code keeps one number of
this, the instruction of the last read miss, with `-1` for none.
-/

namespace Tqsim

namespace Cachesim

open Groups (heads heads_concat length_heads pairwise_heads)

variable {c c' : Cache} {robSize : Int32}

/-- The arguments of `cache_access`, and the random number that it draws. -/
structure CacheAccess where
  rand : ℕ
  instId : UInt64
  type : CacheAccessType
  addr : UInt32

/-- What is seen of an access: whether it hits, and whether `num_miss_star`
counts it. -/
structure Seen where
  hit : Bool
  counted : Bool

/-- `cache_access`, watched. -/
def Cache.watch (robSize : Int32) (c : Cache) (a : CacheAccess) : Option (Seen × Cache) :=
  (c.cacheAccess robSize a.rand a.instId a.type a.addr).map fun (hit, c') =>
    (⟨hit, decide (c'.numMissStar ≠ c.numMissStar)⟩, c')

/-- An access that is a read miss. -/
def Seen.IsReadMiss (s : Seen) (a : CacheAccess) : Prop := a.type = .read ∧ s.hit = false

instance Seen.decidableIsReadMiss (s : Seen) (a : CacheAccess) : Decidable (s.IsReadMiss a) :=
  inferInstanceAs (Decidable (_ ∧ _))

/-- The read misses of a run, by their instructions. -/
def readMisses (log : List (CacheAccess × Seen)) : List UInt64 :=
  (log.filter fun e => e.2.IsReadMiss e.1).map (·.1.instId)

/-- The misses that were counted. -/
def countedMisses (log : List (CacheAccess × Seen)) : List UInt64 :=
  (log.filter (·.2.counted)).map (·.1.instId)

/-- Two misses overlap. -/
def near (robSize : Int32) (i j : UInt64) : Bool := (j.toNat : ℤ) - i.toNat ≤ robSize.toInt

/-- **The clusters**: the maximal runs of misses whose neighbours overlap. -/
def clusters (robSize : Int32) (ids : List UInt64) : List (List UInt64) :=
  ids.splitBy (near robSize)

/-! ## One access -/

/-- The unsigned comparison of the source. -/
theorem gap_iff (hrob : 0 ≤ robSize) {last id : UInt64} (hle : last ≤ id) :
    id - last > robSize.toInt64.toUInt64 ↔ near robSize last id = false := by
  have hle' := UInt64.le_iff_toNat_le.1 hle
  have hwindow := Words.toNat_toUInt64 (Int32.le_iff_toInt_le.1 hrob)
  rw [gt_iff_lt, UInt64.lt_iff_toNat_lt, UInt64.toNat_sub_of_le _ _ hle, near,
    decide_eq_false_iff_not]
  omega

/-- The test of `cache_access` for a new cluster. -/
def Cache.Counts (c : Cache) (robSize : Int32) (instId : UInt64) : Prop :=
  c.lastMissInstId = -1 ∨ instId - c.lastMissInstId > robSize.toInt64.toUInt64

instance Cache.decidableCounts (c : Cache) (instId : UInt64) :
    Decidable (c.Counts robSize instId) :=
  inferInstanceAs (Decidable (_ ∨ _))

/-- **What an access does to the count**: a read miss passes the test or not,
and is the last one from then on; nothing else matters. -/
theorem watch_eq {a : CacheAccess} {s : Seen} (h : c.watch robSize a = some (s, c')) :
    if s.IsReadMiss a then
      c'.lastMissInstId = a.instId ∧ s.counted = decide (c.Counts robSize a.instId) ∧
        c'.numMissStar = c.numMissStar + if c.Counts robSize a.instId then 1 else 0
    else c'.lastMissInstId = c.lastMissInstId ∧ s.counted = false ∧
      c'.numMissStar = c.numMissStar := by
  obtain ⟨⟨hit, c₁⟩, hacc, heq⟩ := Option.map_eq_some_iff.1 h
  obtain ⟨rfl, rfl⟩ := Prod.mk.inj heq
  obtain ⟨set, rfl⟩ := cacheAccess_eq hacc
  cases hit with
  | true => simp [Seen.IsReadMiss, Cache.setSet]
  | false =>
    cases htype : a.type with
    | write => simp [Seen.IsReadMiss, htype, Cache.setSet, Cache.countMiss]
    | read =>
      by_cases hcount : c.Counts robSize a.instId
      · have hcount' : c.lastMissInstId = -1 ∨ _ := hcount
        simp [Seen.IsReadMiss, htype, Cache.setSet, Cache.countMiss, hcount', hcount]
      · have hcount' : ¬ (c.lastMissInstId = -1 ∨ _) := hcount
        simp [Seen.IsReadMiss, htype, Cache.setSet, Cache.countMiss, hcount', hcount]

/-! ## A run -/

/-- **What the counters are after a run.** -/
structure Cache.Clustered (c : Cache) (robSize : Int32) (log : List (CacheAccess × Seen)) :
    Prop where
  last : c.lastMissInstId = (readMisses log).getLast?.getD (-1)
  star : c.numMissStar = UInt64.ofNat (heads (near robSize) (readMisses log)).length
  counted : countedMisses log = heads (near robSize) (readMisses log)

theorem readMisses_concat (log : List (CacheAccess × Seen)) (a : CacheAccess) (s : Seen) :
    readMisses (log ++ [(a, s)]) =
      readMisses log ++ if s.IsReadMiss a then [a.instId] else [] := by
  rw [readMisses, readMisses, List.filter_append, List.map_append]
  congr 1
  by_cases h : s.IsReadMiss a
  · rw [if_pos h, List.filter_cons_of_pos (by simpa using h)]
    rfl
  · rw [if_neg h, List.filter_cons_of_neg (by simpa using h)]
    rfl

theorem countedMisses_concat (log : List (CacheAccess × Seen)) (a : CacheAccess) (s : Seen) :
    countedMisses (log ++ [(a, s)]) =
      countedMisses log ++ if s.counted then [a.instId] else [] := by
  rw [countedMisses, countedMisses, List.filter_append, List.map_append]
  congr 1
  cases h : s.counted <;> simp [h]

/-- **The test of the source**, on instructions in their order: no read miss
just before overlaps. -/
theorem Cache.Clustered.counts_iff {log : List (CacheAccess × Seen)} {id : UInt64}
    (h : c.Clustered robSize log) (hrob : 0 ≤ robSize)
    (hids : ∀ i ∈ readMisses log, i ≠ -1 ∧ i ≤ id) :
    c.Counts robSize id ↔ (readMisses log).getLast?.any (near robSize · id) = false := by
  rw [Cache.Counts, h.last]
  cases hlast : (readMisses log).getLast? with
  | none => simp
  | some i =>
    obtain ⟨hne, hle⟩ := hids i (List.mem_of_getLast? hlast)
    rw [Option.getD_some, Option.any_some, ← gap_iff hrob hle]
    simp [hne]

/-- **One access.** -/
theorem Cache.Clustered.watch {log : List (CacheAccess × Seen)} {a : CacheAccess} {s : Seen}
    (h : c.Clustered robSize log) (hrob : 0 ≤ robSize)
    (hids : ∀ i ∈ readMisses log, i ≠ -1 ∧ i ≤ a.instId)
    (hwatch : c.watch robSize a = some (s, c')) :
    c'.Clustered robSize (log ++ [(a, s)]) := by
  have heq := watch_eq hwatch
  have hcounts := h.counts_iff hrob hids
  have hreads := readMisses_concat log a s
  have hcount := countedMisses_concat log a s
  by_cases hmiss : s.IsReadMiss a
  · rw [if_pos hmiss] at heq hreads
    obtain ⟨hlast, hcounted, hstar⟩ := heq
    -- a cluster begins just when the test says so
    have hheads : heads (near robSize) (readMisses log ++ [a.instId]) =
        heads (near robSize) (readMisses log) ++
          if c.Counts robSize a.instId then [a.instId] else [] := by
      rw [heads_concat]
      by_cases hnew : c.Counts robSize a.instId
      · rw [hcounts.1 hnew, if_neg (by simp), if_pos hnew]
      · rw [if_pos (by simpa using hcounts.not.1 hnew), if_neg hnew, List.append_nil]
    refine ⟨?_, ?_, ?_⟩
    · rw [hlast, hreads, List.getLast?_concat, Option.getD_some]
    · rw [hreads, hheads, hstar, h.star, List.length_append, UInt64.ofNat_add]
      split_ifs <;> rfl
    · rw [hcount, hcounted, h.counted, hreads, hheads]
      simp only [decide_eq_true_eq]
  · rw [if_neg hmiss] at heq hreads
    obtain ⟨hlast, hcounted, hstar⟩ := heq
    rw [List.append_nil] at hreads
    rw [hcounted, if_neg (by simp), List.append_nil] at hcount
    refine ⟨?_, ?_, ?_⟩
    · rw [hlast, hreads, h.last]
    · rw [hstar, hreads, h.star]
    · rw [hcount, hreads, h.counted]

/-- The instructions of a run, in their order and none of them the mark for
"no miss yet". -/
structure InOrder (ids : List UInt64) : Prop where
  mono : ids.Pairwise (· ≤ ·)
  lt : ∀ i ∈ ids, i.toNat < 2 ^ 64 - 1

theorem InOrder.ne_mark {ids : List UInt64} (h : InOrder ids) {i : UInt64} (hi : i ∈ ids) :
    i ≠ -1 := by
  rintro rfl
  exact absurd (h.lt _ hi) (by decide)

theorem InOrder.sublist {ids ids' : List UInt64} (h : InOrder ids) (hsub : ids'.Sublist ids) :
    InOrder ids' :=
  ⟨h.mono.sublist hsub, fun i hi => h.lt i (hsub.subset hi)⟩

theorem readMisses_sublist (log : List (CacheAccess × Seen)) :
    (readMisses log).Sublist (log.map (·.1.instId)) :=
  List.filter_sublist.map _

/-- **Every run.** -/
theorem clustered_of_log {config : CacheConfig} {accesses : List CacheAccess}
    {log : List (CacheAccess × Seen)} (hrob : 0 ≤ robSize)
    (hids : InOrder (accesses.map (·.instId)))
    (hlog : Run.log (Cache.watch robSize) accesses (cacheInitialize config) = some (log, c)) :
    c.Clustered robSize log := by
  have hinv : ∀ (l : List (CacheAccess × Seen)) (c : Cache) (a : CacheAccess) (s : Seen)
      (c' : Cache), (InOrder (l.map (·.1.instId)) → c.Clustered robSize l) →
      c.watch robSize a = some (s, c') →
      InOrder ((l ++ [(a, s)]).map (·.1.instId)) → c'.Clustered robSize (l ++ [(a, s)]) := by
    intro l c a s c' ih hwatch hord
    rw [List.map_append] at hord
    have hbefore : InOrder (l.map (·.1.instId)) := hord.sublist (List.sublist_append_left _ _)
    refine (ih hbefore).watch hrob (fun i hi => ?_) hwatch
    have hmem := (readMisses_sublist l).subset hi
    exact ⟨hbefore.ne_mark hmem, (List.pairwise_append.1 hord.mono).2.2 i hmem _ (by simp)⟩
  have hlast := Run.log_invariant (l := []) hinv (fun _ => ⟨rfl, rfl, rfl⟩) hlog
  rw [List.nil_append] at hlast
  apply hlast
  have hfst := Run.log_fst hlog
  rwa [← hfst, List.map_map] at hids

/-- The first misses of two clusters are further apart than the window. -/
theorem heads_apart (robSize : Int32) {ids : List UInt64} (hids : InOrder ids) :
    (heads (near robSize) ids).Pairwise fun i j => (i.toNat : ℤ) + robSize.toInt < j.toNat := by
  refine pairwise_heads (S := (· ≤ ·)) (fun x => UInt64.le_refl x) ?_ hids.mono
  intro x y a hxy hfar
  have hle := UInt64.le_iff_toNat_le.1 hxy
  rw [near, decide_eq_false_iff_not] at hfar
  omega

/-- No access fails. -/
theorem Cache.Linked.watch (robSize : Int32) (a : CacheAccess) (hc : c.Linked) :
    ∃ s c', c.watch robSize a = some (s, c') ∧ c'.Linked := by
  obtain ⟨hit, c', hacc, hc'⟩ := hc.cacheAccess robSize a.rand a.instId a.type a.addr
  exact ⟨_, c', by rw [Cache.watch, hacc]; rfl, hc'⟩

/-- There are fewer clusters than instructions that can be numbered. -/
theorem length_heads_lt (hrob : 0 ≤ robSize) {ids : List UInt64} (hids : InOrder ids) :
    (heads (near robSize) ids).length < 2 ^ 64 := by
  have hnonneg : 0 ≤ robSize.toInt := Int32.le_iff_toInt_le.1 hrob
  have hnodup : ((heads (near robSize) ids).map UInt64.toNat).Nodup := by
    refine List.pairwise_map.2 ((heads_apart robSize hids).imp ?_)
    intro i j hij
    omega
  have hsub : (heads (near robSize) ids).map UInt64.toNat ⊆ List.range (2 ^ 64 - 1) := by
    intro n hn
    obtain ⟨i, hi, rfl⟩ := List.mem_map.1 hn
    exact List.mem_range.2 (hids.lt i (Groups.heads_subset _ _ hi))
  have hlen := (hnodup.subperm hsub).length_le
  rw [List.length_map, List.length_range] at hlen
  omega

/-- **`num_miss_star` counts the clusters of read misses**, for every cache and
every sequence of accesses whose instructions do not go back: what it counts
are the first misses of the clusters, and any two of them are further apart
than the window. -/
theorem numMissStar_eq_length_clusters (config : CacheConfig) (hassoc : 1 ≤ config.assoc)
    (robSize : Int32) (hrob : 0 ≤ robSize) (accesses : List CacheAccess)
    (hids : InOrder (accesses.map (·.instId))) :
    ∃ log c, Run.log (Cache.watch robSize) accesses (cacheInitialize config) = some (log, c) ∧
      c.numMissStar.toNat = (clusters robSize (readMisses log)).length ∧
      countedMisses log = (clusters robSize (readMisses log)).filterMap List.head? ∧
      (countedMisses log).Pairwise fun i j => (i.toNat : ℤ) + robSize.toInt < j.toNat := by
  obtain ⟨log, c, hlog, -⟩ := Run.log_total (fun c a => Cache.Linked.watch robSize a) accesses
    (linked_cacheInitialize hassoc)
  have h := clustered_of_log hrob hids hlog
  have hreads : InOrder (readMisses log) := by
    rw [← Run.log_fst hlog, List.map_map] at hids
    exact hids.sublist (readMisses_sublist log)
  refine ⟨log, c, hlog, ?_, h.counted, ?_⟩
  · rw [h.star, UInt64.toNat_ofNat_of_lt' (length_heads_lt hrob hreads), length_heads]
    rfl
  · rw [h.counted]
    exact heads_apart robSize hreads

/-- Reads of three blocks: the second one misses soon after the first, the
third one later. -/
def sampleAccesses : List CacheAccess :=
  [⟨0, 0, .read, 0x0000⟩, ⟨0, 10, .read, 0x1000⟩, ⟨0, 20, .write, 0x2000⟩, ⟨0, 71, .read, 0x3000⟩]

theorem numMissStar_sampleAccesses : ∃ log c,
    Run.log (Cache.watch 60) sampleAccesses (cacheInitialize ⟨4, 64, 2, .lru⟩) = some (log, c) ∧
      readMisses log = [0, 10, 71] ∧ c.numMissStar.toNat = 2 := by
  have hids : InOrder (sampleAccesses.map (·.instId)) := by
    constructor
    · decide
    · simp [sampleAccesses]
  obtain ⟨log, c, hlog, hstar, -⟩ := numMissStar_eq_length_clusters ⟨4, 64, 2, .lru⟩ (by decide) 60
    (by decide) sampleAccesses hids
  have hreads : (Run.log (Cache.watch 60) sampleAccesses (cacheInitialize ⟨4, 64, 2, .lru⟩)).map
      (fun x => readMisses x.1) = some [0, 10, 71] := by decide
  rw [hlog, Option.map_some, Option.some.injEq] at hreads
  refine ⟨log, c, hlog, hreads, ?_⟩
  rw [hstar, hreads]
  decide

end Cachesim

end Tqsim
