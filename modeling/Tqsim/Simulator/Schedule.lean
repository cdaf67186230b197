import Tqsim.Bpredsim.Training
import Tqsim.Sampling.Schedule
import Tqsim.Sampling.Wrapup
import Tqsim.Simulator.Model.Machine

/-!
# What the schedule decides

When the analysis thread gets its turns is up to the operating system. It
decides nothing: after the same number of turns of the guest thread the
simulator has executed the same calls and counted the same, and at the exit
of the program it prints the same cycles.
-/

namespace Tqsim

namespace Simulator

open TraceAnalyzer (Env State)
open Sampling (Sampler Reachable threadStep_setWork)
open Interleave (Independent choices)
open Run (play iterate)

variable {F : Type} {E : Env F} {cfg : SampleConfig} {s t u : Machine F} {an : State F}
variable {perf : Perfmodel F}

/-- A turn of the analysis thread. -/
def Turn.isAnalysis : Turn → Bool
  | .guest => false
  | .analysis => true

theorem Turn.eq_guest {k : Turn} (h : k.isAnalysis = false) : k = .guest := by
  cases k with
  | guest => rfl
  | analysis => cases h

namespace Machine

/-- What the guest thread has of the simulator. -/
def guestView (s : Machine F) :
    List HelperCall × Sampling.Loc × ℕ × List Sampling.Event × Guest.Core F :=
  (s.program, s.sampler.loc, s.sampler.numThread, s.sampler.log, s.toCore)

/-- The guest thread does nothing on behalf of the other. -/
theorem guestMove_not_analysis {m : Sampling.Move}
    {r : List HelperCall × Bpredsim.Bpred × Cachesim.Hierarchy}
    (h : s.guestMove E cfg = some (m, r)) : m.isAnalysis = false := by
  unfold guestMove at h
  split at h
  · split at h
    · cases h
      rfl
    · obtain ⟨a, -, ha⟩ := Option.map_eq_some_iff.1 h
      cases ha
      rfl
  · cases h
    rfl

/-- **A turn is a move of the sampler.** -/
theorem move_of_turn {k : Turn} (h : s.turn E cfg k = some t) :
    ∃ m, s.sampler.move E cfg m = some t.sampler := by
  cases k with
  | guest =>
    obtain ⟨⟨m, program, bpred, cachesim⟩, -, h⟩ := Option.bind_eq_some_iff.1 h
    obtain ⟨r, hr, rfl⟩ := Option.map_eq_some_iff.1 h
    exact ⟨m, hr⟩
  | analysis =>
    obtain ⟨r, hr, rfl⟩ := Option.map_eq_some_iff.1 h
    exact ⟨.analysis, hr⟩

/-- **What a turn of the guest thread is**: the next call of the program, the
exit after the last one, or a statement of the call under way. -/
inductive GuestTurn (E : Env F) (cfg : SampleConfig) (s : Machine F) : Machine F → Prop
  | call {c program call bpred cachesim sampler} (hloc : s.sampler.loc = .ready)
      (hprogram : s.program = c :: program)
      (hask : ask E cfg s.toCore c = some (call, bpred, cachesim))
      (hcall : s.sampler.call call = some sampler) :
      GuestTurn E cfg s ⟨program, sampler, bpred, cachesim⟩
  | exit (hloc : s.sampler.loc = .ready) (hprogram : s.program = []) :
      GuestTurn E cfg s ⟨[], { s.sampler with loc := .wrapup s.toCore.counters }, s.bpred,
        s.cachesim⟩
  | block {sampler} (hloc : s.sampler.loc ≠ .ready) (hblock : s.sampler.block E cfg = some sampler) :
      GuestTurn E cfg s { s with sampler := sampler }

theorem guestTurn_iff : s.guestTurn E cfg = some t ↔ GuestTurn E cfg s t := by
  constructor
  · intro h
    obtain ⟨⟨m, program, bpred, cachesim⟩, hm, h⟩ := Option.bind_eq_some_iff.1 h
    obtain ⟨q, hq, rfl⟩ := Option.map_eq_some_iff.1 h
    unfold guestMove at hm
    split at hm
    next hloc =>
      split at hm
      next hprogram =>
        cases hm
        simp only [Sampler.move, hloc] at hq
        obtain rfl := Option.some.inj hq
        exact .exit hloc hprogram
      next c program hprogram =>
        obtain ⟨⟨call, b, ca⟩, hask, hm⟩ := Option.map_eq_some_iff.1 hm
        cases hm
        simp only [Sampler.move, hloc] at hq
        exact .call hloc hprogram hask hq
    next hloc =>
      cases hm
      exact .block hloc hq
  · intro h
    cases h with
    | call hloc hprogram hask hcall =>
      simp only [guestTurn, guestMove, hloc, hprogram, hask, Option.map_some, Option.bind_some,
        Sampler.move, hcall]
    | exit hloc hprogram =>
      simp only [guestTurn, guestMove, hloc, hprogram, Option.map_some, Option.bind_some,
        Sampler.move]
    | block hloc hblock =>
      have hmove : s.guestMove E cfg = some (.guest, s.program, s.bpred, s.cachesim) := by
        unfold guestMove
        split
        next hready => exact absurd hready hloc
        next => rfl
      simp only [guestTurn, hmove, Option.bind_some, Sampler.move, hblock, Option.map_some]

/-- The analysis thread leaves alone what the guest thread has. -/
theorem guestView_analysisTurn (h : s.analysisTurn E = some t) : t.guestView = s.guestView := by
  obtain ⟨r, hr, rfl⟩ := Option.map_eq_some_iff.1 h
  rw [(threadStep_setWork rfl hr).1]
  rfl

end Machine

/-- **The two threads do not disturb each other.** -/
theorem independent (E : Env F) (cfg : SampleConfig) (an : State F) (perf : Perfmodel F) :
    Independent (Machine.turn E cfg) Turn.isAnalysis (Machine.analysisTurn E)
      (fun s => Reachable E cfg an perf s.sampler) where
  move_work s k hk := by
    cases k with
    | guest => cases hk
    | analysis => rfl
  closed s k t hs ht := by
    obtain ⟨m, hm⟩ := Machine.move_of_turn ht
    exact hs.move hm
  commute s k t u hs hk ht hu := by
    obtain rfl := Turn.eq_guest hk
    obtain ⟨⟨m, program, bpred, cachesim⟩, hmove, ht⟩ := Option.bind_eq_some_iff.1 ht
    obtain ⟨q, hq, rfl⟩ := Option.map_eq_some_iff.1 ht
    obtain ⟨r, hr, rfl⟩ := Option.map_eq_some_iff.1 hu
    have hm := Machine.guestMove_not_analysis hmove
    obtain ⟨v, hv, hrv⟩ := (Sampling.independent E cfg an perf).commute s.sampler m q r hs hm hq hr
    -- the guest asks the same, whatever the other thread has done
    have hsame : Machine.guestMove E cfg { s with sampler := r } = s.guestMove E cfg := by
      rw [(threadStep_setWork rfl hr).1]
      rfl
    refine ⟨⟨program, v, bpred, cachesim⟩, ?_, ?_⟩
    · simp only [Machine.analysisTurn, hv, Option.map_some]
    · simp only [Machine.turn, Machine.guestTurn, hsame, hmove, Option.bind_some, hrv,
        Option.map_some]

/-- The simulator on a program, from before its first call. -/
structure Setup (F : Type) where
  E : Env F
  cfg : SampleConfig
  program : List HelperCall
  analyzer : State F
  perfmodel : Perfmodel F
  bpred : Bpredsim.Bpred
  cachesim : Cachesim.Hierarchy

namespace Setup

variable (S : Setup F)

def start : Machine F :=
  Machine.initial S.program S.analyzer S.perfmodel S.bpred S.cachesim

/-- The simulator after the turns of a schedule. -/
def after (turns : List Turn) : Option (Machine F) := play (Machine.turn S.E S.cfg) turns S.start

variable {S} {x y : List Turn}

theorem reachable_start : Reachable S.E S.cfg S.analyzer S.perfmodel S.start.sampler :=
  ⟨[], rfl⟩

theorem length_choices (turns : List Turn) :
    (choices Turn.isAnalysis turns).length = turns.count .guest := by
  rw [choices, ← List.countP_eq_length_filter, List.count_eq_countP]
  congr 1
  funext k
  cases k <;> rfl

/-- The choices of the guest thread are those of how often it has its turn. -/
theorem choices_eq (hcount : x.count .guest = y.count .guest) :
    choices Turn.isAnalysis x = choices Turn.isAnalysis y := by
  rw [Independent.choices_eq_replicate (fun _ => Turn.eq_guest) x,
    Independent.choices_eq_replicate (fun _ => Turn.eq_guest) y, length_choices, length_choices,
    hcount]

/-- **What the guest thread has** after two schedules in which it has had the
same number of turns. -/
theorem guestView_eq (ht : S.after x = some t) (hu : S.after y = some u)
    (hcount : x.count .guest = y.count .guest) : t.guestView = u.guestView :=
  (independent S.E S.cfg S.analyzer S.perfmodel).view_eq
    (fun _ _ => Machine.guestView_analysisTurn) S.reachable_start ht hu (choices_eq hcount)

/-- At its exit the guest thread has no turn left. -/
theorem guestTurn_exited (E : Env F) (cfg : SampleConfig) (hloc : s.sampler.loc = .exited) :
    s.guestTurn E cfg = none := by
  simp only [Machine.guestTurn, Machine.guestMove, hloc, Option.bind_some, Sampler.move,
    Sampler.block, Option.map_none]

theorem guest_notMem_of_exited (hloc : s.sampler.loc = .exited)
    (hx : play (Machine.turn E cfg) x s = some t) : Turn.guest ∉ x := by
  induction x generalizing s with
  | nil => exact List.not_mem_nil
  | cons k x ih =>
    obtain ⟨v, hv, hrest⟩ := Option.bind_eq_some_iff.1 hx
    cases k with
    | guest => exact absurd (hv.symm.trans (guestTurn_exited E cfg hloc)) (by simp)
    | analysis =>
      have hview := congrArg (·.2.1) (Machine.guestView_analysisTurn hv)
      simpa using ih (hview.trans hloc) hrest

/-- A schedule that reaches the exit has no fewer turns of the guest thread
than any other. -/
theorem count_le_of_exited (ht : S.after x = some t) (hloc : t.sampler.loc = .exited)
    (hu : S.after y = some u) : y.count .guest ≤ x.count .guest := by
  by_contra hlt
  have hle : (choices Turn.isAnalysis x).length ≤ (choices Turn.isAnalysis y).length := by
    rw [length_choices, length_choices]
    omega
  obtain ⟨z, n, v, hz, -, hrest, -⟩ :=
    (independent S.E S.cfg S.analyzer S.perfmodel).merge S.reachable_start hu ht
      (Independent.choices_le (fun _ => Turn.eq_guest) hle)
  -- the other schedule would go on with turns of the guest thread
  have hmem : Turn.guest ∈ choices Turn.isAnalysis z := by
    rw [hrest, length_choices, length_choices]
    exact List.mem_replicate.2 ⟨by omega, rfl⟩
  exact guest_notMem_of_exited hloc hz (List.mem_filter.1 hmem).1

/-- **The threads may be scheduled in any way.** After the same number of
turns of the guest thread it has made the same calls, and the predictor, the
caches, the counters and the rates are the same; the two states differ by
turns of the analysis thread only. -/
theorem schedule_independent (S : Setup F) {x y : List Turn} {t u : Machine F}
    (ht : S.after x = some t) (hu : S.after y = some u)
    (hcount : x.count .guest = y.count .guest) :
    t.program = u.program ∧ t.sampler.loc = u.sampler.loc ∧ t.sampler.log = u.sampler.log ∧
      t.toCore = u.toCore ∧
      ∃ m n v, iterate (Machine.analysisTurn S.E) m t = some v ∧
        iterate (Machine.analysisTurn S.E) n u = some v := by
  have hview := guestView_eq ht hu hcount
  simp only [Machine.guestView, Prod.mk.injEq] at hview
  obtain ⟨hprogram, hloc, -, hlog, hcore⟩ := hview
  exact ⟨hprogram, hloc, hlog, hcore, (independent S.E S.cfg S.analyzer S.perfmodel).meet
    S.reachable_start ht hu (choices_eq hcount)⟩

/-- First-level caches of two blocks, without a second level. -/
def smallCaches : Cachesim.CachesimConfig := ⟨some ⟨2, 64, 1, 1⟩, some ⟨2, 64, 1, 1⟩, none, 10⟩

/-- A load that misses and two additions, with samples of one instruction in
periods of two. -/
def loadAndAdd : Setup ℚ where
  E := TraceAnalyzer.sampleEnv 2
  cfg := ⟨1, 2⟩
  program := [.instIncrement 64 0 0xE5943000 .l1Hit, .dcacheAccess ⟨0x1000, false, .l1Hit⟩,
    .instIncrement 68 0 0xE0810002 .l1Hit, .instIncrement 72 0 0xE0810002 .l1Hit]
  analyzer := TraceAnalyzer.blankState
  perfmodel := Sampling.samplePerfmodel
  bpred := Bpredsim.smallPredictor
  cachesim := Cachesim.cachesimInitialize smallCaches

/-- The turns of the whole run, the guest thread having `n` of them between the
start of the first analysis and its first turn. -/
def delayed (n : ℕ) : List Turn :=
  List.replicate (13 + n) .guest ++ List.replicate 19 .analysis ++
    List.replicate (11 - n) .guest ++ List.replicate 7 .analysis ++ [.guest]

theorem schedule_independent_loadAndAdd : ∃ t u, loadAndAdd.after (delayed 0) = some t ∧
    loadAndAdd.after (delayed 7) = some u ∧ delayed 0 ≠ delayed 7 ∧ t.toCore = u.toCore := by
  have ht : (loadAndAdd.after (delayed 0)).isSome := by decide
  have hu : (loadAndAdd.after (delayed 7)).isSome := by decide
  obtain ⟨t, ht⟩ := Option.isSome_iff_exists.1 ht
  obtain ⟨u, hu⟩ := Option.isSome_iff_exists.1 hu
  exact ⟨t, u, ht, hu, by decide, (schedule_independent loadAndAdd ht hu (by decide)).2.2.2.1⟩

/-- **The estimate is a function of the program.** However the two threads are
scheduled, the cycles at the exit are the same, and so are the analyses that
were waited for. -/
theorem estimatedCycle_unique (S : Setup F) {x y : List Turn} {t u : Machine F}
    (ht : S.after x = some t) (hu : S.after y = some u) (hexit : t.sampler.loc = .exited)
    (hexit' : u.sampler.loc = .exited) :
    t.estimatedCycle S.E = u.estimatedCycle S.E ∧ t.toCore = u.toCore ∧
      t.sampler.log = u.sampler.log := by
  have hview := guestView_eq ht hu
    (Nat.le_antisymm (count_le_of_exited hu hexit' ht) (count_le_of_exited ht hexit hu))
  simp only [Machine.guestView, Prod.mk.injEq] at hview
  obtain ⟨-, -, -, hlog, hcore⟩ := hview
  exact ⟨by rw [Machine.estimatedCycle, Machine.estimatedCycle, hcore], hcore, hlog⟩

/-- The run, with the instruction fetch that misses. -/
theorem estimatedCycle_unique_loadAndAdd : ∃ t u, loadAndAdd.after (delayed 0) = some t ∧
    loadAndAdd.after (delayed 7) = some u ∧ t.estimatedCycle loadAndAdd.E = 15 ∧
      u.estimatedCycle loadAndAdd.E = 15 := by
  have ht : ((loadAndAdd.after (delayed 0)).map fun s =>
      (s.sampler.loc.isExited, s.estimatedCycle loadAndAdd.E)) = some (true, 15) := by
    decide +kernel
  have hu : ((loadAndAdd.after (delayed 7)).map fun s => s.sampler.loc.isExited) = some true := by
    decide
  obtain ⟨t, ht, hval⟩ := Option.map_eq_some_iff.1 ht
  obtain ⟨u, hu, hexit⟩ := Option.map_eq_some_iff.1 hu
  obtain ⟨hloc, hcycle⟩ := Prod.mk.inj hval
  refine ⟨t, u, ht, hu, hcycle, ?_⟩
  rw [← (estimatedCycle_unique loadAndAdd ht hu (Sampling.Loc.eq_exited hloc)
    (Sampling.Loc.eq_exited hexit)).1]
  exact hcycle

end Setup

end Simulator

end Tqsim
