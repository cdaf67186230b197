import Tqsim.Cachesim.Helpers.Levels

/-!
# What the class of an access depends on

`cachesim_iaccess` and `cachesim_daccess` assign `miss_type` where they access
the first level. Where there is none, they test and return whatever the
memory of the variable held. So the classes that a run returns, and the
caches that it leaves, are determined by its calls just when both first
levels are configured.
-/

namespace Tqsim

namespace Cachesim

variable {h h' : Hierarchy} {hsim : Bool} {robSize : Int32}

namespace SimCall

/-- The arguments of a call, without what the memory of `miss_type` held. -/
def args : SimCall → SimCall
  | iaccess curCycle pc _ => iaccess curCycle pc .l1Hit
  | daccess curCycle addr isWrite _ => daccess curCycle addr isWrite .l1Hit

/-- The call assigns `miss_type`: the first level it goes to is there. -/
def Assigns (h : Hierarchy) : SimCall → Prop
  | iaccess _ _ _ => h.il1.isSome
  | daccess _ _ _ _ => h.dl1.isSome

end SimCall

/-- What there is to see of a run: the classes returned, and the caches that
it leaves. -/
def observe (hsim : Bool) (robSize : Int32) (calls : List SimCall) (h : Hierarchy) :
    Option (List CacheMissType × Hierarchy) :=
  (Run.log (simCall hsim robSize) calls h).map fun x => (x.1.map Prod.snd, x.2)

/-- **The simulation is determined**: two runs of the same calls show the
same. -/
def Determined (hsim : Bool) (robSize : Int32) (h : Hierarchy) : Prop :=
  ∀ calls calls' : List SimCall, calls.map SimCall.args = calls'.map SimCall.args →
    observe hsim robSize calls h = observe hsim robSize calls' h

/-- **No call tests or returns a class that was never assigned.** -/
def AlwaysAssigned (hsim : Bool) (robSize : Int32) (h : Hierarchy) : Prop :=
  ∀ calls log h', Run.log (simCall hsim robSize) calls h = some (log, h') →
    ∀ call : SimCall, call.Assigns h'

/-! ## One call -/

/-- Where there is a first level, the memory of `miss_type` does not matter. -/
theorem accessFirst_stack {l : Option Level} (hl : l.isSome) (stack stack' : CacheMissType)
    (curCycle : UInt64) (type : CacheAccessType) (addr : UInt32) :
    accessFirst l robSize stack curCycle type addr =
      accessFirst l robSize stack' curCycle type addr := by
  obtain ⟨x, rfl⟩ := Option.isSome_iff_exists.1 hl
  rfl

/-- The caches that there are stay. -/
theorem accessFirst_isSome {l l' : Option Level} {stack m : CacheMissType} {curCycle : UInt64}
    {type : CacheAccessType} {addr : UInt32}
    (hacc : accessFirst l robSize stack curCycle type addr = some (m, l')) :
    l'.isSome = l.isSome := by
  cases l with
  | none =>
    obtain ⟨-, rfl⟩ := Prod.mk.inj (Option.some.inj hacc)
    rfl
  | some x =>
    obtain ⟨y, -, heq⟩ := Option.map_eq_some_iff.1 hacc
    obtain ⟨-, rfl⟩ := Prod.mk.inj heq
    rfl

/-- Both first levels are there. -/
structure Hierarchy.FirstLevels (h : Hierarchy) : Prop where
  il1 : h.il1.isSome
  dl1 : h.dl1.isSome

theorem Hierarchy.firstLevels_iff : h.FirstLevels ↔ ∀ call : SimCall, call.Assigns h := by
  refine ⟨fun hf call => ?_, fun hall =>
    ⟨hall (.iaccess 0 0 .l1Hit), hall (.daccess 0 0 false .l1Hit)⟩⟩
  cases call with
  | iaccess curCycle pc stack => exact hf.il1
  | daccess curCycle addr isWrite stack => exact hf.dl1

theorem firstLevels_cachesimInitialize (cfg : CachesimConfig) :
    (cachesimInitialize cfg).FirstLevels ↔ cfg.il1.isSome ∧ cfg.dl1.isSome := by
  have hil1 : (cachesimInitialize cfg).il1.isSome = cfg.il1.isSome := Option.isSome_map
  have hdl1 : (cachesimInitialize cfg).dl1.isSome = cfg.dl1.isSome := Option.isSome_map
  rw [← hil1, ← hdl1]
  exact ⟨fun hf => ⟨hf.il1, hf.dl1⟩, fun hf => ⟨hf.1, hf.2⟩⟩

/-- **A call depends on its arguments only.** -/
theorem Hierarchy.FirstLevels.simCall_args (hf : h.FirstLevels) {call call' : SimCall}
    (hargs : call.args = call'.args) :
    simCall hsim robSize h call = simCall hsim robSize h call' := by
  cases call with
  | iaccess curCycle pc stack =>
    cases call' with
    | iaccess curCycle' pc' stack' =>
      simp only [SimCall.args, SimCall.iaccess.injEq, and_true] at hargs
      obtain ⟨rfl, rfl⟩ := hargs
      simp only [simCall, cachesimIaccess, accessFirst_stack hf.il1 stack stack']
    | daccess curCycle' addr' isWrite' stack' => simp [SimCall.args] at hargs
  | daccess curCycle addr isWrite stack =>
    cases call' with
    | iaccess curCycle' pc' stack' => simp [SimCall.args] at hargs
    | daccess curCycle' addr' isWrite' stack' =>
      simp only [SimCall.args, SimCall.daccess.injEq, and_true] at hargs
      obtain ⟨rfl, rfl, rfl⟩ := hargs
      simp only [simCall, cachesimDaccess, accessFirst_stack hf.dl1 stack stack']

theorem Hierarchy.FirstLevels.simCall (hf : h.FirstLevels) {call : SimCall} {m : CacheMissType}
    (hcall : Cachesim.simCall hsim robSize h call = some (m, h')) : h'.FirstLevels := by
  cases call with
  | iaccess curCycle pc stack =>
    obtain ⟨⟨m₁, o₁⟩, hfirst, hcall⟩ := Option.bind_eq_some_iff.1 hcall
    obtain ⟨x, -, heq⟩ := Option.map_eq_some_iff.1 hcall
    obtain ⟨-, rfl⟩ := Prod.mk.inj heq
    exact ⟨(accessFirst_isSome hfirst).trans hf.il1, hf.dl1⟩
  | daccess curCycle addr isWrite stack =>
    obtain ⟨⟨m₁, o₁⟩, hfirst, hcall⟩ := Option.bind_eq_some_iff.1 hcall
    obtain ⟨x, -, heq⟩ := Option.map_eq_some_iff.1 hcall
    obtain ⟨-, rfl⟩ := Prod.mk.inj heq
    exact ⟨hf.il1, (accessFirst_isSome hfirst).trans hf.dl1⟩

/-! ## Two runs -/

theorem observe_cons (call : SimCall) (calls : List SimCall) (h : Hierarchy) :
    observe hsim robSize (call :: calls) h =
      (simCall hsim robSize h call).bind fun x =>
        (observe hsim robSize calls x.2).map fun y => (x.1 :: y.1, y.2) := by
  rw [observe, Run.log, Option.map_bind]
  refine Option.bind_congr fun x _ => ?_
  rw [Function.comp_apply, observe, Option.map_map, Option.map_map]
  rfl

/-- **Two runs of the same calls show the same.** -/
theorem Hierarchy.FirstLevels.observe_args (hf : h.FirstLevels) {calls calls' : List SimCall}
    (hargs : calls.map SimCall.args = calls'.map SimCall.args) :
    observe hsim robSize calls h = observe hsim robSize calls' h := by
  induction calls generalizing h calls' with
  | nil =>
    obtain rfl := List.map_eq_nil_iff.1 hargs.symm
    rfl
  | cons call calls ih =>
    obtain ⟨call', calls', rfl, hcall, hcalls⟩ := List.map_eq_cons_iff.1 hargs.symm
    rw [observe_cons, observe_cons, hf.simCall_args hcall.symm]
    refine Option.bind_congr fun x hx => ?_
    rw [ih (hf.simCall (m := x.1) hx) hcalls.symm]

theorem firstLevels_of_log {calls : List SimCall} {log : List (SimCall × CacheMissType)}
    (hf : h.FirstLevels) (hlog : Run.log (simCall hsim robSize) calls h = some (log, h')) :
    h'.FirstLevels :=
  Run.log_invariant (P := fun _ h => h.FirstLevels) (l := [])
    (fun _ _ _ _ _ hs hcall => hs.simCall hcall) hf hlog

/-- A call that assigns nothing shows what the memory held. -/
theorem observe_of_not_assigns (hsim : Bool) (robSize : Int32) {call : SimCall}
    (hne : ¬ call.Assigns h) (stack : CacheMissType) (hstack : stack ≠ .l1Miss) :
    ∃ call', call'.args = call.args ∧ observe hsim robSize [call'] h = some ([stack], h) := by
  -- the second level is not accessed
  have hsecond : ∀ curCycle type addr,
      accessSecond h.ul2 hsim robSize stack curCycle type addr = some (stack, h.ul2) := by
    intro curCycle type addr
    cases h.ul2 with
    | none => rfl
    | some l => exact if_neg fun hmiss => hstack hmiss.2
  cases call with
  | iaccess curCycle pc stack' =>
    have hnone : h.il1 = none := Option.not_isSome_iff_eq_none.1 hne
    have hsame : { h with il1 := none } = h := by rw [← hnone]
    refine ⟨.iaccess curCycle pc stack, rfl, ?_⟩
    simp [observe, Run.log, simCall, cachesimIaccess, hnone, accessFirst, hsecond, hsame]
  | daccess curCycle addr isWrite stack' =>
    have hnone : h.dl1 = none := Option.not_isSome_iff_eq_none.1 hne
    have hsame : { h with dl1 := none } = h := by rw [← hnone]
    refine ⟨.daccess curCycle addr isWrite stack, rfl, ?_⟩
    simp [observe, Run.log, simCall, cachesimDaccess, hnone, accessFirst, hsecond, hsame]

/-- So a hierarchy whose runs are determined has both first levels. -/
theorem Determined.assigns (hdet : Determined hsim robSize h) (call : SimCall) :
    call.Assigns h := by
  by_contra hne
  obtain ⟨c₁, hargs₁, h₁⟩ := observe_of_not_assigns hsim robSize hne .l1Hit (by decide)
  obtain ⟨c₂, hargs₂, h₂⟩ := observe_of_not_assigns hsim robSize hne .l2Miss (by decide)
  have heq := hdet [c₁] [c₂] (by rw [List.map_singleton, List.map_singleton, hargs₁, hargs₂])
  rw [h₁, h₂] at heq
  simp at heq

/-- **When the class is determined by the simulation**: just when both first
levels are configured, with or without `CONFIG_HSIM`. -/
theorem determined_iff (hsim : Bool) (robSize : Int32) (cfg : CachesimConfig) :
    (Determined hsim robSize (cachesimInitialize cfg) ↔ cfg.il1.isSome ∧ cfg.dl1.isSome) ∧
      (AlwaysAssigned hsim robSize (cachesimInitialize cfg) ↔
        cfg.il1.isSome ∧ cfg.dl1.isSome) := by
  rw [← firstLevels_cachesimInitialize]
  constructor
  · refine ⟨fun hdet => Hierarchy.firstLevels_iff.2 hdet.assigns, ?_⟩
    intro hf calls calls' hargs
    exact hf.observe_args hargs
  · refine ⟨fun hass => Hierarchy.firstLevels_iff.2 (hass [] [] _ rfl), ?_⟩
    intro hf calls log h' hlog
    exact Hierarchy.firstLevels_iff.1 (firstLevels_of_log hf hlog)

/-- `cortex_a5_tqsim.cfg`: an instruction cache only. -/
def cortexA5 : CachesimConfig where
  il1 := some ⟨256, 64, 2, 1⟩
  dl1 := none
  ul2 := none
  memLatency := 0

/-- The same with a second level. -/
def cortexA5Ul2 : CachesimConfig := { cortexA5 with ul2 := some ⟨512, 64, 8, 10⟩ }

/-- **A read without a data cache** is a hit in one run and a miss in the other;
with a second level the caches differ from then on. -/
theorem daccess_undetermined :
    (observe false 60 [.daccess 0 0x1000 false .l1Hit] (cachesimInitialize cortexA5)).map Prod.fst =
        some [.l1Hit] ∧
      (observe false 60 [.daccess 0 0x1000 false .l1Miss] (cachesimInitialize cortexA5)).map
        Prod.fst = some [.l1Miss] ∧
      (observe false 60 [.daccess 0 0x1000 false .l1Hit] (cachesimInitialize cortexA5Ul2)).map
        (fun x => (x.1, x.2.ul2.map (·.cache.numAccess))) = some ([.l1Hit], some 0) ∧
      (observe false 60 [.daccess 0 0x1000 false .l1Miss] (cachesimInitialize cortexA5Ul2)).map
        (fun x => (x.1, x.2.ul2.map (·.cache.numAccess))) = some ([.l2Miss], some 1) := by
  decide

end Cachesim

end Tqsim
