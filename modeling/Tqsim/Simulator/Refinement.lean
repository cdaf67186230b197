import Tqsim.Simulator.Model.Atomic
import Tqsim.Simulator.Schedule

/-!
# The threaded simulator and the one without threads

Whatever the schedule, between two helper calls the threaded simulator is
where the simulator without threads is after the same calls, given the
results of the analyses that were waited for; and the same at the exit of the
program. What holds of the helper calls one after the other holds of the
simulator.
-/

namespace Tqsim

namespace Simulator

open TraceAnalyzer (Env State Double)
open Sampling
open Guest (Core CoreConfig)
open Run (play)
open Setup (loadAndAdd)

variable {F : Type} {E : Env F} {cfg : SampleConfig} {s t u : Machine F} {S : Setup F}

/-! ## The log -/

/-- What the analyses that were waited for resulted in. -/
def waited (log : List Event) : List (ℕ × ℤ) :=
  (updates log).map fun u => (u.cycle, u.bpredPenalty)

section Waited

variable (log : List Event)

@[simp] theorem waited_push : waited (log ++ [.push]) = waited log := by
  simp [waited, updates]

@[simp] theorem waited_start (q : TraceAnalyzer.InstQueue TraceAnalyzer.Inst) :
    waited (log ++ [.start q]) = waited log := by
  simp [waited, updates]

@[simp] theorem waited_join : waited (log ++ [.join]) = waited log := by
  simp [waited, updates]

@[simp] theorem waited_update (u : Update) :
    waited (log ++ [.update u]) = waited log ++ [(u.cycle, u.bpredPenalty)] := by
  simp [waited, updates]

end Waited

/-! ## The calls -/

/-- A call of `inst_increment` on its way from the branch before it to the
fetch of its line. -/
def entered (c : Core F) (pc : UInt32) : Core F :=
  { c with isBranch := false, curPC := pc, previousPc := Sampler.fetchbufferalignpc pc }

theorem entered_of_not_branch {c : Core F} (h : c.isBranch = false) (pc : UInt32) :
    entered c pc = { c with curPC := pc, previousPc := Sampler.fetchbufferalignpc pc } := by
  rw [entered, ← h]

/-- The fetch of a call, whichever way it takes. -/
theorem untimed_fetchLine {D : Double F} {c f : Core F} {i : Guest.InstIncrement} {ccfg : CoreConfig}
    (hsim : ccfg.hsim = false) (hf : (c.resolveBranch i).fetchLine D ccfg i = some f) :
    untimed f = untimed { entered c i.pc with bpred := f.bpred, cachesim := f.cachesim } := by
  have hres : c.resolveBranch i =
      { c with bpred := (c.resolveBranch i).bpred, isBranch := false } := by
    unfold Core.resolveBranch
    split
    · rfl
    · obtain ⟨⟩ := c
      simp_all
  obtain ⟨⟨m, h, prev⟩, hfilter, rfl⟩ := Option.map_eq_some_iff.1 hf
  have hprev : prev = Sampler.fetchbufferalignpc i.pc := by
    unfold Cachesim.filterFetch at hfilter
    split at hfilter
    · obtain ⟨r, -, hr⟩ := Option.map_eq_some_iff.1 hfilter
      simp only [Prod.mk.injEq] at hr
      exact hr.2.2.symm
    next hline =>
      simp only [Option.some.injEq, Prod.mk.injEq] at hfilter
      exact hfilter.2.2.symm.trans (not_not.1 hline)
  rw [hres]
  simp only [hsim, Bool.false_eq_true, false_and, if_false, hprev]
  split <;> rfl

/-- The helper calls of a part of the program, one after the other. -/
def Ran (S : Setup F) (made : List HelperCall) (results : List (ℕ × ℤ)) (c : Core F) : Prop :=
  ∀ extra, play (Atomic.call S.E.double (coreConfig S.E S.cfg)) made
    ⟨S.start.toCore, results ++ extra⟩ = some ⟨c, extra⟩

theorem Ran.concat {made : List HelperCall} {results new : List (ℕ × ℤ)} {c c' : Core F}
    {h : HelperCall} (hran : Ran S made results c)
    (hcall : ∀ extra, Atomic.call S.E.double (coreConfig S.E S.cfg) ⟨c, new ++ extra⟩ h =
      some ⟨c', extra⟩) : Ran S (made ++ [h]) (results ++ new) c' := by
  intro extra
  rw [List.append_assoc, Run.play_append, hran, Option.bind_some, play, hcall]
  rfl

/-- A call of `inst_increment`, after its fetch. -/
theorem atomic_instIncrement {D : Double F} {ccfg : CoreConfig} {c f : Core F} {pc : UInt32}
    {stack : CacheMissType}
    (hf : (c.resolveBranch ⟨pc, 0, 0, stack⟩).fetchLine D ccfg ⟨pc, 0, 0, stack⟩ = some f)
    (flag code : UInt32) (results : List (ℕ × ℤ)) :
    Atomic.call D ccfg ⟨c, results⟩ (.instIncrement pc flag code stack) =
      (Atomic.period D ccfg pc stack ⟨(untimed f).firstInst.finishSample ccfg, results⟩).map
        fun a => { a with core := a.core.countInst D ccfg } := by
  simp only [Atomic.call, hf, Option.bind_some]

/-- The call of `inst_increment` that the sampler is in, and its fetch. -/
def Fetches (S : Setup F) (c : Core F) (h : HelperCall) (i : Sampling.InstIncrement) (f : Core F) :
    Prop :=
  ∃ flag code stack, h = .instIncrement i.pc flag code stack ∧ i.counters = f.counters ∧
    (c.resolveBranch ⟨i.pc, 0, 0, stack⟩).fetchLine S.E.double (coreConfig S.E S.cfg)
      ⟨i.pc, 0, 0, stack⟩ = some f

/-- In a call, with the calls before it made. -/
def InCall (S : Setup F) (program : List HelperCall) (results : List (ℕ × ℤ))
    (i : Sampling.InstIncrement) (P : Core F → Prop) : Prop :=
  ∃ made h c f, S.program = made ++ h :: program ∧ Ran S made results c ∧ Fetches S c h i f ∧ P f

/-- **How far the simulator without threads is**, at each statement of the
guest thread. -/
def RefinesAt (S : Setup F) (program : List HelperCall) (results : List (ℕ × ℤ)) (c : Core F) :
    Loc → Prop
  | .ready => ∃ made, S.program = made ++ program ∧ Ran S made results c
  | .resolve i => InCall S program results i fun f => untimed f = entered c i.pc
  | .fetch i => InCall S program results i fun f =>
      c.isBranch = false ∧ untimed f = entered c i.pc
  | .first i _ => InCall S program results i fun f => untimed f = c
  | .finish i _ => InCall S program results i fun f => (untimed f).firstInst = c
  | .period i _ => InCall S program results i fun f =>
      (untimed f).firstInst.finishSample (coreConfig S.E S.cfg) = c
  | .record _ _ => ∃ made h, S.program = made ++ h :: program ∧
      Ran S (made ++ [h]) results (c.countInst S.E.double (coreConfig S.E S.cfg))
  | .wrapup counters => counters = c.counters ∧ Ran S S.program results c
  | .wrapupEnd => ∃ d, d.isSampled = true ∧ Ran S S.program results d ∧
      c = { d with sampleStat := perfmodelSampleEnd d.numInsts d.counters d.sampleStat }
  | .exited => Atomic.run S.E.double (coreConfig S.E S.cfg) S.program ⟨S.start.toCore, results⟩ =
      some c

def Refines (S : Setup F) (s : Machine F) : Prop :=
  RefinesAt S s.program (waited s.sampler.log) s.toCore s.sampler.loc

/-! ## The calls -/

theorem refines_call (h : Refines S s) {c : HelperCall} {program : List HelperCall} {call : Call}
    {bpred : Bpredsim.Bpred} {cachesim : Cachesim.Hierarchy} {sampler : Sampler F}
    (hloc : s.sampler.loc = .ready) (hprogram : s.program = c :: program)
    (hask : ask S.E S.cfg s.toCore c = some (call, bpred, cachesim))
    (hcall : s.sampler.call call = some sampler) :
    Refines S ⟨program, sampler, bpred, cachesim⟩ := by
  unfold Refines at h
  rw [hloc, hprogram] at h
  obtain ⟨made, hmade, hran⟩ := h
  -- a call that is made at once
  have hready : ∀ t : Machine F, t.program = program → t.sampler.loc = .ready →
      waited t.sampler.log = waited s.sampler.log →
      (∀ extra, Atomic.call S.E.double (coreConfig S.E S.cfg) ⟨s.toCore, extra⟩ c =
        some ⟨t.toCore, extra⟩) → Refines S t := by
    intro t hrest hloct hlog hcore
    unfold Refines
    rw [hloct, hrest, hlog, ← List.append_nil (waited s.sampler.log)]
    exact ⟨made ++ [c], by rw [hmade, List.append_assoc]; rfl, hran.concat hcore⟩
  cases c with
  | instIncrement pc flag code stack =>
    obtain ⟨f, hf, hr⟩ := Option.map_eq_some_iff.1 hask
    simp only [Prod.mk.injEq] at hr
    obtain ⟨rfl, rfl, rfl⟩ := hr
    obtain rfl := Option.some.inj hcall
    exact ⟨made, _, s.toCore, f, hmade, hran, ⟨flag, code, stack, rfl, rfl, hf⟩,
      untimed_fetchLine rfl hf⟩
  | dcacheAccess a =>
    obtain ⟨⟨m, d⟩, hd, hr⟩ := Option.map_eq_some_iff.1 hask
    simp only [Prod.mk.injEq] at hr
    obtain ⟨rfl, rfl, rfl⟩ := hr
    have huntimed : untimed d = { s.toCore with bpred := d.bpred, cachesim := d.cachesim } := by
      obtain ⟨r, -, hr⟩ := Option.map_eq_some_iff.1 hd
      obtain ⟨-, rfl⟩ := Prod.mk.inj hr
      rfl
    have hcore : ∀ extra, Atomic.call S.E.double (coreConfig S.E S.cfg) ⟨s.toCore, extra⟩
        (.dcacheAccess a) =
          some ⟨{ s.toCore with bpred := d.bpred, cachesim := d.cachesim }, extra⟩ := by
      intro extra
      simp only [Atomic.call, hd, Option.map_some, huntimed]
    simp only [Sampler.call] at hcall
    split at hcall
    · obtain ⟨q, -, rfl⟩ := Option.map_eq_some_iff.1 hcall
      exact hready _ rfl hloc (waited_push _) hcore
    · obtain rfl := Option.some.inj hcall
      exact hready _ rfl hloc rfl hcore
  | setBranchInst isCond =>
    simp only [ask, Option.some.injEq, Prod.mk.injEq] at hask
    obtain ⟨rfl, rfl, rfl⟩ := hask
    obtain rfl := Option.some.inj hcall
    exact hready _ rfl hloc rfl fun extra => rfl

/-! ## The statements of a call -/

theorem counters_firstInst (c : Core F) : c.firstInst.counters = c.counters := by
  unfold Core.firstInst
  split <;> rfl

theorem counters_finishSample (c : Core F) (ccfg : CoreConfig) :
    (c.finishSample ccfg).counters = c.counters := by
  unfold Core.finishSample
  split <;> rfl

/-- Without `CONFIG_HSIM` the end of a call reads no clock. -/
theorem countInst_eq (D : Double F) (c : Core F) {ccfg : CoreConfig} (hsim : ccfg.hsim = false) :
    c.countInst D ccfg = { c with
      numSampledInst := if c.isSampled then c.numSampledInst + 1 else c.numSampledInst
      numInsts := c.numInsts + 1 } := by
  simp [Core.countInst, hsim]

section Statements

variable {i : Sampling.InstIncrement} {m : CacheMissType} {r : Sampler F}

/-- What a statement does to the variables of the guest thread. -/
structure Effect (s : Machine F) (r : Sampler F) (loc : Loc) (new : List (ℕ × ℤ)) (c : Core F) :
    Prop where
  loc : r.loc = loc
  log : waited r.log = waited s.sampler.log ++ new
  core : Machine.toCore { s with sampler := r } = c

theorem resolveBranch_effect (h : s.sampler.resolveBranch i = some r) :
    Effect s r (.fetch i) [] { s.toCore with isBranch := false } := by
  unfold Sampler.resolveBranch at h
  simp only at h
  split_ifs at h with hbranch
  · obtain ⟨q, -, rfl⟩ := Option.map_eq_some_iff.1 h
    exact ⟨rfl, by simp [Sampler.pushed], rfl⟩
  · obtain rfl := Option.some.inj h
    exact ⟨rfl, by simp, rfl⟩
  · obtain rfl := Option.some.inj h
    have hno : s.sampler.isBranch = false := by simpa using hbranch
    exact ⟨rfl, by simp, by simp only [Machine.toCore, hno]⟩

theorem fetchLine_effect (s : Machine F) (i : Sampling.InstIncrement) :
    Effect s (s.sampler.fetchLine i) (s.sampler.fetchLine i).loc []
      { s.toCore with curPC := i.pc, previousPc := Sampler.fetchbufferalignpc i.pc } := by
  rw [fetchLine_eq]
  exact ⟨rfl, by simp, rfl⟩

theorem firstInst_effect (E : Env F) (m : CacheMissType) (hcount : i.counters = s.toCore.counters) :
    Effect s (s.sampler.firstInst E i m) (.finish i m) [] s.toCore.firstInst := by
  unfold Sampler.firstInst Core.firstInst
  rw [hcount]
  by_cases hzero : s.sampler.numInsts = 0
  · have hcore : s.toCore.numInsts = 0 := hzero
    rw [if_pos hzero, if_pos hcore]
    exact ⟨rfl, by simp, rfl⟩
  · have hcore : ¬ s.toCore.numInsts = 0 := hzero
    rw [if_neg hzero, if_neg hcore]
    exact ⟨rfl, by simp, rfl⟩

theorem finishSample_effect (hcount : i.counters = s.toCore.counters)
    (h : s.sampler.finishSample S.cfg i m = some r) :
    Effect s r (.period i m) [] (s.toCore.finishSample (coreConfig S.E S.cfg)) := by
  unfold Sampler.finishSample at h
  unfold Core.finishSample
  rw [hcount] at h
  by_cases hL : s.sampler.numSampledInst = S.cfg.length
  · have hcore : s.toCore.numSampledInst = (coreConfig S.E S.cfg).sample.length := hL
    rw [if_pos hL] at h
    rw [if_pos hcore]
    obtain ⟨q, hq, h⟩ := Option.bind_eq_some_iff.1 h
    obtain ⟨-, rfl⟩ := threadStart_eq_some hq
    obtain rfl := Option.some.inj h
    exact ⟨rfl, by simp, rfl⟩
  · have hcore : ¬ s.toCore.numSampledInst = (coreConfig S.E S.cfg).sample.length := hL
    rw [if_neg hL] at h
    rw [if_neg hcore]
    obtain rfl := Option.some.inj h
    exact ⟨rfl, by simp, rfl⟩

/-- A wait, and the update after it. -/
theorem threadEnd_effect {q : Sampler F} {cycle : ℕ} {penalty : ℤ} (E : Env F)
    (hq : s.sampler.threadEnd = some (cycle, penalty, q)) :
    Effect s (q.update E cycle penalty) s.sampler.loc [(cycle, penalty)] { s.toCore with
      perfmodel := perfmodelUpdate E.double s.toCore.sampleStat cycle penalty
        s.toCore.perfmodel } := by
  rcases threadEnd_eq_some hq with ⟨-, -, -, -, rfl⟩ | ⟨-, -, -, rfl⟩
  · refine ⟨rfl, ?_, rfl⟩
    simp only [Sampler.update, waited_update, waited_join]
  · exact ⟨rfl, waited_update _ _, rfl⟩

theorem startPeriod_effect (hcount : i.counters = s.toCore.counters)
    (h : s.sampler.startPeriod S.E S.cfg i m = some r) (stack : CacheMissType) :
    (¬ s.toCore.atPeriod (coreConfig S.E S.cfg) ∧ Effect s r (.record i m) [] s.toCore) ∨
      ∃ cycle penalty, s.toCore.atPeriod (coreConfig S.E S.cfg) ∧
        Effect s r (.record i m) [(cycle, penalty)] (s.toCore.startPeriod S.E.double
          (coreConfig S.E S.cfg) ⟨i.pc, cycle, penalty, stack⟩) := by
  unfold Sampler.startPeriod at h
  split at h
  next hat =>
    rw [hcount] at h
    obtain ⟨⟨cycle, penalty, q⟩, hq, h⟩ := Option.bind_eq_some_iff.1 h
    obtain rfl := Option.some.inj h
    have heff := threadEnd_effect S.E hq
    refine .inr ⟨cycle, penalty, hat, rfl, heff.log, ?_⟩
    rw [Core.startPeriod, if_pos (show s.toCore.atPeriod (coreConfig S.E S.cfg) from hat)]
    exact congrArg (fun c : Core F => { c with
      isSampled := true, sampleStat := perfmodelSampleStart c.numInsts s.toCore.counters }) heff.core
  next hat =>
    obtain rfl := Option.some.inj h
    exact .inl ⟨hat, rfl, by simp, rfl⟩

theorem recordInst_effect (s : Machine F) (i : Sampling.InstIncrement) (m : CacheMissType) :
    Effect s (s.sampler.recordInst i m) .ready []
      (s.toCore.countInst S.E.double (coreConfig S.E S.cfg)) := by
  rw [countInst_eq _ _ rfl]
  unfold Sampler.recordInst
  by_cases hsam : s.sampler.isSampled = true
  · have hcore : s.toCore.isSampled = true := hsam
    rw [if_pos hsam, if_pos hcore]
    exact ⟨rfl, by simp [Sampler.pushed], rfl⟩
  · have hcore : ¬ s.toCore.isSampled = true := hsam
    rw [if_neg hsam, if_neg hcore]
    exact ⟨rfl, by simp, rfl⟩

theorem wrapupStart_effect {c : Counters} (h : s.sampler.wrapupStart c = some r) :
    (s.toCore.isSampled = true ∧ Effect s r .wrapupEnd [] { s.toCore with
      sampleStat := perfmodelSampleEnd s.toCore.numInsts c s.toCore.sampleStat }) ∨
      (s.toCore.isSampled = false ∧ Effect s r .exited [] s.toCore) := by
  unfold Sampler.wrapupStart at h
  split at h
  next hsam =>
    obtain ⟨q, hq, h⟩ := Option.bind_eq_some_iff.1 h
    obtain ⟨-, rfl⟩ := threadStart_eq_some hq
    obtain rfl := Option.some.inj h
    exact .inl ⟨hsam, rfl, by simp, rfl⟩
  next hsam =>
    obtain rfl := Option.some.inj h
    exact .inr ⟨by simpa [Machine.toCore] using hsam, rfl, by simp, rfl⟩

end Statements

/-- **A statement of the guest thread** is one of the call that the simulator
without threads makes at once. -/
theorem refines_block {r : Sampler F} (h : Refines S s) (hr : s.sampler.block S.E S.cfg = some r) :
    Refines S { s with sampler := r } := by
  -- a statement that waits for no analysis
  have hto : ∀ {loc : Loc} {c : Core F}, Effect s r loc [] c →
      RefinesAt S s.program (waited s.sampler.log) c loc →
      Refines S { s with sampler := r } := by
    intro loc c heff hrest
    unfold Refines
    rw [heff.core, heff.loc, heff.log, List.append_nil]
    exact hrest
  unfold Refines at h
  unfold Sampler.block at hr
  cases hloc : s.sampler.loc with
  | ready | exited => simp [hloc] at hr
  | resolve i =>
    rw [hloc] at h hr
    obtain ⟨made, c, core, f, hprogram, hran, hf, heq⟩ := h
    exact hto (resolveBranch_effect hr) ⟨made, c, core, f, hprogram, hran, hf, rfl, heq⟩
  | fetch i =>
    rw [hloc] at h hr
    obtain ⟨made, c, core, f, hprogram, hran, hf, hbranch, heq⟩ := h
    obtain rfl := Option.some.inj hr
    refine hto (fetchLine_effect s i) ?_
    rw [fetchLine_eq]
    exact ⟨made, c, core, f, hprogram, hran, hf, heq.trans (entered_of_not_branch hbranch i.pc)⟩
  | first i m =>
    rw [hloc] at h hr
    obtain ⟨made, c, core, f, hprogram, hran, hf, heq⟩ := h
    obtain rfl := Option.some.inj hr
    have hcount : i.counters = s.toCore.counters := by
      obtain ⟨flag, code, stack, -, hcount, -⟩ := hf
      rw [← heq]
      exact hcount
    exact hto (firstInst_effect S.E m hcount)
      ⟨made, c, core, f, hprogram, hran, hf, congrArg Core.firstInst heq⟩
  | finish i m =>
    rw [hloc] at h hr
    obtain ⟨made, c, core, f, hprogram, hran, hf, heq⟩ := h
    have hcount : i.counters = s.toCore.counters := by
      obtain ⟨flag, code, stack, -, hcount, -⟩ := hf
      rw [← heq, counters_firstInst]
      exact hcount
    exact hto (finishSample_effect hcount hr)
      ⟨made, c, core, f, hprogram, hran, hf, congrArg (Core.finishSample _) heq⟩
  | period i m =>
    rw [hloc] at h hr
    obtain ⟨made, c, core, f, hprogram, hran, hf, heq⟩ := h
    obtain ⟨flag, code, stack, rfl, hcount, hfetch⟩ := hf
    have hcount : i.counters = s.toCore.counters := by
      rw [← heq, counters_finishSample, counters_firstInst]
      exact hcount
    rcases startPeriod_effect hcount hr stack with ⟨hat, heff⟩ | ⟨cycle, penalty, hat, heff⟩
    · refine hto heff ⟨made, _, hprogram, ?_⟩
      rw [← List.append_nil (waited s.sampler.log)]
      refine hran.concat fun extra => ?_
      rw [atomic_instIncrement hfetch, heq, Atomic.period, if_neg hat]
      rfl
    · unfold Refines
      rw [heff.core, heff.loc, heff.log]
      refine ⟨made, _, hprogram, hran.concat fun extra => ?_⟩
      rw [atomic_instIncrement hfetch, heq, Atomic.period, if_pos hat]
      rfl
  | record i m =>
    rw [hloc] at h hr
    obtain ⟨made, c, hprogram, hran⟩ := h
    obtain rfl := Option.some.inj hr
    exact hto (recordInst_effect s i m)
      ⟨made ++ [c], by rw [hprogram, List.append_assoc]; rfl, hran⟩
  | wrapup counters =>
    rw [hloc] at h hr
    obtain ⟨rfl, hran⟩ := h
    rcases wrapupStart_effect hr with ⟨hsam, heff⟩ | ⟨hsam, heff⟩
    · exact hto heff ⟨s.toCore, hsam, hran, rfl⟩
    · refine hto heff ?_
      have hplay := hran []
      rw [List.append_nil] at hplay
      simp only [RefinesAt, Atomic.run, hplay, Option.bind_some, Atomic.sampleWrapup, hsam]
      rfl
  | wrapupEnd =>
    rw [hloc] at h hr
    obtain ⟨d, hsam, hran, heq⟩ := h
    obtain ⟨⟨cycle, penalty, q⟩, hq, hr⟩ := Option.bind_eq_some_iff.1 hr
    obtain rfl := Option.some.inj hr
    have heff := threadEnd_effect S.E hq
    have hplay := hran [(cycle, penalty)]
    rw [← heff.log] at hplay
    have hcore : Machine.toCore { s with
        sampler := { q.update S.E cycle penalty with loc := .exited } } = _ := heff.core
    unfold Refines
    rw [hcore, heq]
    simp only [RefinesAt, Atomic.run, hplay, Option.bind_some, Atomic.sampleWrapup, hsam, if_true]

/-! ## Every schedule -/

theorem refines_turn {k : Turn} (h : Refines S s) (ht : s.turn S.E S.cfg k = some t) :
    Refines S t := by
  cases k with
  | analysis =>
    have hview := Machine.guestView_analysisTurn ht
    simp only [Machine.guestView, Prod.mk.injEq] at hview
    obtain ⟨hprogram, hloc, -, hlog, hcore⟩ := hview
    unfold Refines at h ⊢
    rw [hprogram, hloc, hlog, hcore]
    exact h
  | guest =>
    cases Machine.guestTurn_iff.1 ht with
    | call hloc hprogram hask hcall => exact refines_call h hloc hprogram hask hcall
    | exit hloc hprogram =>
      unfold Refines at h
      rw [hloc, hprogram] at h
      obtain ⟨made, hmade, hran⟩ := h
      rw [List.append_nil] at hmade
      exact ⟨rfl, hmade ▸ hran⟩
    | block hloc hblock => exact refines_block h hblock

theorem refines_of_after {turns : List Turn} (h : S.after turns = some s) : Refines S s := by
  have hstart : Refines S S.start := ⟨[], rfl, fun _ => rfl⟩
  exact Run.play_invariant (fun _ _ _ hs ht => refines_turn hs ht) hstart h

/-- **The threaded simulator refines the one without threads.** Under every
schedule, with the results of the analyses in the order in which they were
waited for: between two calls it is where that simulator is after the calls
made, and at its exit where that is after the whole program. -/
theorem refines_atomic (S : Setup F) {turns : List Turn} {s : Machine F}
    (h : S.after turns = some s) :
    (s.sampler.loc = .ready → ∃ made, S.program = made ++ s.program ∧
      play (Atomic.call S.E.double (coreConfig S.E S.cfg)) made
        ⟨S.start.toCore, waited s.sampler.log⟩ = some ⟨s.toCore, []⟩) ∧
    (s.sampler.loc = .exited →
      Atomic.run S.E.double (coreConfig S.E S.cfg) S.program
        ⟨S.start.toCore, waited s.sampler.log⟩ = some s.toCore) := by
  have href := refines_of_after h
  unfold Refines at href
  constructor
  · intro hloc
    rw [hloc] at href
    obtain ⟨made, hmade, hran⟩ := href
    have hplay := hran []
    rw [List.append_nil] at hplay
    exact ⟨made, hmade, hplay⟩
  · intro hloc
    rw [hloc] at href
    exact href

/-- The load and the additions: their estimate, from the results of the two
analyses. -/
theorem refines_atomic_loadAndAdd : ∃ s, loadAndAdd.after (Setup.delayed 0) = some s ∧
    waited s.sampler.log = [(1, 0), (1, 0)] ∧
    Atomic.run loadAndAdd.E.double (coreConfig loadAndAdd.E loadAndAdd.cfg) loadAndAdd.program
      ⟨loadAndAdd.start.toCore, [(1, 0), (1, 0)]⟩ = some s.toCore := by
  have hs : ((loadAndAdd.after (Setup.delayed 0)).map fun s =>
      (s.sampler.loc.isExited, waited s.sampler.log)) = some (true, [(1, 0), (1, 0)]) := by
    decide
  obtain ⟨s, hs, hval⟩ := Option.map_eq_some_iff.1 hs
  obtain ⟨hloc, hlog⟩ := Prod.mk.inj hval
  have hrun := (refines_atomic loadAndAdd hs).2 (Loc.eq_exited hloc)
  exact ⟨s, hs, hlog, hlog ▸ hrun⟩

end Simulator

end Tqsim
