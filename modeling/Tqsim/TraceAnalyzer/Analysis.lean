import Tqsim.TraceAnalyzer.Helpers.Invariant

/-!
# The states of an analysis

`Drained` is the state in which `trace_analysis` is called: the one
`init_trace_analyzer` leaves, and the one every call leaves that returns.
The invariant of the pipeline holds in every state that such a call reaches
at the end of a cycle.
-/

namespace Tqsim

namespace TraceAnalyzer

variable {F : Type} {s s' : State F} {E : Env F}

/-- **The state between two calls**: nothing in flight, and the sizes those
of the configuration. Where the window lies in the reorder buffer, what the
slots and the dependency matrix hold, and the statistics are arbitrary. -/
structure Drained (E : Env F) (s : State F) : Prop where
  iq : s.pipe.iq = ⟨[], E.cfg.iqSize⟩
  ldq : s.pipe.ldq = ⟨[], 16⟩
  stq : s.pipe.stq = ⟨[], 16⟩
  fuBuffer : s.pipe.fuBuffer = ⟨[], 0⟩
  fuCapacity : ∀ f, (s.pipe.fu f).capacity = (initAllFUs E.cfg f).capacity
  fuNumStage : ∀ f, (s.pipe.fu f).numStage = (initAllFUs E.cfg f).numStage
  robSize : s.rob.size = 0
  robCapacity : s.rob.capacity = E.cfg.robSize
  robEnd : s.rob.endIdx = s.rob.startIdx
  /-- `start_idx` is below the capacity, unless that is zero. -/
  robStart : s.rob.startIdx % E.cfg.robSize = s.rob.startIdx

/-- `init_trace_analyzer` leaves a drained state. -/
theorem initTraceAnalyzer_drained (E : Env F) (s : State F) : Drained E (initTraceAnalyzer E s) where
  iq := rfl
  ldq := rfl
  stq := rfl
  fuBuffer := rfl
  fuCapacity _ := rfl
  fuNumStage _ := rfl
  robSize := rfl
  robCapacity := rfl
  robEnd := rfl
  robStart := Nat.zero_mod _

/-- The state reached after `n` cycles of the analysis of a trace. -/
def Reaches (E : Env F) (trace : Trace) (s : State F) (n : ℕ) (s' : State F) : Prop :=
  Run.iterate (cycle E) n (beginAnalysis E trace.queue s) = some s'

/-! ## The invariant -/

theorem expandTrace_settled {disasm : UInt32 → Darm} {cap : ℤ} {l : List Inst}
    (h : ∀ inst ∈ l, inst.Buffered) : ∀ m ∈ expandTrace disasm cap l, m.Settled := by
  induction l with
  | nil => simp [expandTrace]
  | cons inst rest ih =>
    intro m hm
    rcases List.mem_append.1 hm with hm | hm
    · exact expandInst_settled (h inst (List.mem_cons_self ..)) m hm
    · exact ih (fun x hx => h x (List.mem_cons_of_mem _ hx)) m hm

/-- The instructions of a trace that enter the pipeline need no more
decoding. -/
theorem robTrace_settled (disasm : UInt32 → Darm) (trace : Trace) :
    ∀ inst ∈ robTrace disasm trace.queue, inst.Settled ∧ inst.type ≠ .unsupported := by
  intro inst h
  obtain ⟨hmem, hsup⟩ := List.mem_filter.1 h
  exact ⟨expandTrace_settled (fun i hi => .inl (trace.recorded i hi)) inst hmem, by simpa using hsup⟩

/-- **An analysis starts in the invariant.** -/
theorem Drained.inv (h : Drained E s) (trace : Trace) :
    Inv E s.rob.startIdx (robTrace E.disasm trace.queue) (beginAnalysis E trace.queue s) := by
  have hnone : ∀ r, ¬ (beginAnalysis E trace.queue s).pipe.InFlight r := fun r hr =>
    Nat.not_lt_zero r hr.2
  constructor
  · refine ⟨h.robCapacity, by simp [beginAnalysis, h.robSize, Pipe.oldest],
      by simp [beginAnalysis, h.robSize], fun hlt => absurd hlt (Nat.lt_irrefl 0), h.robStart.symm,
      h.robEnd.trans h.robStart.symm, fun r hr => absurd hr (hnone r),
      fun r hr => absurd hr (hnone r), fun r => ?_⟩
    simp only [hnone r, iff_false]
    exact Bool.false_ne_true
  · constructor <;> simp [beginAnalysis, Pipe.oldest, h.iq, h.fuBuffer]
  · constructor
    · simp [hnone]
      simp [beginAnalysis, h.ldq]
    · simp [beginAnalysis, h.ldq]
    · simp [hnone]
      simp [beginAnalysis, h.stq]
    · simp [beginAnalysis, h.stq]
    · exact fun r hr => absurd hr (hnone r)
    · exact fun r hr => absurd hr (hnone r)
  · refine ⟨robTrace_settled E.disasm trace, rfl,
      ⟨trace.fits, fun i hi => .inl (trace.recorded i hi)⟩, rfl,
      fun r hr => absurd hr (Nat.not_lt_zero r), rfl, ?_⟩
    simp [beginAnalysis]
  · refine ⟨h.fuCapacity, h.fuNumStage, fun f => ?_, ?_, ?_, ?_, ?_⟩
    · simp [beginAnalysis, resetFU, h.fuBuffer]
    · simp [beginAnalysis, h.iq]
    · simp [beginAnalysis, h.ldq]
    · simp [beginAnalysis, h.stq]
    · simp [beginAnalysis, h.fuBuffer]

variable {trace : Trace} {n : ℕ}

/-- **Every state an analysis reaches satisfies the invariant.** -/
theorem Reaches.inv (hd : Drained E s) (h : Reaches E trace s n s') :
    Inv E s.rob.startIdx (robTrace E.disasm trace.queue) s' :=
  Run.invariant (fun _ _ hi hs => hi.step hs) (hd.inv trace) h

/-- **Every state an analysis reaches satisfies what the stages and the clock
keep.** -/
theorem Reaches.keeps {PB PW PE PD : State F → Prop} (hd : Drained E s)
    (hk : Keeps E s.rob.startIdx (robTrace E.disasm trace.queue) PB PW PE PD)
    (htick : ∀ t, Inv E s.rob.startIdx (robTrace E.disasm trace.queue) t → PD t →
      PB { t with pipe := endCycle t.pipe })
    (h0 : PB (beginAnalysis E trace.queue s)) (h : Reaches E trace s n s') : PB s' := by
  let P := fun t => Inv E s.rob.startIdx (robTrace E.disasm trace.queue) t ∧ PB t
  have hrun : P s' := by
    refine Run.invariant (P := P) (fun t u ht hu => ?_) ⟨hd.inv trace, h0⟩ h
    obtain ⟨v, hv, hPv, rfl⟩ := hk.cycle ht.1 ht.2 hu
    exact ⟨hv.tick, htick v hv hPv⟩
  exact hrun.2

/-- The clock counts the cycles. -/
theorem Reaches.curCycle (hd : Drained E s) (h : Reaches E trace s n s') :
    s'.pipe.curCycle = n := by
  induction n generalizing s' with
  | zero => rw [← Option.some.inj h]; rfl
  | succ n ih =>
    obtain ⟨t, ht, hs'⟩ := Run.exists_of_iterate_succ h
    obtain ⟨u, -, hu, rfl⟩ := (curCycle_keeps E _ _ n).cycle (Reaches.inv hd ht) (ih ht) hs'
    exact congrArg (· + 1) hu

/-- Before the first cycle the unit buffer is empty; after a cycle it holds
records in flight only. -/
theorem Reaches.fuBuffer_inFlight (hd : Drained E s) (h : Reaches E trace s n s') :
    ∀ r ∈ s'.pipe.fuBuffer.elems, s'.pipe.InFlight r := by
  cases n with
  | zero =>
    rw [← Option.some.inj h]
    simp [beginAnalysis, hd.fuBuffer]
  | succ n =>
    obtain ⟨t, ht, hs'⟩ := Run.exists_of_iterate_succ h
    obtain ⟨u, -, hu, rfl⟩ :=
      (fuBuffer_inFlight_keeps E _ _).cycle (Reaches.inv hd ht) trivial hs'
    exact hu

/-! ## What a call returns -/

/-- `actual_last_cycle` after a cycle. -/
def lastCycleAfter (last : ℕ) (p : Pipe F) : ℕ :=
  if last = 0 then if p.numDispatchedInsts = p.numFetchedInsts then p.curCycle else last else last

/-- One turn of the loop of `trace_analysis`. -/
theorem analysisLoop_succ {t : State F} (ht : cycle E s = some t) (fuel c last : ℕ) :
    analysisLoop E 0 (fuel + 1) c last s =
      if t.pipe.numCommittedInsts = t.pipe.numFetchedInsts then
        some (finishAnalysis E t (lastCycleAfter last t.pipe) (c + 1))
      else analysisLoop E 0 fuel (c + 1) (lastCycleAfter last t.pipe) t := by
  rw [analysisLoop, if_neg (by simp), ht]
  rfl

theorem cycle_of_analysisLoop {fuel c last : ℕ} {a : Analysis F}
    (h : analysisLoop E 0 (fuel + 1) c last s = some a) : ∃ t, cycle E s = some t := by
  rw [analysisLoop, if_neg (by simp)] at h
  obtain ⟨t, ht, -⟩ := Option.bind_eq_some_iff.1 h
  exact ⟨t, ht⟩

/-- The loop of `trace_analysis` stops after the first cycle at whose end as
many instructions are committed as were fetched. -/
theorem analysisLoop_returns {fuel c last : ℕ} {a : Analysis F}
    (h : analysisLoop E 0 fuel c last s = some a) :
    ∃ n, Run.iterate (cycle E) (n + 1) s = some a.state ∧ a.cycles = c + n + 1 ∧
      a.state.pipe.numCommittedInsts = a.state.pipe.numFetchedInsts := by
  induction fuel generalizing c last s with
  | zero => cases h
  | succ fuel ih =>
    obtain ⟨t, ht⟩ := cycle_of_analysisLoop h
    rw [analysisLoop_succ ht] at h
    split at h
    next hdone =>
      obtain rfl := Option.some.inj h
      exact ⟨0, by rw [Run.iterate_succ, ht]; rfl, rfl, hdone⟩
    next =>
      obtain ⟨n, hn, hc, hdone⟩ := ih h
      exact ⟨n + 1, by rw [Run.iterate_succ, ht]; exact hn, by omega, hdone⟩

/-- A call that returns reached its last state. -/
theorem traceAnalysis_reaches {fuel : ℕ} {a : Analysis F}
    (h : traceAnalysis E fuel trace.queue 0 s = some a) :
    Reaches E trace s a.cycles a.state ∧
      a.state.pipe.numCommittedInsts = a.state.pipe.numFetchedInsts := by
  obtain ⟨n, hn, hc, hdone⟩ := analysisLoop_returns h
  refine ⟨?_, hdone⟩
  rw [hc, Nat.zero_add]
  exact hn

/-- The penalty that is returned is the average of the last state. -/
theorem analysisLoop_bpredPenalty {fuel c last : ℕ} {a : Analysis F}
    (h : analysisLoop E 0 fuel c last s = some a) :
    a.bpredPenalty = E.double.toInt a.state.pipe.avgMispredPenalty := by
  induction fuel generalizing c last s with
  | zero => cases h
  | succ fuel ih =>
    obtain ⟨t, ht⟩ := cycle_of_analysisLoop h
    rw [analysisLoop_succ ht] at h
    split at h
    next => rw [← Option.some.inj h]; rfl
    next => exact ih h

/-- **When as many instructions are committed as were fetched, nothing is
left**, neither in the trace buffer nor in flight. -/
theorem Traced.done {disasm : UInt32 → Darm} {T : List Inst} {p : Pipe F}
    (h : Traced disasm T p) (hold : p.oldest ≤ p.next)
    (hdone : p.numCommittedInsts = p.numFetchedInsts) :
    p.oldest = p.next ∧ p.traceBuffer.elems = [] ∧ p.numDispatchedInsts = p.numFetchedInsts := by
  have hdisp := h.dispatched
  have hfetched := h.fetched
  have hsize : p.traceBuffer.size = 0 := by omega
  exact ⟨by omega, List.length_eq_zero_iff.1 hsize, by omega⟩

/-- **A call that returns leaves a drained state.** -/
theorem Drained.of_reaches (hd : Drained E s) (h : Reaches E trace s n s')
    (hdone : s'.pipe.numCommittedInsts = s'.pipe.numFetchedInsts) : Drained E s' := by
  have hinv := Reaches.inv hd h
  obtain ⟨hold, -, -⟩ := hinv.traced.done hinv.window.oldest_le hdone
  have hnone : ∀ r, ¬ s'.pipe.InFlight r := by
    rintro r ⟨h1, h2⟩
    omega
  have hempty : ∀ q : InstQueue ℕ, (∀ r ∈ q.elems, s'.pipe.InFlight r) → q = ⟨[], q.capacity⟩ := by
    rintro ⟨elems, c⟩ hq
    cases elems with
    | nil => rfl
    | cons r rs => exact absurd (hq r (List.mem_cons_self ..)) (hnone r)
  constructor
  · rw [← hinv.units.iq]
    exact hempty _ fun r hr => hinv.stages.inFlight_of_mem_iq hr
  · rw [← hinv.units.ldq]
    exact hempty _ fun r hr => ((hinv.memQueues.ldq_mem r).1 hr).1
  · rw [← hinv.units.stq]
    exact hempty _ fun r hr => ((hinv.memQueues.stq_mem r).1 hr).1
  · rw [← hinv.units.fuBuffer]
    exact hempty _ (Reaches.fuBuffer_inFlight hd h)
  · exact hinv.units.capacity
  · exact hinv.units.numStage
  · have := hinv.window.size
    omega
  · exact hinv.window.capacity
  · rw [hinv.window.start, hinv.window.finish, hold]
  · rw [hinv.window.start]
    exact Nat.mod_mod ..

theorem traceAnalysis_drained {fuel : ℕ} {a : Analysis F} (hd : Drained E s)
    (h : traceAnalysis E fuel trace.queue 0 s = some a) : Drained E a.state :=
  hd.of_reaches (traceAnalysis_reaches h).1 (traceAnalysis_reaches h).2

/-- **It leaves the trace buffer empty**, of the capacity it had. -/
theorem traceAnalysis_traceBuffer {fuel : ℕ} {a : Analysis F} (hd : Drained E s)
    (h : traceAnalysis E fuel trace.queue 0 s = some a) :
    a.state.pipe.traceBuffer = ⟨[], trace.queue.capacity⟩ := by
  obtain ⟨hreach, hdone⟩ := traceAnalysis_reaches h
  have hinv := Reaches.inv hd hreach
  obtain ⟨-, hempty, -⟩ := hinv.traced.done hinv.window.oldest_le hdone
  have hcap : a.state.pipe.traceBuffer.capacity = trace.queue.capacity :=
    Reaches.keeps hd (capacity_keeps E _ _ _) (fun _ _ hP => hP) rfl hreach
  rw [← hempty, ← hcap]

/-! ## A sample

The smallest setting in which the window wraps around: two slots, and three
instructions of which the last one reads what a load that misses delivers. -/

/-- The disassembler on three instruction words: `add r0, r1, r2`,
`ldr r3, [r4]` and `add r5, r3, r6`. -/
def sampleDisasm (w : UInt32) : Darm :=
  if w = 0xE0810002 then ⟨.iAdd, 14, .bUnset, 0, 0, some 0, some 1, some 2, none, 0⟩
  else if w = 0xE5943000 then ⟨.iLdr, 14, .bInvld, 0, 0, none, some 4, none, some 3, 0⟩
  else if w = 0xE0835006 then ⟨.iAdd, 14, .bUnset, 0, 0, some 5, some 3, some 6, none, 0⟩
  else ⟨.other 0, 14, .bInvld, 0, 0, none, none, none, none, 0⟩

/-- A core with a reorder buffer of `robSize` entries. -/
def sampleEnv (robSize : ℕ) : Env ℚ where
  cfg := ⟨3, 8, robSize, 48, 6, 2, 10⟩
  disasm := sampleDisasm
  double := exactDouble

/-- The static variables before anything was set. -/
def blankState : State ℚ where
  pipe := {
    heap := fun _ => initInst 0 0 0
    live := fun _ => false
    next := 0
    commitLog := []
    traceBuffer := ⟨[], 0⟩
    iq := ⟨[], 0⟩
    ldq := ⟨[], 0⟩
    stq := ⟨[], 0⟩
    fuBuffer := ⟨[], 0⟩
    fu := fun _ => initFU 0 0
    numFetchedInsts := 0
    numDispatchedInsts := 0
    numCommittedInsts := 0
    numMispredInsts := 0
    avgMispredPenalty := 0
    curCycle := 0 }
  rob := ⟨fun _ => none, 0, 0, 0, 0, fun _ => 0⟩
  depMat := fun _ _ => false

/-- The three instructions as the recorder leaves them. -/
def sampleTrace : Trace where
  queue := ⟨[initInst 0 0 0xE0810002,
    setInstEffAddr (initInst 1 4 0xE5943000) 0x1000 .l1Miss,
    initInst 2 8 0xE0835006], 1000001⟩
  fits := by decide
  recorded := by
    intro inst h
    simp only [List.mem_cons, List.not_mem_nil, or_false] at h
    rcases h with rfl | rfl | rfl
    · exact ⟨_, _, _, rfl⟩
    · exact ⟨_, _, _, rfl⟩
    · exact ⟨_, _, _, rfl⟩

end TraceAnalyzer

end Tqsim
