import Tqsim.TraceAnalyzer.Dependence

/-!
# What the searches at dispatch find

`find_regs_dependency` marks just the youngest older writers of the registers
that the new instruction reads. `find_mems_dependency` is the same search for
the addresses of the instruction, but it overwrites what it finds, and the
addresses of the older instructions are what later searches compare with:
an address that was found at its own dispatch is not there for the next
instruction that uses it.
-/

namespace Tqsim

namespace TraceAnalyzer

variable {F : Type} {s t u : State F} {p : Pipe F} {E : Env F} {base : ℕ} {T : List Inst}
variable {inst : Inst} {rest : List Inst}

/-! ## The instructions a cycle dispatches -/

/-- The records that the loop of `dispatch_insts` moves into the pipeline, each
with the state it is taken off the trace buffer in. -/
def dispatchCallsLoop (E : Env F) : ℕ → ℕ → State F → List (State F × Inst)
  | _, 0, _ => []
  | 0, _ + 1, _ => []
  | fuel + 1, w + 1, s =>
    match s.pipe.traceBuffer.frontInstElem with
    | none => []
    | some inst =>
      let s := prepared E s inst
      match s.pipe.traceBuffer.frontInstElem with
      | none => []
      | some inst =>
        if dispatchBlocked s inst then []
        else if inst.type = .unsupported then dispatchCallsLoop E fuel (w + 1) (dropped s)
        else (s, inst) :: match dispatchFront s inst with
          | some s => dispatchCallsLoop E fuel w s
          | none => []

/-- The records that `dispatch_insts` moves into the pipeline. -/
def dispatchCalls (E : Env F) (s : State F) : List (State F × Inst) :=
  let w := E.cfg.frontendWidth.toNat
  dispatchCallsLoop E (w + s.pipe.traceBuffer.size) w s

/-- The records that a cycle moves into the pipeline. -/
def cycleCalls (E : Env F) (s : State F) : List (State F × Inst) :=
  ((beforeIssue E s).bind (issueInsts E)).elim [] (dispatchCalls E)

/-- An analysis of the trace dispatches `inst`, from the state `u`. -/
def Dispatches (E : Env F) (trace : Trace) (s u : State F) (inst : Inst) : Prop :=
  ∃ n t, Reaches E trace s n t ∧ (u, inst) ∈ cycleCalls E t

/-- What is known when a record is moved into the pipeline. -/
structure DispatchCall (E : Env F) (base : ℕ) (T : List Inst) (u : State F) (inst : Inst) :
    Prop where
  inv : Inv E base T u
  front : ∃ rest, u.pipe.traceBuffer.elems = inst :: rest
  settled : inst.Settled
  supported : inst.type ≠ .unsupported
  admits : Admits E.cfg.robSize u.pipe inst

/-- **The dispatch stage**, for a property that its steps keep, at each record
it moves. -/
theorem Keeps.dispatchCall {PB PW PE PD : State F → Prop} (hk : Keeps E base T PB PW PE PD)
    {fuel w : ℕ} (h : Inv E base T s) (hP : PD s) (hmem : (u, inst) ∈ dispatchCallsLoop E fuel w s) :
    DispatchCall E base T u inst ∧ PD u := by
  induction fuel generalizing w s with
  | zero => cases w <;> cases hmem
  | succ fuel ih =>
    cases w with
    | zero => cases hmem
    | succ w =>
      rcases htb : s.pipe.traceBuffer.elems with _ | ⟨first, rest⟩
      · rw [dispatchCallsLoop] at hmem
        simp only [InstQueue.frontInstElem, htb, List.head?_nil] at hmem
        cases hmem
      · obtain ⟨front, rest', hfront, hset⟩ := prepared_front E h.traced.stocked htb
        have h1 := h.prepareStep htb
        have hP1 := hk.prepare s first rest h hP htb
        rw [dispatchCallsLoop] at hmem
        simp only [InstQueue.frontInstElem, htb, hfront, List.head?_cons] at hmem
        split at hmem
        next => cases hmem
        next hblock =>
          have hadm := (dispatchBlocked_eq_false_iff h1.window).1 (Bool.eq_false_iff.2 hblock)
          split at hmem
          next htype =>
            exact ih (h1.dropStep hfront hset htype) (hk.drop _ front rest' h1 hP1 hfront hset htype)
              hmem
          next htype =>
            rcases List.mem_cons.1 hmem with heq | hmem
            · obtain ⟨rfl, rfl⟩ := Prod.mk.inj heq
              exact ⟨⟨h1, ⟨rest', hfront⟩, hset, htype, hadm⟩, hP1⟩
            · split at hmem
              next v hv =>
                obtain ⟨v', hv', hto⟩ := dispatchFront_spec h1.window hadm.rob
                  (array_of_dispatchFront h1.window hv) front
                obtain rfl : v' = v := Option.some.inj (hv'.symm.trans hv)
                exact ih (h1.dispatchStep hfront hset htype hadm hto)
                  (hk.dispatch _ v' front rest' h1 hP1 hfront hset htype hadm hto) hmem
              next => cases hmem

/-- **Every dispatch of an analysis**, for a property that the stages and the
clock keep. -/
theorem Dispatches.keeps {PB PW PE PD : State F → Prop} {trace : Trace} (hd : Drained E s)
    (hk : Keeps E s.rob.startIdx (robTrace E.disasm trace.queue) PB PW PE PD)
    (htick : ∀ t, Inv E s.rob.startIdx (robTrace E.disasm trace.queue) t → PD t →
      PB { t with pipe := endCycle t.pipe })
    (h0 : PB (beginAnalysis E trace.queue s)) (h : Dispatches E trace s u inst) :
    DispatchCall E s.rob.startIdx (robTrace E.disasm trace.queue) u inst ∧ PD u := by
  obtain ⟨n, t, hreach, hmem⟩ := h
  have hP : PB t := Reaches.keeps hd hk htick h0 hreach
  rw [cycleCalls] at hmem
  rcases h₄ : (TraceAnalyzer.beforeIssue E t).bind (issueInsts E) with _ | t₄
  · rw [h₄] at hmem
    cases hmem
  · rw [h₄] at hmem
    obtain ⟨t₃, h₃, h₄⟩ := Option.bind_eq_some_iff.1 h₄
    obtain ⟨t₁, h₁, h₃⟩ := Option.bind_eq_some_iff.1 h₃
    obtain ⟨p₂, h₂, h₃⟩ := Option.bind_eq_some_iff.1 h₃
    obtain ⟨p₃, hp₃, h₃⟩ := Option.bind_eq_some_iff.1 h₃
    obtain rfl := Option.some.inj h₃
    obtain ⟨-, -, hinv₃, hP₃⟩ := hk.beforeIssue (Reaches.inv hd hreach) hP h₁ h₂ hp₃
    obtain ⟨hinv₄, hP₄⟩ := hk.afterIssue hinv₃ hP₃ h₄
    exact hk.dispatchCall hinv₄ (hk.enter t₄ hinv₄ hP₄) hmem

/-! ## Registers -/

/-- `a` is the youngest record in flight before `b` that writes `reg`. -/
structure LastWriter (p : Pipe F) (b a : ℕ) (reg : ℤ) : Prop where
  inFlight : p.InFlight a
  lt : a < b
  writes : reg ∈ (p.heap a).dstReg
  last : ∀ c, a < c → c < b → reg ∉ (p.heap c).dstReg

/-- What the search for registers marks. -/
theorem mem_regsFound (h : Inv E base T u) (a : ℕ) :
    a ∈ (regsFound u.pipe inst).2 ↔ u.pipe.InFlight a ∧
      ∃ reg ∈ inst.srcReg, reg ≠ -1 ∧ LastWriter u.pipe u.pipe.next a reg := by
  constructor
  · intro ha
    have hin := mem_inFlight.1 (scanOlder_marks_subset a ha)
    obtain ⟨reg, hreg, hne, hwrites, hlast⟩ :=
      scanOlder_sound regsScan_exact (older_sorted _ _) ha
    refine ⟨hin, reg, hreg, hne, hin, hin.2, hwrites, fun c hac hc => ?_⟩
    exact hlast c (mem_inFlight.2 ⟨hin.1.trans hac.le, hc⟩) hac
  · rintro ⟨hin, reg, hreg, hne, hw⟩
    refine scanOlder_complete regsScan_exact (older_sorted _ _) (wanted_le_length _ _) hreg hne
      (mem_inFlight.2 hin) hw.writes (fun c hc hac => hw.last c hac (mem_inFlight.1 hc).2)
      fun c hc _ _ => ?_
    exact h.traced.dstReg_tail (mem_inFlight.1 hc).2

/-- **The search for registers is exact**: after it, the row of a dispatched
instruction marks, among the older ones in flight, the last writers of the
registers it reads, and no others. -/
theorem regs_marked_exactly (trace : Trace) (hd : Drained E s) (hrob : E.cfg.robSize ≤ robEntries)
    (hcall : Dispatches E trace s u inst) :
    ∃ v w, enterQueues u inst = some v ∧ findRegsDependency v u.pipe.next = some w ∧
      ∀ a, w.pipe.InFlight a → a < u.pipe.next →
        (w.Marked u.pipe.next a ↔
          ∃ reg ∈ inst.srcReg, reg ≠ -1 ∧ LastWriter w.pipe u.pipe.next a reg) := by
  obtain ⟨hc, -⟩ := hcall.keeps hd (keeps_true E _ _) (fun _ _ _ => trivial) trivial
  have hold := hc.inv.window.oldest_le
  obtain ⟨v, hv, hpipe, hvW, hclean, -⟩ :=
    enterQueues_spec hc.inv.window hc.admits.rob hrob inst
  refine ⟨v, regsSearched u v inst, hv, (searches_eq hpipe hold hvW).1, fun a ha hlt => ?_⟩
  have hin := inFlight_queued hpipe
  have ha : v.pipe.InFlight a := ha
  have hua : u.pipe.InFlight a := ⟨((hin a).1 ha).1, hlt⟩
  -- the older records are as they were
  have hheap : ∀ c, c < u.pipe.next →
      (regsSearched u v inst).pipe.heap c = u.pipe.heap c := by
    intro c hlt
    simp only [regsSearched, scanned, Pipe.setInst, hpipe, queuedPipe,
      Function.update_of_ne (Nat.ne_of_lt hlt)]
  have hwriter : ∀ reg, LastWriter (regsSearched u v inst).pipe u.pipe.next a reg ↔
      LastWriter u.pipe u.pipe.next a reg := by
    intro reg
    constructor
    · rintro ⟨-, -, hw, hlast⟩
      refine ⟨hua, hlt, hheap a hlt ▸ hw, fun c hac hc => ?_⟩
      exact hheap c hc ▸ hlast c hac hc
    · rintro ⟨-, -, hw, hlast⟩
      refine ⟨ha, hlt, (hheap a hlt).symm ▸ hw, fun c hac hc => ?_⟩
      exact (hheap c hc).symm ▸ hlast c hac hc
  rw [marked_regsSearched hpipe hold hvW ha ((hin _).2 ⟨hold, Nat.lt_succ_self _⟩),
    or_iff_right (hclean a ha), mem_regsFound hc.inv]
  simp only [hwriter, true_and, hua]

/-- The sample with three slots: the addition that reads what the load
writes. -/
theorem regs_marked_sample : ∃ u inst, Dispatches (sampleEnv 3) sampleTrace
      (initTraceAnalyzer (sampleEnv 3) blankState) u inst ∧ inst.srcReg = [6, 3] ∧
      ∃ v w, enterQueues u inst = some v ∧ findRegsDependency v u.pipe.next = some w ∧
        ∀ a, w.pipe.InFlight a → a < u.pipe.next →
          (w.Marked u.pipe.next a ↔
            ∃ reg ∈ inst.srcReg, reg ≠ -1 ∧ LastWriter w.pipe u.pipe.next a reg) := by
  have hcalls : ((cycleCalls (sampleEnv 3) (beginAnalysis (sampleEnv 3) sampleTrace.queue
      (initTraceAnalyzer (sampleEnv 3) blankState))).any fun c => decide (c.2.srcReg = [6, 3])) =
      true := by decide
  obtain ⟨⟨u, inst⟩, hmem, hsrc⟩ := List.any_eq_true.1 hcalls
  have hcall : Dispatches (sampleEnv 3) sampleTrace _ u inst := ⟨0, _, rfl, hmem⟩
  exact ⟨u, inst, hcall, of_decide_eq_true hsrc,
    regs_marked_exactly sampleTrace (initTraceAnalyzer_drained _ _) (by decide) hcall⟩

/-! ## Addresses -/

/-- Instruction `r` of the trace was recorded with the address `x`. -/
def RecordedWith (T : List Inst) (r : ℕ) (x : UInt32) : Prop :=
  ∃ inst, T[r]? = some inst ∧ x ∈ inst.effAddr

/-- `a` is the youngest record in flight before `b` that was recorded with the
address `x`. -/
structure LastRecorded (T : List Inst) (p : Pipe F) (b a : ℕ) (x : UInt32) : Prop where
  inFlight : p.InFlight a
  lt : a < b
  recorded : RecordedWith T a x
  last : ∀ c, a < c → c < b → ¬ RecordedWith T c x

/-- **What the search for addresses needs**: the youngest record that was
recorded with an address of the new one still holds it, and no younger one
that shares an address with the new one holds a zero after its first
address. -/
def AddressesKept (T : List Inst) (p : Pipe F) (inst : Inst) : Prop :=
  ∀ x ∈ inst.effAddr, x ≠ 0 → ∀ a, LastRecorded T p p.next a x →
    x ∈ (p.heap a).effAddr ∧
      ∀ c, a < c → c < p.next → (∃ y ∈ inst.effAddr, y ≠ 0 ∧ y ∈ (p.heap c).effAddr) →
        0 ∉ (p.heap c).effAddr.tail

/-- What a record still holds it was recorded with. -/
def Addressed (T : List Inst) (p : Pipe F) : Prop :=
  ∀ r < p.next, ∀ x ∈ (p.heap r).effAddr, x ≠ 0 → RecordedWith T r x

theorem Addressed.congr {q : Pipe F} (h : Addressed T p) (hnext : q.next = p.next)
    (haddr : ∀ r, (q.heap r).effAddr = (p.heap r).effAddr) : Addressed T q := by
  intro r hr x hx
  rw [haddr] at hx
  exact h r (hnext ▸ hr) x hx

theorem Addressed.dispatchStep (h : Addressed T p) (hT : T[p.next]? = some inst) :
    Addressed T (dispatchedPipe p inst) := by
  intro r hr x hx hne
  have hr : r < p.next + 1 := hr
  by_cases hrn : r = p.next
  · subst hrn
    have hx : x ∈ (memsFound p inst).1 := by
      simpa [dispatchedPipe, dispatchedInst] using hx
    exact ⟨inst, hT, scanOlder_entries memsScan_exact hx hne⟩
  · have hx : x ∈ (p.heap r).effAddr := by
      simpa only [dispatchedPipe, Function.update_of_ne hrn] using hx
    exact h r (by omega) x hx hne

theorem addressed_keeps (E : Env F) (base : ℕ) (T : List Inst) :
    Keeps E base T (fun s => Addressed T s.pipe) (fun s => Addressed T s.pipe)
      (fun s => Addressed T s.pipe) (fun s => Addressed T s.pipe) where
  commit s _ hP _ := hP.congr rfl fun r => by
    obtain ⟨c, h⟩ := heap_commitInst s s.pipe.oldest r
    rw [h]
  writeback s done _ hP _ _ := hP.congr rfl fun r => by
    obtain ⟨l, h⟩ := heap_writtenBack done s.pipe r
    rw [h]
  execute s n avg _ hP _ := hP.congr rfl fun r => by
    obtain ⟨st, k, l, h⟩ := heap_executed E s.pipe.fuBuffer.elems s.pipe r
    simp only [executedPipe, h]
  issue s r unit _ hP _ _ _ _ := hP.congr rfl fun x => by
    obtain ⟨st, c, l, h⟩ := heap_issued s r unit x
    rw [h]
  enter _ _ hP := hP
  prepare s inst rest h hP htb := by
    simp only [prepared, prepareFront_eq h.traced.stocked htb]
    exact hP
  drop _ _ _ _ hP _ _ _ := hP
  dispatch s t inst rest h hP htb hset hsup _ hto := by
    rw [hto.pipe]
    exact hP.dispatchStep (h.traced.front htb hset hsup).1

/-- **The search for addresses finds the youngest record** under
`AddressesKept`: after it, the row of a dispatched instruction marks, for each
of its addresses but zero, the youngest older instruction in flight that was
recorded with it. -/
theorem mems_marked (trace : Trace) (hd : Drained E s) (hrob : E.cfg.robSize ≤ robEntries)
    (hcall : Dispatches E trace s u inst)
    (hkept : AddressesKept (robTrace E.disasm trace.queue) u.pipe inst) :
    ∃ v w y, enterQueues u inst = some v ∧ findRegsDependency v u.pipe.next = some w ∧
      findMemsDependency w u.pipe.next = some y ∧
      ∀ x ∈ inst.effAddr, x ≠ 0 → ∀ a,
        LastRecorded (robTrace E.disasm trace.queue) y.pipe u.pipe.next a x →
        y.Marked u.pipe.next a := by
  obtain ⟨hc, haddr⟩ := hcall.keeps hd (addressed_keeps E _ _)
    (fun _ _ hP => hP.congr rfl fun _ => rfl) (fun r hr => absurd hr (Nat.not_lt_zero r))
  have hold := hc.inv.window.oldest_le
  obtain ⟨v, hv, hpipe, hvW, -⟩ := enterQueues_spec hc.inv.window hc.admits.rob hrob inst
  obtain ⟨hregs, hmems⟩ := searches_eq hpipe hold hvW
  refine ⟨v, regsSearched u v inst, searched u v inst, hv, hregs, hmems, fun x hx hne a ha => ?_⟩
  have hin := inFlight_queued hpipe
  have hva : v.pipe.InFlight a := ha.inFlight
  have hua : u.pipe.InFlight a := ⟨((hin a).1 hva).1, ha.lt⟩
  obtain ⟨hholds, hclean⟩ := hkept x hx hne a ⟨hua, ha.lt, ha.recorded, ha.last⟩
  rw [marked_searched hpipe hold hvW hva ((hin _).2 ⟨hold, Nat.lt_succ_self _⟩)]
  refine .inr ⟨rfl, List.mem_append_right _ ?_⟩
  refine scanOlder_complete memsScan_exact (older_sorted _ _) (wanted_le_length _ _) hx hne
    (mem_inFlight.2 hua) hholds (fun c hc hac hxc => ?_) fun c hc hac => ?_
  · have hlt := (mem_inFlight.1 hc).2
    exact ha.last c hac hlt (haddr c hlt x hxc hne)
  · exact hclean c hac (mem_inFlight.1 hc).2

/-- Three loads from one address. -/
def loadsTrace : Trace where
  queue := ⟨[setInstEffAddr (initInst 0 0 0xE5943000) 0x1000 .l1Hit,
    setInstEffAddr (initInst 1 4 0xE5943000) 0x1000 .l1Hit,
    setInstEffAddr (initInst 2 8 0xE5943000) 0x1000 .l1Hit], 1000001⟩
  fits := by decide
  recorded := by
    intro inst h
    simp only [List.mem_cons, List.not_mem_nil, or_false] at h
    rcases h with rfl | rfl | rfl
    · exact ⟨_, _, _, rfl⟩
    · exact ⟨_, _, _, rfl⟩
    · exact ⟨_, _, _, rfl⟩

/-- The state before the first cycle of the analysis of the loads. -/
def loadsState : State ℚ :=
  beginAnalysis (sampleEnv 3) loadsTrace.queue (initTraceAnalyzer (sampleEnv 3) blankState)

/-- The second load finds the first. -/
theorem mems_marked_second : ∃ u inst, Dispatches (sampleEnv 3) loadsTrace
      (initTraceAnalyzer (sampleEnv 3) blankState) u inst ∧ u.pipe.next = 1 ∧
      ∃ v w y, enterQueues u inst = some v ∧ findRegsDependency v u.pipe.next = some w ∧
        findMemsDependency w u.pipe.next = some y ∧
        ∀ x ∈ inst.effAddr, x ≠ 0 → ∀ a,
          LastRecorded (robTrace (sampleEnv 3).disasm loadsTrace.queue) y.pipe u.pipe.next a x →
          y.Marked u.pipe.next a := by
  have hcalls : ((cycleCalls (sampleEnv 3) loadsState).any fun c => decide (c.1.pipe.next = 1 ∧
      c.2.effAddr = [0x1000] ∧ (c.1.pipe.heap 0).effAddr = [0x1000])) = true := by decide
  obtain ⟨⟨u, inst⟩, hmem, h⟩ := List.any_eq_true.1 hcalls
  obtain ⟨hnext, haddr, hheld⟩ := of_decide_eq_true h
  have hcall : Dispatches (sampleEnv 3) loadsTrace _ u inst := ⟨0, loadsState, rfl, hmem⟩
  have hkept : AddressesKept (robTrace (sampleEnv 3).disasm loadsTrace.queue) u.pipe inst := by
    intro x hx _ a ha
    have hlt := ha.lt
    simp only at hnext haddr hheld
    obtain rfl : a = 0 := by omega
    exact ⟨by rw [hheld, ← haddr]; exact hx, fun c hac hc => by omega⟩
  exact ⟨u, inst, hcall, hnext,
    mems_marked loadsTrace (initTraceAnalyzer_drained _ _) (by decide) hcall hkept⟩

/-- **The third load does not find the second**, whose address was overwritten
when it found the first. -/
theorem mems_not_marked_third : ∃ u inst, Dispatches (sampleEnv 3) loadsTrace
      (initTraceAnalyzer (sampleEnv 3) blankState) u inst ∧ 0x1000 ∈ inst.effAddr ∧
      ∃ v w y, enterQueues u inst = some v ∧ findRegsDependency v u.pipe.next = some w ∧
        findMemsDependency w u.pipe.next = some y ∧
        LastRecorded (robTrace (sampleEnv 3).disasm loadsTrace.queue) y.pipe u.pipe.next 1 0x1000 ∧
        ¬ y.Marked u.pipe.next 1 := by
  have hcalls : ((cycleCalls (sampleEnv 3) loadsState).any fun c =>
      decide (c.1.pipe.next = 2 ∧ 0x1000 ∈ c.2.effAddr) &&
        ((enterQueues c.1 c.2).bind fun v => (findRegsDependency v c.1.pipe.next).bind fun w =>
          findMemsDependency w c.1.pipe.next).any fun y =>
            decide (y.pipe.InFlight 1 ∧ ¬ y.Marked c.1.pipe.next 1)) = true := by decide
  obtain ⟨⟨u, inst⟩, hmem, h⟩ := List.any_eq_true.1 hcalls
  obtain ⟨hcall, h⟩ := Bool.and_eq_true_iff.1 h
  obtain ⟨hnext, haddr⟩ := of_decide_eq_true hcall
  obtain ⟨y, hy, h⟩ := (Option.any_eq_true _ _).1 h
  obtain ⟨hin, hnot⟩ := of_decide_eq_true h
  obtain ⟨v, hv, hy⟩ := Option.bind_eq_some_iff.1 hy
  obtain ⟨w, hw, hy⟩ := Option.bind_eq_some_iff.1 hy
  simp only at hnext
  have hlast : LastRecorded (robTrace (sampleEnv 3).disasm loadsTrace.queue) y.pipe u.pipe.next 1
      0x1000 :=
    ⟨hin, by omega, ⟨_, rfl, by decide⟩, fun c h1 h2 => by omega⟩
  exact ⟨u, inst, ⟨0, loadsState, rfl, hmem⟩, haddr, v, w, y, hv, hw, hy, hlast, hnot⟩

end TraceAnalyzer

end Tqsim
