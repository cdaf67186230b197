import Tqsim.TraceAnalyzer.Issue
import Tqsim.TraceAnalyzer.Model.Darm

/-!
# The indices of the reorder buffer

`ROB.entries` and both dimensions of `dep_mat` have sixty entries, and the
modulus of the indices is the `rob_size` of the configuration. `Uses` collects
the indices that the functions of the two files use in one cycle, each with
the state in which the function is called; they are below sixty in every
cycle of every analysis just when `rob_size` is at most sixty, or nothing is
ever dispatched.
-/

namespace Tqsim

namespace TraceAnalyzer

open Circular (slot)

variable {F : Type} {s t u v x y z : State F} {E : Env F} {base b i n r w : ℕ} {T : List Inst}
variable {trace : Trace} {inst : Inst}

/-! ## The calls of a cycle -/

/-- The slots that a scan from a record towards older ones may read with
`rob_get_inst`: up to `start_idx`, and none from there. -/
inductive Scanned (s : State F) (b : ℕ) : ℕ → Prop
  | first : s.rob.robIdx b ≠ s.rob.startIdx → Scanned s b (s.rob.prevIdx (s.rob.robIdx b))
  | next {idx : ℕ} : Scanned s b idx → idx ≠ s.rob.startIdx → Scanned s b (s.rob.prevIdx idx)

/-- The indices of such a scan: the slots it reads, and the rows and columns
of the dependency matrix for the records in them. -/
inductive ScanUses (s : State F) (b : ℕ) : ℕ → Prop
  | slot {idx : ℕ} : Scanned s b idx → ScanUses s b idx
  | row : ScanUses s b (s.rob.robIdx b)
  | column {idx a : ℕ} : Scanned s b idx → s.rob.getInst idx = some a →
      ScanUses s b (s.rob.robIdx a)

/-- A turn of the loop of `dispatch_insts` from `x` decodes and expands the
front of the buffer, which leaves the state `y` and the record `front` at the
front, and its tests let the record pass. -/
def Passes (E : Env F) (x y : State F) (front : Inst) : Prop :=
  ∃ inst, x.pipe.traceBuffer.frontInstElem = some inst ∧ y = prepared E x inst ∧
    y.pipe.traceBuffer.frontInstElem = some front ∧ dispatchBlocked y front = false

/-- The states at the head of the loop of `dispatch_insts`, with the width
that is left. -/
inductive DispatchReaches (E : Env F) (v : State F) : ℕ → State F → Prop
  | start : DispatchReaches E v E.cfg.frontendWidth.toNat v
  | drop {w : ℕ} {x y : State F} {front : Inst} : DispatchReaches E v (w + 1) x →
      Passes E x y front → front.type = .unsupported → DispatchReaches E v (w + 1) (dropped y)
  | enter {w : ℕ} {x y z : State F} {front : Inst} : DispatchReaches E v (w + 1) x →
      Passes E x y front → front.type ≠ .unsupported → dispatchFront y front = some z →
      DispatchReaches E v w z

/-- A cycle from `t` enters the record `front` into the reorder buffer, in the
state `y`. -/
def Enters (E : Env F) (t y : State F) (front : Inst) : Prop :=
  ∃ u v w x, beforeIssue E t = some u ∧ issueInsts E u = some v ∧
    DispatchReaches E v (w + 1) x ∧ Passes E x y front ∧ front.type ≠ .unsupported

/-- **The indices that a cycle uses.** -/
inductive Uses (E : Env F) (t : State F) : ℕ → Prop
  /-- `rob_get_oldest_inst`, after some commits. -/
  | oldest {k : ℕ} {x : State F} : k < E.cfg.backendWidth.toNat → commitLoop k t = some x →
      x.rob.isEmpty = false → Uses E t x.rob.startIdx
  /-- `rob_get_inst` and `is_dependent`, in `has_dependency`. -/
  | waits {u x : State F} {r i : ℕ} : beforeIssue E t = some u → Tried E u r x →
      ScanUses x r i → Uses E t i
  /-- `rob_insert_inst`, and the row of `clean_dependency`. -/
  | insert {y : State F} {inst : Inst} : Enters E t y inst → Uses E t y.rob.endIdx
  /-- The columns that `clean_dependency` clears. -/
  | clean {y : State F} {inst : Inst} {i : ℕ} : Enters E t y inst → i < y.rob.capacity →
      Uses E t i
  /-- `rob_get_inst` and `set_dependency`, in the two dependency searches. -/
  | found {y z : State F} {inst : Inst} {i : ℕ} : Enters E t y inst →
      enterQueues y inst = some z → ScanUses z y.pipe.next i → Uses E t i

/-! ## Scans -/

/-- A scan reads the slots of older records in flight. -/
theorem Scanned.inFlight {cap : ℕ} {idx : ℕ} (hW : Window cap base s.pipe s.rob)
    (hb : s.pipe.InFlight b) (h : Scanned s b idx) :
    ∃ a, s.pipe.InFlight a ∧ idx = slot cap base a := by
  have hpred : ∀ a, s.pipe.InFlight a → slot cap base a ≠ s.rob.startIdx →
      ∃ a', s.pipe.InFlight a' ∧ s.rob.prevIdx (slot cap base a) = slot cap base a' := by
    intro a ha hne
    have hold : a ≠ s.pipe.oldest := fun heq => hne ((hW.slot_eq_start ha).2 heq)
    obtain ⟨hle, hlt⟩ := ha
    obtain ⟨c, rfl⟩ : ∃ c, a = c + 1 := ⟨a - 1, by omega⟩
    exact ⟨c, ⟨by omega, by omega⟩, hW.prevIdx (hW.cap_pos hb)⟩
  induction h with
  | first hne =>
    rw [hW.idx b hb] at hne ⊢
    exact hpred b hb hne
  | next _ hne ih =>
    obtain ⟨a, ha, rfl⟩ := ih
    exact hpred a ha hne

/-- **The indices of a scan are in range.** -/
theorem ScanUses.lt_robEntries {cap : ℕ} (hW : Window cap base s.pipe s.rob)
    (hb : s.pipe.InFlight b) (h : ScanUses s b i) : i < robEntries := by
  cases h with
  | slot hscan =>
    obtain ⟨a, ha, rfl⟩ := hscan.inFlight hW hb
    exact hW.slot_lt_robEntries ha
  | row =>
    rw [hW.idx b hb]
    exact hW.slot_lt_robEntries hb
  | column hscan hget =>
    obtain ⟨a, ha, rfl⟩ := hscan.inFlight hW hb
    obtain rfl := Option.some.inj ((hW.getInst ha).symm.trans hget)
    rw [hW.idx a ha]
    exact hW.slot_lt_robEntries ha

/-! ## The loop of `dispatch_insts` -/

theorem elems_eq_cons {q : InstQueue Inst} (h : q.frontInstElem = some inst) :
    ∃ rest, q.elems = inst :: rest := by
  unfold InstQueue.frontInstElem at h
  cases hq : q.elems with
  | nil =>
    rw [hq] at h
    cases h
  | cons a rest =>
    rw [hq] at h
    exact ⟨rest, by rw [Option.some.inj h]⟩

theorem Passes.inv {front : Inst} (h : Inv E base T x) (hp : Passes E x y front) :
    Inv E base T y ∧ Admits E.cfg.robSize y.pipe front ∧
      ∃ rest, y.pipe.traceBuffer.elems = front :: rest ∧ front.Settled := by
  obtain ⟨inst, hfront, rfl, hfront', hblocked⟩ := hp
  obtain ⟨rest, htb⟩ := elems_eq_cons hfront
  have hy := h.prepareStep htb
  obtain ⟨front', rest', htb', hset⟩ := prepared_front E h.traced.stocked htb
  rw [InstQueue.frontInstElem, htb'] at hfront'
  obtain rfl := Option.some.inj hfront'
  exact ⟨hy, (dispatchBlocked_eq_false_iff hy.window).1 hblocked, rest', htb', hset⟩

theorem DispatchReaches.inv (h : Inv E base T v) (hx : DispatchReaches E v w x) :
    Inv E base T x := by
  induction hx with
  | start => exact h
  | drop _ hp htype ih =>
    obtain ⟨hy, -, rest, htb, hset⟩ := hp.inv ih
    exact hy.dropStep htb hset htype
  | enter _ hp htype hz ih =>
    obtain ⟨hy, hadm, rest, htb, hset⟩ := hp.inv ih
    obtain ⟨z', hz', hto⟩ :=
      dispatchFront_spec hy.window hadm.rob (array_of_dispatchFront hy.window hz) _
    obtain rfl := Option.some.inj (hz'.symm.trans hz)
    exact hy.dispatchStep htb hset htype hadm hto

/-- What is known where a record is entered. -/
theorem Enters.inv {front : Inst} (h : Inv E base T t) (he : Enters E t y front) :
    Inv E base T y ∧ Admits E.cfg.robSize y.pipe front ∧ 0 < E.cfg.frontendWidth := by
  obtain ⟨u, v, w, x, hu, hv, hx, hp, -⟩ := he
  obtain ⟨hinv, -⟩ := (keeps_true E base T).enterIssue h trivial hu
  obtain ⟨hinv, -⟩ := (keeps_true E base T).afterIssue hinv trivial hv
  obtain ⟨hy, hadm, -⟩ := hp.inv (hx.inv hinv)
  refine ⟨hy, hadm, ?_⟩
  have hwidth : ∀ {w : ℕ} {x : State F}, DispatchReaches E v w x →
      w ≤ E.cfg.frontendWidth.toNat := by
    intro w x hx
    induction hx with
    | start => exact le_rfl
    | drop _ _ _ ih => exact ih
    | enter _ _ _ _ ih => omega
  have := hwidth hx
  omega

/-! ## The range -/

/-- **The configurations whose indices stay in range**: those with a reorder
buffer no longer than the array, and those that dispatch nothing. -/
def RobInRange (cfg : PerfmodelConfig) : Prop :=
  cfg.robSize ≤ robEntries ∨ cfg.frontendWidth ≤ 0 ∨ cfg.iqSize < 0

/-- A configuration that enters a record has a reorder buffer that fits. -/
theorem Enters.robSize_le {front : Inst} (h : Inv E base T t) (he : Enters E t y front)
    (hcfg : RobInRange E.cfg) : E.cfg.robSize ≤ robEntries := by
  obtain ⟨hy, hadm, hwidth⟩ := he.inv h
  rcases hcfg with hle | hfront | hiq
  · exact hle
  · omega
  · have hroom := hadm.iq
    rw [InstQueue.HasRoom, hy.units.iq] at hroom
    omega

theorem Uses.lt_robEntries (h : Inv E base T t) (hpos : 1 ≤ E.cfg.robSize)
    (hcfg : RobInRange E.cfg) (hi : Uses E t i) : i < robEntries := by
  cases hi with
  | oldest _ hx hne =>
    obtain ⟨x', hx', hinv⟩ := commitLoop_rule (P := fun _ => True) (fun _ _ _ _ => trivial) _
      h.window trivial
    obtain rfl := Option.some.inj (hx'.symm.trans hx)
    have hle := hinv.1.oldest_le
    have hlt : x'.pipe.oldest < x'.pipe.next := by
      rcases Nat.lt_or_eq_of_le hle with hlt | heq
      · exact hlt
      · rw [hinv.1.isEmpty_iff.2 heq] at hne
        cases hne
    rw [hinv.1.start]
    exact hinv.1.slot_lt_robEntries ⟨le_rfl, hlt⟩
  | waits hu htried hscan =>
    obtain ⟨hinv, -⟩ := (keeps_true E base T).enterIssue h trivial hu
    obtain ⟨pre, post, heq, hx⟩ := htried
    obtain ⟨x', -, hx', -, hinv', -, hmem, -⟩ := issueLoop_append (P := fun _ => True) hinv trivial
      (fun _ _ _ _ _ _ _ _ _ => trivial) (heq ▸ hinv.stages.iq_sorted.imp Nat.ne_of_lt)
      (fun r hr => heq ▸ hr) E.cfg.backendWidth.toNat
    obtain rfl := Option.some.inj (hx'.symm.trans hx)
    exact hscan.lt_robEntries hinv'.window
      (hinv'.stages.inFlight_of_mem_iq (hmem _ (List.mem_cons_self ..)))
  | insert he =>
    rw [(he.inv h).1.window.finish]
    exact lt_of_lt_of_le (Circular.slot_lt hpos) (he.robSize_le h hcfg)
  | clean he hlt =>
    rw [(he.inv h).1.window.capacity] at hlt
    exact lt_of_lt_of_le hlt (he.robSize_le h hcfg)
  | found he hz hscan =>
    obtain ⟨hy, hadm, -⟩ := he.inv h
    obtain ⟨z', hz', hpipe, hW, -⟩ :=
      enterQueues_spec hy.window hadm.rob (he.robSize_le h hcfg) _
    obtain rfl := Option.some.inj (hz'.symm.trans hz)
    refine hscan.lt_robEntries hW ?_
    rw [hpipe]
    exact ⟨hy.window.oldest_le, Nat.lt_succ_self _⟩

/-! ## A trace that leaves it -/

/-- A trace of one `add r0, r1, r2`. -/
def addTrace : Trace where
  queue := ⟨[initInst 0 0 0xE0810002], 0⟩
  fits := .inl rfl
  recorded := by
    intro inst hinst
    rw [List.mem_singleton.1 hinst]
    exact ⟨_, _, _, rfl⟩

/-- The stages before dispatch have nothing to do in the first cycle. -/
theorem Drained.first_stages (hd : Drained E s) (trace : Trace) :
    beforeIssue E (beginAnalysis E trace.queue s) = some (beginAnalysis E trace.queue s) ∧
      issueInsts E (beginAnalysis E trace.queue s) = some (beginAnalysis E trace.queue s) := by
  have hcommit : commitInsts E (beginAnalysis E trace.queue s) =
      some (beginAnalysis E trace.queue s) := by
    unfold commitInsts
    cases E.cfg.backendWidth.toNat with
    | zero => rfl
    | succ w =>
      rw [commitLoop, if_pos]
      simp [beginAnalysis, ROB.isEmpty, hd.robSize]
  have hfub : (beginAnalysis E trace.queue s).pipe.fuBuffer.elems = [] := by
    simp [beginAnalysis, hd.fuBuffer]
  constructor
  · simp only [beforeIssue, hcommit, writebackInsts, executeInsts, hfub, writebackLoop,
      executeLoop, Option.bind_eq_bind, Option.bind_some]
  · rw [issueInsts, if_pos]
    simp [beginAnalysis, hd.iq, InstQueue.isEmptyQueue, InstQueue.size]

/-- In its first cycle the record is entered, unless nothing ever is. -/
theorem enters_addTrace (hdisasm : E.disasm = disasm) (hd : Drained E s)
    (hpos : 1 ≤ E.cfg.robSize) (hwidth : 0 < E.cfg.frontendWidth) (hiq : 0 ≤ E.cfg.iqSize) :
    ∃ y front, Enters E (beginAnalysis E addTrace.queue s) y front ∧
      y.rob.capacity = E.cfg.robSize := by
  obtain ⟨hu, hv⟩ := hd.first_stages addTrace
  have htype : (decodeInst E.disasm (initInst 0 0 0xE0810002)).type = .intAlu := by
    rw [hdisasm]
    decide
  have hfront : (prepared E (beginAnalysis E addTrace.queue s)
      (initInst 0 0 0xE0810002)).pipe.traceBuffer.frontInstElem =
        some (decodeInst E.disasm (initInst 0 0 0xE0810002)) := by
    simp [prepared, prepareFront, convertMicroop, htype, InstQueue.frontInstElem]
  obtain ⟨w, hw⟩ : ∃ w, E.cfg.frontendWidth.toNat = w + 1 :=
    ⟨E.cfg.frontendWidth.toNat - 1, by omega⟩
  have hstart : DispatchReaches E (beginAnalysis E addTrace.queue s) (w + 1) _ :=
    hw ▸ DispatchReaches.start
  have hinv := hd.inv addTrace
  have htb : (beginAnalysis E addTrace.queue s).pipe.traceBuffer.elems =
      [initInst 0 0 0xE0810002] := rfl
  refine ⟨prepared E (beginAnalysis E addTrace.queue s) (initInst 0 0 0xE0810002),
    decodeInst E.disasm (initInst 0 0 0xE0810002), ⟨_, _, w, _, hu, hv, hstart, ?_, ?_⟩,
    hd.robCapacity⟩
  · refine ⟨_, rfl, rfl, hfront, ?_⟩
    rw [dispatchBlocked_eq_false_iff (hinv.prepareStep htb).window]
    simp only [prepared, prepareFront_eq hinv.traced.stocked htb]
    refine ⟨?_, ?_, fun h => ?_, fun h => ?_⟩
    · simpa [beginAnalysis, Pipe.oldest] using Nat.lt_of_succ_le hpos
    · rw [InstQueue.HasRoom, hinv.units.iq]
      simp only [beginAnalysis, hd.iq, InstQueue.size, List.length_nil]
      omega
    · rw [htype] at h
      cases h
    · rw [htype] at h
      cases h
  · rw [htype]
    decide

/-- **The indices stay in range** in every cycle of every analysis just for
the configurations whose reorder buffer is no longer than the array, and
those that dispatch nothing. -/
theorem uses_lt_robEntries_iff (E : Env F) (hdisasm : E.disasm = disasm)
    (hpos : 1 ≤ E.cfg.robSize) (s : State F) (hd : Drained E s) :
    (∀ trace n t, Reaches E trace s n t → ∀ i, Uses E t i → i < robEntries) ↔
      RobInRange E.cfg := by
  constructor
  · intro hall
    by_contra hcfg
    simp only [RobInRange, not_or, not_le, not_lt] at hcfg
    obtain ⟨hrob, hwidth, hiq⟩ := hcfg
    obtain ⟨y, front, he, hcap⟩ := enters_addTrace hdisasm hd hpos hwidth hiq
    exact absurd (hall addTrace 0 _ rfl robEntries (.clean he (hcap ▸ hrob))) (lt_irrefl _)
  · intro hcfg trace n t ht i hi
    exact hi.lt_robEntries (ht.inv hd) hpos hcfg

/-- The sample's core with the embedded disassembler, and its reorder
buffer. -/
def addEnv (robSize : ℕ) : Env ℚ := { sampleEnv robSize with disasm := disasm }

/-- A reorder buffer of forty entries. -/
theorem uses_lt_robEntries_forty :
    (∀ trace n t, Reaches (addEnv 40) trace (initTraceAnalyzer (addEnv 40) blankState) n t →
      ∀ i, Uses (addEnv 40) t i → i < robEntries) ↔ RobInRange (addEnv 40).cfg :=
  uses_lt_robEntries_iff (addEnv 40) rfl (by decide) _ (initTraceAnalyzer_drained _ _)

/-- With sixty-one entries the first record that is entered clears a column
that the row does not have, and the sixty-first one is put in a slot that
the array does not have. -/
theorem rob_of_sixty_one :
    (∃ t, Reaches (addEnv 61) addTrace (initTraceAnalyzer (addEnv 61) blankState) 0 t ∧
        Uses (addEnv 61) t 60) ∧
      ((List.range 60).foldlM ROB.insertInst (blankState.rob.init 61)).map ROB.endIdx = some 60 ∧
      ((List.range 61).foldlM ROB.insertInst (blankState.rob.init 61)).isNone := by
  refine ⟨?_, by decide⟩
  obtain ⟨y, front, he, hcap⟩ := enters_addTrace (E := addEnv 61) rfl
    (initTraceAnalyzer_drained _ blankState) (by decide) (by decide) (by decide)
  exact ⟨_, rfl, .clean he (by rw [hcap]; decide)⟩

end TraceAnalyzer

end Tqsim
