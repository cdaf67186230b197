import Tqsim.Model.Perfmodel
import Tqsim.TraceAnalyzer.Bounds
import Tqsim.TraceAnalyzer.Progress

/-!
# The dispatch bandwidth

`dispatch_insts` counts its width down with each record it enters in the
reorder buffer. A record of an unsupported type is taken from the trace
buffer and does not count, so that any number of them leave it in one cycle.
What the width bounds in any case is the number of the others, per cycle and
over a whole analysis; it bounds the rate of the sample where there is no
unsupported record.
-/

namespace Tqsim

namespace TraceAnalyzer

variable {F : Type} {E : Env F} {base : ℕ} {T : List Inst} {s s' t : State F}
variable {trace : Trace} {inst : Inst} {rest : List Inst}

/-- The instructions of the micro-op expanded trace that dispatch has not
removed yet. -/
def expanded (E : Env F) (s : State F) : List Inst :=
  expandTrace E.disasm s.pipe.traceBuffer.capacity s.pipe.traceBuffer.elems

theorem expanded_prepared (h : Inv E base T s) (htb : s.pipe.traceBuffer.elems = inst :: rest) :
    expanded E (prepared E s inst) = expanded E s := by
  have hst := h.traced.stocked
  have hin : inst.Buffered := hst.buffered inst (htb ▸ List.mem_cons_self ..)
  simp only [expanded, prepared, prepareFront_eq hst htb, htb,
    expandTrace_prepared hin (hst.fits_cons htb)]

/-- A record that is taken from the front is the first of the expansion. -/
theorem expanded_pop (h : Inv E base T s) (htb : s.pipe.traceBuffer.elems = inst :: rest)
    (hset : inst.Settled) (ht : t.pipe.traceBuffer = s.pipe.traceBuffer.popFrontInst) :
    expanded E s = inst :: expanded E t := by
  simp only [expanded, ht, htb, InstQueue.popFrontInst, List.tail_cons]
  exact expandTrace_cons_settled hset (h.traced.stocked.fits_cons htb)

/-- A configuration in which a record can leave the trace buffer. -/
def CanDispatch (cfg : PerfmodelConfig) : Prop :=
  0 < cfg.frontendWidth ∧ 0 < cfg.robSize ∧ 0 ≤ cfg.iqSize

theorem Admits.config (h : Inv E base T s) (hadm : Admits E.cfg.robSize s.pipe inst) :
    0 < E.cfg.robSize ∧ 0 ≤ E.cfg.iqSize := by
  have hroom := hadm.iq
  rw [InstQueue.HasRoom, h.units.iq] at hroom
  have hrob := hadm.rob
  have hold := h.window.oldest_le
  exact ⟨by omega, by omega⟩

/-- **What the loop of `dispatch_insts` removes**: a first part of the
expansion, with no more supported instructions than the width left, and
nothing in a configuration that has no room. -/
theorem dispatchLoop_removes {fuel w : ℕ} (h : Inv E base T s)
    (hs' : dispatchLoop E fuel w s = some s') :
    ∃ removed, expanded E s = removed ++ expanded E s' ∧ (supported removed).length ≤ w ∧
      (removed ≠ [] → 0 < w ∧ 0 < E.cfg.robSize ∧ 0 ≤ E.cfg.iqSize) := by
  induction fuel generalizing w s with
  | zero =>
    cases w with
    | zero =>
      obtain rfl : s = s' := by simpa [dispatchLoop] using hs'
      exact ⟨[], rfl, le_rfl, fun hne => absurd rfl hne⟩
    | succ w => simp [dispatchLoop] at hs'
  | succ fuel ih =>
    cases w with
    | zero =>
      obtain rfl : s = s' := by simpa [dispatchLoop] using hs'
      exact ⟨[], rfl, le_rfl, fun hne => absurd rfl hne⟩
    | succ w =>
      rcases htb : s.pipe.traceBuffer.elems with _ | ⟨inst, rest⟩
      · obtain rfl : s = s' := by simpa [dispatchLoop_nil fuel w htb] using hs'
        exact ⟨[], rfl, Nat.zero_le _, fun hne => absurd rfl hne⟩
      · obtain ⟨front, rest', hfront, hset⟩ := prepared_front E h.traced.stocked htb
        have hprep := h.prepareStep htb
        rw [← expanded_prepared h htb]
        rw [dispatchLoop_succ fuel w htb hfront] at hs'
        split at hs'
        next =>
          obtain rfl := Option.some.inj hs'
          exact ⟨[], rfl, Nat.zero_le _, fun hne => absurd rfl hne⟩
        next hblock =>
          have hadm := (dispatchBlocked_eq_false_iff hprep.window).1 (Bool.eq_false_iff.2 hblock)
          have hcfg := Admits.config hprep hadm
          split at hs'
          next htype =>
            -- an unsupported record leaves the width as it is
            obtain ⟨removed, heq, hle, -⟩ := ih (hprep.dropStep hfront hset htype) hs'
            refine ⟨front :: removed, ?_, ?_, fun _ => ⟨Nat.succ_pos w, hcfg⟩⟩
            · rw [expanded_pop (t := dropped (prepared E s inst)) hprep hfront hset rfl,
                List.cons_append]
              exact congrArg (front :: ·) heq
            · simpa [supported, htype] using hle
          next htype =>
            obtain ⟨t, ht, hs'⟩ := Option.bind_eq_some_iff.1 hs'
            obtain ⟨t', ht', hto⟩ := dispatchFront_spec hprep.window hadm.rob
              (array_of_dispatchFront hprep.window ht) front
            obtain rfl : t' = t := Option.some.inj (ht'.symm.trans ht)
            obtain ⟨removed, heq, hle, -⟩ :=
              ih (hprep.dispatchStep hfront hset htype hadm hto) hs'
            refine ⟨front :: removed, ?_, ?_, fun _ => ⟨Nat.succ_pos w, hcfg⟩⟩
            · rw [expanded_pop (t := t') hprep hfront hset (by rw [hto.pipe]; rfl),
                List.cons_append]
              exact congrArg (front :: ·) heq
            · simpa [supported, htype] using hle

/-- **What a call of `dispatch_insts` removes.** -/
theorem dispatchInsts_removes (h : Inv E base T s) (hs' : dispatchInsts E s = some s') :
    ∃ removed, expanded E s = removed ++ expanded E s' ∧
      (supported removed).length ≤ E.cfg.frontendWidth.toNat ∧
      (removed ≠ [] → CanDispatch E.cfg) := by
  obtain ⟨removed, heq, hle, hne⟩ := dispatchLoop_removes h hs'
  refine ⟨removed, heq, hle, fun hrem => ?_⟩
  obtain ⟨hw, hcfg⟩ := hne hrem
  exact ⟨by omega, hcfg⟩

/-! ## A whole analysis -/

/-- The other stages leave the trace buffer alone. -/
theorem traceBuffer_keeps (E : Env F) (base : ℕ) (T : List Inst) (q : InstQueue Inst) :
    Keeps E base T (fun s => s.pipe.traceBuffer = q) (fun s => s.pipe.traceBuffer = q)
      (fun s => s.pipe.traceBuffer = q) (fun _ => True) where
  commit _ _ hP _ := hP
  writeback _ _ _ hP _ _ := hP
  execute _ _ _ _ hP _ := hP
  issue _ _ _ _ hP _ _ _ _ := hP
  enter _ _ _ := trivial
  prepare _ _ _ _ _ _ := trivial
  drop _ _ _ _ _ _ _ _ := trivial
  dispatch _ _ _ _ _ _ _ _ _ _ _ := trivial

/-- The state in which `dispatch_insts` is called has the invariant, and the
trace buffer of the cycle's beginning. -/
theorem beforeDispatch {u v : State F} (h : Inv E base T s) (hu : beforeIssue E s = some u)
    (hv : issueInsts E u = some v) : Inv E base T v ∧ expanded E v = expanded E s := by
  have hk := traceBuffer_keeps E base T s.pipe.traceBuffer
  obtain ⟨hinv, htb⟩ := hk.enterIssue h rfl hu
  obtain ⟨hinv, htb⟩ := hk.afterIssue hinv htb hv
  exact ⟨hinv, by simp only [expanded, htb]⟩

/-- **What `n` cycles have removed** of the expanded trace `X`. -/
def Drawn (E : Env F) (X : List Inst) (n : ℕ) (s : State F) : Prop :=
  ∃ removed, X = removed ++ expanded E s ∧
    (supported removed).length ≤ n * E.cfg.frontendWidth.toNat ∧
    (removed ≠ [] → CanDispatch E.cfg)

theorem Drawn.step {X : List Inst} {n : ℕ} (h : Inv E base T s) (hd : Drawn E X n s)
    (hs' : cycle E s = some s') : Drawn E X (n + 1) s' := by
  obtain ⟨u, hu, hs'⟩ := Option.bind_eq_some_iff.1 hs'
  obtain ⟨v, hv, hs'⟩ := Option.bind_eq_some_iff.1 hs'
  obtain ⟨t, ht, hs'⟩ := Option.bind_eq_some_iff.1 hs'
  obtain rfl := Option.some.inj hs'
  obtain ⟨hinv, hexp⟩ := beforeDispatch h hu hv
  obtain ⟨now, heq, hle, hne⟩ := dispatchInsts_removes hinv ht
  obtain ⟨removed, hX, hle', hne'⟩ := hd
  refine ⟨removed ++ now, ?_, ?_, fun hor => ?_⟩
  · rw [hX, ← hexp, heq, List.append_assoc]
    rfl
  · rw [supported, List.filter_append, List.length_append, Nat.succ_mul]
    exact Nat.add_le_add hle' hle
  · by_cases hnil : removed = []
    · exact hne (by rintro rfl; exact hor (by rw [hnil]; rfl))
    · exact hne' hnil

/-- **The cycle that is returned bounds what was dispatched**: the whole
expansion, in so many cycles. -/
theorem analysisLoop_drawn {X : List Inst} {fuel c last : ℕ} {a : Analysis F} (h : Inv E base T s)
    (hc : s.pipe.curCycle = c) (hd : Drawn E X c s)
    (hlast : last ≠ 0 → (supported X).length ≤ last * E.cfg.frontendWidth.toNat ∧
      (X ≠ [] → CanDispatch E.cfg))
    (ha : analysisLoop E 0 fuel c last s = some a) :
    (supported X).length ≤ a.lastCycle * E.cfg.frontendWidth.toNat ∧
      (X ≠ [] → CanDispatch E.cfg) := by
  induction fuel generalizing c last s with
  | zero => cases ha
  | succ fuel ih =>
    obtain ⟨t, ht⟩ := cycle_of_analysisLoop ha
    rw [analysisLoop_succ ht] at ha
    have hinv := h.step ht
    have hd' := hd.step h ht
    have hcur : t.pipe.curCycle = c + 1 := by
      obtain ⟨u, -, hu, rfl⟩ := (curCycle_keeps E base T c).cycle h hc ht
      exact congrArg (· + 1) hu
    -- where everything fetched is dispatched, the expansion is used up
    have hnext : lastCycleAfter last t.pipe ≠ 0 →
        (supported X).length ≤ lastCycleAfter last t.pipe * E.cfg.frontendWidth.toNat ∧
          (X ≠ [] → CanDispatch E.cfg) := by
      intro hne
      unfold lastCycleAfter at hne ⊢
      split at hne
      next hzero =>
        rw [if_pos hzero]
        split at hne
        next hdone =>
          have hfetched := hinv.traced.fetched
          have hempty : t.pipe.traceBuffer.elems = [] :=
            List.length_eq_zero_iff.1 (show t.pipe.traceBuffer.size = 0 by omega)
          obtain ⟨removed, hX, hle, hcfg⟩ := hd'
          rw [expanded, hempty, expandTrace, List.append_nil] at hX
          subst hX
          rw [if_pos hdone, hcur]
          exact ⟨hle, hcfg⟩
        next => exact absurd hzero hne
      next hzero =>
        rw [if_neg hzero]
        exact hlast hzero
    split at ha
    next hdone =>
      obtain rfl := Option.some.inj ha
      refine hnext ?_
      obtain ⟨-, -, hdisp⟩ := hinv.traced.done hinv.window.oldest_le hdone
      simp only [lastCycleAfter, hdisp, hcur, if_true]
      split <;> omega
    next => exact ih hinv hcur hd' hnext ha

/-! ## The bounds -/

/-- **The width bounds the rate** of a sample. -/
structure Bandwidth (E : Env F) (trace : Trace) (s : State F) : Prop where
  /-- A call of `dispatch_insts` removes no more instructions than the width
  has. A negative width has none. -/
  removed : ∀ n t u v w, Reaches E trace s n t → beforeIssue E t = some u →
    issueInsts E u = some v → dispatchInsts E v = some w →
    ((expanded E v).length : ℤ) ≤ (expanded E w).length + max E.cfg.frontendWidth 0
  /-- The trace has no more instructions than the cycles returned have room
  for. -/
  lastCycle : ∀ fuel a, traceAnalysis E fuel trace.queue 0 s = some a →
    (trace.queue.size : ℤ) ≤ a.lastCycle * E.cfg.frontendWidth
  /-- The rate that `perfmodel_update` adds to `sum_ipc` is no greater than the
  width. -/
  rate : ∀ fuel a, traceAnalysis E fuel trace.queue 0 s = some a →
    ∀ (stat : SampledStat) (penalty : ℤ) (m : Perfmodel ℚ), stat.numInsts = trace.queue.size →
      (perfmodelUpdate exactDouble stat a.lastCycle penalty m).sumIpc - m.sumIpc ≤
        E.cfg.frontendWidth

theorem perfmodelUpdate_sumIpc (stat : SampledStat) (cycle : ℕ) (penalty : ℤ) (m : Perfmodel ℚ) :
    (perfmodelUpdate exactDouble stat cycle penalty m).sumIpc =
      m.sumIpc + (stat.numInsts : ℚ) / cycle := by
  simp only [perfmodelUpdate]
  split_ifs <;> rfl

/-- Every record leaves at least one instruction. -/
theorem length_le_expandTrace (disasm : UInt32 → Darm) {cap : ℤ} {l : List Inst}
    (hfits : InstQueue.Fits ⟨l, cap⟩) : l.length ≤ (expandTrace disasm cap l).length := by
  induction l with
  | nil => exact le_rfl
  | cons inst rest ih =>
    have hne := List.length_pos_iff_ne_nil.2 (expandInst_ne_nil hfits (decodeInst disasm inst))
    have hrest := ih hfits.tail
    rw [expandTrace, List.length_append, List.length_cons]
    omega

/-- The micro-ops of a supported record are supported. -/
theorem microops_supported (h : inst.type ≠ .unsupported) :
    ∀ m ∈ microops inst, m.type ≠ .unsupported := by
  intro m hm hunsup
  rcases type_of_mem_microops hm with htype | htype | htype | ⟨rfl, -⟩
  · exact absurd (htype.symm.trans hunsup) (by simp)
  · exact absurd (htype.symm.trans hunsup) (by simp)
  · exact absurd (htype.symm.trans hunsup) (by simp)
  · exact h hunsup

theorem expandTrace_supported {disasm : UInt32 → Darm} {cap : ℤ} {l : List Inst}
    (hrec : ∀ inst ∈ l, inst.Recorded)
    (hsup : ∀ inst ∈ l, typeOf (disasm inst.code).instr ≠ .unsupported) :
    ∀ m ∈ expandTrace disasm cap l, m.type ≠ .unsupported := by
  induction l with
  | nil => simp [expandTrace]
  | cons inst rest ih =>
    intro m hm
    rcases List.mem_append.1 hm with hm | hm
    · refine microops_supported ?_ m (List.mem_of_mem_drop hm)
      rw [type_decodeInst disasm (hrec inst List.mem_cons_self).decoded]
      exact hsup inst List.mem_cons_self
    · exact ih (fun x hx => hrec x (List.mem_cons_of_mem _ hx))
        (fun x hx => hsup x (List.mem_cons_of_mem _ hx)) m hm

theorem length_supported {l : List Inst} (h : ∀ m ∈ l, m.type ≠ .unsupported) :
    (supported l).length = l.length := by
  rw [supported, List.filter_eq_self.2 fun m hm => by simpa using h m hm]

/-- Every state of an analysis has removed a first part of the expansion. -/
theorem Reaches.drawn {n : ℕ} (hd : Drained E s) (h : Reaches E trace s n t) :
    Drawn E (expandTrace E.disasm trace.queue.capacity trace.queue.elems) n t := by
  induction n generalizing t with
  | zero =>
    obtain rfl := Option.some.inj h
    exact ⟨[], rfl, Nat.zero_le _, fun hne => absurd rfl hne⟩
  | succ n ih =>
    obtain ⟨u, hu, ht⟩ := Run.exists_of_iterate_succ h
    exact (ih hu).step (Reaches.inv hd hu) ht

/-- **The bounds hold** of a trace without unsupported instructions, and where
nothing is dispatched. -/
theorem bandwidth_of_supported (hd : Drained E s) (hn : 1 ≤ trace.queue.size)
    (h : (∀ inst ∈ trace.queue.elems, typeOf (E.disasm inst.code).instr ≠ .unsupported) ∨
      ¬ CanDispatch E.cfg) : Bandwidth E trace s := by
  have hlen := length_le_expandTrace E.disasm trace.fits
  have hret : ∀ fuel a, traceAnalysis E fuel trace.queue 0 s = some a →
      (trace.queue.size : ℤ) ≤ a.lastCycle * E.cfg.frontendWidth ∧ 1 ≤ a.lastCycle := by
    intro fuel a ha
    obtain ⟨hle, hcfg⟩ := analysisLoop_drawn
      (X := expandTrace E.disasm trace.queue.capacity trace.queue.elems) (hd.inv trace) rfl
      ⟨[], rfl, Nat.zero_le _, fun hne => absurd rfl hne⟩ (fun hne => absurd rfl hne) ha
    have hdisp := hcfg fun hnil => by
      rw [hnil] at hlen
      exact absurd (hn.trans hlen) (by simp)
    rcases h with hsup | hnot
    · rw [length_supported (expandTrace_supported trace.recorded hsup)] at hle
      refine ⟨?_, (analysisLoop_lastCycle (hd.inv trace) rfl le_rfl ha).1⟩
      have hwidth : (E.cfg.frontendWidth.toNat : ℤ) = E.cfg.frontendWidth :=
        Int.toNat_of_nonneg hdisp.1.le
      rw [← hwidth]
      exact_mod_cast hlen.trans hle
    · exact absurd hdisp hnot
  refine ⟨fun n t u v w ht hu hv hw => ?_, fun fuel a ha => (hret fuel a ha).1, ?_⟩
  · obtain ⟨hinv, hexp⟩ := beforeDispatch (Reaches.inv hd ht) hu hv
    obtain ⟨now, heq, hle, hne⟩ := dispatchInsts_removes hinv hw
    have hnow : now.length ≤ E.cfg.frontendWidth.toNat := by
      rcases h with hsup | hnot
      · obtain ⟨removed, hX, -, -⟩ := Reaches.drawn hd ht
        have hall : ∀ m ∈ expandTrace E.disasm trace.queue.capacity trace.queue.elems,
            m.type ≠ .unsupported := expandTrace_supported trace.recorded hsup
        rw [length_supported] at hle
        · exact hle
        · intro m hm
          refine hall m ?_
          rw [hX, ← hexp, heq]
          exact List.mem_append_right _ (List.mem_append_left _ hm)
      · by_cases hnil : now = []
        · rw [hnil]
          exact Nat.zero_le _
        · exact absurd (hne hnil) hnot
    rw [heq, List.length_append]
    omega
  · intro fuel a ha stat penalty m hstat
    obtain ⟨hle, hpos⟩ := hret fuel a ha
    have hpos' : (0 : ℚ) < a.lastCycle := by exact_mod_cast hpos
    rw [perfmodelUpdate_sumIpc, hstat, add_sub_cancel_left, div_le_iff₀ hpos', mul_comm]
    exact_mod_cast hle

/-! ## Unsupported instructions -/

/-- A trace of one word over and over. -/
def copies (w : UInt32) (k : ℕ) : Trace where
  queue := ⟨List.replicate k (initInst 0 0 w), 0⟩
  fits := .inl rfl
  recorded := by
    intro inst hinst
    rw [List.eq_of_mem_replicate hinst]
    exact ⟨_, _, _, rfl⟩

theorem expandInst_unsupported {cap : ℤ} {i : Inst} (h : i.type = .unsupported)
    (hfits : InstQueue.Fits ⟨inst :: rest, cap⟩) : expandInst cap rest.length i = [i] := by
  have hlost := lost_lt hfits Nat.one_pos
  have hone : microops i = [i] := by rw [microops, h]
  rw [expandInst, hone, List.length_singleton, Nat.lt_one_iff.1 hlost]
  rfl

/-- **Unsupported instructions all leave at once**, whatever the width. -/
theorem dispatchLoop_unsupported {c : UInt32} (hun : typeOf (E.disasm c).instr = .unsupported)
    {fuel w k : ℕ} (h : Inv E base T s)
    (htb : s.pipe.traceBuffer.elems = List.replicate k (initInst 0 0 c))
    (hrob : s.pipe.next < s.pipe.oldest + E.cfg.robSize) (hiq : s.pipe.iq.HasRoom)
    (hfuel : k < fuel) :
    ∃ t, dispatchLoop E fuel (w + 1) s = some t ∧ t.pipe.traceBuffer.elems = [] := by
  induction k generalizing fuel s with
  | zero =>
    obtain ⟨fuel, rfl⟩ := Nat.exists_eq_add_of_le' hfuel
    exact ⟨s, dispatchLoop_nil fuel w htb, htb⟩
  | succ k ih =>
    obtain ⟨fuel, rfl⟩ := Nat.exists_eq_add_of_le' (Nat.zero_lt_of_lt hfuel)
    rw [List.replicate_succ] at htb
    have htype : (decodeInst E.disasm (initInst 0 0 c)).type = .unsupported :=
      (type_decodeInst E.disasm rfl).trans hun
    have hpipe := prepareFront_eq (E := E) h.traced.stocked htb
    rw [expandInst_unsupported htype (h.traced.stocked.fits_cons htb)] at hpipe
    have hfront : (prepared E s (initInst 0 0 c)).pipe.traceBuffer.elems =
        decodeInst E.disasm (initInst 0 0 c) :: List.replicate k (initInst 0 0 c) := by
      rw [prepared, hpipe]
      rfl
    have hprep := h.prepareStep htb
    have hadm : Admits E.cfg.robSize (prepared E s (initInst 0 0 c)).pipe
        (decodeInst E.disasm (initInst 0 0 c)) := by
      rw [prepared, hpipe]
      exact ⟨hrob, hiq, fun hld => by simp [htype] at hld, fun hst => by simp [htype] at hst⟩
    have hpass := (dispatchBlocked_eq_false_iff hprep.window).2 hadm
    obtain ⟨front, rest', hfront', hset⟩ := prepared_front E h.traced.stocked htb
    rw [hfront] at hfront'
    obtain ⟨rfl, -⟩ := List.cons.inj hfront'
    rw [dispatchLoop_succ fuel w htb hfront, if_neg (by simp [hpass]), if_pos htype]
    refine ih (hprep.dropStep hfront hset htype) ?_ ?_ ?_ (by omega)
    · simp only [dropped, dropUnsupported, InstQueue.popFrontInst, hfront, List.tail_cons]
    · exact hadm.rob
    · exact hadm.iq

/-- More unsupported instructions than the width has break the bounds. -/
theorem not_bandwidth_copies {c : UInt32} (hd : Drained E s)
    (hun : typeOf (E.disasm c).instr = .unsupported) (hcfg : CanDispatch E.cfg) :
    ¬ Bandwidth E (copies c (E.cfg.frontendWidth.toNat + 1)) s := by
  intro hband
  obtain ⟨hwidth, hrob, hiq⟩ := hcfg
  obtain ⟨w, hw⟩ : ∃ w, E.cfg.frontendWidth.toNat = w + 1 :=
    ⟨E.cfg.frontendWidth.toNat - 1, by omega⟩
  let trace := copies c (E.cfg.frontendWidth.toNat + 1)
  let v := beginAnalysis E trace.queue s
  obtain ⟨hu, hv⟩ := hd.first_stages trace
  have hroom : v.pipe.iq.HasRoom := by
    rw [InstQueue.HasRoom, (hd.inv trace).units.iq]
    simp only [v, beginAnalysis, hd.iq, InstQueue.size, List.length_nil]
    omega
  have hsize : trace.queue.size = w + 2 := by
    simp [trace, copies, InstQueue.size, hw]
  have hloop : ∃ t, dispatchLoop E (E.cfg.frontendWidth.toNat + trace.queue.size) (w + 1) v =
      some t ∧ t.pipe.traceBuffer.elems = [] :=
    dispatchLoop_unsupported hun (hd.inv trace) rfl
      (by simpa [v, beginAnalysis, Pipe.oldest] using hrob) hroom (by rw [hsize, hw]; omega)
  obtain ⟨t, ht, hempty⟩ := hloop
  have hcall : dispatchInsts E v = some t := by
    rw [← hw] at ht
    exact ht
  have hle := hband.removed 0 v v v t rfl hu hv hcall
  have hlen := length_le_expandTrace E.disasm trace.fits
  have hgone : expanded E t = [] := by rw [expanded, hempty, expandTrace]
  have hall : trace.queue.elems.length ≤ (expanded E v).length := hlen
  rw [hgone] at hle
  have hsize' : trace.queue.elems.length = w + 2 := hsize
  simp only [List.length_nil] at hle
  omega

/-- **For which instructions the width bounds the rate of every trace**: for
those among which none is unsupported, unless the configuration dispatches
nothing at all. -/
theorem bandwidth_iff (E : Env F) (s : State F) (hd : Drained E s) (words : Set UInt32) :
    (∀ trace : Trace, 1 ≤ trace.queue.size → (∀ inst ∈ trace.queue.elems, inst.code ∈ words) →
      Bandwidth E trace s) ↔
      (∀ w ∈ words, typeOf (E.disasm w).instr ≠ .unsupported) ∨ ¬ CanDispatch E.cfg := by
  constructor
  · intro hall
    by_contra hnot
    push Not at hnot
    obtain ⟨⟨c, hc, hun⟩, hcfg⟩ := hnot
    refine not_bandwidth_copies hd hun hcfg (hall _ ?_ ?_)
    · simp [copies, InstQueue.size]
    · intro inst hinst
      rw [List.eq_of_mem_replicate hinst]
      exact hc
  · intro h trace hn hcode
    refine bandwidth_of_supported hd hn (h.imp_left fun hsup inst hinst => ?_)
    exact hsup inst.code (hcode inst hinst)

/-- A trace of `add r0, r1, r2`. -/
theorem bandwidth_addTrace :
    Bandwidth (addEnv 40) addTrace (initTraceAnalyzer (addEnv 40) blankState) := by
  refine (bandwidth_iff (addEnv 40) _ (initTraceAnalyzer_drained _ _) {0xE0810002}).2
    (.inl ?_) addTrace (by decide) ?_
  · intro w hw
    rw [hw]
    decide
  · intro inst hinst
    rw [List.mem_singleton.1 hinst]
    rfl

/-- Four times `vadd.f32 s0, s0, s1`, of which the disassembler knows nothing:
with a width of three they are all dispatched in one cycle. -/
theorem rate_of_four_vadds :
    (traceAnalysis (addEnv 40) 5 (copies 0xEE300A20 4).queue 0
      (initTraceAnalyzer (addEnv 40) blankState)).map Analysis.lastCycle = some 1 ∧
      (copies 0xEE300A20 4).queue.size = 4 ∧ (addEnv 40).cfg.frontendWidth = 3 := by
  decide

end TraceAnalyzer

end Tqsim
