import Tqsim.TraceAnalyzer.Model.Trace

/-!
# Decoding and expanding the front of the trace buffer

The buffer of a running analysis holds recorded instructions, behind a few
that were decoded or made by an expansion already. Decoding the front and
expanding it does not change the expansion of the buffer: the code's loop
and `expandTrace` agree.
-/

namespace Tqsim

namespace TraceAnalyzer

/-- A record that needs no more decoding or expansion. -/
structure Inst.Settled (inst : Inst) : Prop where
  decoded : inst.decoded = true
  not_pop : inst.type ≠ .pop
  not_push : inst.type ≠ .push
  ldqElem : inst.ldqElem = none
  stqElem : inst.stqElem = none
  /-- A missing destination is only ever the first one. -/
  dstReg : (-1 : ℤ) ∉ inst.dstReg.tail

/-- A record that may stand in the trace buffer of a running analysis. -/
def Inst.Buffered (inst : Inst) : Prop := inst.Recorded ∨ inst.Settled

/-! ## Decoding -/

theorem reglistLoop_nonneg (fuel : ℕ) (reglist : BitVec 16) :
    ∀ x ∈ reglistLoop fuel reglist, 0 ≤ x := by
  induction fuel generalizing reglist with
  | zero => simp [reglistLoop]
  | succ fuel ih =>
    intro x hx
    rw [reglistLoop] at hx
    split at hx
    · cases hx
    · simp only [List.cons_append, List.mem_cons, List.mem_append] at hx
      rcases hx with rfl | hx | hx
      · exact Int.natCast_nonneg _
      · split at hx
        · split at hx
          · obtain ⟨i, -, rfl⟩ := List.mem_map.1 hx
            exact Int.natCast_nonneg _
          · obtain rfl := List.mem_singleton.1 hx
            exact Int.natCast_nonneg _
        · cases hx
      · exact ih _ x hx

theorem regEntry_nonneg (r : Option (Fin 16)) : ∀ x ∈ regEntry r, 0 ≤ x := by
  intro x hx
  simp only [regEntry, Option.mem_toList, Option.map_eq_some_iff] at hx
  obtain ⟨i, -, rfl⟩ := hx
  exact Int.natCast_nonneg _

/-- Every destination a decoded instruction names is a register. -/
theorem initInstSrcDstReg_dstReg_nonneg {inst : Inst} (h : inst.dstReg = []) (d : Darm) :
    ∀ x ∈ (initInstSrcDstReg inst d).dstReg, 0 ≤ x := by
  intro x hx
  simp only [initInstSrcDstReg, h, List.nil_append, List.mem_append] at hx
  rcases hx with hx | hx
  · split at hx
    · rcases List.mem_append.1 hx with hx | hx
      · exact regEntry_nonneg _ x hx
      · exact reglistLoop_nonneg _ _ x hx
    · split at hx
      · cases hx
      · exact regEntry_nonneg _ x hx
  · split at hx
    · obtain rfl := List.mem_singleton.1 hx
      decide
    · cases hx

variable {disasm : UInt32 → Darm} {inst : Inst}

theorem decodeInst_of_decoded (h : inst.decoded = true) : decodeInst disasm inst = inst := by
  rw [decodeInst, if_pos h]

/-- **Decoding leaves the rest of a record as it was**: what its parts do not
change, it does not change. -/
theorem decodeInst_field {β : Type} (f : Inst → β) (disasm : UInt32 → Darm) (inst : Inst)
    (hclassify : ∀ inst d, f (classifyInst inst d) = f inst)
    (hregs : ∀ inst d, f (initInstSrcDstReg inst d) = f inst)
    (hdecoded : ∀ inst decoded imm, f { inst with decoded := decoded, imm := imm } = f inst) :
    f (decodeInst disasm inst) = f inst := by
  unfold decodeInst
  split
  · rfl
  · simp only [hdecoded]
    split
    · rw [hregs, hclassify]
    · exact hclassify inst _

/-- The type of a decoded record. -/
theorem type_decodeInst (disasm : UInt32 → Darm) (h : inst.decoded = false) :
    (decodeInst disasm inst).type = typeOf (disasm inst.code).instr := by
  rw [decodeInst, if_neg (by simp [h])]
  simp only
  split <;> rfl

theorem Inst.Recorded.decoded (h : inst.Recorded) : inst.decoded = false := by
  obtain ⟨seq, pc, code, h⟩ := h
  rw [h]
  rfl

/-- What decoding makes of a recorded instruction. -/
theorem decodeInst_recorded (disasm : UInt32 → Darm) (h : inst.Recorded) :
    (decodeInst disasm inst).decoded = true ∧ (decodeInst disasm inst).ldqElem = none ∧
      (decodeInst disasm inst).stqElem = none ∧
      ∀ x ∈ (decodeInst disasm inst).dstReg, 0 ≤ x := by
  have hdec := h.decoded
  obtain ⟨seq, pc, code, h⟩ := h
  have hldq : inst.ldqElem = none := by rw [h]; rfl
  have hstq : inst.stqElem = none := by rw [h]; rfl
  have hdst : inst.dstReg = [] := by rw [h]; rfl
  refine ⟨?_, ?_, ?_, ?_⟩
  · rw [decodeInst, if_neg (by simp [hdec])]
  · rw [← hldq]
    exact decodeInst_field Inst.ldqElem _ _ (fun _ _ => rfl) (fun _ _ => rfl) fun _ _ _ => rfl
  · rw [← hstq]
    exact decodeInst_field Inst.stqElem _ _ (fun _ _ => rfl) (fun _ _ => rfl) fun _ _ _ => rfl
  · rw [decodeInst, if_neg (by simp [hdec])]
    simp only
    split
    · have hcls : (classifyInst inst (disasm inst.code)).dstReg = [] := hdst
      exact initInstSrcDstReg_dstReg_nonneg hcls _
    · intro x hx
      have : x ∈ inst.dstReg := hx
      simp [hdst] at this

/-! ## Micro-ops -/

theorem spMicroop_settled (inst : Inst) : (spMicroop inst).Settled where
  decoded := rfl
  not_pop := by simp [spMicroop]
  not_push := by simp [spMicroop]
  ldqElem := rfl
  stqElem := rfl
  dstReg := by simp [spMicroop]

theorem pushMicroop_type (inst : Inst) (i : ℕ) : (pushMicroop inst i).type = .memWrite := by
  rw [pushMicroop, if_neg (by simp [initInst])]

theorem popMicroop_type (inst : Inst) (i : ℕ) : (popMicroop inst i).type = .memRead := by
  rw [popMicroop, if_neg (by simp [initInst])]

theorem pushMicroop_settled (inst : Inst) (i : ℕ) : (pushMicroop inst i).Settled := by
  rw [pushMicroop, if_neg (by simp [initInst])]
  exact ⟨rfl, by simp, by simp, rfl, rfl, by simp [initInst]⟩

theorem popMicroop_settled (inst : Inst) (i : ℕ) : (popMicroop inst i).Settled := by
  rw [popMicroop, if_neg (by simp [initInst])]
  exact ⟨rfl, by simp, by simp, rfl, rfl, by simp⟩

/-- A record that is no PUSH or POP is its own micro-op. -/
theorem microops_of_not_stack (hpop : inst.type ≠ .pop) (hpush : inst.type ≠ .push) :
    microops inst = [inst] := by
  unfold microops
  split
  · exact absurd ‹_› hpop
  · exact absurd ‹_› hpush
  · rfl

theorem microops_of_settled (h : inst.Settled) : microops inst = [inst] :=
  microops_of_not_stack h.not_pop h.not_push

/-- **What a micro-op is.** -/
theorem mem_microops {m : Inst} (hm : m ∈ microops inst) :
    (∃ i, m = popMicroop inst i) ∨ (∃ i, m = pushMicroop inst i) ∨ m = spMicroop inst ∨
      m = inst ∧ inst.type ≠ .pop ∧ inst.type ≠ .push := by
  unfold microops at hm
  split at hm
  · rcases List.mem_append.1 hm with hm | hm
    · obtain ⟨i, -, rfl⟩ := List.mem_map.1 hm
      exact .inl ⟨i, rfl⟩
    · exact .inr (.inr (.inl (List.mem_singleton.1 hm)))
  · rcases List.mem_append.1 hm with hm | hm
    · obtain ⟨i, -, rfl⟩ := List.mem_map.1 hm
      exact .inr (.inl ⟨i, rfl⟩)
    · exact .inr (.inr (.inl (List.mem_singleton.1 hm)))
  next hpop hpush => exact .inr (.inr (.inr ⟨List.mem_singleton.1 hm, hpop, hpush⟩))

/-- The type of a micro-op. -/
theorem type_of_mem_microops {m : Inst} (hm : m ∈ microops inst) :
    m.type = .memRead ∨ m.type = .memWrite ∨ m.type = .intAlu ∨
      m = inst ∧ inst.type ≠ .pop ∧ inst.type ≠ .push := by
  rcases mem_microops hm with ⟨i, rfl⟩ | ⟨i, rfl⟩ | rfl | h
  · exact .inl (popMicroop_type inst i)
  · exact .inr (.inl (pushMicroop_type inst i))
  · exact .inr (.inr (.inl rfl))
  · exact .inr (.inr (.inr h))

theorem microops_ne_nil (inst : Inst) : microops inst ≠ [] := by
  unfold microops
  split <;> simp

/-- **Expansion settles.** -/
theorem microops_settled (h : inst.Buffered) :
    ∀ m ∈ microops (decodeInst disasm inst), m.Settled := by
  rcases h with h | h
  · obtain ⟨hdec, hldq, hstq, hdst⟩ := decodeInst_recorded disasm h
    intro m hm
    rcases mem_microops hm with ⟨i, rfl⟩ | ⟨i, rfl⟩ | rfl | ⟨rfl, hpop, hpush⟩
    · exact popMicroop_settled _ i
    · exact pushMicroop_settled _ i
    · exact spMicroop_settled _
    · refine ⟨hdec, hpop, hpush, hldq, hstq, fun hx => ?_⟩
      exact absurd (hdst _ (List.mem_of_mem_tail hx)) (by decide)
  · rw [decodeInst_of_decoded h.decoded, microops_of_settled h]
    intro m hm
    obtain rfl := List.mem_singleton.1 hm
    exact h

/-! ## The expansion loop -/

/-- The loop of a conversion, in one piece. -/
theorem microopLoop_eq (f : ℕ → Inst) (n : ℕ) {q : InstQueue Inst} (hq : q.Fits) (c : ℕ) :
    microopLoop f n (q, c) =
      ({ q with elems := ((List.range n).map f).drop (lost q.capacity q.size n) ++ q.elems },
        c + n) := by
  induction n generalizing q c with
  | zero => simp [microopLoop]
  | succ n ih =>
    simp only [InstQueue.Fits, InstQueue.size] at hq
    rw [microopLoop, InstQueue.pushFrontInst]
    split
    · -- the record fits, and it stands before the ones pushed earlier
      have hroom : q.capacity = 0 ∨ (q.size : ℤ) < q.capacity := ‹q.HasRoom›
      simp only [InstQueue.size] at hroom
      rw [ih (q := { q with elems := f n :: q.elems })
        (by simp only [InstQueue.Fits, InstQueue.size, List.length_cons]; omega)]
      have hlost : lost q.capacity q.size (n + 1) ≤ n := by
        simp only [lost, InstQueue.size]
        split <;> omega
      have hsame : lost q.capacity (q.size + 1) n = lost q.capacity q.size (n + 1) := by
        simp only [lost, InstQueue.size]
        split <;> omega
      rw [List.range_succ, List.map_append, List.drop_append_of_le_length (by simpa using hlost)]
      simp only [InstQueue.size, List.length_cons, List.map_cons, List.map_nil] at hsame ⊢
      rw [hsame, List.append_assoc, List.cons_append, List.nil_append,
        show c + 1 + n = c + (n + 1) by omega]
    · -- the buffer is full and stays so
      have hfull : ¬ (q.capacity = 0 ∨ (q.size : ℤ) < q.capacity) := ‹¬ q.HasRoom›
      simp only [InstQueue.size] at hfull
      rw [ih hq]
      have h1 : n ≤ lost q.capacity q.size n := by
        simp only [lost, InstQueue.size]
        split <;> omega
      have h2 : n + 1 ≤ lost q.capacity q.size (n + 1) := by
        simp only [lost, InstQueue.size]
        split <;> omega
      rw [List.drop_eq_nil_of_le (by simpa using h1), List.drop_eq_nil_of_le (by simpa using h2),
        show c + 1 + n = c + (n + 1) by omega]

/-- The two conversions, in one piece: the micro-ops that fit take the place
of the record, and all of them are counted as fetched. -/
theorem convert_eq (f : ℕ → Inst) (n : ℕ) (sp inst : Inst) (rest : List Inst) {cap : ℤ}
    (hq : InstQueue.Fits ⟨inst :: rest, cap⟩) (c : ℕ) :
    microopLoop f n ((InstQueue.popFrontInst ⟨inst :: rest, cap⟩).pushFrontInst sp, c) =
      (⟨((List.range n).map f ++ [sp]).drop (lost cap rest.length (n + 1)) ++ rest, cap⟩,
        c + n) := by
  simp only [InstQueue.Fits, InstQueue.size, List.length_cons] at hq
  have hroom : InstQueue.HasRoom ⟨rest, cap⟩ := by
    simp only [InstQueue.HasRoom, InstQueue.size]
    omega
  rw [show InstQueue.popFrontInst ⟨inst :: rest, cap⟩ = ⟨rest, cap⟩ from rfl,
    InstQueue.pushFrontInst, if_pos hroom,
    microopLoop_eq f n (q := ⟨sp :: rest, cap⟩) (by simpa [InstQueue.Fits, InstQueue.size] using hq)]
  have hlost : lost cap rest.length (n + 1) ≤ n := by
    simp only [lost]
    split <;> omega
  have hsame : lost cap (rest.length + 1) n = lost cap rest.length (n + 1) := by
    simp only [lost]
    split <;> omega
  rw [List.drop_append_of_le_length (by simpa using hlost)]
  simp only [InstQueue.size, List.length_cons, hsame, List.append_assoc, List.cons_append,
    List.nil_append]

/-- **The code expands the front as `expandInst` does.** -/
theorem convertMicroop_eq (inst : Inst) (rest : List Inst) {cap : ℤ}
    (hq : InstQueue.Fits ⟨inst :: rest, cap⟩) (c : ℕ) :
    convertMicroop ⟨inst :: rest, cap⟩ inst c =
      (⟨expandInst cap rest.length inst ++ rest, cap⟩, c + ((microops inst).length - 1)) := by
  unfold convertMicroop
  split
  next h =>
    rw [convertPopMicroop, convert_eq _ _ _ inst rest hq, expandInst]
    simp [microops, h]
  next h =>
    rw [convertPushMicroop, convert_eq _ _ _ inst rest hq, expandInst]
    simp [microops, h]
  next h1 h2 =>
    have hm := microops_of_not_stack h1 h2
    have hlost : lost cap rest.length 1 = 0 := by
      simp only [InstQueue.Fits, InstQueue.size, List.length_cons] at hq
      simp only [lost]
      split <;> omega
    simp [expandInst, hm, hlost]

/-! ## The expansion of a buffer -/

variable {cap : ℤ} {rest : List Inst}

/-- A record that fits before expansion leaves at least one micro-op, its
last. -/
theorem lost_lt (hfits : InstQueue.Fits ⟨inst :: rest, cap⟩) {n : ℕ} (hn : 0 < n) :
    lost cap rest.length n < n := by
  simp only [InstQueue.Fits, InstQueue.size, List.length_cons] at hfits
  simp only [lost]
  split <;> omega

theorem expandInst_ne_nil (hfits : InstQueue.Fits ⟨inst :: rest, cap⟩) (i : Inst) :
    expandInst cap rest.length i ≠ [] := by
  have hpos : 0 < (microops i).length := List.length_pos_of_ne_nil (microops_ne_nil i)
  have := lost_lt hfits hpos
  intro h
  have := congrArg List.length h
  simp only [expandInst, List.length_drop, List.length_nil] at this
  omega

theorem expandInst_length (i : Inst) :
    (expandInst cap rest.length i).length =
      (microops i).length - lost cap rest.length (microops i).length := by
  simp [expandInst]

theorem fits_expandInst (hfits : InstQueue.Fits ⟨inst :: rest, cap⟩) (i : Inst) :
    InstQueue.Fits ⟨expandInst cap rest.length i ++ rest, cap⟩ := by
  simp only [InstQueue.Fits, InstQueue.size, List.length_cons, List.length_append,
    expandInst_length, lost] at hfits ⊢
  split <;> omega

theorem expandInst_of_settled (h : inst.Settled) (hfits : InstQueue.Fits ⟨inst :: rest, cap⟩) :
    expandInst cap rest.length inst = [inst] := by
  have := lost_lt hfits Nat.one_pos
  rw [expandInst, microops_of_settled h, List.length_singleton,
    show lost cap rest.length 1 = 0 by omega]
  rfl

theorem InstQueue.Fits.tail (hfits : InstQueue.Fits ⟨inst :: rest, cap⟩) :
    InstQueue.Fits ⟨rest, cap⟩ := by
  simp only [InstQueue.Fits, InstQueue.size, List.length_cons] at hfits ⊢
  omega

/-- A settled record is its own expansion. -/
theorem expandTrace_cons_settled (h : inst.Settled)
    (hfits : InstQueue.Fits ⟨inst :: rest, cap⟩) :
    expandTrace disasm cap (inst :: rest) = inst :: expandTrace disasm cap rest := by
  rw [expandTrace, decodeInst_of_decoded h.decoded, expandInst_of_settled h hfits]
  rfl

theorem expandTrace_append_settled {ms : List Inst} (hms : ∀ m ∈ ms, m.Settled)
    (hfits : InstQueue.Fits ⟨ms ++ rest, cap⟩) :
    expandTrace disasm cap (ms ++ rest) = ms ++ expandTrace disasm cap rest := by
  induction ms with
  | nil => rfl
  | cons m ms ih =>
    have hfits : InstQueue.Fits ⟨m :: (ms ++ rest), cap⟩ := hfits
    rw [List.cons_append, expandTrace_cons_settled (hms m (List.mem_cons_self ..)) hfits,
      ih (fun x hx => hms x (List.mem_cons_of_mem _ hx)) hfits.tail]
    rfl

theorem expandInst_settled (h : inst.Buffered) :
    ∀ m ∈ expandInst cap rest.length (decodeInst disasm inst), m.Settled :=
  fun m hm => microops_settled h m (List.mem_of_mem_drop hm)

/-- **Preparing the front leaves the expansion alone.** -/
theorem expandTrace_prepared (h : inst.Buffered) (hfits : InstQueue.Fits ⟨inst :: rest, cap⟩) :
    expandTrace disasm cap (expandInst cap rest.length (decodeInst disasm inst) ++ rest) =
      expandTrace disasm cap (inst :: rest) :=
  expandTrace_append_settled (expandInst_settled h) (fits_expandInst hfits _)

/-- And what fits goes on fitting. -/
theorem expansionFits_prepared (h : inst.Buffered) (hfits : InstQueue.Fits ⟨inst :: rest, cap⟩)
    (hx : ExpansionFits disasm cap (inst :: rest)) :
    ExpansionFits disasm cap (expandInst cap rest.length (decodeInst disasm inst) ++ rest) := by
  have key : ∀ ms : List Inst, (∀ m ∈ ms, m.Settled) → InstQueue.Fits ⟨ms ++ rest, cap⟩ →
      ExpansionFits disasm cap (ms ++ rest) := by
    intro ms hms hf
    induction ms with
    | nil => exact hx.2
    | cons m ms ih =>
      have hm := hms m (List.mem_cons_self ..)
      have hf : InstQueue.Fits ⟨m :: (ms ++ rest), cap⟩ := hf
      refine ⟨?_, ih (fun x hx => hms x (List.mem_cons_of_mem _ hx)) hf.tail⟩
      rw [decodeInst_of_decoded hm.decoded, microops_of_settled hm, List.length_singleton]
      exact Nat.lt_one_iff.1 (lost_lt hf Nat.one_pos)
  exact key _ (expandInst_settled h) (fits_expandInst hfits _)

end TraceAnalyzer

end Tqsim
