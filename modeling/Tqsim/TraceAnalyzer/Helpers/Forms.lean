import Tqsim.TraceAnalyzer.Model.Darm

/-!
# The operand forms of a word

Which register fields the disassembler fills depends on the encoding of the
word and on a few of its bits. `operandForm` says which, for the words that
decoding supports, and `hasForm_operandForm` sums up what the record then
holds: whatever is proved of decoded words needs these eight forms and not
the disassembler's branches.
-/

namespace Tqsim

namespace TraceAnalyzer

open DarmInstr

variable {d : DarmT} {w : UInt32}

/-- The operand forms of the instructions that decoding supports. -/
inductive OperandForm where
  /-- A destination and up to two operands. -/
  | data
  /-- The second operand is shifted by a register. -/
  | shifted
  /-- A multiplication that adds a register. -/
  | accumulate
  /-- A multiplication with two destinations. -/
  | long
  /-- A transfer between a register and a coprocessor. -/
  | transfer
  /-- An access at an immediate offset. -/
  | immediate
  /-- An access at a register offset. -/
  | offset
  /-- An access for a list of registers. -/
  | list
  deriving DecidableEq, Repr

/-- The form of a word with this record. A multiplication whose S bit makes
it invalid keeps its two operands and nothing else. -/
def formOf (w : UInt32) (d : DarmT) : OperandForm :=
  match d.instrType with
  | .armUncond =>
    if d.instr = .iPld then if bit w 25 then .offset else .immediate else .data
  | .armStack0 => if bit w 25 then .offset else .immediate
  | .armStack1 | .armStack2 => if bit w 22 then .immediate else .offset
  | .armMul =>
    if d.instr = .iMul ∨ (d.instr = .iUmaal ∨ d.instr = .iMls) ∧ bit w 20 then .data
    else if d.instr = .iMla ∨ d.instr = .iMls then .accumulate
    else .long
  | .armArithShift | .armCmpOp => if bit w 4 then .shifted else .data
  | .armMisc => if d.instr = .iMvn ∧ bit w 4 then .shifted else .data
  | .armSm => if d.instr = .iSmla ∨ d.instr = .iSmuad then .accumulate else .data
  | .armLdstregs => .list
  | .armMvcr => .transfer
  | _ => .data

/-- **The operand form of a word.** -/
def operandForm (w : UInt32) : OperandForm := formOf w (darmArmv7Disasm w).2

/-! ## What each form fills -/

/-- The types that access memory. -/
def InstTypeName.isMemory : InstTypeName → Bool
  | .memRead | .memWrite | .pop | .push => true
  | _ => false

/-- The types that `convert_microop` expands. -/
def InstTypeName.isStack : InstTypeName → Bool
  | .pop | .push => true
  | _ => false

/-- No access to memory, and nothing transferred. -/
def DarmT.IsData (d : DarmT) : Prop :=
  (typeOf d.instr).isMemory = false ∧ d.rt = none ∧ d.rt2 = none ∧ d.reglist = 0

/-- An access to memory through a base register, which leaves the flags
alone. -/
def DarmT.IsAccess (d : DarmT) : Prop :=
  (typeOf d.instr).isMemory = true ∧ d.s = .bInvld ∧ d.rn.isSome ∧ d.rd = none ∧ d.rs = none ∧
    d.ra = none ∧ d.rt2 = none ∧ d.rdHi = none ∧ d.rdLo = none

/-- What the disassembler fills in a record of each form. -/
def DarmT.HasForm (w : UInt32) (d : DarmT) : OperandForm → Prop
  | .data => d.IsData ∧ d.rs = none ∧ d.ra = none ∧ d.rdHi = none ∧ d.rdLo = none
  | .shifted => d.IsData ∧ d.rs.isSome ∧ d.ra = none ∧ d.rdHi = none ∧ d.rdLo = none
  | .accumulate => d.IsData ∧ d.rs = none ∧ d.ra.isSome ∧ d.rdHi = none ∧ d.rdLo = none
  | .long => d.IsData ∧ d.rd = none ∧ d.rs = none ∧ d.ra = none ∧ d.rdHi.isSome ∧ d.rdLo.isSome
  | .transfer => (typeOf d.instr).isMemory = false ∧ d.rt.isSome ∧ d.rt2 = none ∧ d.reglist = 0 ∧
      d.rd = none ∧ d.rn = none ∧ d.rm = none ∧ d.rs = none ∧ d.ra = none ∧ d.rdHi = none ∧
      d.rdLo = none
  | .immediate => d.IsAccess ∧ d.rm = none ∧ d.reglist = 0 ∧
      ((typeOf d.instr).isStack = true → d.rn = some 13 ∧ d.rt.isSome)
  | .offset => d.IsAccess ∧ d.rm.isSome ∧ d.reglist = 0 ∧ (typeOf d.instr).isStack = false
  | .list => d.IsAccess ∧ d.rm = none ∧ d.rt = none ∧ d.reglist = (w &&& bitmsk16).toUInt16 ∧
      ((typeOf d.instr).isStack = true → d.rn = some 13)

/-- A record with a supported label has the form of its word. -/
def DarmT.Sorted (w : UInt32) (d : DarmT) : Prop :=
  typeOf d.instr ≠ .unsupported → d.HasForm w (formOf w d)

theorem DarmT.sorted_of_unsupported (h : typeOf d.instr = .unsupported) : d.Sorted w :=
  fun hsup => absurd h hsup

/-- A record with no operands beside the two that every form has. -/
theorem DarmT.sorted_data (hform : formOf w d = .data) (hmem : (typeOf d.instr).isMemory = false)
    (hrest : d.rt = none ∧ d.rt2 = none ∧ d.reglist = 0 ∧ d.rs = none ∧ d.ra = none ∧
      d.rdHi = none ∧ d.rdLo = none) : d.Sorted w := by
  intro _
  obtain ⟨hrt, hrt2, hlist, hrs, hra, hhi, hlo⟩ := hrest
  rw [hform]
  exact ⟨⟨hmem, hrt, hrt2, hlist⟩, hrs, hra, hhi, hlo⟩

/-- An access at an immediate offset, or at that of a register. Only the first
can be a PUSH or a POP. -/
theorem DarmT.sorted_access {b : Bool} (hform : formOf w d = if b then .offset else .immediate)
    (hmem : (typeOf d.instr).isMemory = true) (hrm : d.rm.isSome = b)
    (hstack : (typeOf d.instr).isStack = true → b = false ∧ d.rn = some 13 ∧ d.rt.isSome)
    (hrest : d.s = .bInvld ∧ d.rn.isSome ∧ d.rd = none ∧ d.rs = none ∧ d.ra = none ∧
      d.rt2 = none ∧ d.rdHi = none ∧ d.rdLo = none ∧ d.reglist = 0) : d.Sorted w := by
  intro _
  obtain ⟨hs, hrn, hrd, hrs, hra, hrt2, hhi, hlo, hlist⟩ := hrest
  have haccess : d.IsAccess := ⟨hmem, hs, hrn, hrd, hrs, hra, hrt2, hhi, hlo⟩
  rw [hform]
  cases b with
  | false =>
    have hrm : d.rm = none := Option.not_isSome_iff_eq_none.mp (by rw [hrm]; exact Bool.false_ne_true)
    exact ⟨haccess, hrm, hlist, fun h => (hstack h).2⟩
  | true =>
    have hnot : (typeOf d.instr).isStack = false :=
      Bool.eq_false_iff.mpr fun h => Bool.false_ne_true (hstack h).1.symm
    exact ⟨haccess, hrm, hlist, hnot⟩

/-- A record that `darm_init` made, with the label, the encoding, the
condition and the base register set since. -/
def freshDarm (cond : ℤ) (rn : Option (Fin 16)) (instr : DarmInstr) (instrType : DarmEnctype) :
    DarmT :=
  { darmInit with cond := cond, rn := rn, instr := instr, instrType := instrType }

variable {cond : ℤ} {rn : Option (Fin 16)} {instr : DarmInstr} {instrType : DarmEnctype}

/-! ## The branches outside the table -/

/-- An entry of a table is one of its members or the default. -/
theorem getD_mem_or {α : Type} (l : List α) (i : ℕ) (x : α) : l.getD i x ∈ l ∨ l.getD i x = x := by
  rw [List.getD_eq_getElem?_getD]
  cases h : l[i]? with
  | none => exact .inr rfl
  | some y => exact .inl (List.mem_of_getElem? h)

/-- What holds of the members and of the default holds of every entry. -/
theorem forall_getD {α : Type} {p : α → Prop} {l : List α} {x : α} (h : ∀ y ∈ l, p y) (hx : p x)
    (i : ℕ) : p (l.getD i x) := by
  rcases getD_mem_or l i x with hmem | heq
  · exact h _ hmem
  · rw [heq]
    exact hx

/-- The labels without a name of their own are not supported. -/
theorem typeOf_other (code : ℕ) : typeOf (.other code) = .unsupported := rfl

theorem disasPreload_sorted :
    (disasPreload (freshDarm cond none instr .armUncond) w).2.Sorted w := by
  unfold disasPreload
  -- PLI and PLDW are not supported
  cases h24 : bit w 24
  · cases h25 : bit w 25 <;> exact DarmT.sorted_of_unsupported rfl
  · cases h22 : bit w 22
    · cases h25 : bit w 25 <;> exact DarmT.sorted_of_unsupported rfl
    · cases h25 : bit w 25
      all_goals
        exact DarmT.sorted_access (b := bit w 25) rfl rfl h25.symm
          (fun h => absurd h Bool.false_ne_true) ⟨rfl, rfl, rfl, rfl, rfl, rfl, rfl, rfl, rfl⟩

/-- The barriers are not supported. -/
theorem typeOf_uncond2 : ∀ i ∈ typeUncond2InstrLookup, typeOf i = .unsupported := by decide

theorem armv7DisasUncond_sorted :
    (armv7DisasUncond (freshDarm cond none iInvld instrType) w).2.Sorted w := by
  unfold armv7DisasUncond
  split
  · exact DarmT.sorted_of_unsupported rfl
  · split
    · simp only
      split
      next hne =>
        have hmem := (getD_mem_or typeUncond2InstrLookup (field w 4 0b111) iInvld).resolve_right hne
        exact DarmT.sorted_of_unsupported (typeOf_uncond2 _ hmem)
      next => exact disasPreload_sorted
    · exact disasPreload_sorted
  · exact disasPreload_sorted
  · exact fun _ => ⟨⟨rfl, rfl, rfl, rfl⟩, rfl, rfl, rfl, rfl⟩
  · refine DarmT.sorted_of_unsupported ?_
    cases h4 : bit w 4 <;> cases h20 : bit w 20 <;> rfl
  · exact DarmT.sorted_of_unsupported rfl

/-- The multiplications do not access memory. -/
theorem typeOf_mul : ∀ i ∈ typeMulInstrLookup, (typeOf i).isMemory = false := by decide

theorem disasMul_sorted : (disasMul (freshDarm cond rn instr instrType) w).2.Sorted w := by
  unfold disasMul DarmT.Sorted flag
  generalize hlabel : typeMulInstrLookup.getD (field w 21 0b111) iInvld = label
  have hmem := hlabel ▸ getD_mem_or typeMulInstrLookup (field w 21 0b111) iInvld
  rcases hmem with hmem | rfl
  · have hdata := typeOf_mul label hmem
    simp only [typeMulInstrLookup, List.mem_cons, List.not_mem_nil, or_false] at hmem
    rcases hmem with rfl | rfl | rfl | rfl | rfl | rfl | rfl | rfl <;>
      cases h20 : bit w 20 <;>
      simp [freshDarm, darmInit, h20, hdata, typeOf_other, iSmlal, formOf, DarmT.HasForm,
        DarmT.IsData]
  · exact DarmT.sorted_of_unsupported rfl

/-- The halfword loads and stores are just that. -/
theorem typeOf_halfword : ∀ i ∈ typeStack1InstrLookup ++ typeStack2InstrLookup,
    i = iInvld ∨ (typeOf i).isMemory = true ∧ (typeOf i).isStack = false := by
  decide

/-- An access with the offset of the halfword loads and stores. -/
theorem halfwordOffset_sorted (hform : formOf w d = if bit w 22 then .immediate else .offset)
    (hmem : (typeOf d.instr).isMemory = true) (hstack : (typeOf d.instr).isStack = false)
    (hrm : d.rm = none)
    (hrest : d.s = .bInvld ∧ d.rn.isSome ∧ d.rd = none ∧ d.rs = none ∧ d.ra = none ∧
      d.rt2 = none ∧ d.rdHi = none ∧ d.rdLo = none ∧ d.reglist = 0) :
    (halfwordOffset d w).Sorted w := by
  have hnot : ∀ {p : Prop}, (typeOf d.instr).isStack = true → p := fun h =>
    absurd (hstack.symm.trans h) Bool.false_ne_true
  unfold halfwordOffset
  cases h22 : bit w 22 with
  | false =>
    exact DarmT.sorted_access (b := true) (hform.trans (by rw [h22]; rfl)) hmem rfl hnot hrest
  | true =>
    exact DarmT.sorted_access (b := false) (hform.trans (by rw [h22]; rfl)) hmem
      (congrArg Option.isSome hrm) hnot hrest

theorem disasStack1_sorted :
    (disasStack1 (freshDarm cond rn instr instrType) w).2.Sorted w := by
  unfold disasStack1
  simp only
  split
  next hinv => exact DarmT.sorted_of_unsupported (congrArg typeOf hinv)
  next hinv =>
    have hlabel := (getD_mem_or typeStack1InstrLookup (halfwordIndex w) iInvld).resolve_right hinv
    obtain ⟨hmem, hstack⟩ :=
      (typeOf_halfword _ (List.mem_append_left _ hlabel)).resolve_left hinv
    exact halfwordOffset_sorted rfl hmem hstack rfl
      ⟨rfl, rfl, rfl, rfl, rfl, rfl, rfl, rfl, rfl⟩

theorem disasStack2_sorted :
    (disasStack2 (freshDarm cond rn instr instrType) w).2.Sorted w := by
  unfold disasStack2
  simp only
  split
  next hinv => exact DarmT.sorted_of_unsupported (congrArg typeOf hinv)
  next hinv =>
    have hlabel := (getD_mem_or typeStack2InstrLookup (halfwordIndex w) iInvld).resolve_right hinv
    obtain ⟨hmem, hstack⟩ :=
      (typeOf_halfword _ (List.mem_append_right _ hlabel)).resolve_left hinv
    exact halfwordOffset_sorted rfl hmem hstack rfl
      ⟨rfl, rfl, rfl, rfl, rfl, rfl, rfl, rfl, rfl⟩

/-- A single-register PUSH or POP goes through `sp`, by four bytes. -/
theorem stackLabel_cases (d : DarmT) : stackLabel d = d.instr ∨
    (stackLabel d = .iPush ∨ stackLabel d = .iPop) ∧ d.rn = some 13 ∧ d.imm = 4 := by
  unfold stackLabel
  split
  next h => exact .inr ⟨.inl rfl, h.2.1, h.2.2.2.2.2⟩
  next =>
    split
    next h => exact .inr ⟨.inr rfl, h.2.1, h.2.2.2.2.2⟩
    next => exact .inl rfl

/-- The word and byte loads and stores are just that. -/
theorem typeOf_stack0 : ∀ i ∈ typeStack0InstrLookup,
    (typeOf i).isMemory = true ∧ (typeOf i).isStack = false := by
  decide

theorem disasStack0_sorted :
    (disasStack0 (freshDarm cond rn instr instrType) w).2.Sorted w := by
  unfold disasStack0
  generalize hlabel : typeStack0InstrLookup.getD (field w 20 0b11111) iInvld = label
  have hmem := hlabel ▸ getD_mem_or typeStack0InstrLookup (field w 20 0b11111) iInvld
  have hcase : typeOf label = .unsupported ∨
      (typeOf label).isMemory = true ∧ (typeOf label).isStack = false := by
    rcases hmem with h | rfl
    · exact .inr (typeOf_stack0 label h)
    · exact .inl rfl
  simp only
  split
  next h25 =>
    -- at an immediate offset the label may become a PUSH or a POP
    generalize hlast : stackLabel _ = last
    have hst := hlast ▸ stackLabel_cases _
    rcases hst with rfl | ⟨hst, hrn, -⟩
    · rcases hcase with hun | ⟨hmem, hstack⟩
      · exact DarmT.sorted_of_unsupported hun
      · exact DarmT.sorted_access (b := bit w 25) rfl hmem h25.symm
          (fun h => absurd (hstack.symm.trans h) Bool.false_ne_true)
          ⟨rfl, rfl, rfl, rfl, rfl, rfl, rfl, rfl, rfl⟩
    · have hmem : (typeOf last).isMemory = true := by
        rcases hst with rfl | rfl <;> rfl
      exact DarmT.sorted_access (b := bit w 25) rfl hmem h25.symm (fun _ => ⟨h25, hrn, rfl⟩)
        ⟨rfl, rfl, rfl, rfl, rfl, rfl, rfl, rfl, rfl⟩
  next h25 =>
    have h25 : bit w 25 = true := Bool.not_eq_false _ ▸ h25
    generalize hlast : stackLabel _ = last
    have hst := hlast ▸ stackLabel_cases _
    rcases hst with rfl | ⟨-, -, himm⟩
    · rcases hcase with hun | ⟨hmem, hstack⟩
      · exact DarmT.sorted_of_unsupported hun
      · exact DarmT.sorted_access (b := bit w 25) rfl hmem h25.symm
          (fun h => absurd (hstack.symm.trans h) Bool.false_ne_true)
          ⟨rfl, rfl, rfl, rfl, rfl, rfl, rfl, rfl, rfl⟩
    · exact absurd himm (show ¬ (0 : UInt32) = 4 by decide)

/-- The synchronization primitives are not supported; what is none of them
goes on with its base register set. -/
theorem disasSync_cases : (∃ ret d, disasSync (freshDarm cond rn instr instrType) w = .done ret d ∧
      typeOf d.instr = .unsupported) ∨
    disasSync (freshDarm cond rn instr instrType) w =
      .goesOn (freshDarm cond (some (regAt w 16)) iInvld .armSync) := by
  unfold disasSync
  generalize hlabel : typeSyncInstrLookup.getD (field w 20 0b1111) iInvld = label
  have hmem := hlabel ▸ getD_mem_or typeSyncInstrLookup (field w 20 0b1111) iInvld
  simp only [typeSyncInstrLookup, List.mem_cons, List.not_mem_nil, or_false] at hmem
  rcases hmem with (rfl | rfl | rfl | rfl | rfl | rfl | rfl | rfl | rfl | rfl | rfl | rfl | rfl |
      rfl | rfl | rfl) | rfl
  all_goals first | exact .inr rfl | exact .inl ⟨_, _, rfl, rfl⟩

/-! ## The branches of the table -/

/-- The types of the labels in the table of ARM encodings, where the label is
neither replaced nor decides what follows. -/
def LabelFits (instr : DarmInstr) : DarmEnctype → Prop
  | .armArithShift | .armArithImm | .armMovImm | .armBitrev => typeOf instr = .intAlu
  | .armBrnchsc => typeOf instr = .branch ∨ typeOf instr = .syscall
  | .armCmpOp | .armCmpImm => typeOf instr = .branch
  | .armLdstregs => typeOf instr = .memRead ∨ typeOf instr = .memWrite
  | .armMisc => instr = .iMvn ∨ instr = iSmc ∨ instr = .iSel
  | .armSm => instr = .iSmla ∨ instr = iSmlal ∨ instr = iSmusd ∨ instr = iSmlsld ∨ instr = iSmmul
  | .armMvcr => typeOf instr = .syscall
  | .armBits | .armBrnchmisc | .armOpless | .armDstSrc | .armPas => True
  | _ => typeOf instr = .unsupported

instance (instr : DarmInstr) (t : DarmEnctype) : Decidable (LabelFits instr t) := by
  cases t <;> unfold LabelFits <;> infer_instance

/-- **The two tables fit together.** -/
theorem labelFits_table : ∀ i < 256,
    LabelFits (armv7InstrLabels.getD i iInvld) (armv7InstrTypes.getD i .invld) := by
  have hall : List.Forall₂ LabelFits armv7InstrLabels armv7InstrTypes := by
    set_option maxRecDepth 2000 in decide
  have hlen : armv7InstrLabels.length = 256 := by
    set_option maxRecDepth 2000 in decide
  intro i hi
  have h1 : i < armv7InstrLabels.length := hlen ▸ hi
  have h2 : i < armv7InstrTypes.length := hall.length_eq ▸ h1
  simp only [List.getD_eq_getElem?_getD, List.getElem?_eq_getElem h1, List.getElem?_eq_getElem h2,
    Option.getD_some]
  exact (List.forall₂_iff_get.1 hall).2 i h1 h2

/-- A second operand that may be shifted by a register. -/
theorem shiftedOperand_sorted (hform : formOf w d = if bit w 4 then .shifted else .data)
    (hmem : (typeOf d.instr).isMemory = false)
    (hrest : d.rt = none ∧ d.rt2 = none ∧ d.reglist = 0 ∧ d.rs = none ∧ d.ra = none ∧
      d.rdHi = none ∧ d.rdLo = none) : (shiftedOperand d w).Sorted w := by
  intro _
  obtain ⟨hrt, hrt2, hlist, hrs, hra, hhi, hlo⟩ := hrest
  have hsame : formOf w (shiftedOperand d w) = formOf w d := by
    unfold shiftedOperand
    split <;> rfl
  rw [hsame, hform]
  unfold shiftedOperand
  split
  · exact ⟨⟨hmem, hrt, hrt2, hlist⟩, rfl, hra, hhi, hlo⟩
  · exact ⟨⟨hmem, hrt, hrt2, hlist⟩, hrs, hra, hhi, hlo⟩

theorem disasArithShift_sorted (h : typeOf instr = .intAlu) :
    (disasArithShift (freshDarm cond rn instr .armArithShift) w).2.Sorted w :=
  shiftedOperand_sorted rfl (congrArg InstTypeName.isMemory h) ⟨rfl, rfl, rfl, rfl, rfl, rfl, rfl⟩

theorem disasCmpOp_sorted (h : typeOf instr = .branch) :
    (disasCmpOp (freshDarm cond rn instr .armCmpOp) w).2.Sorted w :=
  shiftedOperand_sorted rfl (congrArg InstTypeName.isMemory h) ⟨rfl, rfl, rfl, rfl, rfl, rfl, rfl⟩

theorem disasArithImm_sorted (h : typeOf instr = .intAlu) :
    (disasArithImm (freshDarm cond rn instr .armArithImm) w).2.Sorted w := by
  unfold disasArithImm
  simp only
  split
  · exact DarmT.sorted_of_unsupported rfl
  · exact DarmT.sorted_data rfl (congrArg InstTypeName.isMemory h)
      ⟨rfl, rfl, rfl, rfl, rfl, rfl, rfl⟩

theorem disasBits_sorted : (disasBits (freshDarm cond rn instr instrType) w).2.Sorted w := by
  unfold disasBits
  have hlabel : ∀ i ∈ typeBitsInstrLookup, (typeOf i).isMemory = false := by decide
  have hmem : (typeOf (typeBitsInstrLookup.getD (field w 21 0b11) iInvld)).isMemory = false :=
    forall_getD hlabel rfl _
  simp only
  split
  · exact DarmT.sorted_of_unsupported rfl
  · exact DarmT.sorted_data rfl hmem ⟨rfl, rfl, rfl, rfl, rfl, rfl, rfl⟩

theorem disasBrnchsc_sorted (h : typeOf instr = .branch ∨ typeOf instr = .syscall) :
    (disasBrnchsc (freshDarm cond rn instr .armBrnchsc) w).2.Sorted w := by
  have hmem : (typeOf instr).isMemory = false := by
    rcases h with h | h <;> rw [h] <;> rfl
  exact DarmT.sorted_data rfl hmem ⟨rfl, rfl, rfl, rfl, rfl, rfl, rfl⟩

theorem disasBrnchmisc_sorted :
    (disasBrnchmisc (freshDarm cond rn instr .armBrnchmisc) w).2.Sorted w := by
  unfold disasBrnchmisc
  have hlabel : ∀ i ∈ typeBrnchmiscInstrLookup, (typeOf i).isMemory = false := by decide
  have hmem : (typeOf (typeBrnchmiscInstrLookup.getD (field w 4 0b1111) iInvld)).isMemory =
      false := forall_getD hlabel rfl _
  simp only
  split_ifs
  all_goals exact DarmT.sorted_data rfl hmem ⟨rfl, rfl, rfl, rfl, rfl, rfl, rfl⟩

theorem disasMovImm_sorted (h : typeOf instr = .intAlu) :
    (disasMovImm (freshDarm cond rn instr .armMovImm) w).2.Sorted w := by
  have hmem : (typeOf instr).isMemory = false := congrArg InstTypeName.isMemory h
  unfold disasMovImm
  simp only
  split
  · exact DarmT.sorted_data rfl hmem ⟨rfl, rfl, rfl, rfl, rfl, rfl, rfl⟩
  · exact DarmT.sorted_data rfl hmem ⟨rfl, rfl, rfl, rfl, rfl, rfl, rfl⟩

theorem disasCmpImm_sorted (h : typeOf instr = .branch) :
    (disasCmpImm (freshDarm cond rn instr .armCmpImm) w).2.Sorted w :=
  DarmT.sorted_data rfl (congrArg InstTypeName.isMemory h) ⟨rfl, rfl, rfl, rfl, rfl, rfl, rfl⟩

theorem disasOpless_sorted :
    (disasOpless (freshDarm cond rn instr instrType) w).2.Sorted w := by
  have hlabel : ∀ i ∈ typeOplessInstrLookup, typeOf i = .unsupported := by decide
  exact DarmT.sorted_of_unsupported (forall_getD hlabel rfl _)

theorem disasDstSrc_sorted :
    (disasDstSrc (freshDarm cond rn instr .armDstSrc) w).2.Sorted w := by
  have hlabel : ∀ i ∈ typeShiftInstrLookup, (typeOf i).isMemory = false := by decide
  unfold disasDstSrc
  simp only
  split
  next hinv => exact DarmT.sorted_of_unsupported (congrArg typeOf hinv)
  next hinv =>
    have hmem := hlabel _
      ((getD_mem_or typeShiftInstrLookup (field w 4 0b1111) iInvld).resolve_right hinv)
    split_ifs
    · exact DarmT.sorted_data rfl hmem ⟨rfl, rfl, rfl, rfl, rfl, rfl, rfl⟩
    · exact DarmT.sorted_data rfl rfl ⟨rfl, rfl, rfl, rfl, rfl, rfl, rfl⟩
    · exact DarmT.sorted_data rfl rfl ⟨rfl, rfl, rfl, rfl, rfl, rfl, rfl⟩
    · exact DarmT.sorted_data rfl hmem ⟨rfl, rfl, rfl, rfl, rfl, rfl, rfl⟩

theorem disasLdstregs_sorted (h : typeOf instr = .memRead ∨ typeOf instr = .memWrite) :
    (disasLdstregs (freshDarm cond rn instr .armLdstregs) w).2.Sorted w := by
  unfold disasLdstregs
  simp only
  split
  next hpop =>
    exact fun _ => ⟨⟨rfl, rfl, rfl, rfl, rfl, rfl, rfl, rfl, rfl⟩, rfl, rfl, rfl, fun _ => hpop.2.2⟩
  next =>
    split
    next hpush =>
      exact fun _ =>
        ⟨⟨rfl, rfl, rfl, rfl, rfl, rfl, rfl, rfl, rfl⟩, rfl, rfl, rfl, fun _ => hpush.2.2⟩
    next =>
      have hmem : (typeOf instr).isMemory = true := by
        rcases h with h | h <;> rw [h] <;> rfl
      have hstack : ¬ (typeOf instr).isStack = true := by
        rcases h with h | h <;> rw [h] <;> exact Bool.false_ne_true
      exact fun _ => ⟨⟨hmem, rfl, rfl, rfl, rfl, rfl, rfl, rfl, rfl⟩, rfl, rfl, rfl,
        fun hx => absurd hx hstack⟩

theorem disasBitrev_sorted (h : typeOf instr = .intAlu) :
    (disasBitrev (freshDarm cond rn instr .armBitrev) w).2.Sorted w := by
  unfold disasBitrev
  simp only
  split
  · exact DarmT.sorted_of_unsupported rfl
  · split
    · exact DarmT.sorted_of_unsupported rfl
    · exact DarmT.sorted_data rfl (congrArg InstTypeName.isMemory h)
        ⟨rfl, rfl, rfl, rfl, rfl, rfl, rfl⟩

theorem disasPas_sorted : (disasPas (freshDarm cond rn instr .armPas) w).2.Sorted w := by
  have hlabel : ∀ i ∈ typePasInstrLookup, (typeOf i).isMemory = false := by decide
  unfold disasPas
  simp only
  split
  next hinv => exact DarmT.sorted_of_unsupported (congrArg typeOf hinv)
  next hinv =>
    have hmem := hlabel _ ((getD_mem_or typePasInstrLookup
      (field w 17 0b111000 ||| field w 5 0b111) iInvld).resolve_right hinv)
    exact DarmT.sorted_data rfl hmem ⟨rfl, rfl, rfl, rfl, rfl, rfl, rfl⟩

theorem disasSm_sorted (h : LabelFits instr .armSm) :
    (disasSm (freshDarm cond rn instr .armSm) w).2.Sorted w := by
  rcases h with rfl | rfl | rfl | rfl | rfl
  · exact fun _ => ⟨⟨rfl, rfl, rfl, rfl⟩, rfl, rfl, rfl, rfl⟩
  · exact DarmT.sorted_of_unsupported rfl
  · -- of the four labels of this branch only SMUAD is supported
    simp only [disasSm, freshDarm]
    rw [if_neg (by decide), if_pos trivial]
    split
    · exact DarmT.sorted_of_unsupported rfl
    · split
      · simp only
        split
        · exact fun _ => ⟨⟨rfl, rfl, rfl, rfl⟩, rfl, rfl, rfl, rfl⟩
        · exact DarmT.sorted_of_unsupported rfl
      · exact DarmT.sorted_of_unsupported rfl
  · simp only [disasSm, freshDarm]
    rw [if_neg (by decide), if_neg (by decide), if_pos trivial]
    split <;> exact DarmT.sorted_of_unsupported rfl
  · simp only [disasSm, freshDarm]
    rw [if_pos trivial]
    split
    · exact DarmT.sorted_of_unsupported rfl
    · split <;> exact DarmT.sorted_of_unsupported rfl

theorem disasSmc_sorted : (disasSmc (freshDarm cond rn iSmc .armMisc) w).2.Sorted w := by
  unfold disasSmc
  split
  all_goals first
    | exact DarmT.sorted_of_unsupported rfl
    | exact DarmT.sorted_data rfl rfl ⟨rfl, rfl, rfl, rfl, rfl, rfl, rfl⟩

theorem disasMisc_sorted (h : LabelFits instr .armMisc) :
    (disasMisc (freshDarm cond rn instr .armMisc) w).2.Sorted w := by
  rcases h with rfl | rfl | rfl
  · exact shiftedOperand_sorted (if_congr (and_iff_right rfl) rfl rfl) rfl
      ⟨rfl, rfl, rfl, rfl, rfl, rfl, rfl⟩
  · exact disasSmc_sorted
  · simp only [disasMisc, freshDarm]
    rw [if_neg (by decide), if_neg (by decide), if_neg (by decide), if_pos trivial]
    split
    · exact DarmT.sorted_of_unsupported rfl
    · exact DarmT.sorted_data rfl rfl ⟨rfl, rfl, rfl, rfl, rfl, rfl, rfl⟩

theorem disasMvcr_sorted (h : typeOf instr = .syscall) :
    (disasMvcr (freshDarm cond none instr .armMvcr) w).2.Sorted w := by
  unfold disasMvcr
  split
  · exact DarmT.sorted_of_unsupported rfl
  · exact fun _ =>
      ⟨congrArg InstTypeName.isMemory h, rfl, rfl, rfl, rfl, rfl, rfl, rfl, rfl, rfl, rfl⟩

/-- The words whose base register may be set before the table lie at its
beginning. -/
theorem field_lt_of_mask (h : w &&& ((0b111 : UInt32) <<< 25 ||| (0b1001 : UInt32) <<< 4) =
    (0b1001 : UInt32) <<< 4) : field w 20 0xFF < 32 := by
  have hsmall : ∀ i < 256, i &&& 0xE0 = 0 → i < 32 := by
    set_option maxRecDepth 2000 in decide
  have hzero : (w >>> 20 &&& 0xFF) &&& 0xE0 = 0 := by
    have := congrArg (fun x : UInt32 => (x >>> 20) &&& 0xE0) h
    simp only [UInt32.shiftRight_and, UInt32.and_assoc] at this
    rw [UInt32.and_assoc]
    exact this
  have hlt : field w 20 0xFF < 256 := by
    rw [field, UInt32.toNat_and]
    exact lt_of_le_of_lt Nat.and_le_right (by decide)
  refine hsmall _ hlt ?_
  have := congrArg UInt32.toNat hzero
  rwa [UInt32.toNat_and] at this

/-- Only the beginning of the table is reached with a base register set. -/
theorem typeOf_table_mvcr : ∀ i < 32, armv7InstrTypes.getD i .invld ≠ .armMvcr := by
  decide

/-- **The records of the table are sorted.** -/
theorem disasTable_sorted (hrn : rn = none ∨ field w 20 0xFF < 32) :
    (disasTable (freshDarm cond rn instr instrType) w).2.Sorted w := by
  have hlt : field w 20 0xFF < 256 := by
    rw [field, UInt32.toNat_and]
    exact lt_of_le_of_lt Nat.and_le_right (by decide)
  have hfits := labelFits_table _ hlt
  have hrn : armv7InstrTypes.getD (field w 20 0xFF) .invld = .armMvcr → rn = none := fun ht =>
    hrn.resolve_right fun hlow => typeOf_table_mvcr _ hlow ht
  show (disasEncoding (freshDarm cond rn (armv7InstrLabels.getD (field w 20 0xFF) iInvld)
    (armv7InstrTypes.getD (field w 20 0xFF) .invld)) w).2.Sorted w
  generalize armv7InstrLabels.getD (field w 20 0xFF) iInvld = label at hfits ⊢
  generalize armv7InstrTypes.getD (field w 20 0xFF) .invld = enc at hfits hrn ⊢
  cases enc with
  | armArithShift => exact disasArithShift_sorted hfits
  | armArithImm => exact disasArithImm_sorted hfits
  | armBits => exact disasBits_sorted
  | armBrnchsc => exact disasBrnchsc_sorted hfits
  | armBrnchmisc => exact disasBrnchmisc_sorted
  | armMovImm => exact disasMovImm_sorted hfits
  | armCmpOp => exact disasCmpOp_sorted hfits
  | armCmpImm => exact disasCmpImm_sorted hfits
  | armOpless => exact disasOpless_sorted
  | armDstSrc => exact disasDstSrc_sorted
  | armLdstregs => exact disasLdstregs_sorted hfits
  | armBitrev => exact disasBitrev_sorted hfits
  | armMisc => exact disasMisc_sorted hfits
  | armSm => exact disasSm_sorted hfits
  | armPas => exact disasPas_sorted
  | armMvcr =>
    obtain rfl := hrn rfl
    exact disasMvcr_sorted hfits
  | invld | armUncond | armMul | armStack0 | armStack1 | armStack2 | armSat | armSync | armPusr
  | armUdf => exact DarmT.sorted_of_unsupported hfits

/-! ## The disassembler -/

/-- A part of the disassembler that returns does so with a sorted record, and
one that goes on leaves a fresh one. -/
def Part.Sorted (w : UInt32) (p : Part) : Prop :=
  (∃ ret d, p = .done ret d ∧ d.Sorted w) ∨ ∃ cond rn instr instrType,
    p = .goesOn (freshDarm cond rn instr instrType) ∧ (rn = none ∨ field w 20 0xFF < 32)

theorem disasEarly_sorted : (disasEarly (freshDarm cond none instr instrType) w).Sorted w := by
  unfold disasEarly
  simp only
  split
  next hmask =>
    split
    · exact .inl ⟨_, _, rfl, disasMul_sorted⟩
    · split
      · exact .inl ⟨_, _, rfl, disasStack1_sorted⟩
      · split
        · exact .inl ⟨_, _, rfl, disasStack2_sorted⟩
        · split
          · rcases disasSync_cases with ⟨ret, d, heq, hun⟩ | heq
            · exact .inl ⟨ret, d, heq, DarmT.sorted_of_unsupported hun⟩
            · exact .inr ⟨_, _, _, _, heq, .inr (field_lt_of_mask hmask)⟩
          · exact .inr ⟨_, _, _, _, rfl, .inl rfl⟩
  next =>
    split
    · split
      · exact .inl ⟨_, _, rfl, disasStack0_sorted⟩
      · exact .inr ⟨_, _, _, _, rfl, .inl rfl⟩
    · exact .inr ⟨_, _, _, _, rfl, .inl rfl⟩

theorem disasSat_sorted (hrn : rn = none ∨ field w 20 0xFF < 32) :
    (disasSat (freshDarm cond rn instr instrType) w).Sorted w := by
  have hlabel : ∀ i ∈ typeSatInstrLookup, typeOf i = .unsupported := by decide
  unfold disasSat
  simp only
  split
  · exact .inl ⟨_, _, rfl, DarmT.sorted_of_unsupported (forall_getD hlabel rfl _)⟩
  · exact .inr ⟨_, _, _, _, rfl, hrn⟩

theorem disasSaturate_sorted (hrn : rn = none ∨ field w 20 0xFF < 32) :
    (disasSaturate (freshDarm cond rn instr instrType) w).Sorted w := by
  unfold disasSaturate
  simp only
  split
  · refine .inl ⟨_, _, rfl, DarmT.sorted_of_unsupported ?_⟩
    simp only
    split <;> rfl
  · split
    · refine .inl ⟨_, _, rfl, DarmT.sorted_of_unsupported ?_⟩
      simp only
      split <;> rfl
    · exact .inr ⟨_, _, _, _, rfl, hrn⟩

theorem disasPusr_sorted (hrn : rn = none ∨ field w 20 0xFF < 32) :
    (disasPusr (freshDarm cond rn instr instrType) w).Sorted w := by
  have hlabel : ∀ i ∈ typePusrInstrLookup, typeOf i = .unsupported := by decide
  unfold disasPusr
  simp only
  split
  · split
    · generalize field w 20 0b111 <<< 1 ||| (if regAt w 16 = 15 then 1 else 0) = index
      split
      next hne =>
        refine .inl ⟨_, _, rfl, DarmT.sorted_of_unsupported ?_⟩
        exact hlabel _ ((getD_mem_or _ _ _).resolve_right hne)
      next => exact disasSaturate_sorted hrn
    · exact disasSaturate_sorted hrn
  · exact .inr ⟨_, _, _, _, rfl, hrn⟩

/-- Going on after a part. -/
theorem Part.Sorted.andThen {p : Part} {f : DarmT → ℤ × DarmT} (hp : p.Sorted w)
    (hf : ∀ cond rn instr instrType, rn = none ∨ field w 20 0xFF < 32 →
      (f (freshDarm cond rn instr instrType)).2.Sorted w) : (p.andThen f).2.Sorted w := by
  rcases hp with ⟨ret, d, rfl, hd⟩ | ⟨cond, rn, instr, instrType, rfl, hrn⟩
  · exact hd
  · exact hf cond rn instr instrType hrn

theorem armv7DisasCond_sorted :
    (armv7DisasCond (freshDarm cond none instr instrType) w).2.Sorted w :=
  disasEarly_sorted.andThen fun _ _ _ _ hrn =>
    (disasSat_sorted hrn).andThen fun _ _ _ _ hrn =>
      (disasPusr_sorted hrn).andThen fun _ _ _ _ hrn => disasTable_sorted hrn

/-- The normalisation of the shift leaves the registers and the label. -/
theorem normalised_sorted {p : ℤ × DarmT} (hp : p.2.Sorted w) :
    (if p.1 < 0 then p
      else if p.2.shiftType = .sLsl ∧ p.2.rs = none ∧ p.2.shift = 0 then
        (0, { p.2 with shiftType := .sInvld })
      else (0, p.2)).2.Sorted w := by
  split
  · exact hp
  · split
    · exact hp
    · exact hp

/-- **The record of a word has the form of the word**, for every word that
decoding supports. -/
theorem hasForm_operandForm (w : UInt32)
    (h : typeOf (darmArmv7Disasm w).2.instr ≠ .unsupported) :
    (darmArmv7Disasm w).2.HasForm w (operandForm w) := by
  have hstart : (if (field w 28 0b1111 : ℤ) = 15 then
      armv7DisasUncond { darmInit with cond := field w 28 0b1111 } w
      else armv7DisasCond { darmInit with cond := field w 28 0b1111 } w).2.Sorted w := by
    split
    · exact armv7DisasUncond_sorted
    · exact armv7DisasCond_sorted
  exact normalised_sorted hstart h

end TraceAnalyzer

end Tqsim
