import Tqsim.Common.SetBits
import Tqsim.TraceAnalyzer.Helpers.Expansion
import Tqsim.TraceAnalyzer.Helpers.Forms

/-!
# The operands a record keeps

`decode_inst` keeps registers in two lists of sixteen entries. This module
says which registers of the disassembler's answer it keeps, and when they
fit. `init_inst_src_dst_reg` has three branches, and reads of the nine
register fields only `Rd`, `Rn`, `Rm` and `Rt`; the register list goes
through `darm_reglist2`, which takes it apart run by run.
-/

namespace Tqsim

namespace TraceAnalyzer

open SetBits

/-! ## `darm_reglist2` -/

variable {b : BitVec 16} {reg fuel : ℕ}

/-- While nothing is set below a register, `__builtin_ctz` finds it just when
it is set. -/
theorem eq_builtinCtz_iff (hlow : ∀ j < reg, b.getLsbD j = false) (hreg : reg ≤ 16) :
    reg = builtinCtz b ↔ b.getLsbD reg = true := by
  unfold builtinCtz
  constructor
  · intro heq
    cases hfind : (List.range 16).find? fun i => b.getLsbD i with
    | none =>
      rw [hfind, Option.getD_none] at heq
      omega
    | some i =>
      rw [hfind, Option.getD_some] at heq
      subst heq
      exact List.find?_some hfind
  · intro hset
    have hfind : ((List.range 16).find? fun i => b.getLsbD i) = some reg := by
      rw [List.find?_range_eq_some]
      refine ⟨hset, List.mem_range.mpr (BitVec.lt_of_getLsbD hset), fun j hj => ?_⟩
      rw [hlow j hj]
      rfl
    rw [hfind, Option.getD_some]

/-- The lowest register of a list that is not empty. -/
theorem builtinCtz_spec (hb : b ≠ 0) : b.getLsbD (builtinCtz b) = true ∧
    ∀ j < builtinCtz b, b.getLsbD j = false := by
  unfold builtinCtz
  cases hfind : (List.range 16).find? fun i => b.getLsbD i with
  | none =>
    refine absurd (BitVec.eq_of_getLsbD_eq fun i hi => ?_) hb
    have := List.find?_eq_none.mp hfind i (List.mem_range.mpr hi)
    simpa using this
  | some i =>
    rw [List.find?_range_eq_some] at hfind
    obtain ⟨hset, -, hlow⟩ := hfind
    refine ⟨hset, fun j hj => ?_⟩
    simpa using hlow j hj

/-- **One run is unset**: from the lowest register on, up to the first that is
not in the list. -/
theorem clearRun_spec (hlow : ∀ j < reg, b.getLsbD j = false) (hreg : reg ≤ 16)
    (hfuel : 16 ≤ reg + fuel) :
    reg ≤ (clearRun fuel reg b).1 ∧ (clearRun fuel reg b).1 ≤ 16 ∧
      b.getLsbD (clearRun fuel reg b).1 = false ∧
      (∀ j, reg ≤ j → j < (clearRun fuel reg b).1 → b.getLsbD j = true) ∧
      ∀ j, (clearRun fuel reg b).2.getLsbD j =
        (b.getLsbD j && decide ((clearRun fuel reg b).1 ≤ j)) := by
  induction fuel generalizing reg b with
  | zero =>
    refine ⟨le_refl _, hreg, BitVec.getLsbD_of_ge _ _ hfuel,
      fun j h1 h2 => absurd h2 (not_lt.mpr h1), fun j => ?_⟩
    by_cases hj : reg ≤ j
    · rw [clearRun, decide_eq_true hj, Bool.and_true]
    · rw [clearRun, hlow j (by omega), Bool.false_and]
  | succ fuel ih =>
    rw [clearRun]
    split
    next heq =>
      have hset := (eq_builtinCtz_iff hlow hreg).mp heq
      have hclear := getLsbD_and_not_one_shiftLeft b reg
      have hlow' : ∀ j < reg + 1, (b &&& ~~~(1#16 <<< reg)).getLsbD j = false := by
        intro j hj
        rw [hclear]
        rcases Nat.lt_succ_iff_lt_or_eq.mp hj with h | rfl
        · rw [hlow j h, Bool.false_and]
        · rw [decide_eq_false (by simp), Bool.and_false]
      obtain ⟨h1, h2, hend, h3, h4⟩ := ih hlow' (BitVec.lt_of_getLsbD hset) (by omega)
      rw [hclear, decide_eq_true (by omega), Bool.and_true] at hend
      refine ⟨by omega, h2, hend, fun j hj1 hj2 => ?_, fun j => ?_⟩
      · rcases Nat.eq_or_lt_of_le hj1 with rfl | hlt
        · exact hset
        · have := h3 j hlt hj2
          rw [hclear, Bool.and_eq_true] at this
          exact this.1
      · rw [h4, hclear, Bool.and_assoc]
        congr 1
        rw [← Bool.decide_and]
        exact decide_eq_decide.mpr ⟨fun h => h.2, fun h => ⟨by omega, h⟩⟩
    next hne =>
      have hunset : b.getLsbD reg = false := by
        simpa using fun h => hne ((eq_builtinCtz_iff hlow hreg).mpr h)
      refine ⟨le_refl _, hreg, hunset, fun j h1 h2 => absurd h2 (not_lt.mpr h1), fun j => ?_⟩
      by_cases hj : reg ≤ j
      · rw [decide_eq_true hj, Bool.and_true]
      · rw [hlow j (by omega), Bool.false_and]

/-- The three ways `darm_reglist2` writes a run come to the same. -/
theorem run_eq (start k : ℕ) :
    ((start : ℕ) : ℤ) :: (if start + 1 + k ≠ start + 1 then
        if start + 1 + k ≠ start + 2 then
          (List.range (start + 1 + k - 1 - start)).map fun i => ((start + 1 + i : ℕ) : ℤ)
        else [((start + 1 + k - 1 : ℕ) : ℤ)]
      else []) = (List.range' start (k + 1)).map fun i => ((i : ℕ) : ℤ) := by
  rw [List.range'_succ, List.map_cons]
  congr 1
  match k with
  | 0 => rw [if_neg (by omega), List.range'_zero, List.map_nil]
  | 1 =>
    rw [if_pos (by omega), if_neg (by omega)]
    rfl
  | k + 2 =>
    rw [if_pos (by omega), if_pos (by omega), List.range'_eq_map_range, List.map_map]
    have hlen : start + 1 + (k + 2) - 1 - start = k + 2 := by omega
    rw [hlen]
    rfl

/-- The runs of a list are its registers. -/
theorem reglistLoop_eq (hfuel : (setBits b).length ≤ fuel) :
    reglistLoop fuel b = (setBits b).map fun i => ((i : ℕ) : ℤ) := by
  induction fuel generalizing b with
  | zero =>
    rw [List.length_eq_zero_iff.mp (Nat.le_zero.mp hfuel)]
    rfl
  | succ fuel ih =>
    rw [reglistLoop]
    split
    next hzero => rw [hzero, setBits_zero, List.map_nil]
    next hb =>
      obtain ⟨hset, hlow⟩ := builtinCtz_spec hb
      have hlt : builtinCtz b < 16 := BitVec.lt_of_getLsbD hset
      have hfuel16 : 16 ≤ builtinCtz b + 16 := Nat.le_add_left _ _
      obtain ⟨hle, hend, hunset, hrun, hrest⟩ := clearRun_spec hlow hlt.le hfuel16
      simp only
      generalize builtinCtz b = start at *
      generalize clearRun 16 start b = ended at *
      have hbits := setBits_eq_range'_append hle hend hlow hrun hrest
      -- the run is not empty, as it begins with the lowest register
      have hne : ended.1 ≠ start := by
        rintro heq
        rw [heq, hset] at hunset
        exact Bool.noConfusion hunset
      obtain ⟨k, hk⟩ : ∃ k, ended.1 = start + 1 + k := ⟨ended.1 - start - 1, by omega⟩
      have hlen : ended.1 - start = k + 1 := by omega
      rw [hbits, List.length_append, List.length_range', hlen] at hfuel
      rw [hbits, List.map_append, hlen, ih (by omega), hk, ← run_eq]

/-- **`darm_reglist2` lists the registers of the mask**, in ascending
order. -/
theorem darmReglist2_eq (reglist : UInt16) :
    darmReglist2 reglist = (setBits reglist.toBitVec).map fun i => ((i : ℕ) : ℤ) :=
  reglistLoop_eq (length_setBits_le _)

/-! ## The two lists -/

variable {d : DarmT} {r : Fin 16} {w : UInt32} {inst : Inst}

/-- The instructions whose condition `decode_inst` counts as one. -/
def DarmT.IsConditional (d : DarmT) : Prop := ¬ (d.cond = 15 ∨ d.cond = -1 ∨ d.cond = 14)

instance : Decidable d.IsConditional := inferInstanceAs (Decidable (¬ _))

/-- The instructions that update the flags. -/
def DarmT.UpdatesFlags (d : DarmT) : Prop := isCompareLabel d.instr = true ∨ d.s = .bSet

instance : Decidable d.UpdatesFlags := inferInstanceAs (Decidable (_ ∨ _))

/-- The registers of the mask of a record. -/
def DarmT.regs (d : DarmT) : List ℤ :=
  (setBits d.reglist.toBitVec).map fun i => ((i : ℕ) : ℤ)

/-- The sources that the branches of `init_inst_src_dst_reg` add. -/
def DarmT.sources (d : DarmT) : List ℤ :=
  match typeOf d.instr with
  | .memRead | .pop => regEntry d.rn
  | .memWrite | .push => regEntry d.rt ++ regEntry d.rn ++ d.regs
  | _ => regEntry d.rm ++ regEntry d.rn ++ d.regs

/-- The destinations that the branches of `init_inst_src_dst_reg` add. -/
def DarmT.destinations (d : DarmT) : List ℤ :=
  match typeOf d.instr with
  | .memRead | .pop => regEntry d.rt ++ d.regs
  | .memWrite | .push => []
  | _ => regEntry d.rd

theorem decodeInst_type (h : inst.decoded = false) :
    (decodeInst disasm inst).type = typeOf (darmArmv7Disasm inst.code).2.instr :=
  type_decodeInst disasm h

/-- What `init_inst_src_dst_reg` makes of two empty lists. -/
theorem initInstSrcDstReg_lists (hsrc : inst.srcReg = []) (hdst : inst.dstReg = [])
    (htype : inst.type = typeOf d.instr) :
    (initInstSrcDstReg inst d.toDarm).srcReg =
        d.sources ++ (if inst.isCondInst then [17] else []) ∧
      (initInstSrcDstReg inst d.toDarm).dstReg =
        d.destinations ++ (if inst.updateCondFlag then [17] else []) := by
  have hregs : darmReglist2 d.toDarm.reglist = d.regs := darmReglist2_eq _
  simp only [initInstSrcDstReg, hsrc, hdst, htype, hregs, List.nil_append]
  unfold DarmT.sources DarmT.destinations
  cases typeOf d.instr <;> exact ⟨rfl, rfl⟩

/-- **The two lists of a decoded record**: the registers of its branch, and
the flags. -/
theorem decodeInst_lists (h : inst.Recorded) (hd : (darmArmv7Disasm inst.code).2 = d)
    (hsup : typeOf d.instr ≠ .unsupported) :
    (decodeInst disasm inst).srcReg = d.sources ++ (if d.IsConditional then [17] else []) ∧
      (decodeInst disasm inst).dstReg =
        d.destinations ++ (if d.UpdatesFlags then [17] else []) := by
  subst hd
  have hdec := h.decoded
  obtain ⟨seq, pc, code, h⟩ := h
  have hsrc : (classifyInst inst (disasm inst.code)).srcReg = [] := by
    rw [h]
    rfl
  have hdst : (classifyInst inst (disasm inst.code)).dstReg = [] := by
    rw [h]
    rfl
  have hcond : (classifyInst inst (disasm inst.code)).isCondInst = true ↔
      (darmArmv7Disasm inst.code).2.IsConditional := by
    simp [classifyInst, DarmT.IsConditional, disasm, DarmT.toDarm, and_assoc]
  have hflags : (classifyInst inst (disasm inst.code)).updateCondFlag = true ↔
      (darmArmv7Disasm inst.code).2.UpdatesFlags := by
    have hold : inst.updateCondFlag = false := by
      rw [h]
      rfl
    simp only [classifyInst, DarmT.UpdatesFlags, disasm, DarmT.toDarm, hold, Bool.or_eq_true]
    cases (darmArmv7Disasm inst.code).2.s <;> simp
  obtain ⟨hs, hd⟩ := initInstSrcDstReg_lists hsrc hdst
    (d := (darmArmv7Disasm inst.code).2) rfl
  have heq : decodeInst disasm inst =
      { initInstSrcDstReg (classifyInst inst (disasm inst.code)) (disasm inst.code) with
        decoded := true, imm := (disasm inst.code).imm } := by
    have hsup' : (classifyInst inst (disasm inst.code)).type ≠ .unsupported := hsup
    rw [decodeInst, if_neg (by simp [hdec])]
    simp only [if_pos hsup']
  rw [heq, ← if_congr hcond rfl rfl, ← if_congr hflags rfl rfl]
  exact ⟨hs, hd⟩

/-! ## Lost operands -/

/-- A register that the disassembler reports, in a field or in the list. -/
def DarmT.Reports (d : DarmT) (r : Fin 16) : Prop :=
  some r ∈ [d.rd, d.rn, d.rm, d.rs, d.ra, d.rt, d.rt2, d.rdHi, d.rdLo] ∨
    r.val ∈ setBits d.reglist.toBitVec

/-- A register in one of the lists of a record. -/
def Inst.Names (inst : Inst) (r : Fin 16) : Prop :=
  ((r : ℕ) : ℤ) ∈ inst.srcReg ∨ ((r : ℕ) : ℤ) ∈ inst.dstReg

instance : Decidable (d.Reports r) := inferInstanceAs (Decidable (_ ∨ _))

instance : Decidable (inst.Names r) := inferInstanceAs (Decidable (_ ∨ _))

/-- The records whose registers all lie where decoding looks: a register that
shifts, that is added or offsets an address, and the two destinations of a
long multiplication, are kept only where they coincide with a register of
another field. -/
def DarmT.Keeps (d : DarmT) : OperandForm → Prop
  | .data | .immediate | .list => True
  | .shifted => d.rs ∈ [d.rd, d.rn, d.rm]
  | .accumulate => d.ra ∈ [d.rd, d.rn, d.rm]
  | .long => d.rdHi ∈ [d.rn, d.rm] ∧ d.rdLo ∈ [d.rn, d.rm]
  | .transfer => False
  | .offset => d.rm ∈ [d.rn, d.rt]

/-- **The words that keep their operands** in the fields that decoding
reads. -/
def KeepsOperands (w : UInt32) : Prop := (darmArmv7Disasm w).2.Keeps (operandForm w)

theorem mem_regEntry {x : Option (Fin 16)} : ((r : ℕ) : ℤ) ∈ regEntry x ↔ x = some r := by
  cases x with
  | none => simp [regEntry]
  | some i => simp [regEntry, eq_comm, Fin.ext_iff]

theorem mem_regs : ((r : ℕ) : ℤ) ∈ d.regs ↔ r.val ∈ setBits d.reglist.toBitVec := by
  simp [DarmT.regs]

/-- The three branches of `init_inst_src_dst_reg`: a load, a store, and the
others. -/
theorem DarmT.operands_cases (d : DarmT) :
    ((typeOf d.instr).isMemory = true ∧ d.sources = regEntry d.rn ∧
        d.destinations = regEntry d.rt ++ d.regs) ∨
      ((typeOf d.instr).isMemory = true ∧
        d.sources = regEntry d.rt ++ regEntry d.rn ++ d.regs ∧ d.destinations = []) ∨
      ((typeOf d.instr).isMemory = false ∧
        d.sources = regEntry d.rm ++ regEntry d.rn ++ d.regs ∧
        d.destinations = regEntry d.rd) := by
  unfold DarmT.sources DarmT.destinations
  cases typeOf d.instr with
  | memRead | pop => exact .inl ⟨rfl, rfl, rfl⟩
  | memWrite | push => exact .inr (.inl ⟨rfl, rfl, rfl⟩)
  | _ => exact .inr (.inr ⟨rfl, rfl, rfl⟩)

/-- The registers that an access to memory keeps, and the others. -/
theorem mem_sources_or_destinations :
    (((r : ℕ) : ℤ) ∈ d.sources ∨ ((r : ℕ) : ℤ) ∈ d.destinations) ↔
      if (typeOf d.instr).isMemory then
        some r ∈ [d.rn, d.rt] ∨ r.val ∈ setBits d.reglist.toBitVec
      else some r ∈ [d.rd, d.rn, d.rm] ∨ r.val ∈ setBits d.reglist.toBitVec := by
  rcases d.operands_cases with ⟨hmem, hsrc, hdst⟩ | ⟨hmem, hsrc, hdst⟩ | ⟨hmem, hsrc, hdst⟩
  all_goals
    rw [hmem, hsrc, hdst]
    simp only [List.mem_append, mem_regEntry, mem_regs, List.mem_cons, List.not_mem_nil, or_false,
      if_true, if_false, Bool.false_eq_true, eq_comm (a := some r)]
    tauto

/-- The flags are not a register. -/
theorem names_decodeInst_iff (h : inst.Recorded) (hd : (darmArmv7Disasm inst.code).2 = d)
    (hsup : typeOf d.instr ≠ .unsupported) :
    (decodeInst disasm inst).Names r ↔
      ((r : ℕ) : ℤ) ∈ d.sources ∨ ((r : ℕ) : ℤ) ∈ d.destinations := by
  obtain ⟨hsrc, hdst⟩ := decodeInst_lists h hd hsup
  have hlt : (r : ℕ) < 16 := r.isLt
  have hflag : ∀ c : Prop, ∀ [Decidable c], ((r : ℕ) : ℤ) ∉ (if c then [17] else [] : List ℤ) := by
    intro c _ hmem
    split at hmem
    · have := List.mem_singleton.mp hmem
      omega
    · exact absurd hmem List.not_mem_nil
  simp only [Inst.Names, hsrc, hdst, List.mem_append, hflag, or_false]

theorem initInst_recorded (seq pc code : UInt32) : (initInst seq pc code).Recorded :=
  ⟨seq, pc, code, rfl⟩

/-- What a record of each form keeps. -/
theorem DarmT.HasForm.keeps_iff {form : OperandForm} (h : d.HasForm w form) :
    (∀ r, d.Reports r → ((r : ℕ) : ℤ) ∈ d.sources ∨ ((r : ℕ) : ℤ) ∈ d.destinations) ↔
      d.Keeps form := by
  have hzero : ∀ r, r ∉ setBits (0#16) := by simp [mem_setBits]
  simp only [mem_sources_or_destinations, DarmT.Reports]
  cases form with
  | data =>
    obtain ⟨⟨hmem, hrt, hrt2, hlist⟩, hrs, hra, hhi, hlo⟩ := h
    simp [hmem, hrt, hrt2, hlist, hrs, hra, hhi, hlo, hzero, DarmT.Keeps]
  | shifted =>
    obtain ⟨⟨hmem, hrt, hrt2, hlist⟩, hrs, hra, hhi, hlo⟩ := h
    obtain ⟨s, hs⟩ := Option.isSome_iff_exists.mp hrs
    simp +contextual [hmem, hrt, hrt2, hlist, hs, hra, hhi, hlo, hzero, DarmT.Keeps, or_imp]
  | accumulate =>
    obtain ⟨⟨hmem, hrt, hrt2, hlist⟩, hrs, hra, hhi, hlo⟩ := h
    obtain ⟨a, ha⟩ := Option.isSome_iff_exists.mp hra
    simp +contextual [hmem, hrt, hrt2, hlist, hrs, ha, hhi, hlo, hzero, DarmT.Keeps, or_imp]
  | long =>
    obtain ⟨⟨hmem, hrt, hrt2, hlist⟩, hrd, hrs, hra, hhi, hlo⟩ := h
    obtain ⟨high, hhigh⟩ := Option.isSome_iff_exists.mp hhi
    obtain ⟨low, hlow⟩ := Option.isSome_iff_exists.mp hlo
    simp +contextual [hmem, hrt, hrt2, hlist, hrs, hra, hrd, hhigh, hlow, hzero, DarmT.Keeps,
      or_imp, forall_and]
  | transfer =>
    obtain ⟨hmem, hrt, hrt2, hlist, hrd, hrn, hrm, hrs, hra, hhi, hlo⟩ := h
    obtain ⟨t, ht⟩ := Option.isSome_iff_exists.mp hrt
    simp [hmem, ht, hrt2, hlist, hrs, hra, hrd, hrn, hrm, hhi, hlo, hzero, DarmT.Keeps]
  | immediate =>
    obtain ⟨⟨hmem, -, -, hrd, hrs, hra, hrt2, hhi, hlo⟩, hrm, hlist, -⟩ := h
    simp [hmem, hrt2, hlist, hrs, hra, hrd, hrm, hhi, hlo, hzero, DarmT.Keeps]
  | offset =>
    obtain ⟨⟨hmem, -, -, hrd, hrs, hra, hrt2, hhi, hlo⟩, hrm, hlist, -⟩ := h
    obtain ⟨m, hm⟩ := Option.isSome_iff_exists.mp hrm
    simp +contextual [hmem, hrt2, hlist, hrs, hra, hrd, hm, hhi, hlo, hzero, DarmT.Keeps,
      or_imp]
  | list =>
    obtain ⟨⟨hmem, -, -, hrd, hrs, hra, hrt2, hhi, hlo⟩, hrm, hrt, -, -⟩ := h
    simp only [hmem, hrt2, hrs, hra, hrd, hrm, hrt, hhi, hlo, DarmT.Keeps, if_true]
    simp +contextual

/-- **Decoding keeps every register of a word just when the word keeps its
operands** in the fields that decoding reads. -/
theorem names_reported_iff (seq pc w : UInt32)
    (h : (decodeInst disasm (initInst seq pc w)).type ≠ .unsupported) :
    (∀ r, (darmArmv7Disasm w).2.Reports r → (decodeInst disasm (initInst seq pc w)).Names r) ↔
      KeepsOperands w := by
  rw [decodeInst_type rfl] at h
  rw [KeepsOperands, ← (hasForm_operandForm w h).keeps_iff]
  exact forall_congr' fun r =>
    imp_congr_right fun _ => names_decodeInst_iff (initInst_recorded seq pc w) rfl h

/-- Of `cmp r0, r1`, every register is kept. -/
theorem names_reported_cmp :
    (decodeInst disasm (initInst 0 0 0xE1500001)).type ≠ .unsupported ∧
      ((∀ r, (darmArmv7Disasm 0xE1500001).2.Reports r →
          (decodeInst disasm (initInst 0 0 0xE1500001)).Names r) ↔ KeepsOperands 0xE1500001) :=
  have hsup : (decodeInst disasm (initInst 0 0 0xE1500001)).type ≠ .unsupported := by decide
  ⟨hsup, names_reported_iff 0 0 0xE1500001 hsup⟩

/-- Of `ldr r0, [r1, r2]`, the offset is lost. -/
theorem register_offset_lost :
    (decodeInst disasm (initInst 0 0 0xE7910002)).type = .memRead ∧
      (darmArmv7Disasm 0xE7910002).2.Reports 2 ∧
      ¬ (decodeInst disasm (initInst 0 0 0xE7910002)).Names 2 := by
  decide

/-! ## Lists that are too long -/

/-- The records whose registers fit in the lists: all but the stores of a
register list where the base, the registers and the condition come to more
than sixteen. -/
def DarmT.Fits (w : UInt32) (d : DarmT) (form : OperandForm) : Prop :=
  form = .list → typeOf d.instr = .memWrite ∨ typeOf d.instr = .push →
    1 + (setBits (w &&& bitmsk16).toUInt16.toBitVec).length +
      (if d.IsConditional then 1 else 0) ≤ 16

/-- **The words whose registers fit in the lists.** -/
def RegsFit (w : UInt32) : Prop := (darmArmv7Disasm w).2.Fits w (operandForm w)

theorem length_regEntry_le (x : Option (Fin 16)) : (regEntry x).length ≤ 1 := by
  cases x <;> simp [regEntry]

theorem length_flag_le (c : Prop) [Decidable c] : (if c then [17] else [] : List ℤ).length ≤ 1 := by
  split <;> simp

/-- Without a register list there are four entries at most. -/
theorem length_of_reglist_eq_zero (h : d.reglist = 0) :
    d.sources.length ≤ 2 ∧ d.destinations.length ≤ 1 := by
  have hregs : d.regs = [] := by
    rw [DarmT.regs, h]
    rfl
  have := length_regEntry_le d.rd
  have := length_regEntry_le d.rn
  have := length_regEntry_le d.rm
  have := length_regEntry_le d.rt
  rcases d.operands_cases with ⟨-, hsrc, hdst⟩ | ⟨-, hsrc, hdst⟩ | ⟨-, hsrc, hdst⟩
  all_goals
    rw [hsrc, hdst]
    simp only [hregs, List.length_append, List.length_nil]
    omega

theorem DarmT.HasForm.reglist_eq_zero {form : OperandForm} (h : d.HasForm w form)
    (hne : form ≠ .list) : d.reglist = 0 := by
  cases form with
  | data | shifted | accumulate | long => exact h.1.2.2.2
  | transfer => exact h.2.2.2.1
  | immediate | offset => exact h.2.2.1
  | list => exact absurd rfl hne

/-- A load lists the base alone and what it loads, a store its base and what
it stores. -/
theorem DarmT.HasForm.length_list (h : d.HasForm w .list) :
    ¬ d.UpdatesFlags ∧
      ((typeOf d.instr = .memWrite ∨ typeOf d.instr = .push) ∧ d.destinations = [] ∧
          d.sources.length = 1 + (setBits (w &&& bitmsk16).toUInt16.toBitVec).length ∨
        ¬ (typeOf d.instr = .memWrite ∨ typeOf d.instr = .push) ∧ d.sources.length = 1 ∧
          d.destinations.length ≤ 16) := by
  obtain ⟨⟨hmem, hs, hrn, -⟩, -, hrt, hlist, -⟩ := h
  obtain ⟨base, hbase⟩ := Option.isSome_iff_exists.mp hrn
  have hregs : d.regs.length = (setBits (w &&& bitmsk16).toUInt16.toBitVec).length := by
    rw [DarmT.regs, List.length_map, hlist]
  have hle := length_setBits_le (w &&& bitmsk16).toUInt16.toBitVec
  constructor
  · rintro (hcmp | hset)
    · cases hinstr : d.instr <;> rw [hinstr] at hcmp hmem <;>
        first | exact Bool.noConfusion hcmp | exact Bool.noConfusion hmem
    · rw [hs] at hset
      cases hset
  · generalize (setBits (w &&& bitmsk16).toUInt16.toBitVec).length = n at hregs hle ⊢
    unfold DarmT.sources DarmT.destinations
    cases htype : typeOf d.instr with
    | memRead | pop =>
      refine .inr ⟨by simp, by simp [hbase, regEntry], ?_⟩
      rw [List.length_append, hregs, hrt]
      exact (Nat.zero_add n).trans_le hle
    | memWrite | push =>
      refine .inl ⟨by simp, rfl, ?_⟩
      rw [List.length_append, hregs, hrt, hbase]
      rfl
    | _ =>
      rw [htype] at hmem
      exact Bool.noConfusion hmem

theorem decodeInst_lists_of_unsupported (h : inst.Recorded)
    (hun : typeOf (darmArmv7Disasm inst.code).2.instr = .unsupported) :
    (decodeInst disasm inst).srcReg = [] ∧ (decodeInst disasm inst).dstReg = [] := by
  have hdec := h.decoded
  obtain ⟨seq, pc, code, h⟩ := h
  have hun : (classifyInst inst (disasm inst.code)).type = .unsupported := hun
  rw [decodeInst, if_neg (by simp [hdec])]
  simp only [hun, ne_eq, not_true_eq_false, if_false]
  rw [h]
  exact ⟨rfl, rfl⟩

/-- When the lists of a record of each form fit. -/
theorem DarmT.HasForm.fits_iff {form : OperandForm} (h : d.HasForm w form) :
    ((d.sources ++ if d.IsConditional then [17] else []).length ≤ 16 ∧
      (d.destinations ++ if d.UpdatesFlags then [17] else []).length ≤ 16) ↔ d.Fits w form := by
  have hcond : (if d.IsConditional then [17] else [] : List ℤ).length =
      if d.IsConditional then 1 else 0 := by
    split <;> rfl
  have hcond_le := length_flag_le d.IsConditional
  have hflags_le := length_flag_le d.UpdatesFlags
  rw [List.length_append, List.length_append, DarmT.Fits]
  by_cases hlist : form = .list
  · subst hlist
    obtain ⟨hflags, ⟨hstore, hdst, hsrc⟩ | ⟨hload, hsrc, hdst⟩⟩ := h.length_list
    · rw [hsrc, hdst, hcond, if_neg hflags]
      exact ⟨fun hfit _ _ => hfit.1, fun hfit => ⟨hfit rfl hstore, Nat.zero_le _⟩⟩
    · rw [hsrc, if_neg hflags]
      exact ⟨fun _ _ hstore => absurd hstore hload, fun _ => ⟨by omega, hdst⟩⟩
  · -- no list, so that at most four entries are used
    obtain ⟨hsrc, hdst⟩ := length_of_reglist_eq_zero (h.reglist_eq_zero hlist)
    exact ⟨fun _ heq => absurd heq hlist, fun _ => ⟨by omega, by omega⟩⟩

/-- **The register lists fit just when the word's registers do.** -/
theorem lists_fit_iff (seq pc w : UInt32) :
    ((decodeInst disasm (initInst seq pc w)).srcReg.length ≤ 16 ∧
      (decodeInst disasm (initInst seq pc w)).dstReg.length ≤ 16) ↔ RegsFit w := by
  by_cases hsup : typeOf (darmArmv7Disasm w).2.instr = .unsupported
  · obtain ⟨hsrc, hdst⟩ := decodeInst_lists_of_unsupported (initInst_recorded seq pc w) hsup
    rw [hsrc, hdst, RegsFit, DarmT.Fits, hsup]
    simp
  · obtain ⟨hsrc, hdst⟩ := decodeInst_lists (initInst_recorded seq pc w) rfl hsup
    rw [hsrc, hdst]
    exact (hasForm_operandForm w hsup).fits_iff

/-- `stmdb sp!, {r0-r15}` lists seventeen sources. -/
theorem push_all_too_long :
    (decodeInst disasm (initInst 0 0 0xE92DFFFF)).srcReg.length = 17 := by
  decide

end TraceAnalyzer

end Tqsim
