import Tqsim.Model.Config

/-!
# Instruction records and their decoding

`Inst` is the record the recorder fills and the pipeline works on, and
`decodeInst` completes it from the disassembler's answer. The disassembler
itself (`darm_armv7_disasm`) is a parameter wherever it is used: what
follows holds of any function from instruction words to `Darm`.

The register and address arrays of the source have sixteen entries and a
count; here each is the list of its counted entries. A register number is an
integer, `-1` standing for none, and `17` is the condition flags.
-/

namespace Tqsim

namespace TraceAnalyzer

/-- `InstState`, in the order of the enumerators. -/
inductive InstState where
  | ready
  | dispatch
  | issue
  | complete
  | retire
  deriving DecidableEq, Repr

/-- The value of the enumerator, which `can_forward` compares. -/
def InstState.toNat : InstState → ℕ
  | ready => 0
  | dispatch => 1
  | issue => 2
  | complete => 3
  | retire => 4

/-- `InstTypeName`. -/
inductive InstTypeName where
  | intAlu
  | intMult
  | intDiv
  | simdFloatAdd
  | simdFloatMult
  | simdFloatMultAcc
  | memRead
  | memWrite
  | branch
  | syscall
  | pop
  | push
  | unsupported
  deriving DecidableEq, Repr

/-- `Inst`. A pointer to a record is a number, the count of records dispatched
before it. An element pointer of a queue is the record the element holds;
`rob_idx` is kept with the reorder buffer. -/
structure Inst where
  seq : UInt64
  pc : UInt32
  code : UInt32
  state : InstState
  type : InstTypeName
  remainingLatency : ℤ
  stackInst : Bool
  isCondInst : Bool
  updateCondFlag : Bool
  shiftInst : Bool
  imm : UInt32
  srcReg : List ℤ
  dstReg : List ℤ
  effAddr : List UInt32
  instCacheMiss : CacheMissType
  cacheMiss : CacheMissType
  bpredMispred : Bool
  dispatchedCycle : ℕ
  issuedCycle : ℕ
  completedCycle : ℕ
  committedCycle : ℕ
  iqElem : Option ℕ
  ldqElem : Option ℕ
  stqElem : Option ℕ
  decoded : Bool
  deriving DecidableEq, Repr

/-- `init_inst`. The fields the source leaves unset are zero here; none of
them is read before it is written. -/
def initInst (seq pc code : UInt32) : Inst where
  seq := seq.toUInt64
  pc := pc
  code := code
  state := .ready
  type := .intAlu
  remainingLatency := 0
  stackInst := false
  isCondInst := false
  updateCondFlag := false
  shiftInst := false
  imm := 0
  srcReg := []
  dstReg := []
  effAddr := []
  instCacheMiss := .l1Hit
  cacheMiss := .l1Hit
  bpredMispred := false
  dispatchedCycle := 0
  issuedCycle := 0
  completedCycle := 0
  committedCycle := 0
  iqElem := none
  ldqElem := none
  stqElem := none
  decoded := false

/-- `set_inst_bpred_mispred`. -/
def setInstBpredMispred (inst : Inst) (mispred : Bool) : Inst :=
  { inst with bpredMispred := mispred }

/-- `set_inst_eff_addr`: the address is appended and the worse of the two
miss types kept. -/
def setInstEffAddr (inst : Inst) (addr : UInt32) (cacheMiss : CacheMissType) : Inst :=
  { inst with
    effAddr := inst.effAddr ++ [addr]
    cacheMiss := if inst.cacheMiss.toNat < cacheMiss.toNat then cacheMiss else inst.cacheMiss }

/-! ## The disassembler's answer -/

/-- The labels of `darm_instr_t` that `decode_inst` tells apart; every other
label is `other`, with its number. -/
inductive DarmInstr where
  | iAnd | iEor | iSub | iRsb | iAdd | iAdc | iSbc | iRsc | iOrr | iMovw | iBic | iMvn | iMovt
  | iMov | iSsub8 | iQsub8 | iShsub8 | iUsub8 | iUqsub8 | iUhsub8 | iSel | iRev16 | iRevsh | iSbfx
  | iBfi | iUbfx | iClz
  | iAsr | iLsl | iLsr | iRor | iRrx
  | iTst | iTeq | iCmp | iCmn
  | iMul | iMla | iUmaal | iMls | iSmla | iSmlabb | iSmlabt | iSmlatb | iSmlatt | iUmull | iUmlal
  | iSmuad | iSmul | iSmulbb | iSmulbt | iSmull | iSmultb | iSmultt | iSmulw
  | iSdiv | iUdiv
  | iVadd | iVaddhn | iVaddl | iVaddw | iVsub | iVsubhn | iVsubl | iVsubw
  | iVmul | iVnmul
  | iVmla | iVmlal | iVmls | iVmlsl | iVnmla | iVnmls
  | iLdm | iLdmda | iLdmdb | iLdmib | iLdr | iLdrb | iLdrbt | iLdrd | iLdrh | iLdrht | iLdrsb
  | iLdrsbt | iLdrsh | iLdrsht | iLdrt | iPld
  | iStm | iStmda | iStmdb | iStmib | iStr | iStrb | iStrbt | iStrd | iStrh | iStrht | iStrt
  | iPop | iPush
  | iB | iBl | iBx | iBxj | iBlx
  | iSvc | iMcr | iMrc
  | other (label : ℕ)
  deriving DecidableEq, Repr

/-- The flag values `B_UNSET`, `B_SET` and `B_INVLD`. -/
inductive DarmFlag where
  | bUnset
  | bSet
  | bInvld
  deriving DecidableEq, Repr

/-- There are sixteen registers. -/
instance neZeroSixteen : NeZero 16 := ⟨by decide⟩

/-- The part of `darm_t` that decoding reads. A register field is `none` for
`R_INVLD`; the condition is the enumerator's value, `-1` for `C_INVLD`. -/
structure Darm where
  instr : DarmInstr
  cond : ℤ
  s : DarmFlag
  shift : UInt32
  imm : UInt32
  rd : Option (Fin 16)
  rn : Option (Fin 16)
  rm : Option (Fin 16)
  rt : Option (Fin 16)
  reglist : UInt16
  deriving DecidableEq, Repr

/-- `__builtin_ctz`. The builtin leaves its value at zero open, where the
instruction behind it gives the operand's width. -/
def builtinCtz (reglist : BitVec 16) : ℕ :=
  ((List.range 16).find? fun i => reglist.getLsbD i).getD 32

/-- The inner loop of `darm_reglist2`: unset a run of consecutive bits from
`reg` on, and report where it ended. -/
def clearRun : ℕ → ℕ → BitVec 16 → ℕ × BitVec 16
  | 0, reg, reglist => (reg, reglist)
  | fuel + 1, reg, reglist =>
    if reg = builtinCtz reglist then clearRun fuel (reg + 1) (reglist &&& ~~~(1#16 <<< reg))
    else (reg, reglist)

/-- The outer loop of `darm_reglist2`: the first register of a run, then the
others of the run, if any. -/
def reglistLoop : ℕ → BitVec 16 → List ℤ
  | 0, _ => []
  | fuel + 1, reglist =>
    if reglist = 0 then []
    else
      let start := builtinCtz reglist
      let (reg, rest) := clearRun 16 start reglist
      let run : List ℤ :=
        if reg ≠ start + 1 then
          if reg ≠ start + 2 then
            (List.range (reg - 1 - start)).map fun i => ((start + 1 + i : ℕ) : ℤ)
          else [((reg - 1 : ℕ) : ℤ)]
        else []
      ((start : ℕ) : ℤ) :: run ++ reglistLoop fuel rest

/-- `darm_reglist2`, the registers it stores. -/
def darmReglist2 (reglist : UInt16) : List ℤ :=
  reglistLoop 16 reglist.toBitVec

/-- A register field as the one-entry list that it adds, or nothing. -/
def regEntry (r : Option (Fin 16)) : List ℤ :=
  (r.map fun i => ((i : ℕ) : ℤ)).toList

/-- `init_inst_src_dst_reg`. -/
def initInstSrcDstReg (inst : Inst) (d : Darm) : Inst :=
  let regs := darmReglist2 d.reglist
  let (src, dst) :=
    if inst.type = .memRead ∨ inst.type = .pop then
      (regEntry d.rn, regEntry d.rt ++ regs)
    else if inst.type = .memWrite ∨ inst.type = .push then
      (regEntry d.rt ++ regEntry d.rn ++ regs, [])
    else
      (regEntry d.rm ++ regEntry d.rn ++ regs, regEntry d.rd)
  { inst with
    srcReg := inst.srcReg ++ src ++ (if inst.isCondInst then [17] else [])
    dstReg := inst.dstReg ++ dst ++ (if inst.updateCondFlag then [17] else []) }

/-- The classification of `decode_inst`'s switch. -/
def typeOf : DarmInstr → InstTypeName
  | .iAnd | .iEor | .iSub | .iRsb | .iAdd | .iAdc | .iSbc | .iRsc | .iOrr | .iMovw | .iBic
  | .iMvn | .iMovt | .iMov | .iSsub8 | .iQsub8 | .iShsub8 | .iUsub8 | .iUqsub8 | .iUhsub8
  | .iSel | .iRev16 | .iRevsh | .iSbfx | .iBfi | .iUbfx | .iClz => .intAlu
  | .iAsr | .iLsl | .iLsr | .iRor | .iRrx => .intAlu
  | .iTst | .iTeq | .iCmp | .iCmn => .branch
  | .iMul | .iMla | .iUmaal | .iMls | .iSmla | .iSmlabb | .iSmlabt | .iSmlatb | .iSmlatt
  | .iUmull | .iUmlal | .iSmuad | .iSmul | .iSmulbb | .iSmulbt | .iSmull | .iSmultb | .iSmultt
  | .iSmulw => .intMult
  | .iSdiv | .iUdiv => .intDiv
  | .iVadd | .iVaddhn | .iVaddl | .iVaddw | .iVsub | .iVsubhn | .iVsubl | .iVsubw => .simdFloatAdd
  | .iVmul | .iVnmul => .simdFloatMult
  | .iVmla | .iVmlal | .iVmls | .iVmlsl | .iVnmla | .iVnmls => .simdFloatMultAcc
  | .iLdm | .iLdmda | .iLdmdb | .iLdmib | .iLdr | .iLdrb | .iLdrbt | .iLdrd | .iLdrh | .iLdrht
  | .iLdrsb | .iLdrsbt | .iLdrsh | .iLdrsht | .iLdrt | .iPld => .memRead
  | .iStm | .iStmda | .iStmdb | .iStmib | .iStr | .iStrb | .iStrbt | .iStrd | .iStrh | .iStrht
  | .iStrt => .memWrite
  | .iPop => .pop
  | .iPush => .push
  | .iB | .iBl | .iBx | .iBxj | .iBlx => .branch
  | .iSvc | .iMcr | .iMrc => .syscall
  | .other _ => .unsupported

/-- The shift labels, which the switch marks. -/
def isShiftLabel : DarmInstr → Bool
  | .iAsr | .iLsl | .iLsr | .iRor | .iRrx => true
  | _ => false

/-- The comparison labels, which always update the flags. -/
def isCompareLabel : DarmInstr → Bool
  | .iTst | .iTeq | .iCmp | .iCmn => true
  | _ => false

/-- The fields the switch and the tests before it set. -/
def classifyInst (inst : Inst) (d : Darm) : Inst :=
  { inst with
    isCondInst := !(d.cond == 15 || d.cond == -1 || d.cond == 14)
    shiftInst := inst.shiftInst || d.shift != 0 || isShiftLabel d.instr
    updateCondFlag :=
      isCompareLabel d.instr ||
        match d.s with
        | .bInvld => inst.updateCondFlag
        | .bSet => true
        | .bUnset => false
    type := typeOf d.instr
    stackInst := inst.stackInst || d.instr == .iPop || d.instr == .iPush }

/-- `decode_inst`. -/
def decodeInst (disasm : UInt32 → Darm) (inst : Inst) : Inst :=
  if inst.decoded then inst
  else
    let d := disasm inst.code
    let inst := classifyInst inst d
    let inst := if inst.type ≠ .unsupported then initInstSrcDstReg inst d else inst
    { inst with decoded := true, imm := d.imm }

end TraceAnalyzer

end Tqsim
