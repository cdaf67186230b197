import Tqsim.TraceAnalyzer.Model.DarmTables

/-!
# The disassembler

`darm_armv7_disasm` of the vendored disassembler, for ARM words. It fills a
`darm_t` in place and returns whether the word is valid; `decode_inst` looks
at the record and not at the returned value, so that what an invalid word
leaves behind matters as well.

`DarmT` has the fields of `darm_t` that name registers, that the
disassembler itself reads again, or that decoding reads; those that only
printing reads are left out.
-/

namespace Tqsim

namespace TraceAnalyzer

open DarmInstr

/-- `darm_shift_type_t`. -/
inductive DarmShiftType where
  | sLsl
  | sLsr
  | sAsr
  | sRor
  | sInvld
  deriving DecidableEq, Repr

/-- `darm_t`. A register field is `none` for `R_INVLD`. -/
structure DarmT where
  instr : DarmInstr
  instrType : DarmEnctype
  cond : ℤ
  s : DarmFlag
  u : DarmFlag
  p : DarmFlag
  w : DarmFlag
  rd : Option (Fin 16)
  rn : Option (Fin 16)
  rm : Option (Fin 16)
  ra : Option (Fin 16)
  rt : Option (Fin 16)
  rt2 : Option (Fin 16)
  rdHi : Option (Fin 16)
  rdLo : Option (Fin 16)
  imm : UInt32
  shiftType : DarmShiftType
  rs : Option (Fin 16)
  shift : UInt32
  reglist : UInt16
  deriving DecidableEq, Repr

/-- The part of the record that decoding reads. -/
def DarmT.toDarm (d : DarmT) : Darm where
  instr := d.instr
  cond := d.cond
  s := d.s
  shift := d.shift
  imm := d.imm
  rd := d.rd
  rn := d.rn
  rm := d.rm
  rt := d.rt
  reglist := d.reglist

/-- `darm_init`. -/
def darmInit : DarmT where
  instr := iInvld
  instrType := .invld
  cond := 0
  s := .bInvld
  u := .bInvld
  p := .bInvld
  w := .bInvld
  rd := none
  rn := none
  rm := none
  ra := none
  rt := none
  rt2 := none
  rdHi := none
  rdLo := none
  imm := 0
  shiftType := .sInvld
  rs := none
  shift := 0
  reglist := 0

/-! ## Fields of a word -/

/-- `(w >> lo) & mask`, as an index into a table. -/
def field (w lo mask : UInt32) : ℕ := ((w >>> lo) &&& mask).toNat

/-- `(w >> lo) & 1`, as a truth value. -/
def bit (w lo : UInt32) : Bool := field w lo 1 == 1

/-- `(w >> lo) & 1`, as a flag. -/
def flag (w lo : UInt32) : DarmFlag := if bit w lo then .bSet else .bUnset

/-- `(w >> lo) & b1111`, as a register. -/
def regAt (w lo : UInt32) : Fin 16 := Fin.ofNat 16 (field w lo 0b1111)

/-- The shift type with a number. -/
def shiftTypeOf : ℕ → DarmShiftType
  | 0 => .sLsl
  | 1 => .sLsr
  | 2 => .sAsr
  | 3 => .sRor
  | _ => .sInvld

def bitmsk12 : UInt32 := 0xFFF
def bitmsk16 : UInt32 := 0xFFFF
def bitmsk24 : UInt32 := 0xFFFFFF

/-- `ROR`. The source shifts by 32 where nothing is rotated, which the
hardware takes as a shift by zero. -/
def ror (val rotate : UInt32) : UInt32 := (val >>> rotate) ||| (val <<< (32 - rotate))

/-- `ARMExpandImm`. -/
def armExpandImm (imm12 : UInt32) : UInt32 := ror (imm12 &&& 0xFF) ((imm12 >>> 7) &&& 0b11110)

/-- The offset of a branch, extended from 24 bits and scaled. -/
def branchOffset (imm : UInt32) : UInt32 :=
  if bit imm 23 then (imm ||| 0xFF000000) <<< 2 else imm <<< 2

/-! ## Unconditional instructions -/

/-- The preload instructions, `case b011`. -/
def disasPreload (d : DarmT) (w : UInt32) : ℤ × DarmT :=
  let d := { d with
    instr := if bit w 24 then .iPld else iPli
    rn := some (regAt w 16)
    u := flag w 23 }
  let d := if bit w 25 then
      { d with
        rm := some (regAt w 0)
        shiftType := shiftTypeOf (field w 5 0b11)
        shift := (w >>> 7) &&& 0b11111 }
    else { d with imm := w &&& bitmsk12 }
  (0, if d.instr = .iPld ∧ bit w 22 = false then { d with instr := iPldw } else d)

/-- `armv7_disas_uncond`. -/
def armv7DisasUncond (d : DarmT) (w : UInt32) : ℤ × DarmT :=
  let d := { d with instrType := .armUncond }
  match field w 25 0b111 with
  | 0b000 => (0, { d with instr := iSetend })
  | 0b010 =>
    if bit w 21 then
      let d := { d with instr := typeUncond2InstrLookup.getD (field w 4 0b111) iInvld }
      if d.instr ≠ iInvld then (0, d) else disasPreload d w
    else disasPreload d w
  | 0b011 => disasPreload d w
  | 0b101 =>
    (0, { d with
      instr := .iBlx
      imm := branchOffset (w &&& bitmsk24) ||| (((w >>> 24) &&& 1) <<< 1) })
  | 0b111 =>
    if bit w 4 = false then (0, { d with instr := iCdp2 })
    else (0, { d with instr := if bit w 20 then iMrc2 else iMcr2, rt := some (regAt w 12) })
  | _ => (-1, d)

/-! ## Conditional instructions outside the table -/

/-- How a part of `armv7_disas_cond` ends: it returns, or control goes on
after it. -/
inductive Part where
  | done (ret : ℤ) (d : DarmT)
  | goesOn (d : DarmT)

/-- What follows a part that did not return. -/
def Part.andThen (p : Part) (f : DarmT → ℤ × DarmT) : ℤ × DarmT :=
  match p with
  | .done ret d => (ret, d)
  | .goesOn d => f d

/-- The multiplications. -/
def disasMul (d : DarmT) (w : UInt32) : ℤ × DarmT :=
  let d := { d with
    instr := typeMulInstrLookup.getD (field w 21 0b111) iInvld
    instrType := .armMul
    s := flag w 20
    rm := some (regAt w 8)
    rn := some (regAt w 0) }
  if (d.instr = .iUmaal ∨ d.instr = .iMls) ∧ d.s ≠ .bUnset then (-1, d)
  else if d.instr = .iMla ∨ d.instr = .iMls then
    (0, { d with ra := some (regAt w 12), rd := some (regAt w 16) })
  else if d.instr = .iMul then (0, { d with rd := some (regAt w 16) })
  else if d.instr = .iUmaal ∨ d.instr = .iUmull ∨ d.instr = .iUmlal ∨ d.instr = .iSmull ∨
      d.instr = iSmlal then
    (0, { d with rdHi := some (regAt w 16), rdLo := some (regAt w 12) })
  else (0, d)

/-- The offset of the halfword loads and stores: a register, or an immediate
in two parts. -/
def halfwordOffset (d : DarmT) (w : UInt32) : DarmT :=
  if bit w 22 = false then { d with rm := some (regAt w 0) }
  else { d with imm := ((w >>> 4) &&& 0b11110000) ||| (w &&& (0b1111 : UInt32)) }

/-- The index into the tables of the halfword loads and stores. -/
def halfwordIndex (w : UInt32) : ℕ :=
  (((w >>> 4) &&& (0b110 : UInt32)) ||| ((w >>> 20) &&& (1 : UInt32))).toNat

/-- The unprivileged halfword loads and stores. -/
def disasStack1 (d : DarmT) (w : UInt32) : ℤ × DarmT :=
  let d := { d with instr := typeStack1InstrLookup.getD (halfwordIndex w) iInvld }
  if d.instr = iInvld then (-1, d)
  else
    (0, halfwordOffset { d with
      instrType := .armStack1
      rn := some (regAt w 16)
      rt := some (regAt w 12)
      p := flag w 24
      u := flag w 23 } w)

/-- The halfword, doubleword and signed loads and stores. -/
def disasStack2 (d : DarmT) (w : UInt32) : ℤ × DarmT :=
  let d := { d with instr := typeStack2InstrLookup.getD (halfwordIndex w) iInvld }
  if d.instr = iInvld then (-1, d)
  else
    (0, halfwordOffset { d with
      instrType := .armStack2
      rn := some (regAt w 16)
      rt := some (regAt w 12)
      p := flag w 24
      u := flag w 23
      w := flag w 21 } w)

/-- The synchronization primitives. A label that is none of them leaves the
switch without returning. -/
def disasSync (d : DarmT) (w : UInt32) : Part :=
  let d := { d with
    instr := typeSyncInstrLookup.getD (field w 20 0b1111) iInvld
    instrType := .armSync
    rn := some (regAt w 16) }
  if d.instr = iSwp ∨ d.instr = iSwpb then
    .done 0 { d with rt := some (regAt w 12), rt2 := some (regAt w 0) }
  else if d.instr = iLdrex ∨ d.instr = iLdrexd ∨ d.instr = iLdrexb ∨ d.instr = iLdrexh then
    .done 0 { d with rt := some (regAt w 12) }
  else if d.instr = iStrex ∨ d.instr = iStrexd ∨ d.instr = iStrexb ∨ d.instr = iStrexh then
    .done 0 { d with rd := some (regAt w 12), rt := some (regAt w 0) }
  else .goesOn d

/-- A word or byte store of one register to `sp`, or a load from it, that is
a PUSH or a POP. -/
def stackLabel (d : DarmT) : DarmInstr :=
  if d.instr = .iStr ∧ d.rn = some 13 ∧ d.p = .bSet ∧ d.u = .bUnset ∧ d.w = .bSet ∧ d.imm = 4 then
    .iPush
  else if d.instr = .iLdr ∧ d.rn = some 13 ∧ d.p = .bUnset ∧ d.u = .bSet ∧ d.w = .bUnset ∧
      d.imm = 4 then
    .iPop
  else d.instr

/-- The word and byte loads and stores. -/
def disasStack0 (d : DarmT) (w : UInt32) : ℤ × DarmT :=
  let d := { d with
    instr := typeStack0InstrLookup.getD (field w 20 0b11111) iInvld
    instrType := .armStack0
    rn := some (regAt w 16)
    rt := some (regAt w 12)
    p := flag w 24
    u := flag w 23
    w := flag w 21 }
  let d := if bit w 25 = false then { d with imm := w &&& bitmsk12 }
    else
      { d with
        shiftType := shiftTypeOf (field w 5 0b11)
        shift := (w >>> 7) &&& 0b11111
        rm := some (regAt w 0) }
  (0, { d with instr := stackLabel d })

/-- The tests before the table for the multiplications, the loads and the
stores. -/
def disasEarly (d : DarmT) (w : UInt32) : Part :=
  -- bits 25 to 27, and bits 4 and 7
  let mask := ((0b111 : UInt32) <<< 25) ||| ((0b1001 : UInt32) <<< 4)
  let mediaMask := ((1 : UInt32) <<< 25) ||| ((1 : UInt32) <<< 4)
  if w &&& mask = (0b1001 : UInt32) <<< 4 then
    if bit w 24 = false ∧ field w 4 0b1111 = 0b1001 then
      let (ret, d) := disasMul d w
      .done ret d
    else if bit w 24 = false ∧ field w 5 0b11 ≠ 0 ∧ bit w 21 then
      let (ret, d) := disasStack1 d w
      .done ret d
    else if field w 5 0b11 ≠ 0 ∧ field w 20 0b10010 ≠ 0b00010 then
      let (ret, d) := disasStack2 d w
      .done ret d
    else if bit w 24 ∧ field w 4 0b1111 = 0b1001 then disasSync d w
    else .goesOn d
  else if field w 26 0b11 = 0b01 then
    if w &&& mediaMask ≠ mediaMask then
      let (ret, d) := disasStack0 d w
      .done ret d
    else .goesOn d
  else .goesOn d

/-- The saturating additions and subtractions. -/
def disasSat (d : DarmT) (w : UInt32) : Part :=
  let mask2 := ((0b11111001 : UInt32) <<< 20) ||| ((0b1111 : UInt32) <<< 4)
  if w &&& mask2 = ((1 : UInt32) <<< 24) ||| ((0b0101 : UInt32) <<< 4) then
    .done 0 { d with
      instr := typeSatInstrLookup.getD (field w 21 0b11) iInvld
      instrType := .armSat
      rn := some (regAt w 16)
      rd := some (regAt w 12)
      rm := some (regAt w 0) }
  else .goesOn d

/-- Saturation to a number of bits, tried after the extensions. -/
def disasSaturate (d : DarmT) (w : UInt32) : Part :=
  let op1 := field w 20 0b111
  let op2 := field w 5 0b111
  if op1 &&& 0b010 = 0b010 ∧ op2 &&& 1 = 0 then
    let instr := if op1 >>> 2 ≠ 0 then iUsat else iSsat
    let imm := (w >>> 16) &&& 0b11111
    .done 0 { d with
      instr := instr
      imm := if instr = iSsat then imm + 1 else imm
      rd := some (regAt w 12)
      shift := (w >>> 7) &&& 0b11111
      shiftType := shiftTypeOf (field w 5 0b11)
      rn := some (regAt w 0) }
  else if (op1 = 0b010 ∨ op1 = 0b110) ∧ op2 = 0b001 then
    let instr := if op1 = 0b010 then iSsat16 else iUsat16
    let imm := (w >>> 16) &&& 0b1111
    .done 0 { d with
      instr := instr
      imm := if instr = iSsat16 then imm + 1 else imm
      rd := some (regAt w 12)
      rn := some (regAt w 0) }
  else .goesOn d

/-- Packing, unpacking, saturation and reversal. -/
def disasPusr (d : DarmT) (w : UInt32) : Part :=
  let mask3 := ((0b11111 : UInt32) <<< 23) ||| ((1 : UInt32) <<< 4)
  if w &&& mask3 = ((0b01101 : UInt32) <<< 23) ||| ((1 : UInt32) <<< 4) then
    let d := { d with instrType := .armPusr }
    let a := regAt w 16
    if field w 5 0b111 = 0b011 then
      let index := (field w 20 0b111 <<< 1) ||| (if a = 15 then 1 else 0)
      let d := { d with instr := typePusrInstrLookup.getD index iInvld }
      if d.instr ≠ iInvld then
        .done 0 { d with
          rd := some (regAt w 12)
          rm := some (regAt w 0)
          rn := if a ≠ 15 then some a else d.rn }
      else disasSaturate d w
    else disasSaturate d w
  else .goesOn d

/-! ## The table -/

/-- The second operand of a data-processing instruction: a register shifted
by another one, or by an immediate. -/
def shiftedOperand (d : DarmT) (w : UInt32) : DarmT :=
  let d := { d with shiftType := shiftTypeOf (field w 5 0b11) }
  if bit w 4 then { d with rs := some (regAt w 8) }
  else { d with shift := (w >>> 7) &&& 0b11111 }

/-- `T_ARM_ARITH_SHIFT`. -/
def disasArithShift (d : DarmT) (w : UInt32) : ℤ × DarmT :=
  (0, shiftedOperand { d with
    s := flag w 20
    rd := some (regAt w 12)
    rn := some (regAt w 16)
    rm := some (regAt w 0) } w)

/-- `T_ARM_ARITH_IMM`. -/
def disasArithImm (d : DarmT) (w : UInt32) : ℤ × DarmT :=
  let d := { d with
    s := flag w 20
    rd := some (regAt w 12)
    rn := some (regAt w 16)
    imm := armExpandImm (w &&& bitmsk12) }
  if (d.instr = .iAdd ∨ d.instr = .iSub) ∧ d.s = .bUnset ∧ d.rn = some 15 then
    (0, { d with instr := iAdr, rn := none, u := flag w 23 })
  else (0, d)

/-- `T_ARM_BITS`. -/
def disasBits (d : DarmT) (w : UInt32) : ℤ × DarmT :=
  let d := { d with
    instr := typeBitsInstrLookup.getD (field w 21 0b11) iInvld
    instrType := .armBits
    rd := some (regAt w 12)
    rn := some (regAt w 0) }
  if d.instr = .iBfi ∧ d.rn = some 15 then (0, { d with rn := none, instr := iBfc }) else (0, d)

/-- `T_ARM_BRNCHSC`. -/
def disasBrnchsc (d : DarmT) (w : UInt32) : ℤ × DarmT :=
  let imm := w &&& bitmsk24
  (0, { d with imm := if d.instr ≠ .iSvc then branchOffset imm else imm })

/-- `T_ARM_BRNCHMISC`. -/
def disasBrnchmisc (d : DarmT) (w : UInt32) : ℤ × DarmT :=
  let d := { d with instr := typeBrnchmiscInstrLookup.getD (field w 4 0b1111) iInvld }
  if d.instr = iBkpt then
    (0, { d with imm := (((w >>> 8) &&& bitmsk12) <<< 4) + (w &&& 0b1111) })
  else if d.instr = .iBx ∨ d.instr = .iBxj ∨ d.instr = .iBlx then
    (0, { d with rm := some (regAt w 0) })
  else if d.instr = iMsr then
    (0, { d with rn := some (regAt w 0), imm := (w >>> 18) &&& 0b11 })
  else (-1, d)

/-- `T_ARM_MOV_IMM`. -/
def disasMovImm (d : DarmT) (w : UInt32) : ℤ × DarmT :=
  let imm := w &&& bitmsk12
  let d := { d with rd := some (regAt w 12) }
  if d.instr = .iMov ∨ d.instr = .iMvn then
    (0, { d with s := flag w 20, imm := armExpandImm imm })
  else (0, { d with imm := imm ||| (((w >>> 16) &&& 0b1111) <<< 12) })

/-- `T_ARM_CMP_OP`. -/
def disasCmpOp (d : DarmT) (w : UInt32) : ℤ × DarmT :=
  (0, shiftedOperand { d with rn := some (regAt w 16), rm := some (regAt w 0) } w)

/-- `T_ARM_CMP_IMM`. -/
def disasCmpImm (d : DarmT) (w : UInt32) : ℤ × DarmT :=
  (0, { d with rn := some (regAt w 16), imm := armExpandImm (w &&& bitmsk12) })

/-- `T_ARM_OPLESS`. -/
def disasOpless (d : DarmT) (w : UInt32) : ℤ × DarmT :=
  let d := { d with instr := typeOplessInstrLookup.getD (field w 0 0b111) iInvld }
  (if d.instr = iInvld then -1 else 0, d)

/-- `T_ARM_DST_SRC`. -/
def disasDstSrc (d : DarmT) (w : UInt32) : ℤ × DarmT :=
  let d := { d with instr := typeShiftInstrLookup.getD (field w 4 0b1111) iInvld }
  if d.instr = iInvld then (-1, d)
  else
    let d := { d with
      s := flag w 20
      rd := some (regAt w 12)
      shiftType := shiftTypeOf (field w 5 0b11) }
    if bit w 4 then (0, { d with rm := some (regAt w 8), rn := some (regAt w 0) })
    else
      let d := { d with rm := some (regAt w 0), shift := (w >>> 7) &&& 0b11111 }
      if d.instr = .iLsl ∧ d.shiftType = .sLsl ∧ d.shift = 0 then (0, { d with instr := .iMov })
      else if d.instr = .iRor ∧ d.shiftType = .sRor ∧ d.shift = 0 then
        (0, { d with instr := .iRrx })
      else (0, d)

/-- `T_ARM_LDSTREGS`. -/
def disasLdstregs (d : DarmT) (w : UInt32) : ℤ × DarmT :=
  let d := { d with
    w := flag w 21
    rn := some (regAt w 16)
    reglist := (w &&& bitmsk16).toUInt16 }
  if d.instr = .iLdm ∧ d.w = .bSet ∧ d.rn = some 13 then (0, { d with instr := .iPop })
  else if d.instr = .iStmdb ∧ d.w = .bSet ∧ d.rn = some 13 then (0, { d with instr := .iPush })
  else (0, d)

/-- `T_ARM_BITREV`. -/
def disasBitrev (d : DarmT) (w : UInt32) : ℤ × DarmT :=
  let d := { d with rd := some (regAt w 12), rm := some (regAt w 0) }
  if d.instr = .iRev16 ∧ field w 4 0b1111 = 0b0011 then (0, { d with instr := iRev })
  else if d.instr = .iRevsh ∧ field w 4 0b1111 = 0b0011 then (0, { d with instr := iRbit })
  else (0, d)

/-- `T_ARM_PAS`. -/
def disasPas (d : DarmT) (w : UInt32) : ℤ × DarmT :=
  let index := field w 17 0b111000 ||| field w 5 0b111
  let d := { d with instr := typePasInstrLookup.getD index iInvld }
  if d.instr = iInvld then (-1, d)
  else
    (0, { d with
      rn := some (regAt w 16)
      rd := some (regAt w 12)
      rm := some (regAt w 0) })

/-- `T_ARM_SM`. The labels it does not know go on to `T_ARM_PAS`. -/
def disasSm (d : DarmT) (w : UInt32) : ℤ × DarmT :=
  let narrow := { d with
    rd := some (regAt w 16)
    ra := some (regAt w 12)
    rm := some (regAt w 8)
    rn := some (regAt w 0) }
  let long := { d with
    rdHi := some (regAt w 16)
    rdLo := some (regAt w 12)
    rm := some (regAt w 8)
    rn := some (regAt w 0) }
  if d.instr = iSmmul then
    if bit w 6 then (0, { narrow with instr := iSmmls })
    else if narrow.ra ≠ some 15 then (0, { narrow with instr := iSmmla })
    else (0, narrow)
  else if d.instr = iSmusd then
    if bit w 6 ∧ narrow.rn ≠ some 15 then (0, { narrow with instr := iSmlsd })
    else if bit w 6 = false then
      (0, { narrow with instr := if narrow.ra = some 15 then .iSmuad else iSmlad })
    else (0, narrow)
  else if d.instr = iSmlsld then
    if bit w 6 = false then (0, { long with instr := iSmlald }) else (0, long)
  else if d.instr = .iSmla then (0, narrow)
  else if d.instr = iSmlal then (0, long)
  else disasPas d w

/-- The branch of `T_ARM_MISC` for the label `I_SMC`, which SMUL and CLZ
share. -/
def disasSmc (d : DarmT) (w : UInt32) : ℤ × DarmT :=
  match field w 4 0b1111 with
  | 0b1000 | 0b1010 | 0b1100 | 0b1110 =>
    (0, { d with
      instr := .iSmul
      instrType := .armSm
      rd := some (regAt w 16)
      rm := some (regAt w 8)
      rn := some (regAt w 0) })
  | 0b0111 => (0, { d with instr := iSmc, imm := w &&& 0b1111 })
  | 0b0001 => (0, { d with instr := .iClz, rm := some (regAt w 0), rd := some (regAt w 12) })
  | _ => (-1, d)

/-- `T_ARM_MISC`. The labels it does not know go on to `T_ARM_SM`. -/
def disasMisc (d : DarmT) (w : UInt32) : ℤ × DarmT :=
  if d.instr = .iMvn then
    (0, shiftedOperand { d with
      s := flag w 20
      rd := some (regAt w 12)
      rm := some (regAt w 0) } w)
  else if d.instr = iDbg then (0, d)
  else if d.instr = iSmc then disasSmc d w
  else if d.instr = .iSel then
    let d := { d with
      rd := some (regAt w 12)
      rn := some (regAt w 16)
      rm := some (regAt w 0) }
    if bit w 5 = false then
      (0, { d with
        instr := iPkh
        shiftType := shiftTypeOf (field w 5 0b10)
        shift := (w >>> 7) &&& 0b11111 })
    else (0, d)
  else disasSm d w

/-- `T_ARM_MVCR`. -/
def disasMvcr (d : DarmT) (w : UInt32) : ℤ × DarmT :=
  if bit w 4 = false then (0, { d with instr := iCdp })
  else (0, { d with rt := some (regAt w 12) })

/-- `T_ARM_UDF`. -/
def disasUdf (d : DarmT) (w : UInt32) : ℤ × DarmT :=
  let mask : UInt32 := bitmsk12 <<< 4
  (0, { d with imm := (w &&& (0b1111 : UInt32)) ||| ((w >>> 4) &&& mask) })

/-- The switch over the encodings. -/
def disasEncoding (d : DarmT) (w : UInt32) : ℤ × DarmT :=
  match d.instrType with
  | .armArithShift => disasArithShift d w
  | .armArithImm => disasArithImm d w
  | .armBits => disasBits d w
  | .armBrnchsc => disasBrnchsc d w
  | .armBrnchmisc => disasBrnchmisc d w
  | .armMovImm => disasMovImm d w
  | .armCmpOp => disasCmpOp d w
  | .armCmpImm => disasCmpImm d w
  | .armOpless => disasOpless d w
  | .armDstSrc => disasDstSrc d w
  | .armLdstregs => disasLdstregs d w
  | .armBitrev => disasBitrev d w
  | .armMisc => disasMisc d w
  | .armSm => disasSm d w
  | .armPas => disasPas d w
  | .armMvcr => disasMvcr d w
  | .armUdf => disasUdf d w
  | _ => (-1, d)

/-- The lookup of label and encoding, and the switch. -/
def disasTable (d : DarmT) (w : UInt32) : ℤ × DarmT :=
  let index := field w 20 0xFF
  disasEncoding { d with
    instr := armv7InstrLabels.getD index iInvld
    instrType := armv7InstrTypes.getD index .invld } w

/-- `armv7_disas_cond`. -/
def armv7DisasCond (d : DarmT) (w : UInt32) : ℤ × DarmT :=
  (disasEarly d w).andThen fun d =>
    (disasSat d w).andThen fun d =>
      (disasPusr d w).andThen fun d => disasTable d w

/-- **`darm_armv7_disasm`**: the value it returns, and the record. -/
def darmArmv7Disasm (w : UInt32) : ℤ × DarmT :=
  let d := { darmInit with cond := field w 28 0b1111 }
  let (ret, d) := if d.cond = 15 then armv7DisasUncond d w else armv7DisasCond d w
  if ret < 0 then (ret, d)
  else if d.shiftType = .sLsl ∧ d.rs = none ∧ d.shift = 0 then
    (0, { d with shiftType := .sInvld })
  else (0, d)

/-- The disassembler as `decode_inst` calls it. -/
def disasm (w : UInt32) : Darm := (darmArmv7Disasm w).2.toDarm

/-- Two words of a sample: `add r0, r1, r2` and `ldr r3, [r4]`. -/
example : disasm 0xE0810002 =
      ⟨.iAdd, 14, .bUnset, 0, 0, some 0, some 1, some 2, none, 0⟩ ∧
    disasm 0xE5943000 = ⟨.iLdr, 14, .bInvld, 0, 0, none, some 4, none, some 3, 0⟩ := by
  decide

end TraceAnalyzer

end Tqsim
