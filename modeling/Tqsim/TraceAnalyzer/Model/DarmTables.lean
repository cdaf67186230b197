import Tqsim.TraceAnalyzer.Model.Inst

/-!
# The tables of the disassembler

The enumerators and lookup tables of `darm` that disassembling an ARM word
reads. A label that `decode_inst` tells apart has a constructor of its own;
the others are `DarmInstr.other` with the value of their enumerator, named
here as the source names them.
-/

namespace Tqsim

namespace TraceAnalyzer

/-! ## Labels -/

namespace DarmInstr

def iInvld : DarmInstr := .other 0
def iAdr : DarmInstr := .other 4
def iBfc : DarmInstr := .other 8
def iBkpt : DarmInstr := .other 11
def iCdp : DarmInstr := .other 18
def iCdp2 : DarmInstr := .other 19
def iClrex : DarmInstr := .other 21
def iDbg : DarmInstr := .other 27
def iDmb : DarmInstr := .other 28
def iDsb : DarmInstr := .other 29
def iIsb : DarmInstr := .other 36
def iLdrex : DarmInstr := .other 48
def iLdrexb : DarmInstr := .other 49
def iLdrexd : DarmInstr := .other 50
def iLdrexh : DarmInstr := .other 51
def iMcr2 : DarmInstr := .other 63
def iMrc2 : DarmInstr := .other 72
def iMsr : DarmInstr := .other 76
def iNop : DarmInstr := .other 80
def iPkh : DarmInstr := .other 83
def iPldw : DarmInstr := .other 85
def iPli : DarmInstr := .other 86
def iQadd : DarmInstr := .other 89
def iQadd16 : DarmInstr := .other 90
def iQadd8 : DarmInstr := .other 91
def iQasx : DarmInstr := .other 92
def iQdadd : DarmInstr := .other 93
def iQdsub : DarmInstr := .other 94
def iQsax : DarmInstr := .other 95
def iQsub : DarmInstr := .other 96
def iQsub16 : DarmInstr := .other 97
def iRbit : DarmInstr := .other 99
def iRev : DarmInstr := .other 100
def iSadd16 : DarmInstr := .other 108
def iSadd8 : DarmInstr := .other 109
def iSasx : DarmInstr := .other 110
def iSetend : DarmInstr := .other 115
def iSev : DarmInstr := .other 116
def iShadd16 : DarmInstr := .other 117
def iShadd8 : DarmInstr := .other 118
def iShasx : DarmInstr := .other 119
def iShsax : DarmInstr := .other 120
def iShsub16 : DarmInstr := .other 121
def iSmc : DarmInstr := .other 123
def iSmlad : DarmInstr := .other 127
def iSmlal : DarmInstr := .other 128
def iSmlald : DarmInstr := .other 131
def iSmlaw : DarmInstr := .other 136
def iSmlsd : DarmInstr := .other 137
def iSmlsld : DarmInstr := .other 138
def iSmmla : DarmInstr := .other 139
def iSmmls : DarmInstr := .other 140
def iSmmul : DarmInstr := .other 141
def iSmusd : DarmInstr := .other 150
def iSsat : DarmInstr := .other 152
def iSsat16 : DarmInstr := .other 153
def iSsax : DarmInstr := .other 154
def iSsub16 : DarmInstr := .other 155
def iStrex : DarmInstr := .other 167
def iStrexb : DarmInstr := .other 168
def iStrexd : DarmInstr := .other 169
def iStrexh : DarmInstr := .other 170
def iSwp : DarmInstr := .other 177
def iSwpb : DarmInstr := .other 178
def iSxtab : DarmInstr := .other 179
def iSxtab16 : DarmInstr := .other 180
def iSxtah : DarmInstr := .other 181
def iSxtb : DarmInstr := .other 182
def iSxtb16 : DarmInstr := .other 183
def iSxth : DarmInstr := .other 184
def iUadd16 : DarmInstr := .other 189
def iUadd8 : DarmInstr := .other 190
def iUasx : DarmInstr := .other 191
def iUdf : DarmInstr := .other 193
def iUhadd16 : DarmInstr := .other 195
def iUhadd8 : DarmInstr := .other 196
def iUhasx : DarmInstr := .other 197
def iUhsax : DarmInstr := .other 198
def iUhsub16 : DarmInstr := .other 199
def iUqadd16 : DarmInstr := .other 204
def iUqadd8 : DarmInstr := .other 205
def iUqasx : DarmInstr := .other 206
def iUqsax : DarmInstr := .other 207
def iUqsub16 : DarmInstr := .other 208
def iUsat : DarmInstr := .other 212
def iUsat16 : DarmInstr := .other 213
def iUsax : DarmInstr := .other 214
def iUsub16 : DarmInstr := .other 215
def iUxtab : DarmInstr := .other 217
def iUxtab16 : DarmInstr := .other 218
def iUxtah : DarmInstr := .other 219
def iUxtb : DarmInstr := .other 220
def iUxtb16 : DarmInstr := .other 221
def iUxth : DarmInstr := .other 222
def iWfe : DarmInstr := .other 351
def iWfi : DarmInstr := .other 352
def iYield : DarmInstr := .other 353

end DarmInstr

/-! ## Encodings -/

/-- The values of `darm_enctype_t` that stand for ARM encodings. -/
inductive DarmEnctype where
  | invld | armUncond | armMul | armStack0 | armStack1 | armStack2 | armArithShift
  | armArithImm | armBits | armBrnchsc | armBrnchmisc | armMovImm | armCmpOp | armCmpImm
  | armOpless | armDstSrc | armLdstregs | armBitrev | armMisc | armSm | armPas | armSat
  | armSync | armPusr | armMvcr | armUdf
  deriving DecidableEq, Repr

/-! ## Lookup tables -/

open DarmInstr

/-- `armv7_instr_types`: the encoding for bits 20 to 27. -/
def armv7InstrTypes : List DarmEnctype := [
  .armArithShift, .armArithShift, .armArithShift, .armArithShift, .armArithShift, .armArithShift,
  .armArithShift, .armArithShift, .armArithShift, .armArithShift, .armArithShift, .armArithShift,
  .armArithShift, .armArithShift, .armArithShift, .armArithShift, .armSm, .armCmpOp,
  .armBrnchmisc, .armCmpOp, .armSm, .armCmpOp, .armMisc, .armCmpOp, .armArithShift,
  .armArithShift, .armDstSrc, .armDstSrc, .armArithShift, .armArithShift, .armMisc, .armMisc,
  .armArithImm, .armArithImm, .armArithImm, .armArithImm, .armArithImm, .armArithImm,
  .armArithImm, .armArithImm, .armArithImm, .armArithImm, .armArithImm, .armArithImm,
  .armArithImm, .armArithImm, .armArithImm, .armArithImm, .armMovImm, .armCmpImm, .armOpless,
  .armCmpImm, .armMovImm, .armCmpImm, .invld, .armCmpImm, .armArithImm, .armArithImm, .armMovImm,
  .armMovImm, .armArithImm, .armArithImm, .armMovImm, .armMovImm, .invld, .invld, .invld, .invld,
  .invld, .invld, .invld, .invld, .invld, .invld, .invld, .invld, .invld, .invld, .invld, .invld,
  .invld, .invld, .invld, .invld, .invld, .invld, .invld, .invld, .invld, .invld, .invld, .invld,
  .invld, .invld, .invld, .invld, .invld, .armPas, .armPas, .armPas, .invld, .armPas, .armPas,
  .armPas, .armMisc, .invld, .invld, .armBitrev, .invld, .invld, .invld, .armBitrev, .armSm,
  .invld, .invld, .invld, .armSm, .armSm, .invld, .invld, .invld, .invld, .armBits, .armBits,
  .armBits, .armBits, .armBits, .armUdf, .armLdstregs, .armLdstregs, .armLdstregs, .armLdstregs,
  .invld, .invld, .invld, .invld, .armLdstregs, .armLdstregs, .armLdstregs, .armLdstregs, .invld,
  .invld, .invld, .invld, .armLdstregs, .armLdstregs, .armLdstregs, .armLdstregs, .invld, .invld,
  .invld, .invld, .armLdstregs, .armLdstregs, .armLdstregs, .armLdstregs, .invld, .invld, .invld,
  .invld, .armBrnchsc, .armBrnchsc, .armBrnchsc, .armBrnchsc, .armBrnchsc, .armBrnchsc,
  .armBrnchsc, .armBrnchsc, .armBrnchsc, .armBrnchsc, .armBrnchsc, .armBrnchsc, .armBrnchsc,
  .armBrnchsc, .armBrnchsc, .armBrnchsc, .armBrnchsc, .armBrnchsc, .armBrnchsc, .armBrnchsc,
  .armBrnchsc, .armBrnchsc, .armBrnchsc, .armBrnchsc, .armBrnchsc, .armBrnchsc, .armBrnchsc,
  .armBrnchsc, .armBrnchsc, .armBrnchsc, .armBrnchsc, .armBrnchsc, .invld, .invld, .invld, .invld,
  .invld, .invld, .invld, .invld, .invld, .invld, .invld, .invld, .invld, .invld, .invld, .invld,
  .invld, .invld, .invld, .invld, .invld, .invld, .invld, .invld, .invld, .invld, .invld, .invld,
  .invld, .invld, .invld, .invld, .armMvcr, .armMvcr, .armMvcr, .armMvcr, .armMvcr, .armMvcr,
  .armMvcr, .armMvcr, .armMvcr, .armMvcr, .armMvcr, .armMvcr, .armMvcr, .armMvcr, .armMvcr,
  .armMvcr, .armBrnchsc, .armBrnchsc, .armBrnchsc, .armBrnchsc, .armBrnchsc, .armBrnchsc,
  .armBrnchsc, .armBrnchsc, .armBrnchsc, .armBrnchsc, .armBrnchsc, .armBrnchsc, .armBrnchsc,
  .armBrnchsc, .armBrnchsc, .armBrnchsc]

/-- `armv7_instr_labels`: the label for bits 20 to 27. -/
def armv7InstrLabels : List DarmInstr := [
  .iAnd, .iAnd, .iEor, .iEor, .iSub, .iSub, .iRsb, .iRsb, .iAdd, .iAdd, .iAdc, .iAdc, .iSbc,
  .iSbc, .iRsc, .iRsc, .iSmla, .iTst, .iSmulw, .iTeq, iSmlal, .iCmp, iSmc, .iCmn, .iOrr, .iOrr,
  iStrexd, .iRrx, .iBic, .iBic, .iMvn, .iMvn, .iAnd, .iAnd, .iEor, .iEor, .iSub, .iSub, .iRsb,
  .iRsb, .iAdd, .iAdd, .iAdc, .iAdc, .iSbc, .iSbc, .iRsc, .iRsc, .iMovw, .iTst, iYield, .iTeq,
  .iMovt, .iCmp, iInvld, .iCmn, .iOrr, .iOrr, .iMov, .iMov, .iBic, .iBic, .iMvn, .iMvn, iInvld,
  iInvld, iInvld, iInvld, iInvld, iInvld, iInvld, iInvld, iInvld, iInvld, iInvld, iInvld, iInvld,
  iInvld, iInvld, iInvld, iInvld, iInvld, iInvld, iInvld, iInvld, iInvld, iInvld, iInvld, iInvld,
  iInvld, iInvld, iInvld, iInvld, iInvld, iInvld, iInvld, iInvld, .iSsub8, .iQsub8, .iShsub8,
  iInvld, .iUsub8, .iUqsub8, .iUhsub8, .iSel, iInvld, iInvld, .iRev16, iInvld, iInvld, iInvld,
  .iRevsh, iSmusd, iInvld, iInvld, iInvld, iSmlsld, iSmmul, iInvld, iInvld, iInvld, iInvld,
  .iSbfx, .iSbfx, .iBfi, .iBfi, .iUbfx, iUdf, .iStmda, .iLdmda, .iStmda, .iLdmda, iInvld, iInvld,
  iInvld, iInvld, .iStm, .iLdm, .iStm, .iLdm, iInvld, iInvld, iInvld, iInvld, .iStmdb, .iLdmdb,
  .iStmdb, .iLdmdb, iInvld, iInvld, iInvld, iInvld, .iStmib, .iLdmib, .iStmib, .iLdmib, iInvld,
  iInvld, iInvld, iInvld, .iB, .iB, .iB, .iB, .iB, .iB, .iB, .iB, .iB, .iB, .iB, .iB, .iB, .iB,
  .iB, .iB, .iBl, .iBl, .iBl, .iBl, .iBl, .iBl, .iBl, .iBl, .iBl, .iBl, .iBl, .iBl, .iBl, .iBl,
  .iBl, .iBl, iInvld, iInvld, iInvld, iInvld, iInvld, iInvld, iInvld, iInvld, iInvld, iInvld,
  iInvld, iInvld, iInvld, iInvld, iInvld, iInvld, iInvld, iInvld, iInvld, iInvld, iInvld, iInvld,
  iInvld, iInvld, iInvld, iInvld, iInvld, iInvld, iInvld, iInvld, iInvld, iInvld, .iMcr, .iMrc,
  .iMcr, .iMrc, .iMcr, .iMrc, .iMcr, .iMrc, .iMcr, .iMrc, .iMcr, .iMrc, .iMcr, .iMrc, .iMcr,
  .iMrc, .iSvc, .iSvc, .iSvc, .iSvc, .iSvc, .iSvc, .iSvc, .iSvc, .iSvc, .iSvc, .iSvc, .iSvc,
  .iSvc, .iSvc, .iSvc, .iSvc]

/-- `type_shift_instr_lookup`. -/
def typeShiftInstrLookup : List DarmInstr := [
  .iLsl, .iLsl, .iLsr, .iLsr, .iAsr, .iAsr, .iRor, .iRor, .iLsl, iInvld, .iLsr, iInvld, .iAsr,
  iInvld, .iRor, iInvld]

/-- `type_brnchmisc_instr_lookup`. -/
def typeBrnchmiscInstrLookup : List DarmInstr := [
  iMsr, .iBx, .iBxj, .iBlx, iInvld, iQsub, iInvld, iBkpt, iSmlaw, iInvld, .iSmulw, iInvld, iSmlaw,
  iInvld, .iSmulw, iInvld]

/-- `type_opless_instr_lookup`. -/
def typeOplessInstrLookup : List DarmInstr := [
  iNop, iYield, iWfe, iWfi, iSev, iInvld, iInvld, iInvld]

/-- `type_uncond2_instr_lookup`. -/
def typeUncond2InstrLookup : List DarmInstr := [
  iInvld, iClrex, iInvld, iInvld, iDsb, iDmb, iIsb, iInvld]

/-- `type_mul_instr_lookup`. -/
def typeMulInstrLookup : List DarmInstr := [
  .iMul, .iMla, .iUmaal, .iMls, .iUmull, .iUmlal, .iSmull, iSmlal]

/-- `type_stack0_instr_lookup`. -/
def typeStack0InstrLookup : List DarmInstr := [
  .iStr, .iLdr, .iStrt, .iLdrt, .iStrb, .iLdrb, .iStrbt, .iLdrbt, .iStr, .iLdr, .iStrt, .iLdrt,
  .iStrb, .iLdrb, .iStrbt, .iLdrbt, .iStr, .iLdr, .iStr, .iLdr, .iStrb, .iLdrb, .iStrb, .iLdrb,
  .iStr, .iLdr, .iStr, .iLdr, .iStrb, .iLdrb, .iStrb, .iLdrb]

/-- `type_stack1_instr_lookup`. -/
def typeStack1InstrLookup : List DarmInstr := [
  iInvld, iInvld, .iStrht, .iLdrht, iInvld, .iLdrsbt, iInvld, .iLdrsht]

/-- `type_stack2_instr_lookup`. -/
def typeStack2InstrLookup : List DarmInstr := [
  iInvld, iInvld, .iStrh, .iLdrh, .iLdrd, .iLdrsb, .iStrd, .iLdrsh]

/-- `type_bits_instr_lookup`. -/
def typeBitsInstrLookup : List DarmInstr := [
  iInvld, .iSbfx, .iBfi, .iUbfx]

/-- `type_pas_instr_lookup`. -/
def typePasInstrLookup : List DarmInstr := [
  iInvld, iInvld, iInvld, iInvld, iInvld, iInvld, iInvld, iInvld, iSadd16, iSasx, iSsax, iSsub16,
  iSadd8, iInvld, iInvld, .iSsub8, iQadd16, iQasx, iQsax, iQsub16, iQadd8, iInvld, iInvld,
  .iQsub8, iShadd16, iShasx, iShsax, iShsub16, iShadd8, iInvld, iInvld, .iShsub8, iInvld, iInvld,
  iInvld, iInvld, iInvld, iInvld, iInvld, iInvld, iUadd16, iUasx, iUsax, iUsub16, iUadd8, iInvld,
  iInvld, .iUsub8, iUqadd16, iUqasx, iUqsax, iUqsub16, iUqadd8, iInvld, iInvld, .iUqsub8,
  iUhadd16, iUhasx, iUhsax, iUhsub16, iUhadd8, iInvld, iInvld, .iUhsub8]

/-- `type_sat_instr_lookup`. -/
def typeSatInstrLookup : List DarmInstr := [
  iQadd, iQsub, iQdadd, iQdsub]

/-- `type_sync_instr_lookup`. -/
def typeSyncInstrLookup : List DarmInstr := [
  iSwp, iInvld, iInvld, iInvld, iSwpb, iInvld, iInvld, iInvld, iStrex, iLdrex, iStrexd, iLdrexd,
  iStrexb, iLdrexb, iStrexh, iLdrexh]

/-- `type_pusr_instr_lookup`. -/
def typePusrInstrLookup : List DarmInstr := [
  iSxtab16, iSxtb16, iInvld, iInvld, iSxtab, iSxtb, iSxtah, iSxth, iUxtab16, iUxtb16, iInvld,
  iInvld, iUxtab, iUxtb, iUxtah, iUxth]

end TraceAnalyzer

end Tqsim
