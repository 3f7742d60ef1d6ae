import RetroCpu.Wdc65816.Op

/-!
# The opcode tables

`execOps` is `exec_ops[6][256]`: for each mode, the handler of each opcode.  The
source builds the four native rows by including one file four times with
`OP_A` and `OP_XY` defined differently, so here they are one function of the
two widths.  An `NYI()` entry of the 6502 row is a null pointer, `none`.
-/

namespace RetroCpu

/-- `WDC65C816::Mode`.  The four native modes carry their number's two bits:
`mode_long_a` is the low one. -/
inductive Mode
  | native8A8XY
  | native16A8XY
  | native8A16XY
  | native16A16XY
  /-- Emulate a 6502 as the 65816 did. -/
  | emulation
  /-- Emulate a 6502 exactly, including 6502-exclusive illegal instructions. -/
  | native6502
  deriving DecidableEq, Inhabited, Repr

namespace Mode

/-- The enumerator's value, which is the row of the mode in every opcode table. -/
def toNat : Mode → Nat
  | native8A8XY => 0
  | native16A8XY => 1
  | native8A16XY => 2
  | native16A16XY => 3
  | emulation => 4
  | native6502 => 5

/-- The mode numbered `(mode_long_a ? 1 : 0) + (mode_long_xy ? 2 : 0)`. -/
def ofWidths (longA longXy : Bool) : Mode :=
  match longA, longXy with
  | false, false => native8A8XY
  | true, false => native16A8XY
  | false, true => native8A16XY
  | true, true => native16A16XY

/-- `OP_A` of the mode's row. -/
def sizeA : Mode → Size
  | native16A8XY | native16A16XY => .u16
  | _ => .u8

/-- `OP_XY` of the mode's row. -/
def sizeXy : Mode → Size
  | native8A16XY | native16A16XY => .u16
  | _ => .u8

end Mode

/-- A row of `exec_ops`. -/
abbrev InstructionSet := List (Option Op)

/-- Index a row with an opcode byte. -/
def InstructionSet.at (row : InstructionSet) (opcode : BitVec 8) : Option Op :=
  row.getD opcode.toNat none

namespace Op

private def op (o : Op) : Option Op := some o

private def nyi : Option Op := none

/-- The native rows, for the widths `OP_A` and `OP_XY`. -/
def nativeRow (A XY : Size) : InstructionSet := [
  -- 00
  op brk, op (opOr (addrDirectIndirectX A XY)), op cop, op (opOr (addrStack A XY)),
  op (tsb (addrDirect A XY)), op (opOr (addrDirect A XY)),
  op (asl (addrDirect A XY)), op (opOr (addrDirectIndirectLong A XY)),
  op php, op (opOr (addrImm A XY A)), op (asl (addrA A XY)), op phd,
  op (tsb (addrAbs A XY)), op (opOr (addrAbs A XY)),
  op (asl (addrAbs A XY)), op (opOr (addrAbsLong A XY)),
  -- 10
  op bpl, op (opOr (addrDirectIndirectY A XY true)),
  op (opOr (addrDirectIndirect A XY)), op (opOr (addrStackY A XY)),
  op (trb (addrDirect A XY)), op (opOr (addrDirectX A XY)),
  op (asl (addrDirectX A XY)), op (opOr (addrDirectIndirectLongY A XY)),
  op clc, op (opOr (addrAbsY A XY)), op (ina A XY), op (tcs false),
  op (trb (addrAbs A XY)), op (opOr (addrAbsX A XY)),
  op (asl (addrAbsX A XY false)), op (opOr (addrAbsLongX A XY)),
  -- 20
  op jsrAbs, op (opAnd (addrDirectIndirectX A XY)), op jsrLong, op (opAnd (addrStack A XY)),
  op (bit (addrDirect A XY)), op (opAnd (addrDirect A XY)),
  op (rol (addrDirect A XY)), op (opAnd (addrDirectIndirectLong A XY)),
  op plp, op (opAnd (addrImm A XY A)), op (rol (addrA A XY)), op pld,
  op (bit (addrAbs A XY)), op (opAnd (addrAbs A XY)),
  op (rol (addrAbs A XY)), op (opAnd (addrAbsLong A XY)),
  -- 30
  op bmi, op (opAnd (addrDirectIndirectY A XY true)),
  op (opAnd (addrDirectIndirect A XY)), op (opAnd (addrStackY A XY)),
  op (bit (addrDirectX A XY)), op (opAnd (addrDirectX A XY)),
  op (rol (addrDirectX A XY)), op (opAnd (addrDirectIndirectLongY A XY)),
  op sec, op (opAnd (addrAbsY A XY)), op (dea A XY), op (tsc A XY),
  op (bit (addrAbsX A XY)), op (opAnd (addrAbsX A XY)),
  op (rol (addrAbsX A XY false)), op (opAnd (addrAbsLongX A XY)),
  -- 40
  op rti, op (opXor (addrDirectIndirectX A XY)), op wdm, op (opXor (addrStack A XY)),
  op mvp, op (opXor (addrDirect A XY)),
  op (lsr (addrDirect A XY)), op (opXor (addrDirectIndirectLong A XY)),
  op (pha A), op (opXor (addrImm A XY A)), op (lsr (addrA A XY)), op phk,
  op jmpAbs, op (opXor (addrAbs A XY)), op (lsr (addrAbs A XY)), op (opXor (addrAbsLong A XY)),
  -- 50
  op bvc, op (opXor (addrDirectIndirectY A XY true)),
  op (opXor (addrDirectIndirect A XY)), op (opXor (addrStackY A XY)),
  op mvn, op (opXor (addrDirectX A XY)),
  op (lsr (addrDirectX A XY)), op (opXor (addrDirectIndirectLongY A XY)),
  op cli, op (opXor (addrAbsY A XY)), op (phy XY), op (tcd A XY),
  op jmpLong, op (opXor (addrAbsX A XY)),
  op (lsr (addrAbsX A XY false)), op (opXor (addrAbsLongX A XY)),
  -- 60
  op (rts false), op (adc (addrDirectIndirectX A XY)), op per, op (adc (addrStack A XY)),
  op (stz (addrDirect A XY)), op (adc (addrDirect A XY)),
  op (ror (addrDirect A XY)), op (adc (addrDirectIndirectLong A XY)),
  op (pla A), op (adc (addrImm A XY A)), op (ror (addrA A XY)), op rtl,
  op jmpIndabs, op (adc (addrAbs A XY)), op (ror (addrAbs A XY)), op (adc (addrAbsLong A XY)),
  -- 70
  op bvs, op (adc (addrDirectIndirectY A XY true)),
  op (adc (addrDirectIndirect A XY)), op (adc (addrStackY A XY)),
  op (stz (addrDirectX A XY)), op (adc (addrDirectX A XY)),
  op (ror (addrDirectX A XY)), op (adc (addrDirectIndirectLongY A XY)),
  op sei, op (adc (addrAbsY A XY)), op (ply XY), op (tdc A XY),
  op jmpIndabsx, op (adc (addrAbsX A XY)),
  op (ror (addrAbsX A XY false)), op (adc (addrAbsLongX A XY)),
  -- 80
  op bra, op (sta (addrDirectIndirectX A XY)), op brl, op (sta (addrStack A XY)),
  op (sty (addrDirect A XY)), op (sta (addrDirect A XY)),
  op (stx (addrDirect A XY)), op (sta (addrDirectIndirectLong A XY)),
  op (dey A XY), op (bitImm (addrImm A XY A)), op (txa A XY), op phb,
  op (sty (addrAbs A XY)), op (sta (addrAbs A XY)),
  op (stx (addrAbs A XY)), op (sta (addrAbsLong A XY)),
  -- 90
  op bcc, op (sta (addrDirectIndirectY A XY false)),
  op (sta (addrDirectIndirect A XY)), op (sta (addrStackY A XY)),
  op (sty (addrDirectX A XY)), op (sta (addrDirectX A XY)),
  op (stx (addrDirectY A XY)), op (sta (addrDirectIndirectLongY A XY)),
  op (tya A XY), op (sta (addrAbsY A XY false)), op (txs false), op (txy A XY),
  op (stz (addrAbs A XY)), op (sta (addrAbsX A XY false)),
  op (stz (addrAbsX A XY false)), op (sta (addrAbsLongX A XY)),
  -- A0
  op (ldy (addrImm A XY XY)), op (lda (addrDirectIndirectX A XY)),
  op (ldx (addrImm A XY XY)), op (lda (addrStack A XY)),
  op (ldy (addrDirect A XY)), op (lda (addrDirect A XY)),
  op (ldx (addrDirect A XY)), op (lda (addrDirectIndirectLong A XY)),
  op (tay A XY), op (lda (addrImm A XY A)), op (tax A XY), op plb,
  op (ldy (addrAbs A XY)), op (lda (addrAbs A XY)),
  op (ldx (addrAbs A XY)), op (lda (addrAbsLong A XY)),
  -- B0
  op bcs, op (lda (addrDirectIndirectY A XY true)),
  op (lda (addrDirectIndirect A XY)), op (lda (addrStackY A XY)),
  op (ldy (addrDirectX A XY)), op (lda (addrDirectX A XY)),
  op (ldx (addrDirectY A XY)), op (lda (addrDirectIndirectLongY A XY)),
  op clv, op (lda (addrAbsY A XY)), op (tsx A XY), op (tyx A XY),
  op (ldy (addrAbsX A XY)), op (lda (addrAbsX A XY)),
  op (ldx (addrAbsY A XY)), op (lda (addrAbsLongX A XY)),
  -- C0
  op (cpy (addrImm A XY XY)), op (cmp (addrDirectIndirectX A XY)),
  op rep, op (cmp (addrStack A XY)),
  op (cpy (addrDirect A XY)), op (cmp (addrDirect A XY)),
  op (decMem (addrDirect A XY)), op (cmp (addrDirectIndirectLong A XY)),
  op (iny A XY), op (cmp (addrImm A XY A)), op (dex A XY), op wai,
  op (cpy (addrAbs A XY)), op (cmp (addrAbs A XY)),
  op (decMem (addrAbs A XY)), op (cmp (addrAbsLong A XY)),
  -- D0
  op bne, op (cmp (addrDirectIndirectY A XY true)),
  op (cmp (addrDirectIndirect A XY)), op (cmp (addrStackY A XY)),
  op pei, op (cmp (addrDirectX A XY)),
  op (decMem (addrDirectX A XY)), op (cmp (addrDirectIndirectLongY A XY)),
  op cld, op (cmp (addrAbsY A XY)), op (phx XY), op stp,
  op jmpIndlong, op (cmp (addrAbsX A XY)),
  op (decMem (addrAbsX A XY false)), op (cmp (addrAbsLongX A XY)),
  -- E0
  op (cpx (addrImm A XY XY)), op (sbc (addrDirectIndirectX A XY)),
  op sep, op (sbc (addrStack A XY)),
  op (cpx (addrDirect A XY)), op (sbc (addrDirect A XY)),
  op (incMem (addrDirect A XY)), op (sbc (addrDirectIndirectLong A XY)),
  op (inx A XY), op (sbc (addrImm A XY A)), op (nop 1 1), op xba,
  op (cpx (addrAbs A XY)), op (sbc (addrAbs A XY)),
  op (incMem (addrAbs A XY)), op (sbc (addrAbsLong A XY)),
  -- F0
  op beq, op (sbc (addrDirectIndirectY A XY true)),
  op (sbc (addrDirectIndirect A XY)), op (sbc (addrStackY A XY)),
  op pea, op (sbc (addrDirectX A XY)),
  op (incMem (addrDirectX A XY)), op (sbc (addrDirectIndirectLongY A XY)),
  op sed, op (sbc (addrAbsY A XY)), op (plx XY), op xce,
  op jsrIndabsx, op (sbc (addrAbsX A XY)),
  op (incMem (addrAbsX A XY false)), op (sbc (addrAbsLongX A XY))]

/-- The emulation row, with `OP_A` and `OP_XY` both `uint8_t`.
The stack wraps in page 1, and direct page accesses of the instructions a 6502 has wrap
in their page when the low byte of D is zero. -/
def emulationRow (A XY : Size) : InstructionSet := [
  -- 00
  op brk, op (opOr (addrDirectIndirectX A XY true)), op cop, op (opOr (addrStack A XY)),
  op (tsb (addrDirect A XY true)), op (opOr (addrDirect A XY true)),
  op (asl (addrDirect A XY true)), op (opOr (addrDirectIndirectLong A XY)),
  op php, op (opOr (addrImm A XY A)), op (asl (addrA A XY)), op phd,
  op (tsb (addrAbs A XY)), op (opOr (addrAbs A XY)),
  op (asl (addrAbs A XY)), op (opOr (addrAbsLong A XY)),
  -- 10
  op bpl, op (opOr (addrDirectIndirectY A XY true true)),
  op (opOr (addrDirectIndirect A XY)), op (opOr (addrStackY A XY)),
  op (trb (addrDirect A XY true)), op (opOr (addrDirectX A XY true)),
  op (asl (addrDirectX A XY true)), op (opOr (addrDirectIndirectLongY A XY)),
  op clc, op (opOr (addrAbsY A XY)), op (ina A XY), op (tcs true),
  op (trb (addrAbs A XY)), op (opOr (addrAbsX A XY)),
  op (asl (addrAbsX A XY false)), op (opOr (addrAbsLongX A XY)),
  -- 20
  op jsrAbs, op (opAnd (addrDirectIndirectX A XY true)), op jsrLong, op (opAnd (addrStack A XY)),
  op (bit (addrDirect A XY true)), op (opAnd (addrDirect A XY true)),
  op (rol (addrDirect A XY true)), op (opAnd (addrDirectIndirectLong A XY)),
  op plp, op (opAnd (addrImm A XY A)), op (rol (addrA A XY)), op pld,
  op (bit (addrAbs A XY)), op (opAnd (addrAbs A XY)),
  op (rol (addrAbs A XY)), op (opAnd (addrAbsLong A XY)),
  -- 30
  op bmi, op (opAnd (addrDirectIndirectY A XY true true)),
  op (opAnd (addrDirectIndirect A XY)), op (opAnd (addrStackY A XY)),
  op (bit (addrDirectX A XY true)), op (opAnd (addrDirectX A XY true)),
  op (rol (addrDirectX A XY true)), op (opAnd (addrDirectIndirectLongY A XY)),
  op sec, op (opAnd (addrAbsY A XY)), op (dea A XY), op (tsc A XY),
  op (bit (addrAbsX A XY)), op (opAnd (addrAbsX A XY)),
  op (rol (addrAbsX A XY false)), op (opAnd (addrAbsLongX A XY)),
  -- 40
  op rti, op (opXor (addrDirectIndirectX A XY true)), op wdm, op (opXor (addrStack A XY)),
  op mvp, op (opXor (addrDirect A XY true)),
  op (lsr (addrDirect A XY true)), op (opXor (addrDirectIndirectLong A XY)),
  op (pha A), op (opXor (addrImm A XY A)), op (lsr (addrA A XY)), op phk,
  op jmpAbs, op (opXor (addrAbs A XY)), op (lsr (addrAbs A XY)), op (opXor (addrAbsLong A XY)),
  -- 50
  op bvc, op (opXor (addrDirectIndirectY A XY true true)),
  op (opXor (addrDirectIndirect A XY)), op (opXor (addrStackY A XY)),
  op mvn, op (opXor (addrDirectX A XY true)),
  op (lsr (addrDirectX A XY true)), op (opXor (addrDirectIndirectLongY A XY)),
  op cli, op (opXor (addrAbsY A XY)), op (phy XY), op (tcd A XY),
  op jmpLong, op (opXor (addrAbsX A XY)),
  op (lsr (addrAbsX A XY false)), op (opXor (addrAbsLongX A XY)),
  -- 60
  op (rts false), op (adc (addrDirectIndirectX A XY true)), op per, op (adc (addrStack A XY)),
  op (stz (addrDirect A XY true)), op (adc (addrDirect A XY true)),
  op (ror (addrDirect A XY true)), op (adc (addrDirectIndirectLong A XY)),
  op (pla A), op (adc (addrImm A XY A)), op (ror (addrA A XY)), op rtl,
  op jmpIndabs, op (adc (addrAbs A XY)), op (ror (addrAbs A XY)), op (adc (addrAbsLong A XY)),
  -- 70
  op bvs, op (adc (addrDirectIndirectY A XY true true)),
  op (adc (addrDirectIndirect A XY)), op (adc (addrStackY A XY)),
  op (stz (addrDirectX A XY true)), op (adc (addrDirectX A XY true)),
  op (ror (addrDirectX A XY true)), op (adc (addrDirectIndirectLongY A XY)),
  op sei, op (adc (addrAbsY A XY)), op (ply XY), op (tdc A XY),
  op jmpIndabsx, op (adc (addrAbsX A XY)),
  op (ror (addrAbsX A XY false)), op (adc (addrAbsLongX A XY)),
  -- 80
  op bra, op (sta (addrDirectIndirectX A XY true)), op brl, op (sta (addrStack A XY)),
  op (sty (addrDirect A XY true)), op (sta (addrDirect A XY true)),
  op (stx (addrDirect A XY true)), op (sta (addrDirectIndirectLong A XY)),
  op (dey A XY), op (bitImm (addrImm A XY A)), op (txa A XY), op phb,
  op (sty (addrAbs A XY)), op (sta (addrAbs A XY)),
  op (stx (addrAbs A XY)), op (sta (addrAbsLong A XY)),
  -- 90
  op bcc, op (sta (addrDirectIndirectY A XY false true)),
  op (sta (addrDirectIndirect A XY)), op (sta (addrStackY A XY)),
  op (sty (addrDirectX A XY true)), op (sta (addrDirectX A XY true)),
  op (stx (addrDirectY A XY true)), op (sta (addrDirectIndirectLongY A XY)),
  op (tya A XY), op (sta (addrAbsY A XY false)), op (txs true), op (txy A XY),
  op (stz (addrAbs A XY)), op (sta (addrAbsX A XY false)),
  op (stz (addrAbsX A XY false)), op (sta (addrAbsLongX A XY)),
  -- A0
  op (ldy (addrImm A XY XY)), op (lda (addrDirectIndirectX A XY true)),
  op (ldx (addrImm A XY XY)), op (lda (addrStack A XY)),
  op (ldy (addrDirect A XY true)), op (lda (addrDirect A XY true)),
  op (ldx (addrDirect A XY true)), op (lda (addrDirectIndirectLong A XY)),
  op (tay A XY), op (lda (addrImm A XY A)), op (tax A XY), op plb,
  op (ldy (addrAbs A XY)), op (lda (addrAbs A XY)),
  op (ldx (addrAbs A XY)), op (lda (addrAbsLong A XY)),
  -- B0
  op bcs, op (lda (addrDirectIndirectY A XY true true)),
  op (lda (addrDirectIndirect A XY)), op (lda (addrStackY A XY)),
  op (ldy (addrDirectX A XY true)), op (lda (addrDirectX A XY true)),
  op (ldx (addrDirectY A XY true)), op (lda (addrDirectIndirectLongY A XY)),
  op clv, op (lda (addrAbsY A XY)), op (tsx A XY), op (tyx A XY),
  op (ldy (addrAbsX A XY)), op (lda (addrAbsX A XY)),
  op (ldx (addrAbsY A XY)), op (lda (addrAbsLongX A XY)),
  -- C0
  op (cpy (addrImm A XY XY)), op (cmp (addrDirectIndirectX A XY true)),
  op rep, op (cmp (addrStack A XY)),
  op (cpy (addrDirect A XY true)), op (cmp (addrDirect A XY true)),
  op (decMem (addrDirect A XY true)), op (cmp (addrDirectIndirectLong A XY)),
  op (iny A XY), op (cmp (addrImm A XY A)), op (dex A XY), op wai,
  op (cpy (addrAbs A XY)), op (cmp (addrAbs A XY)),
  op (decMem (addrAbs A XY)), op (cmp (addrAbsLong A XY)),
  -- D0
  op bne, op (cmp (addrDirectIndirectY A XY true true)),
  op (cmp (addrDirectIndirect A XY)), op (cmp (addrStackY A XY)),
  op pei, op (cmp (addrDirectX A XY true)),
  op (decMem (addrDirectX A XY true)), op (cmp (addrDirectIndirectLongY A XY)),
  op cld, op (cmp (addrAbsY A XY)), op (phx XY), op stp,
  op jmpIndlong, op (cmp (addrAbsX A XY)),
  op (decMem (addrAbsX A XY false)), op (cmp (addrAbsLongX A XY)),
  -- E0
  op (cpx (addrImm A XY XY)), op (sbc (addrDirectIndirectX A XY true)),
  op sep, op (sbc (addrStack A XY)),
  op (cpx (addrDirect A XY true)), op (sbc (addrDirect A XY true)),
  op (incMem (addrDirect A XY true)), op (sbc (addrDirectIndirectLong A XY)),
  op (inx A XY), op (sbc (addrImm A XY A)), op (nop 1 1), op xba,
  op (cpx (addrAbs A XY)), op (sbc (addrAbs A XY)),
  op (incMem (addrAbs A XY)), op (sbc (addrAbsLong A XY)),
  -- F0
  op beq, op (sbc (addrDirectIndirectY A XY true true)),
  op (sbc (addrDirectIndirect A XY)), op (sbc (addrStackY A XY)),
  op pea, op (sbc (addrDirectX A XY true)),
  op (incMem (addrDirectX A XY true)), op (sbc (addrDirectIndirectLongY A XY)),
  op sed, op (sbc (addrAbsY A XY)), op (plx XY), op xce,
  op jsrIndabsx, op (sbc (addrAbsX A XY)),
  op (incMem (addrAbsX A XY false)), op (sbc (addrAbsLongX A XY))]

/-- The 6502 row, with `OP_A` and `OP_XY` both `uint8_t`. -/
def native6502Row (A XY : Size) : InstructionSet := [
  -- 00
  op brk, op (opOr (addrDirectIndirectX A XY true)), nyi, nyi,
  nyi, op (opOr (addrDirect A XY true)), op (asl (addrDirect A XY true)), nyi,
  op php, op (opOr (addrImm A XY A)), op (asl (addrA A XY)), op anc,
  nyi, op (opOr (addrAbs A XY)), op (asl (addrAbs A XY)), nyi,
  -- 10
  op bpl, op (opOr (addrDirectIndirectY A XY true true)), nyi, nyi,
  nyi, op (opOr (addrDirectX A XY true)), op (asl (addrDirectX A XY true)), nyi,
  op clc, op (opOr (addrAbsY A XY)), op (nop 1 1), nyi,
  nyi, op (opOr (addrAbsX A XY)), op (asl (addrAbsX A XY false)), nyi,
  -- 20
  op jsrAbs, op (opAnd (addrDirectIndirectX A XY true)), nyi, nyi,
  op (bit (addrDirect A XY true)), op (opAnd (addrDirect A XY true)),
  op (rol (addrDirect A XY true)), nyi,
  op plp, op (opAnd (addrImm A XY A)), op (rol (addrA A XY)), nyi,
  op (bit (addrAbs A XY)), op (opAnd (addrAbs A XY)), op (rol (addrAbs A XY)), nyi,
  -- 30
  op bmi, op (opAnd (addrDirectIndirectY A XY true true)), nyi, nyi,
  op (bit (addrDirectX A XY true)), op (opAnd (addrDirectX A XY true)),
  op (rol (addrDirectX A XY true)), nyi,
  op sec, op (opAnd (addrAbsY A XY)), op (nop 1 1), nyi,
  nyi, op (opAnd (addrAbsX A XY)), op (rol (addrAbsX A XY false)), nyi,
  -- 40
  op rti, op (opXor (addrDirectIndirectX A XY true)), nyi, nyi,
  nyi, op (opXor (addrDirect A XY true)), op (lsr (addrDirect A XY true)), nyi,
  op (pha A), op (opXor (addrImm A XY A)), op (lsr (addrA A XY)), op alr,
  op jmpAbs, op (opXor (addrAbs A XY)), op (lsr (addrAbs A XY)), nyi,
  -- 50
  op bvc, op (opXor (addrDirectIndirectY A XY true true)), nyi, nyi,
  nyi, op (opXor (addrDirectX A XY true)), op (lsr (addrDirectX A XY true)), nyi,
  op cli, op (opXor (addrAbsY A XY)), op (nop 1 1), nyi,
  nyi, op (opXor (addrAbsX A XY)), op (lsr (addrAbsX A XY false)), nyi,
  -- 60
  op (rts false), op (adc (addrDirectIndirectX A XY true)), nyi, nyi,
  nyi, op (adc (addrDirect A XY true)), op (ror (addrDirect A XY true)), nyi,
  op (pla A), op (adc (addrImm A XY A)), op (ror (addrA A XY)), nyi,
  op jmpIndabsLegacy, op (adc (addrAbs A XY)), op (ror (addrAbs A XY)), nyi,
  -- 70
  op bvs, op (adc (addrDirectIndirectY A XY true true)), nyi, nyi,
  nyi, op (adc (addrDirectX A XY true)), op (ror (addrDirectX A XY true)), nyi,
  op sei, op (adc (addrAbsY A XY)), op (nop 1 1), nyi,
  nyi, op (adc (addrAbsX A XY)), op (ror (addrAbsX A XY false)), nyi,
  -- 80
  op (nop 1 2), op (sta (addrDirectIndirectX A XY true)),
  op (nop 1 2), op (sax (addrDirectIndirectX A XY)),
  op (sty (addrDirect A XY true)), op (sta (addrDirect A XY true)),
  op (stx (addrDirect A XY true)), op (sax (addrDirect A XY)),
  op (dey A XY), nyi, op (txa A XY), nyi,
  op (sty (addrAbs A XY)), op (sta (addrAbs A XY)),
  op (stx (addrAbs A XY)), op (sax (addrAbs A XY)),
  -- 90
  op bcc, op (sta (addrDirectIndirectY A XY false true)), nyi, nyi,
  op (sty (addrDirectX A XY true)), op (sta (addrDirectX A XY true)),
  op (stx (addrDirectY A XY true)), op (sax (addrDirectY A XY)),
  op (tya A XY), op (sta (addrAbsY A XY false)), op (txs true), nyi,
  nyi, op (sta (addrAbsX A XY false)), nyi, nyi,
  -- A0
  op (ldy (addrImm A XY XY)), op (lda (addrDirectIndirectX A XY true)),
  op (ldx (addrImm A XY XY)), op (lax (addrDirectIndirectX A XY)),
  op (ldy (addrDirect A XY true)), op (lda (addrDirect A XY true)),
  op (ldx (addrDirect A XY true)), op (lax (addrDirect A XY)),
  op (tay A XY), op (lda (addrImm A XY A)), op (tax A XY), nyi,
  op (ldy (addrAbs A XY)), op (lda (addrAbs A XY)),
  op (ldx (addrAbs A XY)), op (lax (addrAbs A XY)),
  -- B0
  op bcs, op (lda (addrDirectIndirectY A XY true true)),
  nyi, op (lax (addrDirectIndirectY A XY true)),
  op (ldy (addrDirectX A XY true)), op (lda (addrDirectX A XY true)),
  op (ldx (addrDirectY A XY true)), op (lax (addrDirectY A XY)),
  op clv, op (lda (addrAbsY A XY)), op (tsx A XY), nyi,
  op (ldy (addrAbsX A XY)), op (lda (addrAbsX A XY)),
  op (ldx (addrAbsY A XY)), op (lax (addrAbsY A XY)),
  -- C0
  op (cpy (addrImm A XY XY)), op (cmp (addrDirectIndirectX A XY true)), op (nop 1 2), nyi,
  op (cpy (addrDirect A XY true)), op (cmp (addrDirect A XY true)),
  op (decMem (addrDirect A XY true)), nyi,
  op (iny A XY), op (cmp (addrImm A XY A)), op (dex A XY), nyi,
  op (cpy (addrAbs A XY)), op (cmp (addrAbs A XY)), op (decMem (addrAbs A XY)), nyi,
  -- D0
  op bne, op (cmp (addrDirectIndirectY A XY true true)), nyi, nyi,
  nyi, op (cmp (addrDirectX A XY true)), op (decMem (addrDirectX A XY true)), nyi,
  op cld, op (cmp (addrAbsY A XY)), op (nop 1 1), nyi,
  nyi, op (cmp (addrAbsX A XY)), op (decMem (addrAbsX A XY false)), nyi,
  -- E0
  op (cpx (addrImm A XY XY)), op (sbc (addrDirectIndirectX A XY true)), op (nop 1 2), nyi,
  op (cpx (addrDirect A XY true)), op (sbc (addrDirect A XY true)),
  op (incMem (addrDirect A XY true)), nyi,
  op (inx A XY), op (sbc (addrImm A XY A)), op (nop 1 1), nyi,
  op (cpx (addrAbs A XY)), op (sbc (addrAbs A XY)), op (incMem (addrAbs A XY)), nyi,
  -- F0
  op beq, op (sbc (addrDirectIndirectY A XY true true)), nyi, nyi,
  nyi, op (sbc (addrDirectX A XY true)), op (incMem (addrDirectX A XY true)), nyi,
  op sed, op (sbc (addrAbsY A XY)), op (nop 1 1), nyi,
  nyi, op (sbc (addrAbsX A XY)), op (incMem (addrAbsX A XY false)), nyi]

end Op

/-- `exec_ops`. -/
def execOps : Mode → InstructionSet
  | .native8A8XY => Op.nativeRow .u8 .u8
  | .native16A8XY => Op.nativeRow .u16 .u8
  | .native8A16XY => Op.nativeRow .u8 .u16
  | .native16A16XY => Op.nativeRow .u16 .u16
  | .emulation => Op.emulationRow .u8 .u8
  | .native6502 => Op.native6502Row .u8 .u8

end RetroCpu
