import RetroCpu.SystemBus

/-!
# Gavin

The registers at `0x100` of a C256 and the coprocessor that computes in them.
-/

namespace RetroCpu.C256

/-- `gavin_low_regs`. -/
abbrev Registers := Byte → Byte

namespace Registers

/-- `bytes[i] + bytes[i + 1] * 256`. -/
def get16 (r : Registers) (i : Byte) : Word :=
  (r i).setWidth 16 + (r (i + 1)).setWidth 16 * 256

/-- `bytes[i] = lo; bytes[i + 1] = hi`. -/
def set16 (r : Registers) (i : Byte) (lo hi : Byte) : Registers :=
  Function.update (Function.update r i lo) (i + 1) hi

/-- The four bytes of `v`, from `bytes[i]` on. -/
def set32 (r : Registers) (i : Byte) (v : BitVec 32) : Registers :=
  (r.set16 i (v.setWidth 8) ((v >>> 8).setWidth 8)).set16 (i + 2) ((v >>> 16).setWidth 8)
    ((v >>> 24).setWidth 8)

/-- `MathCoproUMul(gavin_low_regs + i)`. -/
def mathCoproUMul (i : Byte) (r : Registers) : Registers :=
  let a := r.get16 i
  let b := r.get16 (i + 2)
  r.set32 (i + 4) (a.setWidth 32 * b.setWidth 32)

/-- `MathCoproSMul(gavin_low_regs + i)`.  The operands are `uint16_t`, and the casts to `int`
keep their values. -/
def mathCoproSMul (i : Byte) (r : Registers) : Registers :=
  let a := r.get16 i
  let b := r.get16 (i + 2)
  r.set32 (i + 4) (a.setWidth 32 * b.setWidth 32)

/-- `MathCoproUDiv(gavin_low_regs + i)`. -/
def mathCoproUDiv (i : Byte) (r : Registers) : Registers :=
  let a := r.get16 i
  let b := r.get16 (i + 2)
  let result := if b ≠ 0 then a / b else 0
  let rem := if b ≠ 0 then a % b else 0
  (r.set16 (i + 4) (result.setWidth 8) ((result >>> 8).setWidth 8)).set16 (i + 6)
    (rem.setWidth 8) ((rem >>> 8).setWidth 8)

/-- `MathCoproSDiv(gavin_low_regs + i)`.  The operands are `uint16_t` and divided as such; the
results are `int16_t`, and `>>` keeps their sign. -/
def mathCoproSDiv (i : Byte) (r : Registers) : Registers :=
  let a := r.get16 i
  let b := r.get16 (i + 2)
  let result := if b ≠ 0 then a / b else 0
  let rem := if b ≠ 0 then a % b else 0
  (r.set16 (i + 4) (result.setWidth 8) ((result.sshiftRight 8).setWidth 8)).set16 (i + 6)
    (rem.setWidth 8) ((rem.sshiftRight 8).setWidth 8)

/-- `MathCoproAdd(gavin_low_regs + i)`. -/
def mathCoproAdd (i : Byte) (r : Registers) : Registers :=
  let byte (j : Byte) : BitVec 32 := (r (i + j)).setWidth 32
  let sum := byte 0 + byte 1 <<< 8 + byte 2 <<< 16 + byte 3 <<< 24 + byte 4 + byte 5 <<< 8 +
    byte 6 <<< 16 + byte 7 <<< 24
  r.set32 (i + 8) sum

/-- `GavinIoWrite`. -/
def gavinIoWrite (r : Registers) (reg : CpuAddr) (data : Byte) : Registers :=
  let r : Registers := Function.update r (reg.setWidth 8) data
  if reg >>> 3 = 0 then r.mathCoproUMul 0
  else if reg >>> 3 = 1 then r.mathCoproSMul 8
  else if reg >>> 3 = 2 then r.mathCoproUDiv 0x10
  else if reg >>> 3 = 3 then r.mathCoproSDiv 0x18
  else if reg >>> 3 = 4 ∨ reg >>> 3 = 5 then r.mathCoproAdd 0x20
  else r

/-- `GavinIoRead` of a byte. -/
def gavinIoRead (r : Registers) (reg : CpuAddr) : Byte := r (reg.setWidth 8)

end Registers

end RetroCpu.C256
