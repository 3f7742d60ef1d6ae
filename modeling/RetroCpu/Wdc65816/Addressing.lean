import RetroCpu.Wdc65816.Op
import RetroCpu.Wdc65816.Access

/-!
# Addressing modes

`AddrMode.read`, `AddrMode.write` and `AddrMode.modify` are the three static
functions of an addressing template.  The templates come in four groups: the
accumulator, the immediate, those derived from `Addr24bitOp`, whose accesses use
the whole address, and those derived from `Addr16bitZeroOp`, whose accesses stay
in bank 0.  `AddrImm` has no `Write` and no `Modify`, and no opcode asks for them.
-/

namespace RetroCpu

open WordBytes Machine StateFn

/-- `regs.reglist[offset_reg].u16`, nothing for `REG_MAX`. -/
def Core.offset (c : Core) : Option Reg → BitVec 32
  | none => 0
  | some r => (c.reg r).setWidth 32

variable {β : Type} [Bus β]

namespace AddrKind

/-- `AddrAbsBase::CalcEffectiveAddress`. -/
def calcAbs (offsetReg : Option Reg) (checkExtraCycle : Bool) : Exec β CpuAddr := do
  let addr ← readPBR .u16 ((← getCore (·.ip)) + 1)
  let effAddr : CpuAddr := addr.toU32 + (← getCore (·.offset offsetReg))
  when (checkExtraCycle && (effAddr ^^^ addr.toU32) &&& 0xFF00 != 0) internalOp
  return effAddr + (← getCore (·.dataSegmentBase))

/-- `AddrAbsLong::CalcEffectiveAddress`. -/
def calcAbsLong : Exec β CpuAddr := do
  let addr ← readPBR .u16 ((← getCore (·.ip)) + 1)
  let bank ← readPBR .u8 ((← getCore (·.ip)) + 3)
  return addr.toU32 ||| bank.toU32 <<< 16

/-- `AddrAbsLongX::CalcEffectiveAddress`. -/
def calcAbsLongX : Exec β CpuAddr := do
  let addr ← readPBR .u16 ((← getCore (·.ip)) + 1)
  let bank ← readPBR .u8 ((← getCore (·.ip)) + 3)
  return addr.toU32 + bank.toU32 <<< 16 + (← getCore (·.x)).setWidth 32

/-- `AddrDirectBase::CalcEffectiveAddress`.  Bit 31 marks an address whose 16-bit read
wraps in its page. -/
def calcDirect (offsetReg : Option Reg) (emulation : Bool) : Exec β CpuAddr := do
  when offsetReg.isSome internalOp
  let addr ← readPBR .u8 ((← getCore (·.ip)) + 1)
  let d ← getCore (·.d)
  let direct : CpuAddr := d.setWidth 32
  let sum : CpuAddr := (← getCore (·.offset offsetReg)) + addr.toU32
  when (lo d != 0) internalOp
  if emulation && lo d == 0 then
    return if offsetReg.isSome then 0x80000000 ||| direct ||| (sum &&& 0xFF)
      else 0x80000000 ||| (direct + addr.toU32)
  else
    when (offsetReg.isSome && 0xFF < sum) internalOp
    return direct + sum

/-- `Addr16bitZeroOp::Read` at an effective address. -/
def readZeroOp (emulation : Bool) (s : Size) (addr : CpuAddr) : Exec β (Val s) :=
  match s with
  | .u8 => readZero .u8 addr
  | .u16 =>
    if emulation && addr &&& 0x80000000 != 0 then do
      let lo ← readZero .u8 addr
      let hi ← readZero .u8 ((addr &&& 0xFFFF00) ||| ((addr + 1) &&& 0xFF))
      return hi ++ lo
    else readZero .u16 addr

/-- `AddrDirectIndirect::CalcEffectiveAddress`. -/
def calcDirectIndirect : Exec β CpuAddr := do
  let addr ← readPBR .u8 ((← getCore (·.ip)) + 1)
  let ret ← readZero .u16 ((← getCore (·.d)).setWidth 32 + addr.toU32)
  return (← getCore (·.dataSegmentBase)) + ret.toU32

/-- `AddrDirectIndirectX::CalcEffectiveAddress`. -/
def calcDirectIndirectX (emulation : Bool) : Exec β CpuAddr := do
  let ret ← readZeroOp emulation .u16 (← calcDirect (some .x) emulation)
  return (← getCore (·.dataSegmentBase)) + ret.toU32

/-- `AddrDirectIndirectY::CalcEffectiveAddress`. -/
def calcDirectIndirectY (checkExtraCycle emulation : Bool) : Exec β CpuAddr := do
  let ret ← readZeroOp emulation .u16 (← calcDirect none emulation)
  let sum : CpuAddr := ret.toU32 + (← getCore (·.y)).setWidth 32
  let longXy ← getCore (·.modeLongXy)
  when (checkExtraCycle && !longXy && (sum ^^^ ret.toU32) &&& 0x100 != 0) internalOp
  return (← getCore (·.dataSegmentBase)) + sum

/-- `AddrDirectIndirectLong::CalcEffectiveAddress`. -/
def calcDirectIndirectLong : Exec β CpuAddr := do
  let addr ← readPBR .u8 ((← getCore (·.ip)) + 1)
  let effectiveAddr : Word := (← getCore (·.d)) + addr.toWord
  let zpAddr ← readZero .u16 (effectiveAddr.setWidth 32)
  let zpBank ← readZero .u8 (effectiveAddr.setWidth 32 + 2)
  return zpAddr.toU32 ||| zpBank.toU32 <<< 16

/-- `AddrDirectIndirectLongY::CalcEffectiveAddress`. -/
def calcDirectIndirectLongY : Exec β CpuAddr := do
  return (← calcDirectIndirectLong) + (← getCore (·.y)).setWidth 32

/-- `AddrStack::CalcEffectiveAddress`. -/
def calcStack : Exec β CpuAddr := do
  let addr ← readPBR .u8 ((← getCore (·.ip)) + 1)
  return (← getCore (·.sp)).setWidth 32 + addr.toU32

/-- `AddrStackY::CalcEffectiveAddress`. -/
def calcStackY : Exec β CpuAddr := do
  let addr ← readPBR .u8 ((← getCore (·.ip)) + 1)
  let pointerAddr : Word := (← getCore (·.sp)) + addr.toWord
  let pointer ← readZero .u16 (pointerAddr.setWidth 32)
  return (← getCore (·.dataSegmentBase)) + pointer.toU32 + (← getCore (·.y)).setWidth 32

/-- How a template reaches its operand. -/
inductive Access
  | accumulator
  | immediate
  /-- Derived from `Addr24bitOp`. -/
  | raw
  /-- Derived from `Addr16bitZeroOp`. -/
  | zero (emulation : Bool)

def access : AddrKind → Access
  | a => .accumulator
  | imm _ => .immediate
  | abs | absX _ | absY _ | absLong | absLongX => .raw
  | direct emulation | directX emulation | directY emulation => .zero emulation
  | directIndirect | directIndirectX _ | directIndirectY _ _ => .raw
  | directIndirectLong | directIndirectLongY => .raw
  | stack => .zero false
  | stackY => .raw

/-- `CalcEffectiveAddress`.  `AddrA` has none. -/
def calcEffectiveAddress : AddrKind → Exec β CpuAddr
  | a => return 0
  | imm _ => return (← getCore (·.ip)) + 1
  | abs => calcAbs none false
  | absX check => calcAbs (some .x) check
  | absY check => calcAbs (some .y) check
  | absLong => calcAbsLong
  | absLongX => calcAbsLongX
  | direct emulation => calcDirect none emulation
  | directX emulation => calcDirect (some .x) emulation
  | directY emulation => calcDirect (some .y) emulation
  | directIndirect => calcDirectIndirect
  | directIndirectX emulation => calcDirectIndirectX emulation
  | directIndirectY check emulation => calcDirectIndirectY check emulation
  | directIndirectLong => calcDirectIndirectLong
  | directIndirectLongY => calcDirectIndirectLongY
  | stack => calcStack
  | stackY => calcStackY

end AddrKind

namespace AddrMode

/-- `AddrMode::Read` into a variable of width `s`. -/
def read (m : AddrMode) (s : Size) : Exec β (Val s) := do
  match m.kind.access with
  | .accumulator => getCore (·.get .a s)
  | .immediate => readPBR s (← m.kind.calcEffectiveAddress)
  | .raw => readRaw s (← m.kind.calcEffectiveAddress)
  | .zero emulation => AddrKind.readZeroOp emulation s (← m.kind.calcEffectiveAddress)

/-- `AddrMode::Write`. -/
def write (m : AddrMode) {s : Size} (value : Val s) : Exec β Unit := do
  match m.kind.access with
  | .accumulator => update (·.set .a value)
  | .immediate => return
  | .raw => writeRaw (← m.kind.calcEffectiveAddress) value
  | .zero _ => writeZero (← m.kind.calcEffectiveAddress) value

/-- `AddrMode::Modify`. -/
def modify (m : AddrMode) (fn : Val m.A → Exec β (Val m.A)) : Exec β Unit := do
  match m.kind.access with
  | .accumulator => do
    let v ← fn (← getCore (·.get .a m.A))
    update (·.set .a v)
  | .immediate => return
  | .raw => do
    let addr ← m.kind.calcEffectiveAddress
    let v ← fn (← readRaw m.A addr)
    writeRaw addr v
  | .zero _ => do
    let addr ← m.kind.calcEffectiveAddress
    let v ← fn (← readZero m.A addr)
    writeZero addr v

end AddrMode

end RetroCpu
