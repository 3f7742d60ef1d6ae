import RetroCpu.Lib.StateFn
import RetroCpu.Wdc65816.Core

/-!
# Memory, stack and clock of the CPU

`Machine` joins the CPU's own state with the clock and the bus, and the functions
here are the member functions of `WDC65C816` that move the latter two: the reads
and writes of each bank rule, the stack, the block moves and the internal cycles.

An overload on `uint8_t&` and `uint16_t&` takes the width as a `Size` here and
gives a value of that many bits.
-/

namespace RetroCpu

open WordBytes StateFn

/-- A `WDC65C816` on a bus. -/
structure Machine (β : Type) where
  core : Core
  cycle : BitVec 64
  cycleStop : BitVec 64
  bus : β

abbrev Exec (β α : Type) : Type := StateFn (Machine β) α

/-- A value of the width a template argument names. -/
abbrev Val (s : Size) : Type := BitVec s.bits

namespace Val

/-- Truncate to the width `s`. -/
def ofBits {n : Nat} (s : Size) (v : BitVec n) : Val s := v.setWidth s.bits

def toWord {s : Size} (v : Val s) : Word := v.setWidth 16

def toU32 {s : Size} (v : Val s) : BitVec 32 := v.setWidth 32

end Val

namespace Core

/-- `Reg::get`. -/
def get (c : Core) (r : Reg) : (s : Size) → Val s
  | .u8 => lo (c.reg r)
  | .u16 => c.reg r

/-- `Reg::set`. -/
def set (c : Core) (r : Reg) : {s : Size} → Val s → Core
  | .u8, v => c.setReg r (setLo (c.reg r) v)
  | .u16, v => c.setReg r v

/-- Advance `ip`. -/
def addIp (c : Core) (n : CpuAddr) : Core := { c with ip := c.ip + n }

/-- SP one byte down, within its page in emulation mode. -/
def decSp (c : Core) : Core :=
  { c with sp := if c.modeEmulation then setLo c.sp (lo c.sp - 1) else c.sp - 1 }

/-- SP one byte up, within its page in emulation mode. -/
def incSp (c : Core) : Core :=
  { c with sp := if c.modeEmulation then setLo c.sp (lo c.sp + 1) else c.sp + 1 }

end Core

namespace Machine

variable {β : Type}

def getCore {α : Type} (f : Core → α) : Exec β α := StateFn.get fun m => f m.core

def update (f : Core → Core) : Exec β Unit := modify fun m => { m with core := f m.core }

/-- `cpu_state.cycle += n`. -/
def addCycles (n : BitVec 32) : Exec β Unit :=
  modify fun m => { m with cycle := m.cycle + n.setWidth 64 }

/-- `InternalOp`. -/
def internalOp (n : BitVec 32 := 1) : Exec β Unit := do
  addCycles ((← getCore (·.internalCycleTiming)) * n)

/-- `cpu_state.ip += n`. -/
def addIp (n : CpuAddr) : Exec β Unit := update (·.addIp n)

/-- `SetNZ`. -/
def setNZ {n : Nat} (v : BitVec n) : Exec β Unit := update (·.setNZ v)

variable [Bus β]

/-- `ReadU8`. -/
def readU8 (addr : CpuAddr) : Exec β Byte := fun m =>
  let r := Bus.readByte m.bus m.cycle addr
  (r.data, { m with cycle := m.cycle + r.cycles.setWidth 64, bus := r.bus })

/-- `WriteU8`.  A device may hold the CPU during the write, before its price is added. -/
def writeU8 (addr : CpuAddr) (v : Byte) : Exec β Unit := fun m =>
  let r := Bus.writeByte m.bus m.cycle addr v
  ((), { m with cycle := m.cycle + r.stall.setWidth 64 + r.cycles.setWidth 64, bus := r.bus })

def readLoHi (addrLo addrHi : CpuAddr) : Exec β Word := do
  let low ← readU8 addrLo
  let high ← readU8 addrHi
  return high ++ low

/-- `ReadU16NoCrossBank`. -/
def readU16NoCrossBank (base addr : CpuAddr) : Exec β Word :=
  readLoHi (base ||| (addr &&& 0xFFFF)) (base ||| ((addr + 1) &&& 0xFFFF))

/-- `ReadRaw`. -/
def readRaw (s : Size) (addr : CpuAddr) : Exec β (Val s) :=
  match s with
  | .u8 => readU8 addr
  | .u16 => readLoHi addr (addr + 1)

/-- `WriteRaw`. -/
def writeRaw {s : Size} (addr : CpuAddr) (v : Val s) : Exec β Unit :=
  match s, v with
  | .u8, v => writeU8 addr v
  | .u16, v => do
    writeU8 addr (lo v)
    writeU8 (addr + 1) (hi v)

/-- `ReadPBR`.  A 16-bit read runs on into the next bank. -/
def readPBR (s : Size) (addr : CpuAddr) : Exec β (Val s) := do
  let base ← getCore (·.codeSegmentBase)
  readRaw s (base ||| (addr &&& 0xFFFF))

/-- `ReadZero`. -/
def readZero (s : Size) (addr : CpuAddr) : Exec β (Val s) :=
  match s with
  | .u8 => readU8 (addr &&& 0xFFFF)
  | .u16 => readU16NoCrossBank 0 addr

/-- `WriteZero`. -/
def writeZero {s : Size} (addr : CpuAddr) (v : Val s) : Exec β Unit :=
  match s, v with
  | .u8, v => writeU8 (addr &&& 0xFFFF) v
  | .u16, v => do
    writeU8 (addr &&& 0xFFFF) (lo v)
    writeU8 ((addr + 1) &&& 0xFFFF) (hi v)

/-! ### The stack -/

/-- `Push(uint8_t)`. -/
def pushU8 (v : Byte) : Exec β Unit := do
  let sp ← getCore (·.sp)
  writeZero (s := .u8) (sp.setWidth 32) v
  update (·.decSp)

/-- `Push`.  A word goes high byte first. -/
def push {s : Size} (v : Val s) : Exec β Unit :=
  match s, v with
  | .u8, v => pushU8 v
  | .u16, v => do
    pushU8 (hi v)
    pushU8 (lo v)

/-- `Pop(uint8_t&)`: the address read never wraps on pages. -/
def popU8 : Exec β Byte := do
  let sp ← getCore (·.sp)
  let v ← readZero .u8 (sp.setWidth 32 + 1)
  update (·.incSp)
  return v

/-- `Pop(uint16_t&)`. -/
def popU16 : Exec β Word := do
  let lo ← popU8
  let hi ← popU8
  return hi ++ lo

/-- `Pop`. -/
def pop (s : Size) : Exec β (Val s) :=
  match s with
  | .u8 => popU8
  | .u16 => popU16

/-- `PopOld`: the address read wraps on pages in emulation mode.  The 16-bit one does not. -/
def popOld (s : Size) : Exec β (Val s) :=
  match s with
  | .u8 => do
    update (·.incSp)
    let sp ← getCore (·.sp)
    readZero .u8 (sp.setWidth 32)
  | .u16 => popU16

/-! ### Block moves -/

/-- Move one byte: step X, Y and A, then copy. -/
def blockMoveByte (srcBank destBank : CpuAddr) (increment : Word) : Exec β Unit := do
  let x ← getCore (·.x)
  let y ← getCore (·.y)
  update fun c => { c with x := c.x + increment, y := c.y + increment, a := c.a - 1 }
  let byte ← readU8 (srcBank ||| x.setWidth 32)
  writeU8 (destBank ||| y.setWidth 32) byte

/-- The loop of `FastBlockMove`, for at most `fuel` rounds. -/
def fastBlockMoveLoop (srcBank destBank : CpuAddr) (increment : Word) : Nat → Exec β Unit
  | 0 => return
  | fuel + 1 => do
    let a ← getCore (·.a)
    when (a != 0xFFFF) do
      blockMoveByte srcBank destBank increment
      fastBlockMoveLoop srcBank destBank increment fuel

/-- `FastBlockMove`.  A counts down to 0xFFFF, so the loop makes at most `a + 1` rounds. -/
def fastBlockMove (srcBank destBank : BitVec 32) (increment : Word) : Exec β Unit := do
  let srcBank := srcBank <<< 16
  let destBank := destBank <<< 16
  let a ← getCore (·.a)
  fastBlockMoveLoop srcBank destBank increment (a.toNat + 1)
  update fun c => { c with dataSegmentBase := destBank }

/-- `BlockMove`.  It gives true when the move is finished. -/
def blockMove (srcBank destBank : BitVec 32) (increment : Word) : Exec β Bool := do
  let a ← getCore (·.a)
  if a = 0xFFFF then return true
  else
    let fast ← getCore (·.fastBlockMoves)
    if fast then
      fastBlockMove srcBank destBank increment
      return true
    else
      blockMoveByte (srcBank <<< 16) (destBank <<< 16) increment
      update fun c => { c with dataSegmentBase := destBank <<< 16 }
      return false

end Machine

end RetroCpu
