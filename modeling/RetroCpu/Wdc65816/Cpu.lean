import RetroCpu.Wdc65816.Exec

/-!
# The CPU object

The constructor of `WDC65C816` and the member functions its owners call:
`PowerOn`, `Reset`, `EmulateInstruction`, `Interrupt` and `SetRegister`.

An `Exec` action always ends.  `emulateInstruction` is the one function that may
not: it calls the handler of the opcode it has fetched, and where the table holds
a null pointer there is no next state.
-/

namespace RetroCpu

open WordBytes Machine

namespace Core

/-- The constructor's part of the state.  Members without an initializer keep what the
storage held. -/
def construct (storage : Core) : Core :=
  ({ storage with
    zero := 0, negative := 0, interrupts := 0, carry := 0, otherFlags := 0
    supportsDecimal := true, fastBlockMoves := false
    numEmulatedInstructions := 0, internalCycleTiming := 1
    modeNative6502 := false, modeEmulation := true
    modeLongA := false, modeLongXy := false }).onUpdateMode

/-- `PowerOn`, before it calls `Reset`. -/
def powerOn (c : Core) : Core := { c with a := 0, x := 0, y := 0, d := 0, sp := 0x100, zero := 1 }

/-- `Reset`, before it reads the vector. -/
def resetSp (c : Core) : Core :=
  { c with dataSegmentBase := 0, codeSegmentBase := 0, sp := setLo c.sp (lo c.sp - 3) }

/-- `Reset`, after it has read the vector. -/
def resetMode (c : Core) (ip : Word) : Core :=
  ({ c with
    ip := ip.setWidth 32
    dataSegmentBase := 0, codeSegmentBase := 0
    interrupts := 0
    modeEmulation := true, modeLongA := false, modeLongXy := false }).onUpdateMode

/-- `_stricmp(a, b) == 0`. -/
def stricmp (a b : String) : Bool := a.toLower == b.toLower

/-- `SetRegister`: whether there is such a register, and the state after it. -/
def setRegister (c : Core) (reg : String) (value : BitVec 64) : Bool × Core :=
  if stricmp reg "ip" || stricmp reg "pc" then
    let c := { c with ip := value.setWidth 32 &&& 0xFFFF }
    (true, if 0xFFFF < value then
      { c with codeSegmentBase := (value &&& 0xFF0000).setWidth 32 } else c)
  else if stricmp reg "a" then
    (true, if c.modeLongA then c.set .a (s := .u16) (value.setWidth 16)
      else c.set .a (s := .u8) (value.setWidth 8))
  else if stricmp reg "x" then
    (true, if c.modeLongXy then c.set .x (s := .u16) (value.setWidth 16)
      else c.set .x (s := .u8) (value.setWidth 8))
  else if stricmp reg "y" then
    (true, if c.modeLongXy then c.set .y (s := .u16) (value.setWidth 16)
      else c.set .y (s := .u8) (value.setWidth 8))
  else if !c.modeNative6502 && stricmp reg "c" then
    (true, c.set .a (s := .u16) (value.setWidth 16))
  else if !c.modeNative6502 && stricmp reg "d" then
    (true, c.set .d (s := .u16) (value.setWidth 16))
  else if stricmp reg "sp" then
    (true, { c with sp :=
      if c.modeEmulation then (1 : Byte) ++ (value &&& 0xFF).setWidth 8 else value.setWidth 16 })
  else if stricmp reg "p" then
    (true, c.setStatusRegister (value.setWidth 8))
  else if !c.modeNative6502 && stricmp reg "pb" then
    (true, { c with codeSegmentBase := (value <<< 16).setWidth 32 })
  else if !c.modeNative6502 && stricmp reg "db" then
    (true, { c with dataSegmentBase := (value <<< 16).setWidth 32 })
  else (false, c)

end Core

namespace Machine

variable {β : Type}

/-- The constructor. -/
def construct (storage : Core) (bus : β) : Machine β :=
  ⟨storage.construct, 0, BitVec.allOnes 64, bus⟩

variable [Bus β]

/-- `Reset`. -/
def reset : Exec β Unit := do
  update (·.resetSp)
  let ip ← readLoHi 0xFFFC 0xFFFD
  internalOp 4
  update (·.resetMode ip)

/-- `PowerOn`. -/
def powerOn : Exec β Unit := do
  update (·.powerOn)
  reset

/-- The opcode `EmulateInstruction` reads. -/
def fetch : Exec β Byte := do readU8 (← getCore (·.getCanonicalAddress))

def perform (op : Op) : Exec β Unit := do
  op.exec
  update fun c => { c with numEmulatedInstructions := c.numEmulatedInstructions + 1 }

/-- `current_instruction_set[instruction]`. -/
def handler (m : Machine β) : Option Op := m.core.currentInstructionSet.at (fetch m).1

/-- `EmulateInstruction`. -/
def emulateInstruction (m : Machine β) : Option (Machine β) :=
  m.handler.map fun op => (perform op (fetch m).2).2

/-- `Interrupt`.  `param` is 0 for an ordinary interrupt. -/
def interrupt (param : BitVec 32) : Exec β Unit :=
  if param = 0 then doInterrupt .irq else doInterrupt .nmi

/-- `SetRegister`. -/
def setRegister (m : Machine β) (reg : String) (value : BitVec 64) : Bool × Machine β :=
  let r := m.core.setRegister reg value
  (r.1, { m with core := r.2 })

end Machine

end RetroCpu
