import RetroCpu.Lib.Outcome
import RetroCpu.Nes.CatchUp
import RetroCpu.Nes.Console

/-!
# The main bus

`NesBus` is what the CPU of a console reaches: the main bus with the callbacks `IoRead` and
`IoWrite` of `nes.cc` written out, the picture processor, and the controllers.  An access that
the program does not survive ends in a `Fault`, and nothing happens after it.

`stall` has 32 bits, while `WriteReg` adds twice to a clock of 64: they agree as long as
`cpu_clock_size * 513` fits.
-/

namespace RetroCpu.Nes

/-- `NesInputData::Device`. -/
structure Device where
  serialBits : Fin 5 → BitVec 32

/-- `Shift`. -/
def Device.shift (d : Device) : Byte × Device :=
  ((List.finRange 5).foldl
      (fun ret i => ret ||| ((d.serialBits i &&& 1) <<< i.val).setWidth 8) 0,
    ⟨fun i => d.serialBits i >>> 1⟩)

/-- `NesInputData`. -/
structure InputData where
  devices : Fin 2 → Device

/-- The members of `Nes` for the controllers. -/
structure Controllers where
  latch : Bool
  latchedInputData : InputData
  updateControllers : Option (InputData → InputData)

/-- How an access ends the program. -/
inductive Fault
  /-- A page's `ptr` is used, and it is null. -/
  | nullPage
  /-- `CatchUpToCpu` does not return. -/
  | hang
  /-- `cycle / cpu_clock_size` with a `cpu_clock_size` of zero. -/
  | divideByZero
  deriving DecidableEq

/-- `Nes`, without the CPU. -/
structure NesBus where
  main : SystemBus Unit
  ppu : Ppu
  cpuClockSize : BitVec 32
  controllers : Controllers
  pendingInterrupts : BitVec 32
  fault : Option Fault

namespace NesBus

/-- The bus after a change of the pages of `main_bus` or of host memory. -/
def setMain (b : NesBus) (main : SystemBus Unit) : NesBus :=
  { b with main, ppu := { b.ppu with bus := { b.ppu.bus with host := main.host } } }

/-- The bus after a change of the picture processor.  Each call of `assert_nmi` sets the second
interrupt source. -/
def setPpu (b : NesBus) (ppu : Ppu) : NesBus :=
  { b with
    ppu, main := { b.main with host := ppu.bus.host }
    pendingInterrupts :=
      if ppu.nmis = b.ppu.nmis then b.pendingInterrupts else b.pendingInterrupts ||| 1 <<< 2 }

def setOpenBus (b : NesBus) (openBus : Byte) : NesBus :=
  { b with main := { b.main with openBus } }

/-- A loop of `CatchUpToCpu` that has not ended after this many rounds has been everywhere it
gets, and does not end. -/
def catchUpFuel : Nat := 2 ^ 64 + 1

/-- `CatchUpToCpu`. -/
def catchUp (cycle : BitVec 64) (b : NesBus) : Except Fault NesBus :=
  match b.ppu.catchUpToCpu cycle catchUpFuel with
  | none => .error .hang
  | some ppu => .ok (b.setPpu ppu)

/-! ### The registers of the CPU -/

/-- `ReadControllerData`. -/
def readControllerData (b : NesBus) (controller : Fin 2) (v : Byte) : Byte × NesBus :=
  let input := b.controllers.latchedInputData
  let (out, device) := (input.devices controller).shift
  ((v &&& 0xE0) ||| out,
    { b with controllers := { b.controllers with
        latchedInputData := ⟨Function.update input.devices controller device⟩ } })

/-- `LatchControllerData`. -/
def latchControllerData (b : NesBus) : NesBus :=
  match b.controllers.updateControllers with
  | none => b
  | some update =>
    { b with controllers := { b.controllers with
        latchedInputData := update b.controllers.latchedInputData } }

/-- `ReadReg`. -/
def readReg (b : NesBus) (reg : BitVec 32) (v : Byte) : Byte × NesBus :=
  if reg = 0x16 then b.readControllerData 0 v
  else if reg = 0x17 then b.readControllerData 1 v
  else (v, b)

/-- `WriteReg` for register `0x16`. -/
def writeController (b : NesBus) (v : Byte) : NesBus :=
  if v &&& 1 ≠ 0 then { b with controllers := { b.controllers with latch := true } }
  else if b.controllers.latch then
    latchControllerData { b with controllers := { b.controllers with latch := false } }
  else b

/-! ### Reads -/

/-- `IoRead`. -/
def ioRead (cycle : BitVec 64) (addr : CpuAddr) (data : Byte) (b : NesBus) :
    Except Fault (Byte × NesBus) :=
  if addr ≤ 0x401F then
    if addr < 0x4000 then do
      let b ← b.catchUp cycle
      let (v, ppu) := b.ppu.readReg (addr &&& 7)
      return (v, b.setPpu ppu)
    else return b.readReg (addr &&& 0x1F) data
  else
    -- `Mapper::IoRead` returns false
    match b.main.readByteNoIo addr with
    | none => .error .nullPage
    | some (v, _) => return (v, b)

/-- `ReadByte`, but for the price. -/
def read (cycle : BitVec 64) (addr : CpuAddr) (b : NesBus) : Except Fault (Byte × NesBus) :=
  let masked := addr &&& b.main.memMask
  if (b.main.memory.page masked).isIo masked then do
    let openBus := if b.main.openBusIsData then b.main.openBus else addr.setWidth 8
    let (v, b) ← b.ioRead cycle masked openBus
    return (v, b.setOpenBus v)
  else
    let r := b.main.readByte cycle addr
    return (r.data, b.setMain r.bus)

/-! ### Writes -/

/-- The `i`th round of the loop in `OamDma`. -/
def dmaStep (cycle : BitVec 64) (base : Word) (b : NesBus) (i : Nat) : Except Fault NesBus := do
  let (v, b) ← b.read cycle (base.setWidth 32 + BitVec.ofNat 32 i)
  return { b with ppu := { b.ppu with oam := Function.update b.ppu.oam (BitVec.ofNat 8 i) v } }

/-- `OamDma`.  Nothing reads the time that it adds up. -/
def oamDma (cycle : BitVec 64) (base : Word) (b : NesBus) : Except Fault NesBus := do
  let b ← b.catchUp cycle
  (List.range 256).foldlM (dmaStep cycle base) b

/-- The cycle that `WriteReg` waits on an odd cycle. -/
def dmaWait (cycle : BitVec 64) (b : NesBus) : BitVec 32 :=
  if cycle / b.cpuClockSize.setWidth 64 &&& 1 = 0 then b.cpuClockSize else 0

/-- `WriteReg`: the time it adds to the clock, and the bus after it. -/
def writeReg (cycle : BitVec 64) (reg : BitVec 32) (v : Byte) (b : NesBus) :
    Except Fault (BitVec 32 × NesBus) :=
  if reg = 0x14 then
    if b.cpuClockSize = 0 then .error .divideByZero
    else do
      let wait := b.dmaWait cycle
      let dma ← b.oamDma (cycle + wait.setWidth 64) (v.setWidth 16 <<< 8)
      return (wait + b.cpuClockSize * 512, dma)
  else if reg = 0x16 then return (0, b.writeController v)
  else return (0, b)

/-- `WritePPU` after `CatchUpToCpu`. -/
def writePpuReg (b : NesBus) (addr : BitVec 32) (v : Byte) : NesBus :=
  b.setPpu (b.ppu.writeReg addr v)

/-- `IoWrite`. -/
def ioWrite (cycle : BitVec 64) (addr : CpuAddr) (v : Byte) (b : NesBus) :
    Except Fault (BitVec 32 × NesBus) :=
  if addr ≤ 0x401F then
    if addr < 0x4000 then do
      let b ← b.catchUp cycle
      return (0, b.writePpuReg (addr &&& 7) v)
    else b.writeReg cycle (addr &&& 0x1F) v
  else
    -- `Mapper::IoWrite` returns false
    match b.main.writeByteNoIo addr v with
    | none => .error .nullPage
    | some (_, main) => return (0, b.setMain main)

/-- `WriteByte`, but for the price. -/
def write (cycle : BitVec 64) (addr : CpuAddr) (v : Byte) (b : NesBus) :
    Except Fault (BitVec 32 × NesBus) :=
  let masked := addr &&& b.main.memMask
  if (b.main.memory.page masked).isIo masked then do
    let openBus := if b.main.openBusIsData then v else masked.setWidth 8
    let (stall, b) ← b.ioWrite cycle masked v
    return (stall, b.setOpenBus openBus)
  else return (0, b.setMain (b.main.writeByte cycle addr v).bus)

/-! ### The interface of the CPU -/

/-- `cycles_per_access` at an address. -/
def price (b : NesBus) (addr : CpuAddr) : BitVec 32 :=
  (b.main.memory.page (addr &&& b.main.memMask)).cyclesPerAccess

/-- What an access leaves.  After a fault nothing happens. -/
def ended {α : Type} (b : NesBus) (r : Except Fault (α × NesBus)) : NesBus :=
  if b.fault.isSome then b
  else
    match r with
    | .error f => { b with fault := some f }
    | .ok (_, b) => b

instance : Bus NesBus where
  readByte b cycle addr :=
    let r := b.read cycle addr
    ⟨match r with
      | .error _ => 0
      | .ok (v, _) => v, b.price addr, b.ended r⟩
  writeByte b cycle addr v :=
    let r := b.write cycle addr v
    ⟨b.price addr,
      match r with
      | .error _ => 0
      | .ok (stall, _) => stall, b.ended r⟩
  irqTaken b type :=
    { b with pendingInterrupts := b.pendingInterrupts &&& ~~~((1 : BitVec 32) <<< type.toNat) }
  pendingInterrupts b := b.pendingInterrupts

theorem readByte_of_ok {b b' : NesBus} {cycle : BitVec 64} {addr : CpuAddr} {v : Byte}
    (h : b.read cycle addr = .ok (v, b')) :
    Bus.readByte b cycle addr = ⟨v, b.price addr, b.ended (.ok (v, b'))⟩ := by
  simp only [Bus.readByte, h]

/-! ### What an access leaves alone -/

/-- The members that no access writes. -/
structure Frame (b b' : NesBus) : Prop where
  memory : b'.main.memory = b.main.memory
  memMask : b'.main.memMask = b.main.memMask
  cpuClockSize : b'.cpuClockSize = b.cpuClockSize
  ppuClockSize : b'.ppu.ppuClockSize = b.ppu.ppuClockSize
  fault : b'.fault = b.fault

theorem Frame.refl (b : NesBus) : Frame b b := ⟨rfl, rfl, rfl, rfl, rfl⟩

theorem Frame.trans {b b' b'' : NesBus} (h : Frame b b') (h' : Frame b' b'') : Frame b b'' :=
  ⟨h'.memory.trans h.memory, h'.memMask.trans h.memMask, h'.cpuClockSize.trans h.cpuClockSize,
    h'.ppuClockSize.trans h.ppuClockSize, h'.fault.trans h.fault⟩

variable {b : NesBus}

theorem frame_setMain {main : SystemBus Unit} (h : SystemBus.Frame b.main main) :
    Frame b (b.setMain main) := ⟨h.memory, h.memMask, rfl, rfl, rfl⟩

theorem frame_setPpu {ppu : Ppu} (h : ppu.ppuClockSize = b.ppu.ppuClockSize) :
    Frame b (b.setPpu ppu) := ⟨rfl, rfl, rfl, h, rfl⟩

theorem ppuClockSize_readReg (p : Ppu) (offset : BitVec 32) :
    (p.readReg offset).2.ppuClockSize = p.ppuClockSize := by
  unfold Ppu.readReg
  dsimp only
  split
  · rfl
  split
  · rfl
  split
  · unfold Ppu.readData
    dsimp only
    split
    · exact congrArg Settings.ppuClockSize (Ppu.settings_read _ _)
    · rfl
  · rfl

theorem ppuClockSize_writeReg (p : Ppu) (addr : BitVec 32) (v : Byte) :
    (p.writeReg addr v).ppuClockSize = p.ppuClockSize := by
  unfold Ppu.writeReg
  dsimp only
  split
  · rfl
  split
  · rfl
  split
  · split <;> rfl
  split
  · split <;> rfl
  split
  · unfold Ppu.writeScroll
    split <;> rfl
  split
  · unfold Ppu.writeAddr
    split <;> rfl
  split
  · unfold Ppu.writeData Ppu.write
    dsimp only
    split <;> rfl
  · rfl

theorem outcome_catchUp (cycle : BitVec 64) (b : NesBus) :
    Outcome (Frame b) (· = Fault.hang) (b.catchUp cycle) := by
  unfold catchUp
  cases h : b.ppu.catchUpToCpu cycle catchUpFuel with
  | none => rfl
  | some p => exact frame_setPpu (Ppu.CatchesUp.bounds ⟨_, h⟩).1

theorem frame_readReg (b : NesBus) (reg : BitVec 32) (v : Byte) : Frame b (b.readReg reg v).2 := by
  unfold readReg
  split
  · exact ⟨rfl, rfl, rfl, rfl, rfl⟩
  split <;> exact ⟨rfl, rfl, rfl, rfl, rfl⟩

theorem frame_writeController (b : NesBus) (v : Byte) : Frame b (b.writeController v) := by
  unfold writeController
  split
  · exact ⟨rfl, rfl, rfl, rfl, rfl⟩
  split
  · unfold latchControllerData
    split <;> exact ⟨rfl, rfl, rfl, rfl, rfl⟩
  · exact .refl b

theorem frame_writePpuReg (b : NesBus) (addr : BitVec 32) (v : Byte) :
    Frame b (b.writePpuReg addr v) :=
  frame_setPpu (ppuClockSize_writeReg b.ppu addr v)

end NesBus

end RetroCpu.Nes
