import RetroCpu.Nes.Mapper
import RetroCpu.Nes.Ppu
import RetroCpu.Wdc65816.Cpu

/-!
# The console

`Nes` of `nes.cc`: the CPU on its bus, the PPU on its own, and `LoadRom`, which puts the
two page tables together from the calls of `Map`.

Both buses point into one host memory.  Each bus of the model has a copy, so an access
through one of them is carried over to the other.  The I/O callbacks of the main bus are
a parameter.
-/

namespace RetroCpu.Nes

/-- Where the blocks of memory that a console maps lie on the host. -/
structure HostLayout where
  sysram : Nat
  vram : Nat
  image : Nat
  trainer : Nat

/-- The host address behind a pointer that `Map` is given. -/
def HostLayout.pointer (layout : HostLayout) : MapSource → Nat
  | .sysram => layout.sysram
  | .vram offset => layout.vram + offset
  | .region (.image offset) => layout.image + offset
  | .region .trainer => layout.trainer
  | .region .null => 0

/-- `memset(ptr, 0, size)`. -/
def clear (ptr size : Nat) (host : HostMemory) : HostMemory := fun i =>
  if ptr ≤ i ∧ i < ptr + size then 0 else host i

/-- The class `Nes`, as far as its memory goes. -/
structure Console (γ : Type) where
  cpu : Machine (SystemBus γ)
  ppu : Ppu
  system : BitVec 32
  masterClocksPerFrame : BitVec 32
  cpuClockSize : BitVec 32
  currentRom : Option RomInes

namespace Console

variable {γ : Type}

def setCpu (n : Console γ) (cpu : Machine (SystemBus γ)) : Console γ :=
  { n with cpu, ppu := { n.ppu with bus := { n.ppu.bus with host := cpu.bus.host } } }

def setPpu (n : Console γ) (ppu : Ppu) : Console γ :=
  { n with ppu, cpu := { n.cpu with bus := { n.cpu.bus with host := ppu.bus.host } } }

def setHost (n : Console γ) (f : HostMemory → HostMemory) : Console γ :=
  n.setCpu { n.cpu with bus := { n.cpu.bus with host := f n.cpu.bus.host } }

/-! ### `LoadRom` -/

/-- The clocks of an NTSC console. -/
def setNtsc (n : Console γ) : Console γ :=
  { n with
    masterClocksPerFrame := 357366, cpuClockSize := 12
    ppu := { n.ppu with ppuClockSize := 4, nominalPpuFrameTime := 89341 * 4 } }

/-- `main_pages` before the calls of `Map`. -/
def mainPages (cpuClockSize : BitVec 32) (i : Nat) : Page where
  ptr := none
  flags := 0
  ioMask := 0
  ioEq := if i < 8 ∨ 17 ≤ i then 1 else 0
  cyclesPerAccess := cpuClockSize

/-- `ppu_pages` before the calls of `Map`. -/
def ppuPages (_ : Nat) : Page where
  ptr := none
  flags := 0
  ioMask := 0
  ioEq := 1
  cyclesPerAccess := 0

def perform (layout : HostLayout) (n : Console γ) (c : BusCall) : Console γ :=
  match c.bus with
  | .main =>
    n.setCpu { n.cpu with
      bus := n.cpu.bus.map c.call.addr (layout.pointer c.call.ptr) c.call.len c.call.readonly }
  | .ppu =>
    n.setPpu { n.ppu with
      bus := n.ppu.bus.map c.call.addr (layout.pointer c.call.ptr) c.call.len c.call.readonly }

/-- The calls of `Map` for `sysram`. -/
def sysramCalls : List BusCall :=
  [⟨.main, 0, .sysram, 0x800, false⟩, ⟨.main, 0x800, .sysram, 0x800, false⟩,
    ⟨.main, 0x1000, .sysram, 0x800, false⟩, ⟨.main, 0x1800, .sysram, 0x800, false⟩]

/-- `LoadRom` between the clocks and the calls of `Map`. -/
def initBuses (layout : HostLayout) (devices : IODevices γ) (context : γ) (n : Console γ) :
    Console γ :=
  let core :=
    { n.cpu.core with
      modeNative6502 := true, supportsDecimal := false, internalCycleTiming := n.cpuClockSize }
  let mainBus := n.cpu.bus.init 10 16 (mainPages n.cpuClockSize)
  let mainBus := { mainBus with ioDevices := devices, context }
  let ppu := { n.ppu with bus := n.ppu.bus.init 10 14 ppuPages }
  let ppu := ppu.initializePpu (n.system = 0)
  let n := { n with cpu := { n.cpu with core, bus := mainBus }, ppu }
  n.setHost (clear layout.sysram 0x800)

/-- `LoadRom`, or `none` when the loops of the mapper do not end within `fuel` rounds. -/
def loadRom (layout : HostLayout) (devices : IODevices γ) (context : γ) (rom : RomInes)
    (fuel : Nat) (n : Console γ) : Option (Bool × Console γ) :=
  match rom.getConfig "DISPLAY" with
  | none => some (false, n)
  | some system =>
    let n := { n with system }
    match rom.getConfig "MAPPER" with
    | none => some (false, n)
    | some mapperNum =>
      if system = 1 then some (false, n)
      else
        let n := if system = 0 then n.setNtsc else n
        let n := n.initBuses layout devices context
        let n := sysramCalls.foldl (perform layout) n
        -- `CreateMapper` knows no other mapper
        if mapperNum >>> 8 ≠ 0 then some (false, n)
        else
          match Mapper0.setup rom fuel with
          | none => none
          | some (false, _) => some (false, n)
          | some (true, calls) =>
            let n := n.setHost (clear layout.vram 0x1000)
            let n := calls.foldl (perform layout) n
            let n := n.setCpu (Machine.powerOn n.cpu).2
            some (true, { n with currentRom := some rom })

/-! ### Accesses -/

/-- `main_bus.ReadByte`. -/
def readMain (n : Console γ) (addr : CpuAddr) : Byte := (n.cpu.bus.readByte n.cpu.cycle addr).data

/-- `ppu.Read`. -/
def readPpu (n : Console γ) (addr : CpuAddr) : Byte := (n.ppu.read addr).1

inductive Write
  /-- `main_bus.WriteByte`. -/
  | main (addr : CpuAddr) (v : Byte)
  /-- `ppu.Write`. -/
  | ppu (addr : CpuAddr) (v : Byte)

def write (n : Console γ) : Write → Console γ
  | .main addr v =>
    n.setCpu { n.cpu with bus := (n.cpu.bus.writeByte n.cpu.cycle addr v).bus }
  | .ppu addr v => n.setPpu (n.ppu.write addr v)

end Console

end RetroCpu.Nes
