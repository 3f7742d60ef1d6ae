import RetroCpu.C256.Gavin

/-!
# The bus of the C256

The constructor `C256::C256` and the I/O callbacks.  The five blocks of memory that the
constructor allocates do not overlap on the host.
-/

namespace RetroCpu.C256

/-- The first host addresses of the blocks that the constructor allocates. -/
structure Blocks (ramSize : BitVec 32) where
  ram : Nat
  vram : Nat
  sysflash : Nat
  userflash : Nat
  io : Nat
  disjoint : [(ram, ramSize.toNat), (vram, 0x400000), (sysflash, 0x80000), (userflash, 0x80000),
    (io, 0x10000)].Pairwise fun b c => b.1 + b.2 ≤ c.1 ∨ c.1 + c.2 ≤ b.1

/-- The members of `C256` that the callbacks use. -/
structure Devices where
  gavinLowRegs : Registers
  ram : Nat
  io : Nat

/-- `IsIoDeviceAddress`. -/
def isIoDeviceAddress (addr : CpuAddr) : Bool :=
  addr &&& 0xFF0000 == 0xAF0000 || (0x100 ≤ addr && addr < 0x1A0)

/-- `AfIoRead`. -/
def afIoRead (_reg : CpuAddr) : Byte := 0

/-- `AfIoWrite`. -/
def afIoWrite (d : Devices) (host : HostMemory) (reg : CpuAddr) (data : Byte) : HostMemory :=
  Function.update host (d.io + reg.toNat) data

/-- `IoRead`. -/
def ioRead (d : Devices) (host : HostMemory) (addr : CpuAddr) : Byte :=
  if addr &&& 0xFF0000 = 0xAF0000 then afIoRead (addr &&& 0xFFFF)
  else if 0x100 ≤ addr ∧ addr < 0x1A0 then d.gavinLowRegs.gavinIoRead (addr - 0x100)
  else
    -- a memory access that got trapped
    host (d.ram + addr.toNat)

/-- `IoWrite`. -/
def ioWrite (d : Devices) (host : HostMemory) (addr : CpuAddr) (data : Byte) :
    Devices × HostMemory :=
  if addr &&& 0xFF0000 = 0xAF0000 then (d, afIoWrite d host (addr &&& 0xFFFF) data)
  else if 0x100 ≤ addr ∧ addr < 0x1A0 then
    ({ d with gavinLowRegs := d.gavinLowRegs.gavinIoWrite (addr - 0x100) data }, host)
  else (d, Function.update host (d.ram + addr.toNat) data)

/-- `sys.io_devices`. -/
def ioDevices : IODevices Devices where
  isIoDeviceAddress _ addr := isIoDeviceAddress addr
  read d _ host _ addr _ := (ioRead d host addr, d, host)
  write d _ host _ addr data :=
    let (d, host) := ioWrite d host addr data
    (0, d, host)
  irqTaken d _ := d
  pendingInterrupts _ := 0

/-- `pages[i * kPagesPer64k + j]` before the calls of `Map`. -/
def page (i j : Nat) : Page where
  ptr := none
  flags := if 0xF0 ≤ i then Page.kReadOnly else 0
  ioMask := if i = 0 ∧ j = 0 then 0xFF00 else 0
  ioEq := if i = 0 ∧ j = 0 then 0x100 else if i = 0xAF then 0 else 1
  cyclesPerAccess := 1

/-- The loop over the pages, of which a bank has 16. -/
def pages (n : Nat) : Page := page (n / 16) (n % 16)

/-- The calls of `Map`. -/
def mapAll {ramSize : BitVec 32} (blocks : Blocks ramSize) (s : SystemBus Devices) :
    SystemBus Devices :=
  let s := s.map 0 blocks.ram ramSize
  let s := s.map 0xB00000 blocks.vram 0x400000
  let s := s.map 0xF00000 blocks.sysflash 0x80000
  let s := s.map 0xF80000 blocks.userflash 0x80000
  s.map 0xAF0000 blocks.io 0x10000

/-- `C256::C256`, on a bus with anything in its members. -/
def construct {ramSize : BitVec 32} (blocks : Blocks ramSize) (gavinLowRegs : Registers)
    (s : SystemBus Devices) : SystemBus Devices :=
  let s := { s with memory := { s.memory with pages := pages, pageSize := 0x1000 } }
  let s := mapAll blocks s
  let s := { s with ioDevices := ioDevices, context := ⟨gavinLowRegs, blocks.ram, blocks.io⟩ }
  s.init 12 24 s.memory.pages

end RetroCpu.C256
