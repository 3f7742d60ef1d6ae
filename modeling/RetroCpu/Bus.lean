/-!
# What the CPU sees of the system bus

The CPU reaches memory and devices only through `sys->ReadByte`,
`sys->WriteByte` and `io_devices.irq_taken`, and the run loop reads the
interrupt lines that devices set and clear.  `Bus` is that interface.  A device
may look at the clock (`PPU_2C02::CatchUpToCpu` reads `*cpu_cycle`), so an
access is given the cycle it happens at, and a device may hold the CPU while it
handles a write (`Nes::WriteReg` adds the sprite DMA to `cpu_state.cycle`), so
a write returns that time as `stall` besides the cycles the page map charges.

`pending_interrupts` is written by devices only, so it is kept on their side.

`PlainRam R` says that the addresses in `R` are memory and nothing else: a read
gives back what was last written, and no other access changes it.  It holds
under a condition `ok` on the bus, such as a page map that stays in place.
-/

namespace RetroCpu

abbrev Byte := BitVec 8

abbrev Word := BitVec 16

/-- `cpuaddr_t`. -/
abbrev CpuAddr := BitVec 32

/-- What `SystemBus::ReadByte` gives: the byte, the cycles it took and the bus after it. -/
structure ReadResult (β : Type) where
  data : Byte
  cycles : BitVec 32
  bus : β

/-- What `SystemBus::WriteByte` gives: the cycles it took, the time a device held the CPU
meanwhile, and the bus after it. -/
structure WriteResult (β : Type) where
  cycles : BitVec 32
  stall : BitVec 32
  bus : β

/-- The bus operations of the CPU and of its run loop. -/
class Bus (β : Type) where
  readByte : β → BitVec 64 → CpuAddr → ReadResult β
  writeByte : β → BitVec 64 → CpuAddr → Byte → WriteResult β
  irqTaken : β → BitVec 32 → β
  pendingInterrupts : β → BitVec 32

/-- A property of the bus that no access of the CPU ends. -/
structure Bus.Invariant {β : Type} [Bus β] (P : β → Prop) : Prop where
  read : ∀ {b : β}, P b → ∀ t a, P (readByte b t a).bus
  write : ∀ {b : β}, P b → ∀ t a v, P (writeByte b t a v).bus
  irqTaken : ∀ {b : β}, P b → ∀ type, P (irqTaken b type)

/-- The bus keeps `P` and charges at least one cycle for an access where `P` holds. -/
structure Bus.Charges {β : Type} [Bus β] (P : β → Prop) : Prop extends Bus.Invariant P where
  read_pos : ∀ {b : β}, P b → ∀ t a, 1 ≤ (readByte b t a).cycles.toNat
  write_pos : ∀ {b : β}, P b → ∀ t a v, 1 ≤ (writeByte b t a v).cycles.toNat

/-- The addresses in `R` are plain memory on every bus with `ok`. -/
structure PlainRam (β : Type) [Bus β] (R : CpuAddr → Prop) where
  ok : β → Prop
  peek : β → CpuAddr → Byte
  invariant : Bus.Invariant ok
  read_data : ∀ {b : β}, ok b → ∀ t a, R a → (Bus.readByte b t a).data = peek b a
  peek_read : ∀ {b : β}, ok b → ∀ t a' a, R a → peek (Bus.readByte b t a').bus a = peek b a
  peek_write : ∀ {b : β}, ok b → ∀ t a' v a, R a' → R a →
    peek (Bus.writeByte b t a' v).bus a = if a = a' then v else peek b a
  peek_irqTaken : ∀ {b : β}, ok b → ∀ type a, R a → peek (Bus.irqTaken b type) a = peek b a

end RetroCpu
