import RetroCpu.C256.Bus
import RetroCpu.Wdc65816.Disassembly

/-!
# What reads leave on the bus of the C256

`IoRead` changes neither the registers of Gavin nor memory, so a read of a C256 leaves nothing
but its byte on the data lines.  `disassembleOneInstruction_iff` says when that is the byte
that was there before.
-/

namespace RetroCpu.C256

def drive (s : SystemBus Devices) (addr : CpuAddr) (openBus : Byte) : Byte :=
  let masked := addr &&& s.memMask
  let p := s.memory.page masked
  if p.isIo masked then ioRead s.context s.host masked
  else
    match p.ptr with
    | some ptr => s.host (ptr + s.memory.offset masked)
    | none => if s.openBusIsData then openBus else addr.setWidth 8

theorem bus_readByte {s : SystemBus Devices} (hs : s.ioDevices = ioDevices) (t : BitVec 64)
    (addr : CpuAddr) (openBus : Byte) :
    (SystemBus.readByte { s with openBus } t addr).bus =
      { s with openBus := drive s addr openBus } := by
  obtain ⟨devices, context, memory, host, memMask, openBusIsData, openBus'⟩ := s
  obtain rfl : devices = ioDevices := hs
  by_cases hio : (memory.page (addr &&& memMask)).isIo (addr &&& memMask)
  · simp only [SystemBus.readByte, drive, hio, if_true]
    rfl
  · have hmemory := Bool.eq_false_iff.mpr hio
    simp only [SystemBus.readByte, drive, hmemory, Bool.false_eq_true, if_false]
    cases (memory.page (addr &&& memMask)).ptr <;> rfl

theorem drive_of_backed {s : SystemBus Devices} {addr : CpuAddr} {n : Nat} {readonly : Bool}
    (h : SystemBus.Backed s.memory s.memMask addr n readonly) (openBus : Byte) :
    drive s addr openBus = s.host n := by
  obtain ⟨base, hptr, rfl⟩ := h.ptr
  simp only [drive, h.io, hptr, Bool.false_eq_true, if_false]

def readLines : ReadLines (SystemBus Devices) Byte where
  Ok s := s.ioDevices = ioDevices
  lines s := s.openBus
  setLines s openBus := { s with openBus }
  drive := drive
  Harmless _ _ _ := True
  setLines_lines _ := rfl
  lines_setLines _ _ := rfl
  read hs _ openBus := bus_readByte hs _ _ openBus

/-- **A call on a C256 leaves it as it was if and only if there is an instruction to show and
the last byte read, where an address drives the lines, is the one that was on them.** -/
theorem disassembleOneInstruction_iff {m : Machine (SystemBus Devices)}
    (hm : m.bus.ioDevices = ioDevices) (config : Disassembler.Config) (start : CpuAddr) :
    (m.disassembleOneInstruction config start).map (·.2) = some m ↔
      ∃ op, readLines.Quiet m start op :=
  readLines.disassembleOneInstruction_iff hm (fun _ => trivial) config start

def Happens (_ : Machine (SystemBus Devices)) : Stimulus (SystemBus Devices) → Prop
  | .world bus => bus.ioDevices = ioDevices
  | _ => True

theorem ok_step {i : Stimulus (SystemBus Devices)} {m m' : Machine (SystemBus Devices)}
    (hm : readLines.Ok m.bus) (hi : Happens m i) (hstep : m.step i = some m') :
    readLines.Ok m'.bus := by
  have hinvariant : Bus.Invariant readLines.Ok :=
    { read := fun hs t a => (SystemBus.frame_readByte _ t a).ioDevices.trans hs
      write := fun hs t a v => (SystemBus.frame_writeByte _ t a v).ioDevices.trans hs
      irqTaken := fun hs _ => hs }
  refine Machine.bus_step hinvariant hm ?_ hstep
  rintro bus rfl
  exact hi

end RetroCpu.C256
