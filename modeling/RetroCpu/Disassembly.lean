import RetroCpu.C256.Decoding
import RetroCpu.C256.ReadLines
import RetroCpu.Nes.ReadLines

/-!
# Looking at a machine

The disassembler reads through the bus like the program it shows, at four addresses or more
for each instruction.  `disassembly_unobserved` says which of its calls the machine does not
notice, on the console and on the C256; `not_unobserved_pressed` is one that takes a button
from a controller.
-/

namespace RetroCpu

open Machine Nes

/-- **A run with calls of the disassembler that are quiet where they are made ends as the run
without them**, on a console with a ROM and on a C256. -/
theorem disassembly_unobserved {layout : HostLayout} {devices : IODevices Unit} {rom : RomInes}
    {fuel : Nat} {n loaded : Console Unit} {image : List Byte}
    (hparse : RomInes.parse image = some rom)
    (hload : Console.loadRom layout devices () rom fuel n = some (true, loaded))
    (controllers : Controllers) (pendingInterrupts : BitVec 32) {ramSize : BitVec 32}
    (blocks : C256.Blocks ramSize) (gavinLowRegs : C256.Registers)
    (bus : SystemBus C256.Devices) (storage : Core) :
    NesBus.readLines.Unobserved NesBus.Happens (loaded.boot controllers pendingInterrupts) ∧
      C256.readLines.Unobserved C256.Happens
        (construct storage (C256.construct blocks gavinLowRegs bus)) :=
  ⟨NesBus.readLines.unobserved (fun _ _ _ => NesBus.ok_step)
      (ok_boot hparse hload controllers pendingInterrupts),
    C256.readLines.unobserved (fun _ _ _ => C256.ok_step) rfl⟩

/-! ### Quiet calls -/

/-- `BRK` in any mode. -/
theorem at_zero (mode : Mode) : (execOps mode).at 0 = some .brk := by
  cases mode <;> rfl

theorem mem_peekAddrs_brk {a : CpuAddr} : a ∈ Op.peekAddrs .brk 0 → a < 4 := by
  have hpeek : Op.peekAddrs .brk 0 = [0, 1, 2, 3] := by decide
  rw [hpeek]
  revert a
  simp only [List.mem_cons, List.not_mem_nil, or_false, forall_eq_or_imp, forall_eq]
  decide

section Zeros

variable {rom : RomInes} {loaded : Console Unit}

theorem masked_low (hlaid : Laid .apart rom loaded) (controllers : Controllers) {a : CpuAddr}
    (ha : a < 4) : a &&& (loaded.boot controllers 0).bus.main.memMask = a := by
  have hmask : (loaded.boot controllers 0).bus.main.memMask = 0xFFFF := hlaid.mainMask
  rw [hmask]
  exact and_eq_self (n := 16) rfl (by bv_omega)

/-- The first bytes of RAM are no registers. -/
theorem harmless_low (hlaid : Laid .apart rom loaded) (controllers : Controllers) (t : BitVec 64)
    {a : CpuAddr} (ha : a < 4) : NesBus.Harmless (loaded.boot controllers 0).bus t a := by
  have hmasked := masked_low hlaid controllers ha
  refine ⟨rfl, ?_, fun hlo => ?_, fun h => ?_, fun h => ?_⟩
  · rw [hmasked]
    unfold Hole
    bv_omega
  · rw [hmasked] at hlo
    bv_omega
  · rw [hmasked] at h
    bv_omega
  · rw [hmasked] at h
    bv_omega

/-- They are zeros. -/
theorem drive_low (hrom : NromSizes rom)
    (hload : Console.loadRom .apart (SystemBus.simple 16 fun _ => 0).ioDevices () rom 3
      (Console.zeroed fun _ => 0) = some (true, loaded)) (controllers : Controllers)
    {a : CpuAddr} (ha : a < 4) (t : BitVec 64) (ℓ : Lines) :
    (loaded.boot controllers 0).bus.drive a ℓ = ⟨ℓ.latch, 0⟩ ∧
      (Bus.readByte ((loaded.boot controllers 0).bus.setLines ℓ) t a).data = 0 := by
  obtain ⟨hlaid, hhost⟩ := laid_loadRom hrom hload
  have hzero : ∀ i, loaded.cpu.bus.host i = 0 := by
    intro i
    rw [hhost]
    unfold clear
    split
    · rfl
    split <;> rfl
  have hbacked := (hlaid.wired hrom).ram a (by bv_omega)
  constructor
  · rw [NesBus.drive_of_backed (b := (loaded.boot controllers 0).bus) hbacked]
    exact congrArg (Lines.mk ℓ.latch) (hzero _)
  · rw [NesBus.data_of_backed (b := (loaded.boot controllers 0).bus.setLines ℓ) hbacked]
    exact hzero _

/-- A loaded console of zeros whose open bus is a zero. -/
theorem quiet_zeros (hrom : NromSizes rom)
    (hload : Console.loadRom .apart (SystemBus.simple 16 fun _ => 0).ioDevices () rom 3
      (Console.zeroed fun _ => 0) = some (true, loaded)) (latch : Byte)
    {m : Machine NesBus} (hm : m.bus = (loaded.boot .idle 0).bus.setLines ⟨latch, 0⟩) :
    NesBus.readLines.Quiet m 0 .brk := by
  have hlaid := (laid_loadRom hrom hload).1
  refine ⟨?_, fun a ha => ?_, ?_⟩
  · have hdata : (Bus.readByte m.bus m.cycle 0).data = 0 := by
      rw [hm]
      exact (drive_low hrom hload .idle (by decide) m.cycle _).2
    rw [disassembleFn, peekU8, hdata]
    exact at_zero _
  · have h := harmless_low hlaid .idle m.cycle (mem_peekAddrs_brk ha)
    rw [hm]
    exact ⟨h.fault, h.hole, h.ppu, h.first, h.second⟩
  · have hlines : NesBus.readLines.lines m.bus = ⟨latch, 0⟩ := by
      rw [hm]
      rfl
    rw [ReadLines.after, hlines]
    refine List.foldlRecOn (motive := fun ℓ : Lines => ℓ = ⟨latch, 0⟩) _ _ rfl ?_
    rintro _ rfl a ha
    rw [hm]
    exact (drive_low hrom hload .idle (mem_peekAddrs_brk ha) 0 ⟨latch, 0⟩).1

end Zeros

/-- A C256 of zeros. -/
theorem quiet_c256 {ramSize : BitVec 32} (blocks : C256.Blocks ramSize)
    (hsize : C256.RamSize ramSize) {m : Machine (SystemBus C256.Devices)}
    (hm : C256.Wired blocks m.bus) (hhost : ∀ i, m.bus.host i = 0) (hopen : m.bus.openBus = 0) :
    C256.readLines.Quiet m 0 .brk := by
  have hram : ∀ a : CpuAddr, a < 4 → C256.Ram ramSize a := by
    intro a ha
    have hlt : a.toNat < 4 := ha
    have hge := hsize.ge
    exact ⟨by omega, by omega⟩
  have hbacked : ∀ a < 4, SystemBus.Backed m.bus.memory m.bus.memMask a (C256.cell blocks a)
      (decide (0xF00000 ≤ a.toNat)) := by
    intro a ha
    have hlt : a.toNat < 4 := ha
    exact hm.backed hsize (by omega) (Or.inl (hram a ha)) (by omega)
  have hdata : (Bus.readByte m.bus m.cycle 0).data = 0 :=
    ((hbacked 0 (by decide)).readByte m.cycle).1.trans (hhost _)
  refine ⟨?_, fun a _ => trivial, ?_⟩
  · rw [disassembleFn, peekU8, hdata]
    exact at_zero _
  · have hlines : C256.readLines.lines m.bus = 0 := hopen
    rw [ReadLines.after, hlines]
    refine List.foldlRecOn (motive := fun openBus : Byte => openBus = 0) _ _ rfl ?_
    rintro _ rfl a ha
    exact (C256.drive_of_backed (hbacked a (mem_peekAddrs_brk ha)) 0).trans (hhost _)

/-- The two bytes of a `BRK` are listed on a console after a read, and on a C256. -/
theorem disassembly_unobserved_brk : ∃ (rom : RomInes) (loaded : Console Unit),
    RomInes.parse (zerosImage false) = some rom ∧
      Console.loadRom .apart (SystemBus.simple 16 fun _ => 0).ioDevices () rom 3
        (Console.zeroed fun _ => 0) = some (true, loaded) ∧
      (let m := loaded.boot .idle 0
       let bus := (Bus.readByte m.bus 0 3).bus
       runList watch [.stimulus (.world bus), .disassemble ⟨1, true, true⟩ 0] m =
         runList Machine.step [.world bus] m) ∧
      (let blocks : C256.Blocks 0x200000 :=
         ⟨0, 0x200000, 0x600000, 0x680000, 0x700000, by decide⟩
       let bus : SystemBus C256.Devices :=
         { ioDevices := C256.ioDevices, context := ⟨fun _ => 0, 0, 0⟩
           memory := C256.memoryMap blocks, host := fun _ => 0, memMask := 0 }
       let m := construct default (C256.construct blocks (fun _ => 0) bus)
       runList watch [.disassembleOneInstruction {} 0, .stimulus .powerOn] m =
         runList Machine.step [.powerOn] m) := by
  obtain ⟨rom, loaded, hparse, -, hrom, hload⟩ := loadRom_zeros false
  have hlaid := (laid_loadRom hrom hload).1
  let blocks : C256.Blocks 0x200000 := ⟨0, 0x200000, 0x600000, 0x680000, 0x700000, by decide⟩
  let bus : SystemBus C256.Devices :=
    { ioDevices := C256.ioDevices, context := ⟨fun _ => 0, 0, 0⟩
      memory := C256.memoryMap blocks, host := fun _ => 0, memMask := 0 }
  obtain ⟨hnes, hc256⟩ := disassembly_unobserved hparse hload .idle 0 blocks (fun _ => 0) bus
    default
  refine ⟨rom, loaded, hparse, hload, hnes _ ⟨.read 0 3, ?_⟩, hc256 _ ⟨⟨.brk, ?_, trivial⟩, ?_⟩⟩
  · rintro m hm
    cases hm
    have hread := NesBus.readLines.read (ok_boot hparse hload .idle 0)
      (harmless_low hlaid .idle 0 (a := 3) (by decide)) (loaded.boot .idle 0).bus.lines
    have hdrive := (drive_low hrom hload .idle (a := 3) (by decide) 0
      (loaded.boot .idle 0).bus.lines).1
    have hdriven := hread.trans (congrArg (loaded.boot .idle 0).bus.setLines hdrive)
    exact ⟨⟨.brk, quiet_zeros hrom hload _ hdriven, trivial⟩, fun _ _ => trivial⟩
  · exact quiet_c256 blocks ⟨by decide, by decide, by decide⟩
      (C256.wired_construct blocks (fun _ => 0) bus) (fun _ => rfl) rfl
  · exact fun _ _ => ⟨trivial, fun _ _ => trivial⟩

/-! ### A call that the machine notices -/

def Nes.Device.pressed : Device := ⟨fun i => if i = 0 then 1 else 0⟩

def Nes.Controllers.pressed : Controllers where
  latch := false
  latchedInputData := ⟨fun i => if i.val = 0 then .pressed else ⟨fun _ => 0⟩⟩
  updateControllers := none

theorem shift_pressed : Device.pressed.shift.1 = 1 ∧ Device.pressed.shift.2.Spent := by
  refine ⟨by decide, ?_⟩
  unfold Device.Spent
  decide

/-- The opcodes whose lower five bits a controller with one button gives. -/
theorem isSome_at_or_one (mode : Mode) :
    ∀ v : Byte, ((execOps mode).at ((v &&& 0xE0) ||| 1)).isSome = true := by
  cases mode <;> decide +kernel

/-- The report is read once. -/
theorem readControllerData_pressed {b : NesBus} (hb : b.controllers = .pressed) (v : Byte) :
    (b.readControllerData 0 v).1 = (v &&& 0xE0) ||| 1 ∧
      ∀ i, ((b.readControllerData 0 v).2.controllers.latchedInputData.devices i).Spent := by
  have hdevice : b.controllers.latchedInputData.devices 0 = .pressed := by
    rw [hb]
    rfl
  constructor
  · show (v &&& 0xE0) ||| (b.controllers.latchedInputData.devices 0).shift.1 = _
    rw [hdevice, shift_pressed.1]
  · intro i
    show (Function.update b.controllers.latchedInputData.devices 0
      (b.controllers.latchedInputData.devices 0).shift.2 i).Spent
    by_cases hi : i = 0
    · rw [hi, Function.update_self, hdevice]
      exact shift_pressed.2
    · rw [Function.update_of_ne hi, hb]
      intro j
      show (if i.val = 0 then Device.pressed else ⟨fun _ => 0⟩).serialBits j = 0
      have hval : i.val ≠ 0 := fun h => hi (Fin.ext h)
      rw [if_neg hval]

/-- What is known of the bus after the register of the first controller has been read. -/
structure Unpressed (b : NesBus) : Prop where
  ok : NesBus.readLines.Ok b
  fault : b.fault = none
  spent : ∀ i, (b.controllers.latchedInputData.devices i).Spent

theorem readByte_pressed {b : NesBus} (hok : NesBus.readLines.Ok b) (hfault : b.fault = none)
    (hpressed : b.controllers = .pressed) (t : BitVec 64) :
    ∃ (v : Byte) (b' : NesBus), Unpressed b' ∧
      Bus.readByte b t 0x4016 = ⟨(v &&& 0xE0) ||| 1, b.price 0x4016, b'⟩ := by
  have hmasked : (0x4016 : CpuAddr) &&& b.main.memMask = 0x4016 := by
    rw [hok.1.memMask]
    decide
  have hio := (hok.1.isIo 0x4016).mpr (by decide)
  let v := if b.main.openBusIsData then b.main.openBus else (0x4016 : CpuAddr).setWidth 8
  let b' := (b.readControllerData 0 v).2.setOpenBus (b.readControllerData 0 v).1
  have hread : b.read t 0x4016 = .ok ((b.readControllerData 0 v).1, b') := by
    simp only [NesBus.read, hmasked, hio, if_true]
    rfl
  obtain ⟨hdata, hspent⟩ := readControllerData_pressed hpressed v
  have hframe : NesBus.Frame b b' := by
    have h := NesBus.outcome_read t hok.1 0x4016
    rw [hread] at h
    exact h
  have hsynced : b'.Synced := by
    have h := NesBus.synced_read hok.2 t 0x4016
    rw [hread] at h
    exact h
  refine ⟨v, b', ⟨⟨hframe.decodes hok.1, hsynced⟩, hframe.fault.trans hfault, hspent⟩, ?_⟩
  rw [← hdata, NesBus.readByte_of_ok hread, NesBus.ended, hfault]
  rfl

/-- The three bytes that follow. -/
theorem Unpressed.harmless {b : NesBus} (h : Unpressed b) (t : BitVec 64) {a : CpuAddr}
    (hlo : 0x4016 ≤ a) (hhi : a ≤ 0x4019) : b.Harmless t a := by
  have hmasked : a &&& b.main.memMask = a := by
    rw [h.ok.1.memMask]
    exact and_eq_self (n := 16) rfl (by bv_omega)
  refine ⟨h.fault, ?_, fun _ hppu => ?_, fun _ => h.spent 0, fun _ => h.spent 1⟩
  · rw [hmasked]
    unfold Hole
    bv_omega
  · rw [hmasked] at hppu
    bv_omega

theorem mem_rest {n : Nat} {start a : CpuAddr}
    (h : a ∈ operandAddrs n start ++ [start + 1, start + 2, start + 3]) :
    a = start + 1 ∨ a = start + 2 ∨ a = start + 3 := by
  have hmem : a ∈ [start + 1, start + 2, start + 3] := by
    rcases List.mem_append.mp h with h | h
    · exact List.mem_of_mem_take h
    · exact h
  simpa using hmem

/-- The button is gone after the reads, whatever instruction they find. -/
theorem serialBits_afterReads {m : Machine NesBus} {data : Byte} {cycles : BitVec 32} {b' : NesBus}
    (hread : Bus.readByte m.bus m.cycle 0x4016 = ⟨data, cycles, b'⟩) (hb' : Unpressed b')
    (op : Op) : ((m.afterReads (op.peekAddrs 0x4016)).bus.controllers.latchedInputData.devices
      0).serialBits 0 = 0 := by
  have hrest := NesBus.controllers_foldl hb'.ok m.cycle
    (operandAddrs op.peeked 0x4016 ++ [0x4016 + 1, 0x4016 + 2, 0x4016 + 3])
    fun a ha => by
      have hrange := mem_rest ha
      exact hb'.harmless m.cycle (by bv_omega) (by bv_omega)
  show (((operandAddrs op.peeked 0x4016 ++ [0x4016 + 1, 0x4016 + 2, 0x4016 + 3]).foldl
    (fun b a => (Bus.readByte b m.cycle a).bus)
    (Bus.readByte m.bus m.cycle 0x4016).bus).controllers.latchedInputData.devices 0).serialBits 0
      = 0
  rw [hread, hrest]
  exact hb'.spent 0 0

/-- Disassembling at the register of a controller takes its button. -/
theorem not_unobserved_pressed : ∃ (rom : RomInes) (loaded : Console Unit),
    RomInes.parse (zerosImage false) = some rom ∧
      Console.loadRom .apart (SystemBus.simple 16 fun _ => 0).ioDevices () rom 3
        (Console.zeroed fun _ => 0) = some (true, loaded) ∧
      let m := loaded.boot .pressed 0
      (∃ r m', m.disassembleOneInstruction {} 0x4016 = some (r, m') ∧
        (m.bus.controllers.latchedInputData.devices 0).serialBits 0 = 1 ∧
        (m'.bus.controllers.latchedInputData.devices 0).serialBits 0 = 0) ∧
      runList watch [.disassembleOneInstruction {} 0x4016] m ≠ runList Machine.step [] m := by
  obtain ⟨rom, loaded, hparse, -, -, hload⟩ := loadRom_zeros false
  refine ⟨rom, loaded, hparse, hload, ?_⟩
  intro m
  have hok := ok_boot hparse hload .pressed 0
  obtain ⟨v, b', hb', hread⟩ := readByte_pressed hok rfl rfl m.cycle
  obtain ⟨op, hop⟩ := Option.isSome_iff_exists.mp (isSome_at_or_one m.core.mode v)
  have hfn : m.disassembleFn 0x4016 = some op := by
    rw [disassembleFn, peekU8, hread]
    exact hop
  obtain ⟨insn, hinsn⟩ := disassembleOneInstruction_eq {} 0x4016 m hfn
  have hlast := serialBits_afterReads hread hb' op
  have hbefore : (m.bus.controllers.latchedInputData.devices 0).serialBits 0 = 1 := rfl
  refine ⟨⟨_, _, hinsn, hbefore, hlast⟩, fun h => ?_⟩
  have hrun : runList watch [.disassembleOneInstruction {} 0x4016] m =
      some (m.afterReads (op.peekAddrs 0x4016)) := by
    rw [runList, watch, hinsn]
    rfl
  have hsame : m.afterReads (op.peekAddrs 0x4016) = m := Option.some_inj.mp (hrun.symm.trans h)
  rw [hsame] at hlast
  rw [hlast] at hbefore
  exact absurd hbefore (by decide)

end RetroCpu
