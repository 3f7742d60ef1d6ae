import RetroCpu.Nes.OpenBus
import RetroCpu.Wdc65816.Disassembly

/-!
# What reads leave on the buses of the console

A read of memory leaves its byte on the data lines of the CPU, and a read of the picture
processor its byte in `latch` as well.  Some registers react besides: the status loses its
flag, the data port moves on, and a controller shifts its report.  `Harmless` is a read that
none of them notices, and `readLines` says that the other reads leave nothing but those two
bytes.
-/

namespace RetroCpu.Nes

/-- The bytes that reads leave behind: the latch of the picture processor and `open_bus`. -/
structure Lines where
  latch : Byte
  openBus : Byte

def Ppu.driveLatch (p : Ppu) (reg : BitVec 32) (latch : Byte) : Byte :=
  if reg &&& 7 = 2 then (latch &&& 0x1F) ||| p.status
  else if reg &&& 7 = 4 then p.oam p.oamaddr
  else latch

def Ppu.Quiet (p : Ppu) (reg : BitVec 32) : Prop :=
  reg &&& 7 ≠ 7 ∧ (reg &&& 7 = 2 → p.status &&& 0x7F = p.status ∧ p.addrWrite = false)

theorem Ppu.readReg_of_quiet {p : Ppu} {reg : BitVec 32} (h : p.Quiet reg) (latch : Byte) :
    ({ p with latch } : Ppu).readReg reg =
      (p.driveLatch reg latch, { p with latch := p.driveLatch reg latch }) := by
  obtain ⟨hdata, hstatus⟩ := h
  unfold Ppu.readReg Ppu.driveLatch
  by_cases h2 : reg &&& 7 = 2
  · obtain ⟨hflag, hwrite⟩ := hstatus h2
    simp only [if_pos h2, Ppu.readStatus, hflag, ← hwrite]
  · by_cases h4 : reg &&& 7 = 4
    · simp only [if_neg h2, if_pos h4]
    · simp only [if_neg h2, if_neg h4, if_neg hdata]

def Device.Spent (d : Device) : Prop := ∀ i, d.serialBits i = 0

theorem Device.shift_of_spent {d : Device} (h : d.Spent) : d.shift = (0, d) := by
  obtain ⟨bits⟩ := d
  obtain rfl : bits = fun _ => 0#32 := funext h
  have hout : (List.finRange 5).foldl
      (fun (ret : Byte) i => ret ||| ((0#32 &&& 1) <<< i.val).setWidth 8) 0 = 0 := by decide
  have hbits : 0#32 >>> 1 = 0#32 := by decide
  simp only [shift, hout, hbits]

namespace NesBus

def lines (b : NesBus) : Lines := ⟨b.ppu.latch, b.main.openBus⟩

def setLines (b : NesBus) (ℓ : Lines) : NesBus :=
  { b with main := { b.main with openBus := ℓ.openBus }, ppu := { b.ppu with latch := ℓ.latch } }

def drive (b : NesBus) (addr : CpuAddr) (ℓ : Lines) : Lines :=
  let masked := addr &&& b.main.memMask
  let openBus := if b.main.openBusIsData then ℓ.openBus else addr.setWidth 8
  if (b.main.memory.page masked).isIo masked then
    if masked < 0x4000 then
      ⟨b.ppu.driveLatch masked ℓ.latch, b.ppu.driveLatch masked ℓ.latch⟩
    else if masked = 0x4016 ∨ masked = 0x4017 then ⟨ℓ.latch, openBus &&& 0xE0⟩
    else ⟨ℓ.latch, openBus⟩
  else
    match (b.main.memory.page masked).ptr with
    | some ptr => ⟨ℓ.latch, b.main.host (ptr + b.main.memory.offset masked)⟩
    | none => ⟨ℓ.latch, openBus⟩

structure Harmless (b : NesBus) (cycle : BitVec 64) (addr : CpuAddr) : Prop where
  fault : b.fault = none
  hole : ¬Hole (addr &&& b.main.memMask)
  ppu : 0x2000 ≤ addr &&& b.main.memMask → addr &&& b.main.memMask < 0x4000 →
    b.ppu.CaughtUp cycle ∧ b.ppu.Quiet (addr &&& b.main.memMask)
  first : addr &&& b.main.memMask = 0x4016 → (b.controllers.latchedInputData.devices 0).Spent
  second : addr &&& b.main.memMask = 0x4017 → (b.controllers.latchedInputData.devices 1).Spent

/-- Both page tables point into one host memory. -/
def Synced (b : NesBus) : Prop := b.main.host = b.ppu.bus.host

variable {b : NesBus} {cycle : BitVec 64}

theorem setPpu_latch (hb : b.Synced) (latch : Byte) :
    b.setPpu { b.ppu with latch } = { b with ppu := { b.ppu with latch } } := by
  obtain ⟨main, ppu, cpuClockSize, controllers, pendingInterrupts, fault⟩ := b
  have hhost : main.host = ppu.bus.host := hb
  simp only [setPpu, ← hhost, if_true]

theorem catchUp_of_caughtUp (hb : b.Synced) (h : b.ppu.CaughtUp cycle) :
    b.catchUp cycle = .ok b := by
  have hstays : b.ppu.catchUpToCpu cycle catchUpFuel = some b.ppu := by
    rw [catchUpFuel, Ppu.catchUpToCpu, if_neg h]
  rw [catchUp, hstays]
  exact congrArg Except.ok (setPpu_latch hb b.ppu.latch)

theorem setMain_openBus (hb : b.Synced) (openBus : Byte) :
    b.setMain { b.main with openBus } = b.setOpenBus openBus := by
  obtain ⟨main, ppu, cpuClockSize, controllers, pendingInterrupts, fault⟩ := b
  have hhost : main.host = ppu.bus.host := hb
  simp only [setMain, setOpenBus, hhost]

/-- A spent controller leaves the upper bits of what is on the lines. -/
theorem readControllerData_of_spent {i : Fin 2}
    (h : (b.controllers.latchedInputData.devices i).Spent) (v : Byte) :
    b.readControllerData i v = (v &&& 0xE0, b) := by
  have hor : (v &&& 0xE0) ||| 0 = v &&& 0xE0 := BitVec.or_zero
  simp only [readControllerData, Device.shift_of_spent h, Function.update_eq_self, hor]

/-- The registers of the CPU. -/
theorem readReg_of_harmless {addr : CpuAddr} (hlo : 0x4000 ≤ addr) (hhi : addr ≤ 0x401F)
    (hfirst : addr = 0x4016 → (b.controllers.latchedInputData.devices 0).Spent)
    (hsecond : addr = 0x4017 → (b.controllers.latchedInputData.devices 1).Spent) (v : Byte) :
    b.readReg (addr &&& 0x1F) v =
      (if addr = 0x4016 ∨ addr = 0x4017 then v &&& 0xE0 else v, b) := by
  have hreg : addr &&& 0x1F = addr - 0x4000 := by
    have hmod := toNat_and_mask (n := 5) (m := 0x1F) (a := addr) (by decide)
    apply BitVec.eq_of_toNat_eq
    rw [hmod]
    bv_omega
  rw [hreg, readReg]
  by_cases h6 : addr = 0x4016
  · rw [if_pos (by rw [h6]; rfl), if_pos (Or.inl h6)]
    exact readControllerData_of_spent (hfirst h6) v
  · by_cases h7 : addr = 0x4017
    · rw [if_neg (by rw [h7]; decide), if_pos (by rw [h7]; rfl), if_pos (Or.inr h7)]
      exact readControllerData_of_spent (hsecond h7) v
    · rw [if_neg (by bv_omega), if_neg (by bv_omega), if_neg (not_or.mpr ⟨h6, h7⟩)]

/-- A read of a register of the picture processor. -/
theorem ioRead_ppu (hs : b.Synced) {addr : CpuAddr} (haddr : addr < 0x4000)
    (hcaught : b.ppu.CaughtUp cycle) (hquiet : b.ppu.Quiet addr) (ℓ : Lines) (data : Byte) :
    (b.setLines ℓ).ioRead cycle addr data =
      .ok (b.ppu.driveLatch addr ℓ.latch,
        b.setLines ⟨b.ppu.driveLatch addr ℓ.latch, ℓ.openBus⟩) := by
  have hreg : addr &&& 7 &&& 7 = addr &&& 7 := by rw [BitVec.and_assoc, BitVec.and_self]
  have hquiet' : b.ppu.Quiet (addr &&& 7) := by
    rw [Ppu.Quiet, hreg]
    exact hquiet
  have hlatch : b.ppu.driveLatch (addr &&& 7) ℓ.latch = b.ppu.driveLatch addr ℓ.latch := by
    simp only [Ppu.driveLatch, hreg]
  have hlines : (b.setLines ℓ).Synced := hs
  rw [ioRead, if_pos (by bv_omega), if_pos haddr, catchUp_of_caughtUp hlines hcaught]
  show Except.ok (((b.setLines ℓ).ppu.readReg (addr &&& 7)).1,
    (b.setLines ℓ).setPpu ((b.setLines ℓ).ppu.readReg (addr &&& 7)).2) = _
  have hread : (b.setLines ℓ).ppu.readReg (addr &&& 7) = _ :=
    Ppu.readReg_of_quiet hquiet' ℓ.latch
  rw [hread, hlatch]
  exact congrArg (fun b' => Except.ok (_, b'))
    (setPpu_latch hlines (b.ppu.driveLatch addr ℓ.latch))

/-- **A harmless read moves the lines alone.** -/
theorem read_of_harmless (hd : b.Decodes) (hs : b.Synced) {addr : CpuAddr}
    (h : b.Harmless cycle addr) (ℓ : Lines) :
    (b.setLines ℓ).read cycle addr =
      .ok ((b.drive addr ℓ).openBus, b.setLines (b.drive addr ℓ)) := by
  have hlines : (b.setLines ℓ).Synced := hs
  by_cases hio : (b.main.memory.page (addr &&& b.main.memMask)).isIo (addr &&& b.main.memMask)
  · obtain ⟨hlo, hhi⟩ := (hd.isIo _).mp hio
    have hread : (b.setLines ℓ).read cycle addr =
        (b.setLines ℓ).ioRead cycle (addr &&& b.main.memMask)
          (if b.main.openBusIsData then ℓ.openBus else addr.setWidth 8) >>=
            fun r => .ok (r.1, r.2.setOpenBus r.1) := if_pos hio
    rw [hread]
    by_cases hppu : addr &&& b.main.memMask < 0x4000
    · obtain ⟨hcaught, hquiet⟩ := h.ppu hlo hppu
      rw [ioRead_ppu hs hppu hcaught hquiet, drive, if_pos hio, if_pos hppu]
      rfl
    · have hdevice : addr &&& b.main.memMask ≤ 0x401F := by
        have hhole := h.hole
        unfold Hole at hhole
        bv_omega
      have hreg := readReg_of_harmless (b := b.setLines ℓ) (by bv_omega) hdevice h.first h.second
        (if b.main.openBusIsData then ℓ.openBus else addr.setWidth 8)
      rw [ioRead, if_pos hdevice, if_neg hppu, hreg, drive, if_pos hio, if_neg hppu]
      split <;> rfl
  · have hread : (b.setLines ℓ).read cycle addr =
        .ok (((b.setLines ℓ).main.readByte cycle addr).data,
          (b.setLines ℓ).setMain ((b.setLines ℓ).main.readByte cycle addr).bus) := if_neg hio
    have hmemory := Bool.eq_false_iff.mpr hio
    have hbus : (b.setLines ℓ).main.readByte cycle addr =
        ⟨(b.drive addr ℓ).openBus, b.price addr,
          { (b.setLines ℓ).main with openBus := (b.drive addr ℓ).openBus }⟩ := by
      simp only [SystemBus.readByte, drive, setLines, hmemory, Bool.false_eq_true, if_false]
      cases (b.main.memory.page (addr &&& b.main.memMask)).ptr <;> rfl
    have hlatch : (b.drive addr ℓ).latch = ℓ.latch := by
      simp only [drive, hmemory, Bool.false_eq_true, if_false]
      cases (b.main.memory.page (addr &&& b.main.memMask)).ptr <;> rfl
    have hlines' : b.setLines (b.drive addr ℓ) =
        (b.setLines ℓ).setOpenBus (b.drive addr ℓ).openBus := by
      rw [setLines, hlatch]
      rfl
    rw [hread, hbus, hlines', ← setMain_openBus hlines]

theorem drive_of_backed {addr : CpuAddr} {n : Nat} {readonly : Bool}
    (h : SystemBus.Backed b.main.memory b.main.memMask addr n readonly) (ℓ : Lines) :
    b.drive addr ℓ = ⟨ℓ.latch, b.main.host n⟩ := by
  obtain ⟨base, hptr, rfl⟩ := h.ptr
  simp only [drive, h.io, hptr, Bool.false_eq_true, if_false]

theorem data_of_backed {addr : CpuAddr} {n : Nat} {readonly : Bool}
    (h : SystemBus.Backed b.main.memory b.main.memMask addr n readonly) :
    (Bus.readByte b cycle addr).data = b.main.host n := by
  have hread : b.read cycle addr = .ok ((b.main.readByte cycle addr).data,
      b.setMain (b.main.readByte cycle addr).bus) := if_neg (Bool.eq_false_iff.mp h.io)
  rw [readByte_of_ok hread]
  exact (h.readByte cycle).1

def readLines : ReadLines NesBus Lines where
  Ok b := b.Decodes ∧ b.Synced
  lines := lines
  setLines := setLines
  drive := drive
  Harmless := Harmless
  setLines_lines _ := rfl
  lines_setLines _ _ := rfl
  read := by
    intro b cycle addr hb h ℓ
    have hfault : (b.setLines ℓ).fault.isSome = false := by
      show b.fault.isSome = false
      rw [h.fault]
      rfl
    show (b.setLines ℓ).ended ((b.setLines ℓ).read cycle addr) = _
    rw [read_of_harmless hb.1 hb.2 h, ended, hfault]
    rfl

/-- Harmless reads leave the controllers. -/
theorem controllers_foldl (hb : readLines.Ok b) (cycle : BitVec 64) (l : List CpuAddr)
    (h : ∀ a ∈ l, b.Harmless cycle a) :
    (l.foldl (fun b a => (Bus.readByte b cycle a).bus) b).controllers = b.controllers := by
  have hread : l.foldl (fun b a => (Bus.readByte b cycle a).bus) b = _ :=
    readLines.foldl_read hb l h b.lines
  rw [hread]
  rfl

/-! ### One host memory -/

theorem synced_catchUp (cycle : BitVec 64) (b : NesBus) :
    Outcome Synced (fun _ => True) (b.catchUp cycle) := by
  unfold catchUp
  split
  · trivial
  · rfl

theorem synced_readReg (hs : b.Synced) (reg : BitVec 32) (v : Byte) :
    (b.readReg reg v).2.Synced := by
  unfold readReg
  split
  · exact hs
  split <;> exact hs

theorem synced_read (hs : b.Synced) (cycle : BitVec 64) (addr : CpuAddr) :
    Outcome (fun r => r.2.Synced) (fun _ => True) (b.read cycle addr) := by
  unfold read
  dsimp only
  split
  · refine Outcome.bind (P := fun r => r.2.Synced) ?_ fun r hr => hr
    unfold ioRead
    split
    · split
      · exact (synced_catchUp cycle b).bind fun b' _ => rfl
      · exact synced_readReg hs _ _
    · split
      · trivial
      · exact hs
  · rfl

theorem synced_writeController (hs : b.Synced) (v : Byte) : (b.writeController v).Synced := by
  unfold writeController
  split
  · exact hs
  split
  · unfold latchControllerData
    split <;> exact hs
  · exact hs

theorem synced_oamDma (cycle : BitVec 64) (base : Word) :
    Outcome Synced (fun _ => True) (b.oamDma cycle base) := by
  refine (synced_catchUp cycle b).bind fun b' hb' => Outcome.foldlM (fun c hc i _ => ?_) hb'
  exact (synced_read hc cycle _).bind fun r hr => hr

theorem synced_writeReg (hs : b.Synced) (cycle : BitVec 64) (reg : BitVec 32) (v : Byte) :
    Outcome (fun r => r.2.Synced) (fun _ => True) (b.writeReg cycle reg v) := by
  unfold writeReg
  split
  · split
    · trivial
    · exact (synced_oamDma _ _).bind fun b' hb' => hb'
  split
  · exact synced_writeController hs v
  · exact hs

theorem synced_write (hs : b.Synced) (cycle : BitVec 64) (addr : CpuAddr) (v : Byte) :
    Outcome (fun r => r.2.Synced) (fun _ => True) (b.write cycle addr v) := by
  unfold write
  dsimp only
  split
  · refine Outcome.bind (P := fun r => r.2.Synced) ?_ fun r hr => hr
    unfold ioWrite
    split
    · split
      · exact (synced_catchUp cycle b).bind fun b' _ => rfl
      · exact synced_writeReg hs _ _ _
    · split
      · trivial
      · rfl
  · rfl

theorem synced_ended {α : Type} (hs : b.Synced) {r : Except Fault (α × NesBus)}
    (hr : Outcome (fun r => r.2.Synced) (fun _ => True) r) : (b.ended r).Synced := by
  unfold ended
  split
  · exact hs
  · cases r with
    | error f => exact hs
    | ok r => exact hr

theorem synced_invariant : Bus.Invariant Synced where
  read hs t a := synced_ended hs (synced_read hs t a)
  write hs t a v := synced_ended hs (synced_write hs t a v)
  irqTaken hs _ := hs

theorem synced_touches {b' : NesBus} (h : Touches b b') (hs : b.Synced) : b'.Synced := by
  cases h with
  | read cycle addr => exact synced_invariant.read hs _ _
  | write cycle addr v => exact synced_invariant.write hs _ _ _
  | catchUp cycle h =>
    have hout := synced_catchUp cycle b
    rw [h] at hout
    exact hout
  | setUpdateControllersFunc fn => exact hs

/-- What the lines need lasts. -/
theorem ok_step {i : Stimulus NesBus} {m m' : Machine NesBus} (hm : readLines.Ok m.bus)
    (hi : Happens m i) (hstep : m.step i = some m') : readLines.Ok m'.bus := by
  constructor
  · refine Machine.bus_step stable_decodes.invariant hm.1 ?_ hstep
    rintro bus rfl
    exact stable_decodes.touches hi hm.1
  · refine Machine.bus_step synced_invariant hm.2 ?_ hstep
    rintro bus rfl
    exact synced_touches hi hm.2

end NesBus

/-- A loaded console is one whose lines can be followed. -/
theorem ok_boot {layout : HostLayout} {devices : IODevices Unit} {rom : RomInes} {fuel : Nat}
    {n loaded : Console Unit} {image : List Byte} (hparse : RomInes.parse image = some rom)
    (hload : Console.loadRom layout devices () rom fuel n = some (true, loaded))
    (controllers : Controllers) (pendingInterrupts : BitVec 32) :
    NesBus.readLines.Ok (loaded.boot controllers pendingInterrupts).bus := by
  refine ⟨decodes_boot hparse hload controllers pendingInterrupts, ?_⟩
  obtain ⟨-, calls, -, rfl⟩ := loadRom_eq_some hload
  rfl

end RetroCpu.Nes
