import RetroCpu.Nes.NmiWait

/-!
# The delivery of the NMI

The frames of a console, one call of `Run` after another from the `PowerOn` of `LoadRom`.

* `nmi_delivered`: over whole runs each call of `AssertNMI` leads to one interrupt.
* `nmi_taken`: a program that turns the NMI on and waits for it gets it in its first frame.
-/

namespace RetroCpu.Nes

open WordBytes StateFn Machine NesBus

/-! ### The start -/

/-- A `Nes` that has loaded no ROM. -/
structure Console.Fresh (n : Console Unit) : Prop where
  cycle : n.cpu.cycle = 0
  ppu : ∃ memory : Ppu, n.ppu = memory.construct

structure SameParts (n n' : Console Unit) : Prop where
  core : n'.cpu.core = n.cpu.core
  cycle : n'.cpu.cycle = n.cpu.cycle
  beam : n'.ppu.beam = n.ppu.beam
  nmis : n'.ppu.nmis = n.ppu.nmis

theorem sameParts_foldl (layout : HostLayout) (calls : List BusCall) (n : Console Unit) :
    SameParts n (calls.foldl (Console.perform layout) n) := by
  induction calls generalizing n with
  | nil => exact ⟨rfl, rfl, rfl, rfl⟩
  | cons c calls ih =>
    have hperform : SameParts n (Console.perform layout n c) := by
      unfold Console.perform
      split <;> exact ⟨rfl, rfl, rfl, rfl⟩
    have hrest := ih (Console.perform layout n c)
    exact ⟨hrest.core.trans hperform.core, hrest.cycle.trans hperform.cycle,
      hrest.beam.trans hperform.beam, hrest.nmis.trans hperform.nmis⟩

/-- `PowerOn` of the CPU on a bus where each access costs 12. -/
theorem cycle_powerOn {m : Machine (SystemBus Unit)} (hcycle : m.cycle = 0)
    (htiming : m.core.internalCycleTiming = 12)
    (hd : Decoder 12 m.bus.memory m.bus.memMask) : (Machine.powerOn m).2.cycle = 72 := by
  have hprice : ∀ a, (m.bus.memory.page (a &&& m.bus.memMask)).cyclesPerAccess = 12 := by
    intro a
    rw [hd.page_eq, hd.cycles]
  have hf := SystemBus.frame_readByte m.bus m.cycle 0xFFFC
  have hlo := SystemBus.readByte_cycles m.bus m.cycle 0xFFFC
  have hhi := SystemBus.readByte_cycles (m.bus.readByte m.cycle 0xFFFC).bus
    (m.cycle + (m.bus.readByte m.cycle 0xFFFC).cycles.setWidth 64) 0xFFFD
  rw [hf.memory, hf.memMask, hprice] at hhi
  rw [hprice] at hlo
  show m.cycle + (m.bus.readByte m.cycle 0xFFFC).cycles.setWidth 64 +
    ((m.bus.readByte m.cycle 0xFFFC).bus.readByte
      (m.cycle + (m.bus.readByte m.cycle 0xFFFC).cycles.setWidth 64) 0xFFFD).cycles.setWidth 64 +
    (m.core.internalCycleTiming * 4).setWidth 64 = 72
  rw [hhi, hlo, hcycle, htiming]
  rfl

/-- A console before `PowerOn`. -/
structure Wound (nmis : ℕ) (n : Console Unit) : Prop where
  cycle : n.cpu.cycle = 0
  timing : n.cpu.core.internalCycleTiming = 12
  native : n.cpu.core.modeNative6502 = true
  beam : ∃ memory : Ppu, n.ppu.beam = (memory.construct.initializePpu true).beam
  nmis : n.ppu.nmis = nmis

theorem wound_initBuses {layout : HostLayout} {devices : IODevices Unit} {n : Console Unit}
    {memory : Ppu} (hcycle : n.cpu.cycle = 0) (hppu : n.ppu = memory.construct) :
    Wound n.ppu.nmis ((({ n with system := 0 } : Console Unit).setNtsc).initBuses layout devices ())
    where
  cycle := hcycle
  timing := rfl
  native := rfl
  beam := by
    refine ⟨memory, ?_⟩
    unfold Console.initBuses Console.setNtsc
    simp only [hppu]
    rfl
  nmis := rfl

theorem Wound.sameParts {nmis : ℕ} {n n' : Console Unit} (h : Wound nmis n)
    (hs : SameParts n n') : Wound nmis n' :=
  ⟨hs.cycle.trans h.cycle, (congrArg Core.internalCycleTiming hs.core).trans h.timing,
    (congrArg Core.modeNative6502 hs.core).trans h.native, hs.beam ▸ h.beam,
    hs.nmis.trans h.nmis⟩

/-- The byte of PRG ROM at an address. -/
def prgByte (rom : RomInes) (a : CpuAddr) : Byte :=
  rom.memory.getD (rom.prgRom + (a.toNat - 0x8000) % rom.prgRomSize.toNat) 0

/-- A ROM that starts at `pc` with the program. -/
structure Enables (rom : RomInes) (pc : CpuAddr) (v : Byte) : Prop where
  inPrg : 0x8000 ≤ pc.toNat
  fits : pc.toNat + 8 ≤ 0x10000
  reset : (prgByte rom 0xFFFD ++ prgByte rom 0xFFFC : Word).setWidth 32 = pc
  lda : prgByte rom pc = 0xA9
  value : prgByte rom (pc + 1) = v
  sta : prgByte rom (pc + 2) = 0x8D
  low : prgByte rom (pc + 3) = 0
  high : prgByte rom (pc + 4) = 0x20
  jmp : prgByte rom (pc + 5) = 0x4C
  loop : (prgByte rom (pc + 7) ++ prgByte rom (pc + 6) : Word).setWidth 32 = pc + 5

section Loaded

variable {layout : HostLayout} {devices : IODevices Unit} {rom : RomInes} {fuel : Nat}
  {n loaded : Console Unit} {image : List Byte}

/-- What `LoadRom` powers on. -/
theorem wound_loadRom (hparse : RomInes.parse image = some rom) (hntsc : Ntsc image)
    (hfresh : n.Fresh)
    (hload : Console.loadRom layout devices () rom fuel n = some (true, loaded)) :
    ∃ n₂, Wound n.ppu.nmis n₂ ∧ Decoder 12 n₂.cpu.bus.memory n₂.cpu.bus.memMask ∧
      loaded = { n₂.setCpu (Machine.powerOn n₂.cpu).2 with currentRom := some rom } := by
  have hsystem : rom.system = 0 := (system_parse hparse).mpr hntsc
  obtain ⟨-, calls, hsetup, heq⟩ := loadRom_eq_some hload
  obtain ⟨memory, hmemory⟩ := hfresh.ppu
  have hclocked : n.clocked rom.system = ({ n with system := 0 } : Console Unit).setNtsc := by
    rw [hsystem]
    exact if_pos rfl
  rw [hclocked] at heq
  have hinit : Wound n.ppu.nmis
      (({ n with system := 0 } : Console Unit).setNtsc.initBuses layout devices ()) :=
    wound_initBuses hfresh.cycle hmemory
  have hwound := hinit.sameParts (sameParts_foldl layout Console.sysramCalls _)
  have htables := (tables_calls layout devices () calls
    ({ n with system := 0 } : Console Unit).setNtsc).1
  refine ⟨_, Wound.sameParts ?_ (sameParts_foldl layout calls _),
    htables.decoder (prgRomSize_lt hparse) hsetup, heq⟩
  exact ⟨hwound.cycle, hwound.timing, hwound.native, hwound.beam, hwound.nmis⟩

theorem lastPpuCycle_loadRom (hparse : RomInes.parse image = some rom) (hntsc : Ntsc image)
    (hfresh : n.Fresh)
    (hload : Console.loadRom layout devices () rom fuel n = some (true, loaded)) :
    loaded.ppu.lastPpuCycle = 0 := by
  obtain ⟨memory, hmemory⟩ := hfresh.ppu
  rw [(sameClocks_loadRom hload).lastPpuCycle, (system_parse hparse).mpr hntsc]
  show n.ppu.lastPpuCycle = 0
  rw [hmemory]
  rfl

/-- **`LoadRom` leaves a machine that the loop can go on from.** -/
theorem steady_boot (hparse : RomInes.parse image = some rom) (hntsc : Ntsc image)
    (hfresh : n.Fresh)
    (hload : Console.loadRom layout devices () rom fuel n = some (true, loaded))
    (controllers : Controllers) : Steady n.ppu.nmis (loaded.boot controllers 0) := by
  have hsame := sameClocks_loadRom hload
  have hdecodes := decodes_boot hparse hload controllers 0
  have hsystem : rom.system = 0 := (system_parse hparse).mpr hntsc
  have hlast := lastPpuCycle_loadRom hparse hntsc hfresh hload
  have hclock : loaded.cpuClockSize = 12 := by
    rw [hsame.cpuClockSize, hsystem]
    rfl
  have hsize : loaded.ppu.ppuClockSize = 4 := by
    rw [hsame.ppuClockSize, hsystem]
    rfl
  obtain ⟨n₂, hwound, hd, heq⟩ := wound_loadRom hparse hntsc hfresh hload
  have hcycle : loaded.cpu.cycle = 72 := by
    rw [heq]
    exact cycle_powerOn hwound.cycle hwound.timing hd
  obtain ⟨ip, hcore⟩ := core_reset (Machine.update (·.powerOn) n₂.cpu).2
  have hcore : loaded.cpu.core = n₂.cpu.core.powerOn.resetSp.resetMode ip := by
    rw [heq]
    exact hcore
  have hcoherent : loaded.cpu.core.Coherent := by
    rw [hcore]
    exact Core.coherent_onUpdateMode _
  have htiming : loaded.cpu.core.internalCycleTiming = 12 := by
    rw [hcore]
    exact (Core.Change.timing_onUpdateMode _).trans hwound.timing
  have hnative : loaded.cpu.core.modeNative6502 = true := by
    rw [hcore, Core.resetMode, Core.onUpdateMode_eq]
    exact hwound.native
  have hmask : loaded.cpu.core.MaskFits := by
    rw [hcore]
    exact Or.inl (Core.interrupts_onUpdateMode _)
  have hbeam : loaded.ppu.beam.Valid := by
    obtain ⟨memory, hmemory⟩ := hwound.beam
    rw [heq]
    exact hmemory ▸ Ppu.valid_initial memory
  have hnmis : loaded.ppu.nmis = n.ppu.nmis := by
    rw [heq]
    exact hwound.nmis
  have hline : (loaded.boot controllers 0).bus.latch.line = false := by
    dsimp only [NesBus.latch, Console.boot]
    decide
  exact
    { paced := ⟨⟨⟨hdecodes, hclock, hsize⟩, hbeam⟩, htiming, by
        show loaded.ppu.lastPpuCycle.toNat ≤ _
        rw [hlast]
        exact Nat.zero_le _⟩
      coherent := hcoherent
      native := hnative
      mask := hmask
      onlyNmi := Or.inl rfl
      counted :=
        ⟨by rw [hline]; exact hnmis, fun h => absurd (hline.symm.trans h) Bool.false_ne_true⟩
      lag := by
        show loaded.cpu.cycle.toNat ≤ _
        rw [hcycle]
        exact Nat.le_add_left_of_le (by decide)
      caughtUp := fun h => absurd (hline.symm.trans h) Bool.false_ne_true }

/-! ### A program in ROM -/

variable {pc : CpuAddr} {v : Byte}

theorem Represents.prg {c : Cells} (hrom : NromSizes rom) (h : Represents layout rom n c)
    {a : CpuAddr} (hle : 0x8000 ≤ a.toNat) (hlt : a.toNat < 0x10000) :
    ∃ i, SystemBus.Backed n.cpu.bus.memory n.cpu.bus.memMask a i true ∧
      n.cpu.bus.host i = prgByte rom a := by
  have hfits : rom.prgRom + rom.prgRomSize.toNat ≤ rom.memory.length := hrom.prgFits
  have hpos : 0 < rom.prgRomSize.toNat := by
    rcases hrom.prg with hsize | hsize <;> rw [hsize] <;> decide
  have hmod := Nat.mod_lt (a.toNat - 0x8000) hpos
  refine ⟨_, (h.wired hrom).prg a hle hlt, ?_⟩
  rw [Nat.add_assoc]
  exact h.image _ (by omega)

theorem reads_boot (hrom : NromSizes rom) (hdisjoint : layout.Disjoint rom.memory.length)
    (himage : Holds layout rom n.cpu.bus.host)
    (hload : Console.loadRom layout devices () rom fuel n = some (true, loaded))
    (controllers : Controllers) {a : CpuAddr} (hle : 0x8000 ≤ a.toNat) (hlt : a.toNat < 0x10000) :
    (loaded.boot controllers 0).bus.Reads a (prgByte rom a) := by
  obtain ⟨hlaid, hhost⟩ := laid_loadRom hrom hload
  obtain ⟨i, hbacked, hi⟩ :=
    (represents_loaded hdisjoint himage hlaid hhost).prg hrom hle hlt
  exact ⟨i, true, hbacked, hi⟩

theorem core_powerOn {c : Cells} (hrom : NromSizes rom) (h : Represents layout rom n c) :
    (Machine.powerOn n.cpu).2.core = n.cpu.core.powerOn.resetSp.resetMode
      (prgByte rom 0xFFFD ++ prgByte rom 0xFFFC) := by
  obtain ⟨i, hlo, hi⟩ := h.prg hrom (a := 0xFFFC) (by decide) (by decide)
  obtain ⟨j, hhi, hj⟩ := h.prg hrom (a := 0xFFFD) (by decide) (by decide)
  have hlow := hlo.readByte n.cpu.cycle
  have hframe := SystemBus.frame_readByte n.cpu.bus n.cpu.cycle 0xFFFC
  rw [← hframe.memory, ← hframe.memMask] at hhi
  have hhigh := (hhi.readByte (n.cpu.cycle +
    (n.cpu.bus.readByte n.cpu.cycle 0xFFFC).cycles.setWidth 64)).1
  rw [hlow.2, hj] at hhigh
  rw [← hhigh, ← hi, ← hlow.1]
  rfl

/-- `LoadRom` starts at the reset vector. -/
theorem core_boot (hrom : NromSizes rom) (hdisjoint : layout.Disjoint rom.memory.length)
    (himage : Holds layout rom n.cpu.bus.host)
    (hload : Console.loadRom layout devices () rom fuel n = some (true, loaded)) :
    loaded.cpu.core.ip = (prgByte rom 0xFFFD ++ prgByte rom 0xFFFC : Word).setWidth 32 ∧
      loaded.cpu.core.codeSegmentBase = 0 ∧ loaded.cpu.core.dataSegmentBase = 0 ∧
      hi loaded.cpu.core.sp = 1 := by
  obtain ⟨-, calls, hsetup, rfl⟩ := loadRom_eq_some hload
  obtain rfl : calls = mapperCalls rom := (Prod.mk.inj (hrom.setup hsetup)).2
  obtain ⟨htables, hhost⟩ :=
    tables_calls layout devices () (mapperCalls rom) (n.clocked rom.system)
  rw [n.host_clocked] at hhost
  have hcore := core_powerOn hrom (represents_loaded hdisjoint himage htables.laid hhost)
  have hreset : ∀ (c : Core) (ip : Word), (c.powerOn.resetSp.resetMode ip).ip = ip.setWidth 32 ∧
      (c.powerOn.resetSp.resetMode ip).codeSegmentBase = 0 ∧
      (c.powerOn.resetSp.resetMode ip).dataSegmentBase = 0 ∧
      hi (c.powerOn.resetSp.resetMode ip).sp = 1 := by
    intro c ip
    rw [Core.resetMode, Core.onUpdateMode_eq]
    refine ⟨rfl, rfl, rfl, ?_⟩
    show hi (setLo (0x100 : Word) _) = 1
    rw [hi_setLo]
    rfl
  have h := hreset (List.foldl (Console.perform layout)
    ((Console.sysramCalls.foldl (Console.perform layout) ((n.clocked rom.system).initBuses layout
      devices ())).setHost (clear layout.vram 0x1000)) (mapperCalls rom)).cpu.core
    (prgByte rom 0xFFFD ++ prgByte rom 0xFFFC)
  rw [← hcore] at h
  exact h

/-- The picture processor at the start of its first frame. -/
theorem dark_boot (hparse : RomInes.parse image = some rom) (hntsc : Ntsc image)
    (hfresh : n.Fresh)
    (hload : Console.loadRom layout devices () rom fuel n = some (true, loaded)) :
    loaded.ppu.Dark (4 * nmiDot) := by
  obtain ⟨n₂, hwound, -, heq⟩ := wound_loadRom hparse hntsc hfresh hload
  obtain ⟨memory, hmemory⟩ := hwound.beam
  have hlast := lastPpuCycle_loadRom hparse hntsc hfresh hload
  have hbeam : loaded.ppu.beam = (memory.construct.initializePpu true).beam := by
    rw [heq]
    exact hmemory
  have hdot : loaded.ppu.beam.dot = 0 := by
    rw [hbeam]
    rfl
  have hsize : loaded.ppu.ppuClockSize = 4 := by
    rw [(sameClocks_loadRom hload).ppuClockSize, (system_parse hparse).mpr hntsc]
    rfl
  exact
    { valid := hbeam ▸ Ppu.valid_initial memory
      ppuClockSize := hsize
      rendering := congrArg Beam.rendering hbeam
      state := .inl (congrArg Beam.state hbeam)
      dot := by
        rw [hdot]
        exact Nat.zero_le _
      clock := by
        rw [hlast, hdot]
        exact Nat.zero_add _
      status := fun h => by
        rw [hdot] at h
        exact absurd h (by decide) }

theorem prepares_boot (hparse : RomInes.parse image = some rom) (hntsc : Ntsc image)
    (hfresh : n.Fresh) (hrom : NromSizes rom) (hdisjoint : layout.Disjoint rom.memory.length)
    (himage : Holds layout rom n.cpu.bus.host)
    (hload : Console.loadRom layout devices () rom fuel n = some (true, loaded))
    (controllers : Controllers) (he : Enables rom pc v) (cycleStop : BitVec 64) :
    Prepares (4 * nmiDot) pc v { loaded.boot controllers 0 with cycleStop } ∧
      loaded.cpu.core.ip = pc := by
  have hs := steady_boot hparse hntsc hfresh hload controllers
  obtain ⟨hip, hcode, hdata, hsp⟩ := core_boot hrom hdisjoint himage hload
  obtain ⟨hlaid, -⟩ := laid_loadRom hrom hload
  have hreads : ∀ a : CpuAddr, 0x8000 ≤ a.toNat → a.toNat < 0x10000 →
      (loaded.boot controllers 0).bus.Reads a (prgByte rom a) := fun a hle hlt =>
    reads_boot hrom hdisjoint himage hload controllers hle hlt
  have hpc := he.inPrg
  have hfits := he.fits
  have hread : ∀ {k : CpuAddr} {w : Byte}, k.toNat < 8 → prgByte rom (pc + k) = w →
      (loaded.boot controllers 0).bus.Reads (pc + k) w := by
    intro k w hk hw
    rw [← hw]
    exact hreads (pc + k) (by bv_omega) (by bv_omega)
  have hlda := hreads pc hpc (by omega)
  rw [he.lda] at hlda
  have hsix : (pc + 5 + 1) &&& 0xFFFF = pc + 6 := by
    have hadd : pc + 5 + 1 = pc + 6 := by bv_omega
    rw [hadd]
    exact and_ipMask (by bv_omega)
  have hseven : pc + 6 + 1 = pc + 7 := by bv_omega
  refine ⟨⟨⟨hs.coherent, hs.native, hcode, hdata, hs.paced.bus.ticks, rfl, hlaid.synced.symm⟩, ?_,
    hsp, dark_boot hparse hntsc hfresh hload⟩, hip.trans he.reset⟩
  exact ⟨hfits, hlda, hread (by decide) he.value, hread (by decide) he.sta,
    hread (by decide) he.low, hread (by decide) he.high, hread (by decide) he.jmp, _, _,
    by rw [hsix]; exact hread (by decide) rfl,
    by rw [hsix, hseven]; exact hread (by decide) rfl, he.loop⟩

/-! ### Frames -/

theorem Steady.stopAt {taken : ℕ} {m : Machine NesBus} (h : Steady taken m)
    (cycleStop : BitVec 64) : Steady taken { m with cycleStop } :=
  ⟨⟨h.paced.bus, h.paced.timing, h.paced.ahead⟩, h.coherent, h.native, h.mask, h.onlyNmi,
    h.counted, h.lag, h.caughtUp⟩

variable {ε φ : Type} (hit : φ → Machine NesBus → List (Effect ε φ))
  (call : ε → Machine NesBus → List (Effect ε φ)) (H : StdHeap ε)

/-- `Run` from the machine `m`, up to some step of its loop, with any breakpoints and events. -/
def Console.Runs (loaded : Console Unit) (currentFrameStartCycle : BitVec 64)
    (m : Machine NesBus) (s : EmulateWithCycleProcessing.State (Machine NesBus) ε φ) : Prop :=
  ∃ (eventCycle : BitVec 64) (b : Breakpoints φ) (eventQueue : EventQueue ε) (steps : ℕ),
    stepN (EmulateWithCycleProcessing.step (consoleCpu hit call) H id postCpuCycle) steps
      (EmulateWithCycleProcessing.start (consoleCpu hit call)
        { m with cycleStop := loaded.nextFrameStart currentFrameStartCycle } eventCycle b
        (some eventQueue)) = some s

/-- Calls of `Run` that have returned: how many, where the next frame starts, the NMIs that the
CPU has taken in them, and the machine. -/
inductive Frames (loaded : Console Unit) (boot : Machine NesBus) :
    ℕ → BitVec 64 → ℕ → Machine NesBus → Prop
  | boot : Frames loaded boot 0 0 0 boot
  | run {frames taken : ℕ} {currentFrameStartCycle : BitVec 64} {m : Machine NesBus}
    {s : EmulateWithCycleProcessing.State (Machine NesBus) ε φ}
    (h : Frames loaded boot frames currentFrameStartCycle taken m)
    (hrun : loaded.Runs hit call H currentFrameStartCycle m s) (hdone : s.1.pc = .done) :
    Frames loaded boot (frames + 1) (loaded.nextFrameStart currentFrameStartCycle)
      (taken + nmiCalls s.1.actions) s.1.state

/-- **A program that turns the NMI on and waits for it gets it in its first frame.** -/
theorem nmi_taken (hparse : RomInes.parse image = some rom) (hntsc : Ntsc image)
    (hfresh : n.Fresh) (hrom : NromSizes rom) (hdisjoint : layout.Disjoint rom.memory.length)
    (himage : Holds layout rom n.cpu.bus.host)
    (hload : Console.loadRom layout devices () rom fuel n = some (true, loaded))
    (controllers : Controllers) (he : Enables rom pc v) (hv : v &&& 0x80 = 0x80) :
    ∃ s, loaded.Runs hit call H 0 (loaded.boot controllers 0) s ∧ s.1.pc = .test ∧
      s.1.state.bus.fault = none ∧ nmiCalls s.1.actions = 1 := by
  have hstop : (loaded.nextFrameStart 0).toNat = 357366 := by
    rw [Console.nextFrameStart, (sameClocks_loadRom hload).masterClocksPerFrame,
      (system_parse hparse).mpr hntsc]
    rfl
  have hs := steady_boot hparse hntsc hfresh hload controllers
  obtain ⟨hp, hip⟩ := prepares_boot hparse hntsc hfresh hrom hdisjoint himage hload controllers he
    (loaded.nextFrameStart 0)
  have hlag : loaded.cpu.cycle.toNat ≤ loaded.ppu.lastPpuCycle.toNat + interruptTime := hs.lag
  have hint : interruptTime = 37008 := rfl
  have hmax : nmiDot = 82185 := rfl
  have hzero : loaded.ppu.lastPpuCycle.toNat = 0 := by
    rw [lastPpuCycle_loadRom hparse hntsc hfresh hload]
    rfl
  have hline : (loaded.boot controllers 0).bus.latch.line = false := by
    dsimp only [NesBus.latch, Console.boot]
    decide
  let start : Running (Machine NesBus) ε φ :=
    ⟨{ loaded.boot controllers 0 with cycleStop := loaded.nextFrameStart 0 }, 0, .empty,
      some ((⟨[], 0, 0⟩ : EventQueue ε).start (loaded.nextFrameStart 0) (loaded.nextFrameStart 0)),
      .test, []⟩
  have hstart : start.state.cycle.toNat + 72 ≤ 4 * nmiDot :=
    show loaded.cpu.cycle.toNat + 72 ≤ 4 * nmiDot by omega
  have hpointee : start.pointee (loaded.nextFrameStart 0) = loaded.nextFrameStart 0 := rfl
  have hsteady : Steady n.ppu.nmis start.state := hs.stopAt _
  obtain ⟨steps, s, hsteps, hpc, hfault, htaken⟩ :=
    taken_of_program hit call H hv hstart (by omega) (by omega) rfl hpointee (fun _ => rfl) hp hip
      hsteady hline
  exact ⟨s, ⟨0, .empty, ⟨[], 0, 0⟩, steps, hsteps⟩, hpc, hfault, htaken⟩

variable {hit call H}

theorem delivers_runs {currentFrameStartCycle : BitVec 64} {m : Machine NesBus} {base : ℕ}
    {s : EmulateWithCycleProcessing.State (Machine NesBus) ε φ}
    (hroom : (loaded.nextFrameStart currentFrameStartCycle).toNat + 2 ^ 18 ≤ 2 ^ 64)
    (hm : m.bus.fault = none → Steady base m)
    (hrun : loaded.Runs hit call H currentFrameStartCycle m s) :
    Delivers base (loaded.nextFrameStart currentFrameStartCycle) s := by
  obtain ⟨eventCycle, b, q, steps, hsteps⟩ := hrun
  refine stepN_invariant (P := Delivers base (loaded.nextFrameStart currentFrameStartCycle))
    (fun _ _ hs h => hs.step hroom h) steps ?_ hsteps
  have hq := cycle_refresh_le
    ({ q with stop := loaded.nextFrameStart currentFrameStartCycle } : EventQueue ε)
  exact ⟨⟨_, rfl, rfl, hq⟩, hq, fun hf => (hm hf).stopAt _⟩

theorem room_of_succ {frames : ℕ} (h : (frames + 1) * 357366 + 2 ^ 18 ≤ 2 ^ 64) :
    frames * 357366 + 2 ^ 18 ≤ 2 ^ 64 :=
  (Nat.add_le_add_right (Nat.mul_le_mul_right _ (Nat.le_succ frames)) _).trans h

theorem toNat_nextFrameStart {frames : ℕ} {start : BitVec 64}
    (hclock : loaded.masterClocksPerFrame = 357366) (hstart : start.toNat = frames * 357366)
    (hroom : (frames + 1) * 357366 + 2 ^ 18 ≤ 2 ^ 64) :
    (loaded.nextFrameStart start).toNat = (frames + 1) * 357366 := by
  rw [Console.nextFrameStart, hclock, BitVec.toNat_add, hstart]
  show (frames * 357366 + 357366) % 2 ^ 64 = _
  omega

theorem steady_frames {frames taken : ℕ} {currentFrameStartCycle : BitVec 64}
    {boot m : Machine NesBus} {base : ℕ} (hclock : loaded.masterClocksPerFrame = 357366)
    (hboot : Steady base boot)
    (h : Frames hit call H loaded boot frames currentFrameStartCycle taken m)
    (hroom : frames * 357366 + 2 ^ 18 ≤ 2 ^ 64) :
    currentFrameStartCycle.toNat = frames * 357366 ∧
      (m.bus.fault = none → Steady (base + taken) m) := by
  induction h with
  | boot => exact ⟨rfl, fun _ => hboot⟩
  | @run frames taken start m s h hrun hdone ih =>
    obtain ⟨hstart, hm⟩ := ih (room_of_succ hroom)
    have hnext := toNat_nextFrameStart hclock hstart hroom
    refine ⟨hnext, fun hf => ?_⟩
    have hs := (delivers_runs (by rwa [hnext]) hm hrun).steady hf
    rw [hdone] at hs
    have hs' : Steady (base + taken + nmiCalls s.1.actions) s.1.state := hs
    rwa [Nat.add_assoc] at hs'

/-- Each call of `AssertNMI` after the first `nmis` has led to one of the NMIs that the CPU has
taken, but for one that is pending, and that one is young. -/
structure Delivered (nmis taken : ℕ) (m : Machine NesBus) : Prop where
  count : m.bus.ppu.nmis =
    nmis + taken + if m.bus.pendingInterrupts &&& 4 ≠ 0 then 1 else 0
  prompt : m.bus.pendingInterrupts &&& 4 ≠ 0 →
    nmiPeriod ≤ m.bus.ppu.beam.untilNmi + maxLatency

/-- **No NMI is lost, and none is taken twice.**  At every step between two calls, of every frame
after any number of frames, the CPU has taken an interrupt for each NMI of the picture processor,
but for one that has just come. -/
theorem nmi_delivered (hparse : RomInes.parse image = some rom) (hntsc : Ntsc image)
    (hfresh : n.Fresh)
    (hload : Console.loadRom layout devices () rom fuel n = some (true, loaded))
    {controllers : Controllers} {frames taken : ℕ} {currentFrameStartCycle : BitVec 64}
    {m : Machine NesBus} {s : EmulateWithCycleProcessing.State (Machine NesBus) ε φ}
    (hframes : Frames hit call H loaded (loaded.boot controllers 0) frames currentFrameStartCycle
      taken m)
    (hrun : loaded.Runs hit call H currentFrameStartCycle m s)
    (hroom : (frames + 1) * 357366 + 2 ^ 18 ≤ 2 ^ 64) (hfault : s.1.state.bus.fault = none)
    (hpc : ∀ c, s.1.pc ≠ .call c) :
    Delivered n.ppu.nmis (taken + nmiCalls s.1.actions) s.1.state := by
  have hsame := sameClocks_loadRom hload
  have hclock : loaded.masterClocksPerFrame = 357366 := by
    rw [hsame.masterClocksPerFrame, (system_parse hparse).mpr hntsc]
    rfl
  have hboot := steady_boot hparse hntsc hfresh hload controllers
  obtain ⟨hstart, hm⟩ := steady_frames hclock hboot hframes (room_of_succ hroom)
  have hnext := toNat_nextFrameStart hclock hstart hroom
  have hs := (delivers_runs (by rwa [hnext]) hm hrun).steady hfault
  rw [steadily_of_rest hpc] at hs
  have hcount := hs.counted.raised
  have hbit : s.1.state.bus.latch.line = true ↔ s.1.state.bus.pendingInterrupts &&& 4 ≠ 0 :=
    bne_iff_ne
  refine ⟨?_, fun hp => hs.counted.young (hbit.mpr hp)⟩
  change s.1.state.bus.ppu.nmis = _ + s.1.state.bus.latch.line.toNat at hcount
  rw [hcount, Nat.add_assoc n.ppu.nmis]
  congr 1
  split
  · next hp => rw [hbit.mpr hp]; rfl
  · next hp => rw [Bool.eq_false_iff.mpr fun h => hp (hbit.mp h)]; rfl

end Loaded

/-- A ROM that turns the NMI on, waits for it, and returns from it. -/
def waitingImage : List Byte :=
  inesMagic ++ [1, 1, 0, 0, 0, 0, 0, 0, 0, 0, 0, 0] ++
    [0xA9, 0x80, 0x8D, 0x00, 0x20, 0x4C, 0x05, 0x80, 0x40] ++ List.replicate 16369 0 ++
    [0x08, 0x80, 0x00, 0x80, 0, 0] ++ List.replicate 8192 0

theorem loadRom_waiting : ∃ (rom : RomInes) (loaded : Console Unit),
    RomInes.parse waitingImage = some rom ∧ rom.system = 0 ∧ NromSizes rom ∧
      HostLayout.apart.Disjoint rom.memory.length ∧
      Holds .apart rom (Console.zeroed fun i => rom.memory.getD i 0).cpu.bus.host ∧
      Console.loadRom .apart (SystemBus.simple 16 fun _ => 0).ioDevices () rom 3
        (Console.zeroed fun i => rom.memory.getD i 0) = some (true, loaded) ∧
      Enables rom 0x8000 0x80 := by
  have hparse : ∃ rom, RomInes.parse waitingImage = some rom ∧
      rom.chrRomSize = 0x2000 ∧ rom.prgRomSize = 0x4000 ∧ rom.system = 0 ∧ rom.mapperNum = 0 ∧
      rom.submapper = 0 ∧ rom.prgRom = 16 ∧ rom.chrRom = 16 + 0x4000 ∧
      rom.memory = waitingImage :=
    ⟨_, rfl, rfl, rfl, rfl, rfl, rfl, rfl, rfl, rfl⟩
  obtain ⟨rom, hrom, hchr, hprg, hsystem, hmapper, hsubmapper, hprgAt, hchrAt, hmemory⟩ := hparse
  have hlength : rom.memory.length = 16 + 0x6000 := by
    rw [hmemory, waitingImage]
    simp only [List.length_append, List.length_replicate]
    rfl
  have hsizes : NromSizes rom := nromSizes_of_one_bank hchr hprg hprgAt hchrAt hlength
  obtain ⟨loaded, hload⟩ := loadRom_nrom .apart (SystemBus.simple 16 fun _ => 0).ioDevices ()
    (Console.zeroed fun i => rom.memory.getD i 0) hsizes (by rw [hsystem]; decide)
    (by rw [hmapper, hsubmapper]; decide)
  have hdisjoint : HostLayout.apart.Disjoint rom.memory.length := by
    rw [hlength]
    exact ⟨by decide, by decide, by decide⟩
  have hholds : Holds .apart rom (Console.zeroed fun i => rom.memory.getD i 0).cpu.bus.host := by
    intro i _
    show rom.memory.getD (0 + i) 0 = _
    rw [Nat.zero_add]
  have hprgByte : ∀ a : CpuAddr, prgByte rom a =
      waitingImage.getD (16 + (a.toNat - 0x8000) % 0x4000) 0 := by
    intro a
    rw [prgByte, hmemory, hprgAt, hprg]
    rfl
  have hfront : (inesMagic ++ [1, 1, 0, 0, 0, 0, 0, 0, 0, 0, 0, 0] ++
      [0xA9, 0x80, 0x8D, 0x00, 0x20, 0x4C, 0x05, 0x80, 0x40] ++
      List.replicate 16369 (0 : Byte)).length = 16394 := by
    simp only [List.length_append, List.length_replicate]
    rfl
  have hcode : ∀ k < 25, waitingImage.getD k 0 =
      (inesMagic ++ [1, 1, 0, 0, 0, 0, 0, 0, 0, 0, 0, 0] ++
        [0xA9, 0x80, 0x8D, 0x00, 0x20, 0x4C, 0x05, 0x80, (0x40 : Byte)]).getD k 0 := by
    intro k hk
    rw [waitingImage, List.append_assoc, List.append_assoc]
    exact List.getD_append _ _ _ _ hk
  have hvectors : ∀ k < 6, waitingImage.getD (16394 + k) 0 =
      ([0x08, 0x80, 0x00, 0x80, 0, 0] ++ List.replicate 8192 (0 : Byte)).getD k 0 := by
    intro k _
    rw [waitingImage, List.append_assoc, List.getD_append_right _ _ _ _ (by rw [hfront]; omega),
      hfront, Nat.add_sub_cancel_left]
  have hreset : prgByte rom 0xFFFD = 0x80 ∧ prgByte rom 0xFFFC = 0 :=
    ⟨(hprgByte _).trans (hvectors 3 (by decide)), (hprgByte _).trans (hvectors 2 (by decide))⟩
  refine ⟨rom, loaded, hrom, hsystem, hsizes, hdisjoint, hholds, hload, ?_⟩
  exact
    { inPrg := by decide
      fits := by decide
      reset := by
        rw [hreset.1, hreset.2]
        rfl
      lda := (hprgByte _).trans (hcode 16 (by decide))
      value := (hprgByte _).trans (hcode 17 (by decide))
      sta := (hprgByte _).trans (hcode 18 (by decide))
      low := (hprgByte _).trans (hcode 19 (by decide))
      high := (hprgByte _).trans (hcode 20 (by decide))
      jmp := (hprgByte _).trans (hcode 21 (by decide))
      loop := by
        have hlow : prgByte rom (0x8000 + 6) = 5 := (hprgByte _).trans (hcode 22 (by decide))
        have hhigh : prgByte rom (0x8000 + 7) = 0x80 := (hprgByte _).trans (hcode 23 (by decide))
        rw [hlow, hhigh]
        rfl }

/-- The first frame, up to the end of the NMI. -/
theorem nmi_delivered_waiting : ∃ (rom : RomInes) (loaded : Console Unit)
    (s : EmulateWithCycleProcessing.State (Machine NesBus) Unit Unit),
    RomInes.parse waitingImage = some rom ∧
      Console.loadRom .apart (SystemBus.simple 16 fun _ => 0).ioDevices () rom 3
        (Console.zeroed fun i => rom.memory.getD i 0) = some (true, loaded) ∧
      loaded.Runs (fun _ _ => []) (fun _ _ => []) (.select Unit) 0 (loaded.boot .idle 0) s ∧
      nmiCalls s.1.actions = 1 ∧ Delivered 0 1 s.1.state := by
  obtain ⟨rom, loaded, hparse, hsystem, hsizes, hdisjoint, hholds, hload, he⟩ := loadRom_waiting
  have hntsc : Ntsc waitingImage := (system_parse hparse).mp hsystem
  have hfresh : (Console.zeroed fun i => rom.memory.getD i 0).Fresh := ⟨rfl, Ppu.zeroed, rfl⟩
  have hframes : Frames (φ := Unit) (fun _ _ => []) (fun (_ : Unit) _ => []) (.select Unit) loaded
      (loaded.boot .idle 0) 0 0 0 (loaded.boot .idle 0) := .boot
  obtain ⟨s, hrun, hpc, hfault, htaken⟩ := nmi_taken (fun _ _ => []) (fun _ _ => [])
    (.select Unit) hparse hntsc hfresh hsizes hdisjoint hholds hload .idle he rfl
  have hdelivered := nmi_delivered hparse hntsc hfresh hload hframes hrun (by decide) hfault
    fun c h => by rw [hpc] at h; cases h
  rw [Nat.zero_add, htaken] at hdelivered
  exact ⟨rom, loaded, s, hparse, hload, hrun, htaken, hdelivered⟩

end RetroCpu.Nes
