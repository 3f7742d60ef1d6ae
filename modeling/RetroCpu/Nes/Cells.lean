import RetroCpu.Lib.Run
import RetroCpu.Nes.Nrom

/-!
# Reads and writes on an NROM console

`Cells` is the memory of an NROM console without pages and pointers, and `Represents` says
that a console stores it.  `LoadRom` gives a console of zeroed cells, a write keeps the
relation, so every run does; `nrom_reads` reads the cells back.
-/

namespace RetroCpu.Nes

open Console

variable {γ : Type}

/-! ### What `LoadRom` leaves behind -/

/-- The page tables of a loaded ROM. -/
structure Laid (layout : HostLayout) (rom : RomInes) (n : Console γ) : Prop where
  mainMask : n.cpu.bus.memMask = 0xFFFF
  main : ∃ cpuClockSize, n.cpu.bus.memory =
    { pageShift := 10, pageSize := 0x400, pageMask := 0x3FF
      pages := fun j => (sysramCalls ++ mapperCalls rom).foldl (pageAfter layout .main j)
        (mainPages cpuClockSize j) }
  ppuMask : n.ppu.bus.memMask = 0x3FFF
  ppu : n.ppu.bus.memory =
    { pageShift := 10, pageSize := 0x400, pageMask := 0x3FF
      pages := fun j => (sysramCalls ++ mapperCalls rom).foldl (pageAfter layout .ppu j)
        (ppuPages j) }
  synced : n.ppu.bus.host = n.cpu.bus.host

/-- Where the addresses of a loaded ROM lead. -/
structure Wired (layout : HostLayout) (rom : RomInes) (n : Console γ) : Prop where
  ram : ∀ a < 0x2000, SystemBus.Backed n.cpu.bus.memory n.cpu.bus.memMask a
    (layout.sysram + a.toNat % 0x800) false
  prg : ∀ a, 0x8000 ≤ a → a < 0x10000 → SystemBus.Backed n.cpu.bus.memory n.cpu.bus.memMask a
    (layout.image + rom.prgRom + (a.toNat - 0x8000) % rom.prgRomSize.toNat) true
  chr : ∀ p < 0x2000, SystemBus.Backed n.ppu.bus.memory n.ppu.bus.memMask p
    (layout.image + rom.chrRom + p.toNat) true
  nametables : ∀ p, 0x2000 ≤ p → p < 0x4000 →
    SystemBus.Backed n.ppu.bus.memory n.ppu.bus.memMask p
      (layout.vram + nametableCell rom.vramConfig p) false

theorem and_eq_self {n : Nat} {a m : BitVec 32} (hm : m.toNat = 2 ^ n - 1) (ha : a.toNat < 2 ^ n) :
    a &&& m = a :=
  BitVec.eq_of_toNat_eq (by rw [toNat_and_mask hm, Nat.mod_eq_of_lt ha])

theorem Laid.wired {layout : HostLayout} {rom : RomInes} {n : Console γ} (hrom : NromSizes rom)
    (h : Laid layout rom n) : Wired layout rom n := by
  obtain ⟨cpuClockSize, hmain⟩ := h.main
  have hio : ∀ j, j < 8 ∨ 17 ≤ j →
      (mainPages cpuClockSize j).ioMask = 0 ∧ (mainPages cpuClockSize j).ioEq = 1 :=
    fun j hj => ⟨rfl, if_pos hj⟩
  refine ⟨?_, ?_, ?_, ?_⟩
  · intro a ha
    have hlt : a.toNat < 0x2000 := ha
    rw [hmain, h.mainMask]
    refine backed_of_mapTo rfl rfl (and_eq_self (n := 16) rfl (by omega))
      (mainPage_ram (by omega)) rfl (hio _ (by omega)) ?_
    omega
  · intro a hle ha
    have hge : 0x8000 ≤ a.toNat := hle
    have hlt : a.toNat < 0x10000 := ha
    rw [hmain, h.mainMask]
    refine backed_of_mapTo rfl rfl (and_eq_self (n := 16) rfl (by omega))
      (mainPage_prg hrom (by omega) (by omega)) rfl (hio _ (by omega)) ?_
    rcases hrom.prg with hsize | hsize
    · rw [hsize]
      show _ + (a.toNat / 0x400 - 32) % 16 * 0x400 + _ = _ + (a.toNat - 0x8000) % 0x4000
      omega
    · rw [hsize]
      show _ + (a.toNat / 0x400 - 32) % 32 * 0x400 + _ = _ + (a.toNat - 0x8000) % 0x8000
      omega
  · intro p hp
    have hlt : p.toNat < 0x2000 := hp
    rw [h.ppu, h.ppuMask]
    refine backed_of_mapTo rfl rfl (and_eq_self (n := 14) rfl (by omega))
      (ppuPage_chr (by omega)) rfl ⟨rfl, rfl⟩ ?_
    omega
  · intro p hle hp
    have hge : 0x2000 ≤ p.toNat := hle
    have hlt : p.toNat < 0x4000 := hp
    rw [h.ppu, h.ppuMask, nametableCell_eq]
    refine backed_of_mapTo rfl rfl (and_eq_self (n := 14) rfl (by omega))
      (ppuPage_nametable (by omega) (by omega)) rfl ⟨rfl, rfl⟩ ?_
    omega

structure HostLayout.Disjoint (layout : HostLayout) (size : Nat) : Prop where
  sysramVram : layout.sysram + 0x800 ≤ layout.vram ∨ layout.vram + 0x1000 ≤ layout.sysram
  sysramImage : layout.sysram + 0x800 ≤ layout.image ∨ layout.image + size ≤ layout.sysram
  vramImage : layout.vram + 0x1000 ≤ layout.image ∨ layout.image + size ≤ layout.vram

def Holds (layout : HostLayout) (rom : RomInes) (host : HostMemory) : Prop :=
  ∀ i < rom.memory.length, host (layout.image + i) = rom.memory.getD i 0

/-- The console once `LoadRom` has looked at the display. -/
def Console.clocked (n : Console γ) (system : BitVec 32) : Console γ :=
  if system = 0 then ({ n with system }).setNtsc else { n with system }

theorem Console.host_clocked (n : Console γ) (system : BitVec 32) :
    (n.clocked system).cpu.bus.host = n.cpu.bus.host := by
  unfold clocked
  split <;> rfl

section LoadRom

variable {layout : HostLayout} {devices : IODevices γ} {context : γ} {rom : RomInes} {fuel : Nat}
  {n loaded : Console γ}

theorem loadRom_eq_some
    (h : Console.loadRom layout devices context rom fuel n = some (true, loaded)) :
    rom.system ≠ 1 ∧ ∃ calls : List BusCall, Mapper0.setup rom fuel = some (true, calls) ∧
      loaded =
        (let n := (n.clocked rom.system).initBuses layout devices context
        let n := sysramCalls.foldl (perform layout) n
        let n := calls.foldl (perform layout) (n.setHost (clear layout.vram 0x1000))
        { n.setCpu (Machine.powerOn n.cpu).2 with currentRom := some rom }) := by
  have hdisplay : rom.getConfig "DISPLAY" = some rom.system := rfl
  have hmapper : rom.getConfig "MAPPER" = some (rom.mapperNum <<< 8 ||| rom.submapper) := rfl
  rw [Console.loadRom, hdisplay, hmapper] at h
  dsimp only at h
  by_cases hpal : rom.system = 1
  · rw [if_pos hpal] at h
    cases h
  · rw [if_neg hpal] at h
    by_cases hnum : (rom.mapperNum <<< 8 ||| rom.submapper) >>> 8 ≠ 0
    · rw [if_pos hnum] at h
      cases h
    · rw [if_neg hnum] at h
      cases hsetup : Mapper0.setup rom fuel with
      | none =>
        rw [hsetup] at h
        cases h
      | some r =>
        obtain ⟨ok, calls⟩ := r
        rw [hsetup] at h
        cases ok with
        | false => cases h
        | true => exact ⟨hpal, calls, rfl, (Prod.mk.inj (Option.some.inj h)).2.symm⟩

structure SameClocks (n n' : Console γ) : Prop where
  cpuClockSize : n'.cpuClockSize = n.cpuClockSize
  masterClocksPerFrame : n'.masterClocksPerFrame = n.masterClocksPerFrame
  ppuClockSize : n'.ppu.ppuClockSize = n.ppu.ppuClockSize
  lastPpuCycle : n'.ppu.lastPpuCycle = n.ppu.lastPpuCycle

theorem SameClocks.trans {n n' n'' : Console γ} (h : SameClocks n n') (h' : SameClocks n' n'') :
    SameClocks n n'' :=
  ⟨h'.cpuClockSize.trans h.cpuClockSize, h'.masterClocksPerFrame.trans h.masterClocksPerFrame,
    h'.ppuClockSize.trans h.ppuClockSize, h'.lastPpuCycle.trans h.lastPpuCycle⟩

theorem sameClocks_initBuses (layout : HostLayout) (devices : IODevices γ) (context : γ)
    (n : Console γ) :
    SameClocks n (n.initBuses layout devices context) := by
  unfold initBuses Ppu.initializePpu
  split <;> exact ⟨rfl, rfl, rfl, rfl⟩

theorem sameClocks_foldl (layout : HostLayout) (calls : List BusCall) (n : Console γ) :
    SameClocks n (calls.foldl (perform layout) n) := by
  induction calls generalizing n with
  | nil => exact ⟨rfl, rfl, rfl, rfl⟩
  | cons c calls ih =>
    refine SameClocks.trans ?_ (ih (perform layout n c))
    unfold perform
    split <;> exact ⟨rfl, rfl, rfl, rfl⟩

/-- `LoadRom` sets the clocks when it looks at the display, and not again. -/
theorem sameClocks_loadRom
    (h : Console.loadRom layout devices context rom fuel n = some (true, loaded)) :
    SameClocks (n.clocked rom.system) loaded := by
  obtain ⟨-, calls, -, rfl⟩ := loadRom_eq_some h
  have h₁ := (sameClocks_initBuses layout devices context (n.clocked rom.system)).trans
    (sameClocks_foldl layout sysramCalls _)
  have h₂ : SameClocks _ _ := sameClocks_foldl layout calls
    ((sysramCalls.foldl (perform layout)
      ((n.clocked rom.system).initBuses layout devices context)).setHost (clear layout.vram 0x1000))
  exact h₁.trans ⟨h₂.cpuClockSize, h₂.masterClocksPerFrame, h₂.ppuClockSize, h₂.lastPpuCycle⟩

/-- `LoadRom` succeeds for the ROMs of mapper 0 that are not for PAL. -/
theorem loadRom_nrom (layout : HostLayout) (devices : IODevices γ) (context : γ)
    (n : Console γ) (hrom : NromSizes rom) (hpal : rom.system ≠ 1)
    (hmapper : (rom.mapperNum <<< 8 ||| rom.submapper) >>> 8 = 0) :
    ∃ loaded, Console.loadRom layout devices context rom 3 n = some (true, loaded) := by
  have hdisplay : rom.getConfig "DISPLAY" = some rom.system := rfl
  have hnum : rom.getConfig "MAPPER" = some (rom.mapperNum <<< 8 ||| rom.submapper) := rfl
  obtain ⟨prg, hsetup, -⟩ := setup_of_sizes hrom.chr hrom.prg
  rw [Console.loadRom, hdisplay, hnum]
  dsimp only
  rw [if_neg hpal, if_neg (not_not.mpr hmapper), hsetup]
  exact ⟨_, rfl⟩

theorem bus_powerOn (m : Machine (SystemBus γ)) : ∃ t t',
    (Machine.powerOn m).2.bus = ((m.bus.readByte t 0xFFFC).bus.readByte t' 0xFFFD).bus :=
  ⟨_, _, rfl⟩

theorem bus_initializePpu (p : Ppu) (isNtsc : Bool) : (p.initializePpu isNtsc).bus = p.bus := by
  unfold Ppu.initializePpu
  cases isNtsc <;> rfl

/-- The bus of the PPU after `Init`. -/
theorem ppuBus_initBuses (n : Console γ) : (n.initBuses layout devices context).ppu.bus =
    { n.ppu.bus.init 10 14 ppuPages with
      host := clear layout.sysram 0x800 n.cpu.bus.host } := by
  have hinit : (n.initBuses layout devices context).ppu.bus =
      { (({ n.ppu with bus := n.ppu.bus.init 10 14 ppuPages } : Ppu).initializePpu
        (n.system = 0)).bus with host := clear layout.sysram 0x800 n.cpu.bus.host } := rfl
  rw [hinit, bus_initializePpu]

theorem kilobytes_initBuses (n : Console γ) : Kilobytes (n.initBuses layout devices context) where
  main := rfl
  ppu := by
    rw [ppuBus_initBuses]
    rfl

/-- The page tables after calls of `Map`. -/
structure Tables (layout : HostLayout) (calls : List BusCall) (cpuClockSize : BitVec 32)
    (n : Console γ) : Prop where
  mainMask : n.cpu.bus.memMask = 0xFFFF
  main : n.cpu.bus.memory =
    { pageShift := 10, pageSize := 0x400, pageMask := 0x3FF
      pages := fun j => calls.foldl (pageAfter layout .main j) (mainPages cpuClockSize j) }
  ppuMask : n.ppu.bus.memMask = 0x3FFF
  ppu : n.ppu.bus.memory =
    { pageShift := 10, pageSize := 0x400, pageMask := 0x3FF
      pages := fun j => calls.foldl (pageAfter layout .ppu j) (ppuPages j) }
  synced : n.ppu.bus.host = n.cpu.bus.host

/-- The console before it is powered on. -/
theorem tables_calls (layout : HostLayout) (devices : IODevices γ) (context : γ)
    (calls : List BusCall) (n₀ : Console γ) :
    let n₁ := sysramCalls.foldl (perform layout) (n₀.initBuses layout devices context)
    let n₂ := calls.foldl (perform layout) (n₁.setHost (clear layout.vram 0x1000))
    Tables layout (sysramCalls ++ calls) n₀.cpuClockSize n₂ ∧
      n₂.cpu.bus.host = clear layout.vram 0x1000 (clear layout.sysram 0x800 n₀.cpu.bus.host) := by
  intro n₁ n₂
  have h₁ : Performed layout sysramCalls (n₀.initBuses layout devices context) n₁ :=
    performed_foldl sysramCalls (kilobytes_initBuses n₀) rfl
  have hkb : Kilobytes (n₁.setHost (clear layout.vram 0x1000)) :=
    ⟨(h₁.kilobytes (kilobytes_initBuses n₀)).main, (h₁.kilobytes (kilobytes_initBuses n₀)).ppu⟩
  have h₂ : Performed layout calls (n₁.setHost (clear layout.vram 0x1000)) n₂ :=
    performed_foldl calls hkb rfl
  have hmain : (n₁.setHost (clear layout.vram 0x1000)).cpu.bus.memory = n₁.cpu.bus.memory := rfl
  have hppu : (n₁.setHost (clear layout.vram 0x1000)).ppu.bus.memory = n₁.ppu.bus.memory := rfl
  refine ⟨⟨?_, ?_, ?_, ?_, h₂.synced⟩, ?_⟩
  · rw [h₂.mainMask]
    exact h₁.mainMask
  · rw [h₂.main, hmain, h₁.main]
    simp only [List.foldl_append]
    rfl
  · rw [h₂.ppuMask]
    show n₁.ppu.bus.memMask = 0x3FFF
    rw [h₁.ppuMask, ppuBus_initBuses]
    rfl
  · rw [h₂.ppu, hppu, h₁.ppu, ppuBus_initBuses]
    simp only [List.foldl_append]
    rfl
  · rw [h₂.host]
    show clear layout.vram 0x1000 n₁.cpu.bus.host = _
    rw [h₁.host]
    rfl

/-- `PowerOn` of the CPU does not touch the page tables. -/
theorem Tables.powerOn {calls : List BusCall} {cpuClockSize : BitVec 32}
    (h : Tables layout calls cpuClockSize n) (r : Option RomInes) :
    Tables layout calls cpuClockSize
      { n.setCpu (Machine.powerOn n.cpu).2 with currentRom := r } := by
  obtain ⟨t, t', hbus⟩ := bus_powerOn n.cpu
  have hf := SystemBus.frame_readByte n.cpu.bus t 0xFFFC
  have hf' := SystemBus.frame_readByte (n.cpu.bus.readByte t 0xFFFC).bus t' 0xFFFD
  refine ⟨?_, ?_, h.ppuMask, h.ppu, rfl⟩
  · show (Machine.powerOn n.cpu).2.bus.memMask = 0xFFFF
    rw [hbus, hf'.memMask, hf.memMask]
    exact h.mainMask
  · show (Machine.powerOn n.cpu).2.bus.memory = _
    rw [hbus, hf'.memory, hf.memory]
    exact h.main

theorem Tables.laid {cpuClockSize : BitVec 32}
    (h : Tables layout (sysramCalls ++ mapperCalls rom) cpuClockSize n) : Laid layout rom n :=
  ⟨h.mainMask, ⟨_, h.main⟩, h.ppuMask, h.ppu, h.synced⟩

/-- `PowerOn` of the CPU reads its vector in PRG ROM. -/
theorem host_powerOn (hrom : NromSizes rom) (h : Laid layout rom n) :
    (Machine.powerOn n.cpu).2.bus.host = n.cpu.bus.host := by
  have hwired := h.wired hrom
  obtain ⟨t, t', hbus⟩ := bus_powerOn n.cpu
  have hf := SystemBus.frame_readByte n.cpu.bus t 0xFFFC
  have hlo := hwired.prg 0xFFFC (by decide) (by decide)
  have hhi := hwired.prg 0xFFFD (by decide) (by decide)
  rw [← hf.memory, ← hf.memMask] at hhi
  rw [hbus, (hhi.readByte t').2, (hlo.readByte t).2]

/-- **What `LoadRom` makes of the page tables and of host memory.** -/
theorem laid_loadRom (hrom : NromSizes rom)
    (h : Console.loadRom layout devices context rom fuel n = some (true, loaded)) :
    Laid layout rom loaded ∧
      loaded.cpu.bus.host =
        clear layout.vram 0x1000 (clear layout.sysram 0x800 n.cpu.bus.host) := by
  obtain ⟨-, calls, hsetup, rfl⟩ := loadRom_eq_some h
  obtain rfl : calls = mapperCalls rom := (Prod.mk.inj (hrom.setup hsetup)).2
  obtain ⟨htables, hcalls⟩ :=
    tables_calls layout devices context (mapperCalls rom) (n.clocked rom.system)
  refine ⟨(htables.powerOn (some rom)).laid, (host_powerOn hrom htables.laid).trans ?_⟩
  rw [hcalls, n.host_clocked]

end LoadRom

/-! ### Cells -/

/-- The memory of an NROM console: its RAM and the name tables of the mapper. -/
structure Cells where
  ram : Nat → Byte
  nametables : Nat → Byte

def Cells.write (config : VramConfig) (c : Cells) : Write → Cells
  | .main a v =>
    if a < 0x2000 then { c with ram := Function.update c.ram (a.toNat % 0x800) v } else c
  | .ppu p v =>
    let p := p &&& 0x3FFF
    if 0x2000 ≤ p ∧ p < 0x3F00 then
      { c with nametables := Function.update c.nametables (nametableCell config p) v }
    else c

/-- A write through the CPU's bus goes to RAM or to ROM. -/
def Memory : Write → Prop
  | .main a _ => a < 0x2000 ∨ 0x8000 ≤ a ∧ a < 0x10000
  | .ppu _ _ => True

structure Represents (layout : HostLayout) (rom : RomInes) (n : Console γ) (c : Cells) : Prop
    extends Laid layout rom n where
  ram : ∀ i < 0x800, n.cpu.bus.host (layout.sysram + i) = c.ram i
  nametables : ∀ i < 0x1000, n.cpu.bus.host (layout.vram + i) = c.nametables i
  image : Holds layout rom n.cpu.bus.host

theorem nametableCell_lt (config : VramConfig) (p : CpuAddr) : nametableCell config p < 0x1000 := by
  have hpage : nametablePage config (p.toNat / 0x400) < 4 := by
    cases config with
    | verticalMirror =>
      show p.toNat / 0x400 % 2 < 4
      omega
    | horizontalMirror =>
      show p.toNat / 0x400 / 2 % 2 < 4
      omega
    | quadScreen =>
      show p.toNat / 0x400 % 4 < 4
      omega
  rw [nametableCell_eq]
  omega

section Step

variable {layout : HostLayout} {rom : RomInes} {n : Console γ} {c : Cells}

theorem represents_loaded (hdisjoint : layout.Disjoint rom.memory.length) {host : HostMemory}
    (himage : Holds layout rom host) (hlaid : Laid layout rom n)
    (hhost : n.cpu.bus.host = clear layout.vram 0x1000 (clear layout.sysram 0x800 host)) :
    Represents layout rom n ⟨fun _ => 0, fun _ => 0⟩ where
  toLaid := hlaid
  ram := by
    intro i hi
    have hsysram : layout.sysram ≤ layout.sysram + i ∧
        layout.sysram + i < layout.sysram + 0x800 := by omega
    simp [hhost, clear, hsysram]
  nametables := by
    intro i hi
    have hvram : layout.vram ≤ layout.vram + i ∧ layout.vram + i < layout.vram + 0x1000 := by omega
    simp [hhost, clear, hvram]
  image := by
    intro i hi
    have hvram := hdisjoint.vramImage
    have hsysram := hdisjoint.sysramImage
    rw [hhost, clear, if_neg (by omega), clear, if_neg (by omega)]
    exact himage i hi

variable {n' : Console γ} {k : Nat} {v : Byte}

theorem Represents.keep (h : Represents layout rom n c) (hlaid : Laid layout rom n')
    (hhost : n'.cpu.bus.host = n.cpu.bus.host) : Represents layout rom n' c := by
  refine ⟨hlaid, ?_, ?_, ?_⟩
  · rw [hhost]
    exact h.ram
  · rw [hhost]
    exact h.nametables
  · rw [hhost]
    exact h.image

theorem Represents.storeRam (hdisjoint : layout.Disjoint rom.memory.length)
    (h : Represents layout rom n c) (hlaid : Laid layout rom n') (hk : k < 0x800)
    (hhost : n'.cpu.bus.host = Function.update n.cpu.bus.host (layout.sysram + k) v) :
    Represents layout rom n' { c with ram := Function.update c.ram k v } := by
  have hvram := hdisjoint.sysramVram
  have himage := hdisjoint.sysramImage
  refine ⟨hlaid, ?_, ?_, ?_⟩
  · intro i hi
    rw [hhost]
    by_cases hik : i = k
    · subst hik
      simp
    · rw [Function.update_of_ne (by omega)]
      exact (h.ram i hi).trans (Function.update_of_ne hik v c.ram).symm
  · intro i hi
    rw [hhost, Function.update_of_ne (by omega)]
    exact h.nametables i hi
  · intro i hi
    rw [hhost, Function.update_of_ne (by omega)]
    exact h.image i hi

theorem Represents.storeNametable (hdisjoint : layout.Disjoint rom.memory.length)
    (h : Represents layout rom n c) (hlaid : Laid layout rom n') (hk : k < 0x1000)
    (hhost : n'.cpu.bus.host = Function.update n.cpu.bus.host (layout.vram + k) v) :
    Represents layout rom n' { c with nametables := Function.update c.nametables k v } := by
  have hsysram := hdisjoint.sysramVram
  have himage := hdisjoint.vramImage
  refine ⟨hlaid, ?_, ?_, ?_⟩
  · intro i hi
    rw [hhost, Function.update_of_ne (by omega)]
    exact h.ram i hi
  · intro i hi
    rw [hhost]
    by_cases hik : i = k
    · subst hik
      simp
    · rw [Function.update_of_ne (by omega)]
      exact (h.nametables i hi).trans (Function.update_of_ne hik v c.nametables).symm
  · intro i hi
    rw [hhost, Function.update_of_ne (by omega)]
    exact h.image i hi

/-- A write through the CPU's bus. -/
theorem Represents.writeMain (hrom : NromSizes rom) (hdisjoint : layout.Disjoint rom.memory.length)
    (h : Represents layout rom n c) {a : CpuAddr} (ha : a < 0x2000 ∨ 0x8000 ≤ a ∧ a < 0x10000) :
    Represents layout rom (n.write (.main a v)) (c.write rom.vramConfig (.main a v)) := by
  have hf := SystemBus.frame_writeByte n.cpu.bus n.cpu.cycle a v
  have hlaid : Laid layout rom (n.write (.main a v)) := by
    refine ⟨hf.memMask.trans h.mainMask, ?_, h.ppuMask, h.ppu, rfl⟩
    obtain ⟨cpuClockSize, hmain⟩ := h.main
    exact ⟨cpuClockSize, hf.memory.trans hmain⟩
  unfold Cells.write
  dsimp only
  rcases ha with ha | ⟨hle, hlt⟩
  · rw [if_pos ha]
    exact h.storeRam hdisjoint hlaid (Nat.mod_lt _ (by decide))
      (((h.wired hrom).ram a ha).writeByte n.cpu.cycle v)
  · have hnot : ¬a < 0x2000 := by bv_omega
    rw [if_neg hnot]
    exact h.keep hlaid (((h.wired hrom).prg a hle hlt).writeByte n.cpu.cycle v)

/-- A write through the PPU's bus. -/
theorem Represents.writePpu (hrom : NromSizes rom) (hdisjoint : layout.Disjoint rom.memory.length)
    (h : Represents layout rom n c) (p : CpuAddr) :
    Represents layout rom (n.write (.ppu p v)) (c.write rom.vramConfig (.ppu p v)) := by
  have hp : (p &&& 0x3FFF).toNat < 0x4000 := by
    rw [toNat_and_mask (n := 14) (by decide)]
    exact Nat.mod_lt _ (by decide)
  have hwrite : n.write (.ppu p v) = n.setPpu (n.ppu.write p v) := rfl
  rw [hwrite, Ppu.write]
  unfold Cells.write
  dsimp only
  generalize p &&& 0x3FFF = p at hp ⊢
  by_cases hpalette : 0x3F00 ≤ p
  · have hnot : ¬(0x2000 ≤ p ∧ p < 0x3F00) := fun hand => absurd hand.2 (by bv_omega)
    rw [if_pos hpalette, if_neg hnot]
    exact h.keep ⟨h.mainMask, h.main, h.ppuMask, h.ppu, rfl⟩ h.synced
  · have hf := SystemBus.frame_writeByte n.ppu.bus 0 p v
    have hlaid : Laid layout rom (n.setPpu (n.ppu.writeByte p v)) :=
      ⟨h.mainMask, h.main, hf.memMask.trans h.ppuMask, hf.memory.trans h.ppu, rfl⟩
    rw [if_neg hpalette]
    by_cases hchr : p < 0x2000
    · have hnot : ¬(0x2000 ≤ p ∧ p < 0x3F00) := fun hand => absurd hand.1 (by bv_omega)
      rw [if_neg hnot]
      exact h.keep hlaid ((((h.wired hrom).chr p hchr).writeByte 0 v).trans h.synced)
    · have hle : 0x2000 ≤ p := by bv_omega
      have hlt : p < 0x3F00 := by bv_omega
      have hhost := ((h.wired hrom).nametables p hle (by bv_omega)).writeByte 0 v
      rw [h.synced] at hhost
      rw [if_pos ⟨hle, hlt⟩]
      exact h.storeNametable hdisjoint hlaid (nametableCell_lt _ _) hhost

/-- **A write keeps the cells.** -/
theorem Represents.write (hrom : NromSizes rom) (hdisjoint : layout.Disjoint rom.memory.length)
    (h : Represents layout rom n c) {w : Write} (hw : Memory w) :
    Represents layout rom (n.write w) (c.write rom.vramConfig w) := by
  cases w with
  | main a v => exact h.writeMain hrom hdisjoint hw
  | ppu p v => exact h.writePpu hrom hdisjoint p

/-- **And so does a run of writes.** -/
theorem Represents.foldl (hrom : NromSizes rom) (hdisjoint : layout.Disjoint rom.memory.length)
    (ws : List Write) (hws : ∀ w ∈ ws, Memory w) (h : Represents layout rom n c) :
    Represents layout rom (ws.foldl Console.write n) (ws.foldl (Cells.write rom.vramConfig) c) := by
  induction ws generalizing n c with
  | nil => exact h
  | cons w ws ih =>
    exact ih (fun w' hw' => hws w' (List.mem_cons_of_mem w hw'))
      (h.write hrom hdisjoint (hws w List.mem_cons_self))

end Step

/-! ### Reads -/

/-- The byte that a write stores in a RAM cell. -/
def ramWrite (i : Nat) : Write → Option Byte
  | .main a v => if a < 0x2000 ∧ a.toNat % 0x800 = i then some v else none
  | .ppu _ _ => none

def nametableWrite (config : VramConfig) (i : Nat) : Write → Option Byte
  | .main _ _ => none
  | .ppu p v =>
    let p := p &&& 0x3FFF
    if 0x2000 ≤ p ∧ p < 0x3F00 ∧ nametableCell config p = i then some v else none

theorem ram_write (config : VramConfig) (i : Nat) (c : Cells) (w : Write) :
    (c.write config w).ram i = (ramWrite i w).getD (c.ram i) := by
  cases w with
  | main a v =>
    unfold Cells.write ramWrite
    dsimp only
    by_cases ha : a < 0x2000
    · rw [if_pos ha]
      by_cases hi : a.toNat % 0x800 = i
      · rw [if_pos ⟨ha, hi⟩, ← hi]
        simp
      · rw [if_neg fun h => hi h.2]
        exact Function.update_of_ne (Ne.symm hi) v c.ram
    · rw [if_neg ha, if_neg fun h => ha h.1]
      rfl
  | ppu p v =>
    unfold Cells.write
    dsimp only
    split <;> rfl

theorem nametables_write (config : VramConfig) (i : Nat) (c : Cells) (w : Write) :
    (c.write config w).nametables i = (nametableWrite config i w).getD (c.nametables i) := by
  cases w with
  | main a v =>
    unfold Cells.write
    dsimp only
    split <;> rfl
  | ppu p v =>
    unfold Cells.write nametableWrite
    dsimp only
    by_cases hp : 0x2000 ≤ p &&& 0x3FFF ∧ p &&& 0x3FFF < 0x3F00
    · rw [if_pos hp]
      by_cases hi : nametableCell config (p &&& 0x3FFF) = i
      · rw [if_pos ⟨hp.1, hp.2, hi⟩, ← hi]
        simp
      · rw [if_neg fun h => hi h.2.2]
        exact Function.update_of_ne (Ne.symm hi) v c.nametables
    · rw [if_neg hp, if_neg fun h => hp ⟨h.1, h.2.1⟩]
      rfl

/-- What a console gives back after a run of writes. -/
structure NromReads (rom : RomInes) (ws : List Write) (n : Console γ) : Prop where
  ram : ∀ a < 0x2000, n.readMain a = (ws.filterMap (ramWrite (a.toNat % 0x800))).getLastD 0
  prg : ∀ a, 0x8000 ≤ a → a < 0x10000 → n.readMain a =
    rom.memory.getD (rom.prgRom + (a.toNat - 0x8000) % rom.prgRomSize.toNat) 0
  chr : ∀ p < 0x2000, n.readPpu p = rom.memory.getD (rom.chrRom + p.toNat) 0
  nametables : ∀ p, 0x2000 ≤ p → p < 0x3F00 → n.readPpu p =
    (ws.filterMap (nametableWrite rom.vramConfig (nametableCell rom.vramConfig p))).getLastD 0

theorem readPpu_of_lt (n : Console γ) {p : CpuAddr} (hp : p < 0x3F00) :
    n.readPpu p = (n.ppu.bus.readByte 0 p).data := by
  have hmask : p &&& 0x3FFF = p := by
    have hlt : p.toNat < 0x3F00 := hp
    exact and_eq_self (n := 14) (by decide) (by omega)
  have hnot : ¬0x3F00 ≤ p := by bv_omega
  rw [readPpu, Ppu.read, hmask, if_neg hnot]
  rfl

theorem Represents.reads {layout : HostLayout} {rom : RomInes} {n : Console γ} {ws : List Write}
    (hrom : NromSizes rom)
    (h : Represents layout rom n
      (ws.foldl (Cells.write rom.vramConfig) ⟨fun _ => 0, fun _ => 0⟩)) : NromReads rom ws n := by
  have hwired := h.wired hrom
  have hprgFits : rom.prgRom + rom.prgRomSize.toNat ≤ rom.memory.length := hrom.prgFits
  have hchrFits : rom.chrRom + rom.chrRomSize.toNat ≤ rom.memory.length := hrom.chrFits
  refine ⟨?_, ?_, ?_, ?_⟩
  · intro a ha
    rw [readMain, ((hwired.ram a ha).readByte _).1, h.ram _ (Nat.mod_lt _ (by decide))]
    exact foldl_eq_getLastD (fun c : Cells => c.ram (a.toNat % 0x800)) (ram_write _ _) ws _
  · intro a hle hlt
    have hpos : 0 < rom.prgRomSize.toNat := by
      rcases hrom.prg with hsize | hsize <;> rw [hsize] <;> decide
    have hmod := Nat.mod_lt (a.toNat - 0x8000) hpos
    rw [readMain, ((hwired.prg a hle hlt).readByte _).1, Nat.add_assoc]
    exact h.image _ (by omega)
  · intro p hp
    have hlt : p.toNat < 0x2000 := hp
    have hsize : rom.chrRomSize.toNat = 0x2000 := by
      rw [hrom.chr]
      rfl
    rw [readPpu_of_lt n (by bv_omega), ((hwired.chr p hp).readByte _).1, h.synced, Nat.add_assoc]
    exact h.image _ (by omega)
  · intro p hle hlt
    rw [readPpu_of_lt n hlt, ((hwired.nametables p hle (by bv_omega)).readByte _).1, h.synced,
      h.nametables _ (nametableCell_lt _ _)]
    exact foldl_eq_getLastD (fun c : Cells => c.nametables (nametableCell rom.vramConfig p))
      (nametables_write _ _) ws _

/-- **After any writes to RAM, ROM and the PPU, an NROM console gives back the last byte
written to a RAM or name table cell, and the bytes of the ROM.** -/
theorem nrom_reads (layout : HostLayout) (devices : IODevices γ) (context : γ) (rom : RomInes)
    (fuel : Nat) (n loaded : Console γ) (ws : List Write) (hrom : NromSizes rom)
    (hdisjoint : layout.Disjoint rom.memory.length) (himage : Holds layout rom n.cpu.bus.host)
    (hload : Console.loadRom layout devices context rom fuel n = some (true, loaded))
    (hws : ∀ w ∈ ws, Memory w) : NromReads rom ws (ws.foldl Console.write loaded) := by
  obtain ⟨hlaid, hhost⟩ := laid_loadRom hrom hload
  have hstart := represents_loaded hdisjoint himage hlaid hhost
  exact (hstart.foldl hrom hdisjoint ws hws).reads hrom

def Console.zeroed (host : HostMemory) : Console Unit where
  cpu := ⟨default, 0, 0, SystemBus.simple 16 host⟩
  ppu := Ppu.zeroed
  system := 0
  masterClocksPerFrame := 0
  cpuClockSize := 0
  currentRom := none

/-- A file that holds a header, one bank of PRG ROM and one of CHR ROM. -/
theorem nromSizes_of_one_bank {rom : RomInes} (hchr : rom.chrRomSize = 0x2000)
    (hprg : rom.prgRomSize = 0x4000) (hprgAt : rom.prgRom = 16) (hchrAt : rom.chrRom = 16 + 0x4000)
    (hlength : rom.memory.length = 16 + 0x6000) : NromSizes rom := by
  refine ⟨hchr, Or.inl hprg, ?_, ?_⟩
  · show rom.chrRom + rom.chrRomSize.toNat ≤ rom.memory.length
    rw [hchrAt, hchr, hlength]
    decide
  · show rom.prgRom + rom.prgRomSize.toNat ≤ rom.memory.length
    rw [hprgAt, hprg, hlength]
    decide

/-- A ROM of zeros on a console that is written to twice. -/
theorem nrom_reads_zeros : ∃ (rom : RomInes) (loaded : Console Unit),
    RomInes.parse (inesMagic ++ 1 :: 1 :: List.replicate 24586 0) = some rom ∧
      Console.loadRom ⟨0x10000, 0x20000, 0, 0x30000⟩ (SystemBus.simple 16 fun _ => 0).ioDevices ()
        rom 3 (Console.zeroed fun i => rom.memory.getD i 0) = some (true, loaded) ∧
      NromReads rom [.main 0x801 7, .ppu 0x2400 9]
        ([Write.main 0x801 7, .ppu 0x2400 9].foldl Console.write loaded) := by
  have hparse : ∃ rom, RomInes.parse (inesMagic ++ 1 :: 1 :: List.replicate 24586 0) = some rom ∧
      rom.chrRomSize = 0x2000 ∧ rom.prgRomSize = 0x4000 ∧ rom.system = 0 ∧ rom.mapperNum = 0 ∧
      rom.submapper = 0 ∧ rom.prgRom = 16 ∧ rom.chrRom = 16 + 0x4000 ∧
      rom.memory = inesMagic ++ 1 :: 1 :: List.replicate 24586 0 :=
    ⟨_, rfl, rfl, rfl, rfl, rfl, rfl, rfl, rfl, rfl⟩
  obtain ⟨rom, hrom, hchr, hprg, hsystem, hmapper, hsubmapper, hprgAt, hchrAt, hmemory⟩ := hparse
  have hlength : rom.memory.length = 16 + 0x6000 := by
    rw [hmemory, List.length_append, List.length_cons, List.length_cons, List.length_replicate]
    rfl
  have hsizes : NromSizes rom := nromSizes_of_one_bank hchr hprg hprgAt hchrAt hlength
  let layout : HostLayout := ⟨0x10000, 0x20000, 0, 0x30000⟩
  let n : Console Unit := Console.zeroed fun i => rom.memory.getD i 0
  have hdisjoint : layout.Disjoint rom.memory.length := by
    rw [hlength]
    exact ⟨by decide, by decide, by decide⟩
  have himage : Holds layout rom n.cpu.bus.host := by
    intro i _
    show rom.memory.getD (0 + i) 0 = _
    rw [Nat.zero_add]
  obtain ⟨loaded, hload⟩ := loadRom_nrom layout n.cpu.bus.ioDevices () n hsizes
    (by rw [hsystem]; decide) (by rw [hmapper, hsubmapper]; decide)
  exact ⟨rom, loaded, hrom, hload, nrom_reads layout n.cpu.bus.ioDevices () rom 3 n loaded _
    hsizes hdisjoint himage hload (by simp [Memory])⟩

end RetroCpu.Nes
