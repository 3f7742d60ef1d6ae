import Mathlib.Data.Nat.Bitwise
import Mathlib.Tactic.IntervalCases
import RetroCpu.Nes.Console

/-!
# The memory of an NROM console

What a program sees of the memory behind the page tables that `LoadRom` and mapper 0 make:
2 kB of RAM four times over, PRG ROM once or twice, CHR ROM, and the name tables folded
as the wiring of the cartridge says.

`Cells` is that memory without pages and pointers.  `Represents` connects the console with
it, and every write keeps the connection.
-/

namespace RetroCpu.Nes

variable {γ : Type}

/-- The place of a name table address in the memory of the mapper. -/
def nametableCell (config : VramConfig) (p : CpuAddr) : Nat :=
  match config with
  | .verticalMirror => p.toNat % 0x800
  | .horizontalMirror => ((p.toNat >>> 1) &&& 0x400) ||| (p.toNat &&& 0x3FF)
  | .quadScreen => p.toNat % 0x1000

/-! ### The page tables -/

def pageAfter (layout : HostLayout) (bus : MapBus) (j : Nat) (p : Page) (c : BusCall) : Page :=
  if c.bus = bus ∧ c.call.addr.toNat / 0x400 ≤ j ∧
      j < c.call.addr.toNat / 0x400 + c.call.len.toNat / 0x400 then
    SystemBus.mapTo p
      (layout.pointer c.call.ptr + (j - c.call.addr.toNat / 0x400) * 0x400) c.call.readonly
  else p

structure Performed (layout : HostLayout) (calls : List BusCall) (n n' : Console γ) : Prop where
  host : n'.cpu.bus.host = n.cpu.bus.host
  synced : n'.ppu.bus.host = n'.cpu.bus.host
  mainMask : n'.cpu.bus.memMask = n.cpu.bus.memMask
  ppuMask : n'.ppu.bus.memMask = n.ppu.bus.memMask
  main : n'.cpu.bus.memory =
    { n.cpu.bus.memory with
      pages := fun j => calls.foldl (pageAfter layout .main j) (n.cpu.bus.memory.pages j) }
  ppu : n'.ppu.bus.memory =
    { n.ppu.bus.memory with
      pages := fun j => calls.foldl (pageAfter layout .ppu j) (n.ppu.bus.memory.pages j) }

structure Kilobytes (n : Console γ) : Prop where
  main : n.cpu.bus.memory.pageSize = 0x400
  ppu : n.ppu.bus.memory.pageSize = 0x400

theorem memory_map {δ : Type} {s : SystemBus δ} (hs : s.memory.pageSize = 0x400)
    (layout : HostLayout) (c : BusCall) :
    (s.map c.call.addr (layout.pointer c.call.ptr) c.call.len c.call.readonly).memory =
      { s.memory with pages := fun j => pageAfter layout c.bus j (s.memory.pages j) c } := by
  have hfirst : (c.call.addr / 0x400).toNat = c.call.addr.toNat / 0x400 := BitVec.toNat_udiv
  have hlen : (c.call.len / 0x400).toNat = c.call.len.toNat / 0x400 := BitVec.toNat_udiv
  rw [SystemBus.map_eq, hs, hfirst, hlen]
  simp only [pageAfter, true_and]
  rfl

theorem performed_perform {layout : HostLayout} {n : Console γ} (hn : Kilobytes n)
    (hsynced : n.ppu.bus.host = n.cpu.bus.host) (c : BusCall) :
    Performed layout [c] n (Console.perform layout n c) := by
  have hother : ∀ bus, c.bus ≠ bus → ∀ j p, pageAfter layout bus j p c = p := by
    intro bus hbus j p
    exact if_neg fun h => hbus h.1
  unfold Console.perform
  split
  · rename_i hbus
    refine ⟨rfl, rfl, rfl, rfl, ?_, ?_⟩
    · have hmap := memory_map hn.main layout c
      rw [hbus] at hmap
      exact hmap
    · simp only [List.foldl_cons, List.foldl_nil, hother .ppu (by rw [hbus]; decide)]
      rfl
  · rename_i hbus
    refine ⟨hsynced, rfl, rfl, rfl, ?_, ?_⟩
    · simp only [List.foldl_cons, List.foldl_nil, hother .main (by rw [hbus]; decide)]
      rfl
    · have hmap := memory_map hn.ppu layout c
      rw [hbus] at hmap
      exact hmap

theorem Performed.kilobytes {layout : HostLayout} {calls : List BusCall} {n n' : Console γ}
    (h : Performed layout calls n n') (hn : Kilobytes n) : Kilobytes n' where
  main := by
    rw [h.main]
    exact hn.main
  ppu := by
    rw [h.ppu]
    exact hn.ppu

theorem Performed.trans {layout : HostLayout} {calls calls' : List BusCall}
    {n n' n'' : Console γ} (h : Performed layout calls n n')
    (h' : Performed layout calls' n' n'') : Performed layout (calls ++ calls') n n'' where
  host := h'.host.trans h.host
  synced := h'.synced
  mainMask := h'.mainMask.trans h.mainMask
  ppuMask := h'.ppuMask.trans h.ppuMask
  main := by simp only [h'.main, h.main, List.foldl_append]
  ppu := by simp only [h'.ppu, h.ppu, List.foldl_append]

theorem performed_foldl {layout : HostLayout} (calls : List BusCall) {n : Console γ}
    (hn : Kilobytes n) (hsynced : n.ppu.bus.host = n.cpu.bus.host) :
    Performed layout calls n (calls.foldl (Console.perform layout) n) := by
  induction calls generalizing n with
  | nil => exact ⟨rfl, hsynced, rfl, rfl, rfl, rfl⟩
  | cons c calls ih =>
    have hc : Performed layout [c] n (Console.perform layout n c) :=
      performed_perform hn hsynced c
    exact hc.trans (ih (hc.kilobytes hn) hc.synced)

/-! ### Pages to addresses -/

theorem toNat_and_mask {n : Nat} {m a : BitVec 32} (hm : m.toNat = 2 ^ n - 1) :
    (a &&& m).toNat = a.toNat % 2 ^ n := by
  rw [BitVec.toNat_and, hm, Nat.and_two_pow_sub_one_eq_mod]

/-- An address on a page that `Map` has put at `base`. -/
theorem backed_of_mapTo {memory : MemoryMap} {memMask : BitVec 32} {a : CpuAddr} {p : Page}
    {n base : Nat} {readonly : Bool} (hshift : memory.pageShift = 10)
    (hoffset : memory.pageMask = 0x3FF) (hmask : a &&& memMask = a)
    (hpage : memory.pages (a.toNat / 0x400) = SystemBus.mapTo p base readonly)
    (hflags : p.flags = 0) (hio : p.ioMask = 0 ∧ p.ioEq = 1)
    (hn : base + a.toNat % 0x400 = n) : SystemBus.Backed memory memMask a n readonly := by
  have hat : memory.page a = SystemBus.mapTo p base readonly := by
    rw [MemoryMap.page, hshift, ← hpage]
    show memory.pages (a.toNat >>> 10) = _
    rw [Nat.shiftRight_eq_div_pow]
  have hoff : memory.offset a = a.toNat % 0x400 := by
    rw [MemoryMap.offset, hoffset]
    exact toNat_and_mask (n := 10) (by decide)
  refine ⟨?_, ?_, ?_⟩
  · rw [hmask, hat]
    exact Page.isIo_eq_false hio.1 hio.2 a
  · rw [hmask, hat, hoff]
    exact ⟨base, rfl, hn⟩
  · rw [hmask, hat]
    show ((if readonly then p.flags ||| Page.kReadOnly else p.flags) &&& Page.kReadOnly != 0) = _
    rw [hflags]
    cases readonly <;> decide

/-- The name tables of the horizontal wiring, by page. -/
theorem nametableCell_horizontal (p : CpuAddr) :
    nametableCell .horizontalMirror p = p.toNat / 0x800 % 2 * 0x400 + p.toNat % 0x400 := by
  have hlow : p.toNat &&& 0x3FF = p.toNat % 0x400 := Nat.and_two_pow_sub_one_eq_mod _ 10
  have hhigh : (p.toNat >>> 1) &&& 0x400 = p.toNat / 0x800 % 2 * 2 ^ 10 := by
    have h := Nat.and_two_pow (p.toNat >>> 1) 10
    rw [Nat.toNat_testBit, Nat.shiftRight_eq_div_pow, Nat.div_div_eq_div_mul] at h
    exact h
  have hlt : p.toNat % 0x400 < 2 ^ 10 := Nat.mod_lt _ (by decide)
  show ((p.toNat >>> 1) &&& 0x400) ||| (p.toNat &&& 0x3FF) = _
  rw [hlow, hhigh, ← Nat.shiftLeft_eq, ← Nat.shiftLeft_add_eq_or_of_lt hlt, Nat.shiftLeft_eq]

/-! ### The calls of `LoadRom` -/

def prgCalls (rom : RomInes) : List BusCall :=
  if rom.prgRomSize = 0x4000 then
    [⟨.main, 0x8000, .region (.image rom.prgRom), 0x4000, true⟩,
      ⟨.main, 0xC000, .region (.image rom.prgRom), 0x4000, true⟩]
  else [⟨.main, 0x8000, .region (.image rom.prgRom), 0x8000, true⟩]

def mapperCalls (rom : RomInes) : List BusCall :=
  vramCalls rom.vramConfig.toU32 ++ [⟨.ppu, 0, .region (.image rom.chrRom), 0x2000, true⟩] ++
    prgCalls rom

theorem mirrorLoop_unique {bus : MapBus} {ptr : MapSource} {size : BitVec 32} {limit : CpuAddr}
    {fuel fuel' : Nat} {addr : CpuAddr} {calls calls' : List BusCall}
    (h : mirrorLoop bus ptr size limit fuel addr = some calls)
    (h' : mirrorLoop bus ptr size limit fuel' addr = some calls') : calls = calls' := by
  induction fuel generalizing fuel' addr calls calls' with
  | zero => cases h
  | succ fuel ih =>
    cases fuel' with
    | zero => cases h'
    | succ fuel' =>
      rw [mirrorLoop] at h h'
      by_cases hlt : addr < limit
      · rw [if_pos hlt] at h h'
        obtain ⟨rest, hrest, rfl⟩ := Option.map_eq_some_iff.mp h
        obtain ⟨rest', hrest', rfl⟩ := Option.map_eq_some_iff.mp h'
        rw [ih hrest hrest']
      · rw [if_neg hlt] at h h'
        rw [← Option.some.inj h, ← Option.some.inj h']

/-- A ROM of 16 or 32 kB PRG and 8 kB CHR whose regions are in its image. -/
structure NromSizes (rom : RomInes) : Prop where
  chr : rom.chrRomSize = 0x2000
  prg : rom.prgRomSize = 0x4000 ∨ rom.prgRomSize = 0x8000
  chrFits : InImage rom.memory (rom.getRegion "CHR ROM")
  prgFits : InImage rom.memory (rom.getRegion "PRG ROM")

theorem NromSizes.setup {rom : RomInes} (h : NromSizes rom) {fuel : Nat} {r : Bool × List BusCall}
    (hr : Mapper0.setup rom fuel = some r) : r = (true, mapperCalls rom) := by
  obtain ⟨chr, prg, hchr, hprg, rfl⟩ := setup_eq_some hr
  obtain ⟨prg', hsetup, hprg'⟩ := setup_of_sizes h.chr h.prg
  obtain ⟨chr₃, prg₃, hchr₃, hprg₃, heq⟩ := setup_eq_some hsetup
  rw [mirrorLoop_unique hchr hchr₃, mirrorLoop_unique hprg hprg₃, ← heq, hprg']
  rfl

/-! ### The pages of a loaded ROM -/

section Pages

variable {layout : HostLayout} {rom : RomInes} {j : Nat} {p : Page}

theorem foldl_pageAfter_eq_self {bus : MapBus} {calls : List BusCall}
    (h : ∀ c ∈ calls, c.bus = bus →
      ¬(c.call.addr.toNat / 0x400 ≤ j ∧ j < c.call.addr.toNat / 0x400 + c.call.len.toNat / 0x400)) :
    calls.foldl (pageAfter layout bus j) p = p := by
  induction calls with
  | nil => rfl
  | cons c calls ih =>
    have hc : pageAfter layout bus j p c = p :=
      if_neg fun hcover => h c List.mem_cons_self hcover.1 hcover.2
    rw [List.foldl_cons, hc]
    exact ih fun c' hc' => h c' (List.mem_cons_of_mem c hc')

/-- The calls for one bus do not change the pages of the other. -/
theorem foldl_pageAfter_of_bus {bus : MapBus} {calls : List BusCall}
    (h : ∀ c ∈ calls, c.bus ≠ bus) : calls.foldl (pageAfter layout bus j) p = p :=
  foldl_pageAfter_eq_self fun c hc hbus => absurd hbus (h c hc)

theorem bus_vramCalls : ∀ c ∈ vramCalls rom.vramConfig.toU32, c.bus ≠ .main := by
  intro c hc
  rw [(vramCalls_spec _ c hc).1]
  decide

theorem bus_prgCalls : ∀ c ∈ prgCalls rom, c.bus ≠ .ppu := by
  unfold prgCalls
  split
  · simp
  · simp

theorem bus_sysramCalls : ∀ c ∈ Console.sysramCalls, c.bus ≠ .ppu := by decide

/-- The CPU's pages below the registers. -/
theorem mainPage_ram (hj : j < 8) :
    (Console.sysramCalls ++ mapperCalls rom).foldl (pageAfter layout .main j) p =
      SystemBus.mapTo p (layout.sysram + j % 2 * 0x400) false := by
  have haddr : ∀ c ∈ prgCalls rom, 32 ≤ c.call.addr.toNat / 0x400 := by
    unfold prgCalls
    split
    · simp
    · simp
  have hprg : ∀ q, (prgCalls rom).foldl (pageAfter layout .main j) q = q := by
    intro q
    apply foldl_pageAfter_eq_self
    intro c hc _ hcover
    have hle := haddr c hc
    omega
  rw [mapperCalls, List.foldl_append, List.foldl_append, List.foldl_append, hprg,
    foldl_pageAfter_of_bus (by simp), foldl_pageAfter_of_bus bus_vramCalls]
  interval_cases j <;> rfl

/-- The CPU's pages of PRG ROM. -/
theorem mainPage_prg (hrom : NromSizes rom) (hlo : 32 ≤ j) (hhi : j < 64) :
    (Console.sysramCalls ++ mapperCalls rom).foldl (pageAfter layout .main j) p =
      SystemBus.mapTo p
        (layout.image + rom.prgRom + (j - 32) % (rom.prgRomSize.toNat / 0x400) * 0x400) true := by
  have hend : ∀ c ∈ Console.sysramCalls,
      c.call.addr.toNat / 0x400 + c.call.len.toNat / 0x400 ≤ 8 := by decide
  have hram : ∀ q, Console.sysramCalls.foldl (pageAfter layout .main j) q = q := by
    intro q
    apply foldl_pageAfter_eq_self
    intro c hc _ hcover
    have hle := hend c hc
    omega
  have hchr : ∀ q, [(⟨.ppu, 0, .region (.image rom.chrRom), 0x2000, true⟩ : BusCall)].foldl
      (pageAfter layout .main j) q = q := fun q => foldl_pageAfter_of_bus (by simp)
  rw [mapperCalls, List.foldl_append, List.foldl_append, List.foldl_append, hram,
    foldl_pageAfter_of_bus bus_vramCalls, hchr, prgCalls]
  rcases hrom.prg with hsize | hsize
  · rw [if_pos hsize, hsize]
    rcases Nat.lt_or_ge j 48 with hj | hj
    · have hmod : (j - 32) % 16 = j - 32 := Nat.mod_eq_of_lt (by omega)
      have hfirst : 32 ≤ j ∧ j < 32 + 16 := by omega
      have hsecond : ¬(48 ≤ j ∧ j < 48 + 16) := by omega
      simp [pageAfter, HostLayout.pointer, hmod, hfirst, hsecond]
    · have hmod : (j - 32) % 16 = j - 48 := by omega
      have hfirst : ¬(32 ≤ j ∧ j < 32 + 16) := by omega
      have hsecond : 48 ≤ j ∧ j < 48 + 16 := by omega
      simp [pageAfter, HostLayout.pointer, hmod, hfirst, hsecond]
  · rw [if_neg (by rw [hsize]; decide), hsize]
    have hmod : (j - 32) % 32 = j - 32 := Nat.mod_eq_of_lt (by omega)
    have hfirst : 32 ≤ j ∧ j < 32 + 32 := by omega
    simp [pageAfter, HostLayout.pointer, hmod, hfirst]

/-- The PPU's pages of CHR ROM. -/
theorem ppuPage_chr (hj : j < 8) :
    (Console.sysramCalls ++ mapperCalls rom).foldl (pageAfter layout .ppu j) p =
      SystemBus.mapTo p (layout.image + rom.chrRom + j * 0x400) true := by
  have haddr : ∀ c ∈ vramCalls rom.vramConfig.toU32, 8 ≤ c.call.addr.toNat / 0x400 := by
    cases rom.vramConfig <;> decide
  have hvram : ∀ q, (vramCalls rom.vramConfig.toU32).foldl (pageAfter layout .ppu j) q = q := by
    intro q
    apply foldl_pageAfter_eq_self
    intro c hc _ hcover
    have hle := haddr c hc
    omega
  rw [mapperCalls, List.foldl_append, List.foldl_append, List.foldl_append,
    foldl_pageAfter_of_bus bus_sysramCalls, hvram, foldl_pageAfter_of_bus bus_prgCalls]
  simp [pageAfter, HostLayout.pointer, hj]

/-- The page of the mapper's memory behind a page of name tables. -/
def nametablePage (config : VramConfig) (j : Nat) : Nat :=
  match config with
  | .verticalMirror => j % 2
  | .horizontalMirror => j / 2 % 2
  | .quadScreen => j % 4

/-- The PPU's pages of name tables. -/
theorem ppuPage_nametable (hlo : 8 ≤ j) (hhi : j < 16) :
    (Console.sysramCalls ++ mapperCalls rom).foldl (pageAfter layout .ppu j) p =
      SystemBus.mapTo p (layout.vram + nametablePage rom.vramConfig j * 0x400) false := by
  have hchr : ∀ q, [(⟨.ppu, 0, .region (.image rom.chrRom), 0x2000, true⟩ : BusCall)].foldl
      (pageAfter layout .ppu j) q = q := by
    intro q
    apply foldl_pageAfter_eq_self
    intro c hc _ hcover
    obtain rfl := List.mem_singleton.mp hc
    simp at hcover
    omega
  rw [mapperCalls, List.foldl_append, List.foldl_append, List.foldl_append,
    foldl_pageAfter_of_bus bus_sysramCalls, foldl_pageAfter_of_bus bus_prgCalls, hchr]
  cases rom.vramConfig <;> interval_cases j <;> rfl

theorem nametableCell_eq (config : VramConfig) (p : CpuAddr) :
    nametableCell config p = nametablePage config (p.toNat / 0x400) * 0x400 + p.toNat % 0x400 := by
  cases config with
  | verticalMirror =>
    show p.toNat % 0x800 = p.toNat / 0x400 % 2 * 0x400 + p.toNat % 0x400
    omega
  | horizontalMirror =>
    rw [nametableCell_horizontal]
    show _ = p.toNat / 0x400 / 2 % 2 * 0x400 + p.toNat % 0x400
    omega
  | quadScreen =>
    show p.toNat % 0x1000 = p.toNat / 0x400 % 4 * 0x400 + p.toNat % 0x400
    omega

end Pages

end RetroCpu.Nes
