import RetroCpu.RomInes
import RetroCpu.SystemBus

/-!
# Mapper 0

`Mapper0::Setup` of `nes_mapper.cc` as the list of the calls of `SystemBus::Map` that it
makes, in order.  A loop that does not end has no list for any amount of fuel.

Both mirroring loops step by a size that the header of the image announces, and `Map`
does not look at its bounds.  `mapsInRange_iff` says for which sizes that goes well.
-/

namespace RetroCpu.Nes

/-- The host memory a page may point into. -/
inductive MapSource
  /-- `sysram` of the console. -/
  | sysram
  /-- `vram` of the mapper. -/
  | vram (offset : Nat)
  /-- A region of the image. -/
  | region (ptr : RomInes.RegionPtr)
  deriving DecidableEq

/-- The bus that `Map` is called on. -/
inductive MapBus
  | main
  | ppu
  deriving DecidableEq

/-- A call of `SystemBus::Map` and its bus. -/
structure BusCall where
  bus : MapBus
  call : MapCall MapSource

/-- The indices of the pages that `Map` writes, with pages of 1 kB. -/
def BusCall.pages (c : BusCall) : List Nat :=
  (List.range (c.call.len / 0x400).toNat).map ((c.call.addr / 0x400).toNat + ·)

/-- `for(uint32_t addr = from; addr < limit; addr += size) Map(addr, ptr, size, true)`. -/
def mirrorLoop (bus : MapBus) (ptr : MapSource) (size : BitVec 32) (limit : CpuAddr) :
    Nat → CpuAddr → Option (List BusCall)
  | 0, _ => none
  | fuel + 1, addr =>
    if addr < limit then
      (⟨bus, addr, ptr, size, true⟩ :: ·) <$> mirrorLoop bus ptr size limit fuel (addr + size)
    else some []

/-- The name tables, by the value of `VRAM CONFIG`. -/
def vramCalls (vramConfig : BitVec 32) : List BusCall :=
  let map1k (addr : CpuAddr) (offset : Nat) : BusCall := ⟨.ppu, addr, .vram offset, 0x400, false⟩
  if vramConfig = 0 then
    [map1k 0x2000 0, map1k 0x2400 0x400, map1k 0x2800 0, map1k 0x2C00 0x400,
      map1k 0x3000 0, map1k 0x3400 0x400, map1k 0x3800 0, map1k 0x3C00 0x400]
  else if vramConfig = 1 then
    [map1k 0x2000 0, map1k 0x2400 0, map1k 0x2800 0x400, map1k 0x2C00 0x400,
      map1k 0x3000 0, map1k 0x3400 0, map1k 0x3800 0x400, map1k 0x3C00 0x400]
  else if vramConfig = 2 then
    [⟨.ppu, 0x2000, .vram 0, 0x1000, false⟩, ⟨.ppu, 0x3000, .vram 0, 0x1000, false⟩]
  else []

/-- `Mapper0::Setup`: what it returns and the calls it makes. -/
def Mapper0.setup (rom : RomInes) (fuel : Nat) : Option (Bool × List BusCall) := do
  let (prgRom, prgRomSize) := rom.getRegion "PRG ROM"
  let (chrRom, chrRomSize) := rom.getRegion "CHR ROM"
  if prgRom = .null ∨ chrRom = .null then return (false, [])
  let vramConfig := (rom.getConfig "VRAM CONFIG").getD 0
  let chr ← mirrorLoop .ppu (.region chrRom) chrRomSize 0x2000 fuel 0
  let prg ← mirrorLoop .main (.region prgRom) prgRomSize 0x10000 fuel 0x8000
  return (true, vramCalls vramConfig ++ chr ++ prg)

/-- No call writes past the ends of `main_pages` and `ppu_pages`, and CHR ROM stays below
the name tables. -/
structure CallsInRange (rom : RomInes) (calls : List BusCall) : Prop where
  main : ∀ c ∈ calls, c.bus = .main → ∀ i ∈ c.pages, i < 64
  ppu : ∀ c ∈ calls, c.bus = .ppu → ∀ i ∈ c.pages, i < 16
  nametables : ∀ c ∈ calls, c.bus = .ppu → c.call.ptr = .region (rom.getRegion "CHR ROM").1 →
    ∀ i ∈ c.pages, i < 8

/-- `Setup` ends and its calls are in range. -/
def MapsInRange (rom : RomInes) : Prop :=
  ∃ fuel r, Mapper0.setup rom fuel = some r ∧ CallsInRange rom r.2

/-! ### The mirroring loop -/

section Loop

variable {bus : MapBus} {ptr : MapSource} {size : BitVec 32} {limit addr : CpuAddr} {fuel : Nat}
  {calls : List BusCall}

theorem BusCall.mem_pages {c : BusCall} {i : Nat} :
    i ∈ c.pages ↔ ∃ k, k < c.call.len.toNat / 0x400 ∧ c.call.addr.toNat / 0x400 + k = i := by
  simp [BusCall.pages, BitVec.toNat_udiv]

theorem mem_pages_of_lt {readonly : Bool} {i k : Nat} (hk : k < size.toNat / 0x400)
    (hi : addr.toNat / 0x400 + k = i) : i ∈ BusCall.pages ⟨bus, addr, ptr, size, readonly⟩ :=
  BusCall.mem_pages.mpr ⟨k, hk, hi⟩

theorem BusCall.pages_lt {readonly : Bool} {n : Nat}
    (h : addr.toNat / 0x400 + size.toNat / 0x400 ≤ n) :
    ∀ i ∈ BusCall.pages ⟨bus, addr, ptr, size, readonly⟩, i < n := by
  intro i hi
  obtain ⟨k, hk, rfl⟩ := BusCall.mem_pages.mp hi
  show addr.toNat / 0x400 + k < n
  have hk' : k < size.toNat / 0x400 := hk
  omega

/-- A loop that steps by nothing does not end. -/
theorem mirrorLoop_zero (h : addr < limit) (fuel : Nat) :
    mirrorLoop bus ptr 0 limit fuel addr = none := by
  induction fuel with
  | zero => rfl
  | succ fuel ih =>
    rw [mirrorLoop, if_pos h]
    have hstay : addr + 0 = addr := BitVec.add_zero addr
    rw [hstay, ih]
    rfl

theorem first_mem_mirrorLoop (h : addr < limit) (hcalls : mirrorLoop bus ptr size limit fuel addr =
    some calls) : ⟨bus, addr, ptr, size, true⟩ ∈ calls := by
  cases fuel with
  | zero => cases hcalls
  | succ fuel =>
    rw [mirrorLoop, if_pos h] at hcalls
    obtain ⟨rest, -, rfl⟩ := Option.map_eq_some_iff.mp hcalls
    exact List.mem_cons_self

end Loop

/-! ### The calls of `Setup` -/

variable {rom : RomInes} {fuel : Nat} {r : Bool × List BusCall}

theorem setup_eq_some (h : Mapper0.setup rom fuel = some r) : ∃ chr prg,
    mirrorLoop .ppu (.region (.image rom.chrRom)) rom.chrRomSize 0x2000 fuel 0 = some chr ∧
    mirrorLoop .main (.region (.image rom.prgRom)) rom.prgRomSize 0x10000 fuel 0x8000 = some prg ∧
    r = (true, vramCalls rom.vramConfig.toU32 ++ chr ++ prg) := by
  have hregions : ¬(RomInes.RegionPtr.image rom.prgRom = .null ∨
      RomInes.RegionPtr.image rom.chrRom = .null) := by simp
  rw [Mapper0.setup] at h
  have hprg : rom.getRegion "PRG ROM" = (.image rom.prgRom, rom.prgRomSize) := rfl
  have hchr : rom.getRegion "CHR ROM" = (.image rom.chrRom, rom.chrRomSize) := rfl
  rw [hprg, hchr] at h
  simp only [if_neg hregions, Option.bind_eq_bind, Option.bind_eq_some_iff] at h
  obtain ⟨chr, hchr, prg, hprg, hr⟩ := h
  exact ⟨chr, prg, hchr, hprg, (Option.some.inj hr).symm⟩

theorem setup_of_loops {chr prg : List BusCall}
    (hchr : mirrorLoop .ppu (.region (.image rom.chrRom)) rom.chrRomSize 0x2000 fuel 0 = some chr)
    (hprg : mirrorLoop .main (.region (.image rom.prgRom)) rom.prgRomSize 0x10000 fuel 0x8000 =
      some prg) :
    Mapper0.setup rom fuel = some (true, vramCalls rom.vramConfig.toU32 ++ chr ++ prg) := by
  have hregions : ¬(RomInes.RegionPtr.image rom.prgRom = .null ∨
      RomInes.RegionPtr.image rom.chrRom = .null) := by simp
  have hprgRegion : rom.getRegion "PRG ROM" = (.image rom.prgRom, rom.prgRomSize) := rfl
  have hchrRegion : rom.getRegion "CHR ROM" = (.image rom.chrRom, rom.chrRomSize) := rfl
  rw [Mapper0.setup, hprgRegion, hchrRegion]
  simp only [if_neg hregions, hchr, hprg]
  rfl

/-- The name tables lie in the pages from 8 to 15. -/
theorem vramCalls_spec (vramConfig : BitVec 32) : ∀ c ∈ vramCalls vramConfig,
    c.bus = .ppu ∧ (∀ p, c.call.ptr ≠ .region p) ∧ ∀ i ∈ c.pages, i < 16 := by
  have hptr : ∀ c ∈ vramCalls vramConfig, ∃ offset, c.call.ptr = .vram offset := by
    unfold vramCalls
    simp only
    split
    · simp
    · split
      · simp
      · split <;> simp
  intro c hc
  refine ⟨?_, ?_, ?_⟩
  · revert c
    unfold vramCalls
    simp only
    split
    · decide
    · split
      · decide
      · split <;> decide
  · intro p hp
    obtain ⟨offset, hoffset⟩ := hptr c hc
    rw [hoffset] at hp
    cases hp
  · clear hptr
    revert c
    unfold vramCalls
    simp only
    split
    · decide
    · split
      · decide
      · split <;> decide

/-- The calls for a ROM of 16 or 32 kB PRG and 8 kB CHR. -/
theorem setup_of_sizes (hchr : rom.chrRomSize = 0x2000)
    (hprg : rom.prgRomSize = 0x4000 ∨ rom.prgRomSize = 0x8000) :
    ∃ prg, Mapper0.setup rom 3 = some (true, vramCalls rom.vramConfig.toU32 ++
        [⟨.ppu, 0, .region (.image rom.chrRom), 0x2000, true⟩] ++ prg) ∧
      prg = if rom.prgRomSize = 0x4000 then
        [⟨.main, 0x8000, .region (.image rom.prgRom), 0x4000, true⟩,
          ⟨.main, 0xC000, .region (.image rom.prgRom), 0x4000, true⟩]
        else [⟨.main, 0x8000, .region (.image rom.prgRom), 0x8000, true⟩] := by
  refine ⟨_, setup_of_loops ?_ ?_, rfl⟩
  · rw [hchr]
    rfl
  · rcases hprg with hprg | hprg
    · rw [hprg]
      rfl
    · rw [hprg]
      rfl

structure Units (rom : RomInes) : Prop where
  prg : 16384 ∣ rom.prgRomSize.toNat
  chr : 8192 ∣ rom.chrRomSize.toNat

theorem units_parse {image : List Byte} (h : RomInes.parse image = some rom) : Units rom := by
  have hplaced := RomInes.placed_parse h
  refine ⟨?_, ?_⟩
  · rw [hplaced.prgRomSize]
    exact Nat.dvd_mul_right _ _
  · rw [hplaced.chrRomSize]
    exact Nat.dvd_mul_right _ _

theorem MapsInRange.sizes (h : MapsInRange rom) (hunits : Units rom) :
    rom.chrRomSize = 0x2000 ∧ (rom.prgRomSize = 0x4000 ∨ rom.prgRomSize = 0x8000) := by
  obtain ⟨fuel, r, hr, hrange⟩ := h
  obtain ⟨chr, prg, hchr, hprg, rfl⟩ := setup_eq_some hr
  have hchrFirst := List.mem_append_left prg
    (List.mem_append_right (vramCalls rom.vramConfig.toU32)
      (first_mem_mirrorLoop (by decide) hchr))
  have hprgFirst := List.mem_append_right (vramCalls rom.vramConfig.toU32 ++ chr)
    (first_mem_mirrorLoop (by decide) hprg)
  have hchr0 : rom.chrRomSize ≠ 0 := by
    intro h0
    rw [h0, mirrorLoop_zero (by decide)] at hchr
    cases hchr
  have hprg0 : rom.prgRomSize ≠ 0 := by
    intro h0
    rw [h0, mirrorLoop_zero (by decide)] at hprg
    cases hprg
  have hchrLe : rom.chrRomSize.toNat / 0x400 ≤ 8 := by
    by_contra hgt
    have hlt : 8 < rom.chrRomSize.toNat / 0x400 := by omega
    have hpage := hrange.nametables _ hchrFirst rfl rfl 8 (mem_pages_of_lt hlt rfl)
    omega
  have hprgLe : rom.prgRomSize.toNat / 0x400 ≤ 32 := by
    by_contra hgt
    have hlt : 32 < rom.prgRomSize.toNat / 0x400 := by omega
    have hpage := hrange.main _ hprgFirst rfl 64 (mem_pages_of_lt hlt rfl)
    omega
  obtain ⟨n, hn⟩ := hunits.chr
  obtain ⟨m, hm⟩ := hunits.prg
  constructor
  · bv_omega
  · bv_omega

theorem mapsInRange_of_sizes (hchr : rom.chrRomSize = 0x2000)
    (hprg : rom.prgRomSize = 0x4000 ∨ rom.prgRomSize = 0x8000) : MapsInRange rom := by
  obtain ⟨prg, hsetup, hcalls⟩ := setup_of_sizes hchr hprg
  have hprgPages : ∀ c ∈ prg, c.bus = .main ∧ ∀ i ∈ c.pages, i < 64 := by
    rw [hcalls]
    split
    · intro c hc
      simp only [List.mem_cons, List.not_mem_nil, or_false] at hc
      rcases hc with rfl | rfl
      · exact ⟨rfl, BusCall.pages_lt (by decide)⟩
      · exact ⟨rfl, BusCall.pages_lt (by decide)⟩
    · intro c hc
      obtain rfl := List.mem_singleton.mp hc
      exact ⟨rfl, BusCall.pages_lt (by decide)⟩
  have hchrPages : ∀ i ∈ BusCall.pages ⟨.ppu, 0, .region (.image rom.chrRom), 0x2000, true⟩,
      i < 8 := BusCall.pages_lt (by decide)
  refine ⟨3, _, hsetup, ?_, ?_, ?_⟩
  · intro c hc hbus
    rw [List.mem_append, List.mem_append, List.mem_singleton] at hc
    rcases hc with (hc | rfl) | hc
    · rw [(vramCalls_spec _ c hc).1] at hbus
      cases hbus
    · cases hbus
    · exact (hprgPages c hc).2
  · intro c hc hbus i hi
    rw [List.mem_append, List.mem_append, List.mem_singleton] at hc
    rcases hc with (hc | rfl) | hc
    · exact (vramCalls_spec _ c hc).2.2 i hi
    · have hlt := hchrPages i hi
      omega
    · rw [(hprgPages c hc).1] at hbus
      cases hbus
  · intro c hc hbus hptr
    rw [List.mem_append, List.mem_append, List.mem_singleton] at hc
    rcases hc with (hc | rfl) | hc
    · exact absurd hptr ((vramCalls_spec _ c hc).2.1 _)
    · exact hchrPages
    · rw [(hprgPages c hc).1] at hbus
      cases hbus

/-- With no CHR ROM at all the first loop does not end. -/
theorem not_mapsInRange_noChr : ∃ rom,
    RomInes.parse (inesMagic ++ List.replicate 12 0) = some rom ∧ ¬MapsInRange rom := by
  have hparse : ∃ rom, RomInes.parse (inesMagic ++ List.replicate 12 0) = some rom ∧
      rom.chrRomSize = 0 := ⟨_, rfl, rfl⟩
  obtain ⟨rom, hrom, hchr⟩ := hparse
  refine ⟨rom, hrom, ?_⟩
  intro h
  rw [(h.sizes (units_parse hrom)).1] at hchr
  revert hchr
  decide

/-- **`Setup` ends and stays in range exactly for the ROMs of 16 or 32 kB PRG and 8 kB CHR.** -/
theorem mapsInRange_iff (image : List Byte) (rom : RomInes)
    (h : RomInes.parse image = some rom) :
    MapsInRange rom ↔
      rom.chrRomSize = 0x2000 ∧ (rom.prgRomSize = 0x4000 ∨ rom.prgRomSize = 0x8000) := by
  constructor
  · intro hrange
    exact hrange.sizes (units_parse h)
  · rintro ⟨hchr, hprg⟩
    exact mapsInRange_of_sizes hchr hprg

/-- The header of a ROM of the right size. -/
theorem mapsInRange_nrom : ∃ rom,
    RomInes.parse (inesMagic ++ 1 :: 1 :: List.replicate 10 0) = some rom ∧ MapsInRange rom := by
  have hparse : ∃ rom, RomInes.parse (inesMagic ++ 1 :: 1 :: List.replicate 10 0) = some rom ∧
      rom.chrRomSize = 0x2000 ∧ rom.prgRomSize = 0x4000 := ⟨_, rfl, rfl, rfl⟩
  obtain ⟨rom, hrom, hchr, hprg⟩ := hparse
  exact ⟨rom, hrom, (mapsInRange_iff _ rom hrom).mpr ⟨hchr, Or.inl hprg⟩⟩

end RetroCpu.Nes
