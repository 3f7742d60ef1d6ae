import RetroCpu.RomInes

/-!
# Well-formed iNES and NES 2.0 images

A `Cartridge` is what an image describes, and `Cartridge.image` writes it down the way the
two formats lay it out.  `Parse` gets everything back but the low byte of a NES 2.0
mapper number (`decodes_iff`).
-/

namespace RetroCpu

/-- What a well-formed image describes.  The fields that `Parse` does not use are free. -/
structure Cartridge where
  /-- Bits 2 and 3 of `flags7`; 2 is NES 2.0, all else is iNES. -/
  version : BitVec 2
  mapper : BitVec 12
  submapper : BitVec 4
  prgUnits : BitVec 12
  chrUnits : BitVec 12
  vram : VramConfig
  /-- Bit 0 of `flags6` with four screens. -/
  quadBit : Bool
  battery : Bool
  console : BitVec 2
  /-- `flags8` and `flags9` of iNES. -/
  inesFlags8 : Byte
  inesFlags9 : Byte
  /-- The header from `flags10` on. -/
  flags10 : Byte
  flags11 : Byte
  flags12 : Byte
  padding : Byte × Byte × Byte
  trainer : Option (List Byte)
  prg : List Byte
  chr : List Byte
  /-- What follows CHR ROM. -/
  rest : List Byte
  ines_mapper : version ≠ 2 → mapper.toNat < 256
  ines_submapper : version ≠ 2 → submapper = 0
  ines_prg : version ≠ 2 → prgUnits.toNat < 256
  ines_chr : version ≠ 2 → chrUnits.toNat < 256
  trainer_length : ∀ t ∈ trainer, t.length = 512
  prg_length : prg.length = 16384 * prgUnits.toNat
  chr_length : chr.length = 8192 * chrUnits.toNat

namespace Cartridge

def flags6 (c : Cartridge) : Byte :=
  c.mapper.extractLsb' 0 4 ++ BitVec.ofBool (c.vram == .quadScreen) ++
    BitVec.ofBool c.trainer.isSome ++ BitVec.ofBool c.battery ++
    BitVec.ofBool (c.vram == .verticalMirror || (c.vram == .quadScreen && c.quadBit))

def flags7 (c : Cartridge) : Byte := c.mapper.extractLsb' 4 4 ++ c.version ++ c.console

def flags8 (c : Cartridge) : Byte :=
  if c.version = 2 then c.submapper ++ c.mapper.extractLsb' 8 4 else c.inesFlags8

def flags9 (c : Cartridge) : Byte :=
  if c.version = 2 then c.chrUnits.extractLsb' 8 4 ++ c.prgUnits.extractLsb' 8 4
  else c.inesFlags9

def image (c : Cartridge) : List Byte :=
  [0x4E, 0x45, 0x53, 0x1A, c.prgUnits.setWidth 8, c.chrUnits.setWidth 8, c.flags6, c.flags7,
    c.flags8, c.flags9, c.flags10, c.flags11, c.flags12, c.padding.1, c.padding.2.1,
    c.padding.2.2] ++ (c.trainer.getD [] ++ (c.prg ++ (c.chr ++ c.rest)))

end Cartridge

def regionBytes (image : List Byte) : RomInes.RegionPtr × BitVec 32 → Option (List Byte)
  | (.image offset, size) => readBytes image offset size.toNat
  | _ => none

/-- `Parse` makes of the image what it describes. -/
structure Decodes (c : Cartridge) (rom : RomInes) : Prop where
  mapper : rom.getConfig "MAPPER" =
    some (BitVec.ofNat 32 (c.mapper.toNat * 256 + c.submapper.toNat))
  vram : rom.getConfig "VRAM CONFIG" = some c.vram.toU32
  prg : regionBytes c.image (rom.getRegion "PRG ROM") = some c.prg
  chr : regionBytes c.image (rom.getRegion "CHR ROM") = some c.chr
  prgSize : (rom.getRegion "PRG ROM").2.toNat = 16384 * c.prgUnits.toNat
  chrSize : (rom.getRegion "CHR ROM").2.toNat = 8192 * c.chrUnits.toNat

namespace Cartridge

/-! ### The header of the image -/

theorem flags6_nibble : ∀ (m : BitVec 4) (q t b v : Bool),
    (m ++ BitVec.ofBool q ++ BitVec.ofBool t ++ BitVec.ofBool b ++ BitVec.ofBool v).toNat / 16 =
      m.toNat := by decide +kernel

theorem flags6_trainer : ∀ (m : BitVec 4) (q t b v : Bool),
    ((m ++ BitVec.ofBool q ++ BitVec.ofBool t ++ BitVec.ofBool b ++ BitVec.ofBool v : Byte) &&& 4
      ≠ 0) ↔ t = true := by decide +kernel

theorem flags6_vram : ∀ (m : BitVec 4) (q t b v : Bool),
    RomInes.vramConfigOf
      (m ++ BitVec.ofBool q ++ BitVec.ofBool t ++ BitVec.ofBool b ++ BitVec.ofBool v : Byte) =
      if q then .quadScreen else if v then .verticalMirror else .horizontalMirror := by
  decide +kernel

theorem flags7_nibble : ∀ (m : BitVec 4) (v c : BitVec 2), (m ++ v ++ c).toNat / 16 = m.toNat := by
  decide +kernel

theorem flags7_version : ∀ (m : BitVec 4) (v c : BitVec 2),
    (m ++ v ++ c : Byte) &&& 0xC = 8 ↔ v = 2 := by decide +kernel

theorem nibbles : ∀ high low : BitVec 4,
    (high ++ low).toNat / 16 = high.toNat ∧ (high ++ low).toNat % 16 = low.toNat := by
  decide +kernel

variable (c : Cartridge)

theorem toNat_flags6 : c.flags6.toNat / 16 = c.mapper.toNat % 16 := by
  refine (flags6_nibble _ _ _ _ _).trans ?_
  simp

theorem trainer_flag : (c.flags6 &&& 4 ≠ 0) ↔ c.trainer.isSome = true :=
  flags6_trainer _ _ _ _ _

theorem vramConfigOf_flags6 : RomInes.vramConfigOf c.flags6 = c.vram := by
  refine (flags6_vram _ _ _ _ _).trans ?_
  cases c.vram <;> rfl

theorem toNat_flags7 : c.flags7.toNat / 16 = c.mapper.toNat / 16 % 16 := by
  refine (flags7_nibble _ _ _).trans ?_
  simp [Nat.shiftRight_eq_div_pow]

theorem version_flags7 : c.flags7 &&& 0xC = 8 ↔ c.version = 2 := flags7_version _ _ _

theorem toNat_flags8 (h : c.version = 2) :
    c.flags8.toNat / 16 = c.submapper.toNat ∧ c.flags8.toNat % 16 = c.mapper.toNat / 256 := by
  have hm := c.mapper.isLt
  rw [flags8, if_pos h, (nibbles _ _).1, (nibbles _ _).2]
  refine ⟨rfl, ?_⟩
  rw [BitVec.extractLsb'_toNat, Nat.shiftRight_eq_div_pow]
  omega

theorem toNat_flags9 (h : c.version = 2) :
    c.flags9.toNat / 16 = c.chrUnits.toNat / 256 ∧
      c.flags9.toNat % 16 = c.prgUnits.toNat / 256 := by
  have hp := c.prgUnits.isLt
  have hc := c.chrUnits.isLt
  rw [flags9, if_pos h, (nibbles _ _).1, (nibbles _ _).2]
  simp only [BitVec.extractLsb'_toNat, Nat.shiftRight_eq_div_pow]
  constructor <;> omega

theorem trainerLength_image : RomInes.trainerLength c.image = (c.trainer.getD []).length := by
  have h := c.trainer_length
  have hflag := c.trainer_flag
  show (if c.flags6 &&& 4 ≠ 0 then 512 else 0) = _
  cases ht : c.trainer with
  | none =>
    rw [ht] at hflag
    rw [if_neg (fun hne => absurd (hflag.mp hne) (by decide))]
    rfl
  | some t =>
    rw [ht] at hflag
    rw [if_pos (hflag.mpr rfl)]
    exact (h t ht).symm

theorem prgLength_image : RomInes.prgLength c.image = c.prg.length := by
  have hlt := c.prgUnits.isLt
  show 16384 * ((c.prgUnits.setWidth 8).toNat +
    if c.flags7 &&& 0xC = 8 then 256 * (c.flags9.toNat % 16) else 0) = _
  rw [c.prg_length, BitVec.toNat_setWidth]
  by_cases h : c.version = 2
  · rw [if_pos (c.version_flags7.mpr h), (c.toNat_flags9 h).2]
    omega
  · rw [if_neg (mt c.version_flags7.mp h)]
    have := c.ines_prg h
    omega

theorem chrLength_image : RomInes.chrLength c.image = c.chr.length := by
  have hlt := c.chrUnits.isLt
  show 8192 * ((c.chrUnits.setWidth 8).toNat +
    if c.flags7 &&& 0xC = 8 then 256 * (c.flags9.toNat / 16) else 0) = _
  rw [c.chr_length, BitVec.toNat_setWidth]
  by_cases h : c.version = 2
  · rw [if_pos (c.version_flags7.mpr h), (c.toNat_flags9 h).1]
    omega
  · rw [if_neg (mt c.version_flags7.mp h)]
    have := c.ines_chr h
    omega

/-- The mapper number that `Parse` leaves. -/
theorem mapperNumber_image : RomInes.mapperNumber c.image =
    if c.version = 2 then 256 * (c.mapper.toNat / 256) else c.mapper.toNat := by
  show (if c.flags7 &&& 0xC = 8 then 256 * (c.flags8.toNat % 16)
    else 16 * (c.flags7.toNat / 16) + c.flags6.toNat / 16) = _
  by_cases h : c.version = 2
  · rw [if_pos (c.version_flags7.mpr h), if_pos h, (c.toNat_flags8 h).2]
  · rw [if_neg (mt c.version_flags7.mp h), if_neg h, toNat_flags7, toNat_flags6]
    have := c.ines_mapper h
    omega

theorem submapperNumber_image : RomInes.submapperNumber c.image = c.submapper.toNat := by
  show (if c.flags7 &&& 0xC = 8 then c.flags8.toNat / 16 else 0) = _
  by_cases h : c.version = 2
  · rw [if_pos (c.version_flags7.mpr h), (c.toNat_flags8 h).1]
  · rw [if_neg (mt c.version_flags7.mp h), c.ines_submapper h]
    rfl

theorem length_image : c.image.length =
    16 + ((c.trainer.getD []).length + (c.prg.length + (c.chr.length + c.rest.length))) := by
  simp only [image, List.length_append, List.length_cons, List.length_nil]

theorem readBytes_append (a b rest : List Byte) :
    readBytes (a ++ (b ++ rest)) a.length b.length = some b := by
  rw [readBytes, if_pos (by simp), List.drop_left, List.take_left]

theorem parse_image : ∃ rom, RomInes.parse c.image = some rom := by
  have hlen := c.length_image
  have htrainer := c.trainerLength_image
  exact RomInes.parse_isSome c.image (by omega) (by omega)

variable {c} {rom : RomInes}

theorem prg_region (h : RomInes.Placed c.image rom) :
    regionBytes c.image (rom.getRegion "PRG ROM") = some c.prg := by
  show readBytes c.image rom.prgRom rom.prgRomSize.toNat = some c.prg
  have hread := readBytes_append (c.image.take 16 ++ c.trainer.getD []) c.prg (c.chr ++ c.rest)
  rw [h.prgRom, h.prgRomSize, c.trainerLength_image, c.prgLength_image]
  rw [List.append_assoc, List.length_append] at hread
  exact hread

theorem chr_region (h : RomInes.Placed c.image rom) :
    regionBytes c.image (rom.getRegion "CHR ROM") = some c.chr := by
  show readBytes c.image rom.chrRom rom.chrRomSize.toNat = some c.chr
  have hread := readBytes_append (c.image.take 16 ++ (c.trainer.getD [] ++ c.prg)) c.chr c.rest
  rw [h.chrRom, h.prgRom, h.prgRomSize, h.chrRomSize, c.trainerLength_image, c.prgLength_image,
    c.chrLength_image, Nat.add_assoc]
  rw [List.append_assoc, List.append_assoc, List.length_append, List.length_append] at hread
  exact hread

theorem toNat_mapperConfig (h : RomInes.Placed c.image rom) :
    (rom.mapperNum <<< 8 ||| rom.submapper).toNat =
      256 * RomInes.mapperNumber c.image + c.submapper.toNat := by
  have hm := c.mapper.isLt
  have hs := c.submapper.isLt
  have hmapper : rom.mapperNum.toNat < 2 ^ 24 := by
    rw [h.mapperNum, c.mapperNumber_image]
    split <;> omega
  have hsub : rom.submapper = (c.submapper.setWidth 8 : Byte).setWidth 32 := by
    apply BitVec.eq_of_toNat_eq
    rw [h.submapper, c.submapperNumber_image, BitVec.toNat_setWidth_of_le (by decide),
      BitVec.toNat_setWidth_of_le (by decide)]
  rw [BitVec.or_comm, hsub, RomInes.toNat_units _ hmapper, h.mapperNum,
    BitVec.toNat_setWidth_of_le (by decide), Nat.add_comm]

theorem mapper_config_iff (h : RomInes.Placed c.image rom) :
    rom.getConfig "MAPPER" = some (BitVec.ofNat 32 (c.mapper.toNat * 256 + c.submapper.toNat)) ↔
      c.version ≠ 2 ∨ c.mapper.toNat % 256 = 0 := by
  have hm := c.mapper.isLt
  have hs := c.submapper.isLt
  have hconfig : rom.getConfig "MAPPER" = some (rom.mapperNum <<< 8 ||| rom.submapper) := rfl
  have htoNat := toNat_mapperConfig h
  have hof : (BitVec.ofNat 32 (c.mapper.toNat * 256 + c.submapper.toNat)).toNat =
      c.mapper.toNat * 256 + c.submapper.toNat := Nat.mod_eq_of_lt (by omega)
  rw [hconfig, Option.some_inj, ← BitVec.toNat_inj, hof, htoNat, c.mapperNumber_image]
  by_cases hv : c.version = 2
  · rw [if_pos hv]
    simp only [hv, ne_eq, not_true_eq_false, false_or]
    omega
  · rw [if_neg hv]
    simp only [hv, ne_eq, not_false_eq_true, true_or, iff_true]
    omega

theorem decodes_of (h : RomInes.Placed c.image rom)
    (hmapper : c.version ≠ 2 ∨ c.mapper.toNat % 256 = 0) : Decodes c rom where
  mapper := (mapper_config_iff h).mpr hmapper
  vram := by
    show some rom.vramConfig.toU32 = some c.vram.toU32
    rw [h.vramConfig, ← c.vramConfigOf_flags6]
    rfl
  prg := prg_region h
  chr := chr_region h
  prgSize := by
    show rom.prgRomSize.toNat = _
    rw [h.prgRomSize, c.prgLength_image, c.prg_length]
  chrSize := by
    show rom.chrRomSize.toNat = _
    rw [h.chrRomSize, c.chrLength_image, c.chr_length]

end Cartridge

/-- **`Parse` makes of a well-formed image what it describes, exactly when it is an iNES
image or the low byte of the mapper number is zero.** -/
theorem decodes_iff (c : Cartridge) :
    (∃ rom, RomInes.parse c.image = some rom ∧ Decodes c rom) ↔
      c.version ≠ 2 ∨ c.mapper.toNat % 256 = 0 := by
  constructor
  · rintro ⟨rom, hparse, hdec⟩
    exact (Cartridge.mapper_config_iff (RomInes.placed_parse hparse)).mp hdec.mapper
  · intro hmapper
    obtain ⟨rom, hparse⟩ := c.parse_image
    exact ⟨rom, hparse, Cartridge.decodes_of (RomInes.placed_parse hparse) hmapper⟩

/-- An empty NES 2.0 image for mapper 1. -/
def nes2Mapper1 : Cartridge where
  version := 2
  mapper := 1
  submapper := 0
  prgUnits := 0
  chrUnits := 0
  vram := .verticalMirror
  quadBit := false
  battery := false
  console := 0
  inesFlags8 := 0
  inesFlags9 := 0
  flags10 := 0
  flags11 := 0
  flags12 := 0
  padding := (0, 0, 0)
  trainer := none
  prg := []
  chr := []
  rest := []
  ines_mapper := by decide
  ines_submapper := by decide
  ines_prg := by decide
  ines_chr := by decide
  trainer_length := by simp
  prg_length := rfl
  chr_length := rfl

theorem not_decodes_nes2Mapper1 :
    ¬∃ rom, RomInes.parse nes2Mapper1.image = some rom ∧ Decodes nes2Mapper1 rom := by
  rintro ⟨rom, hparse, hdec⟩
  have h := (Cartridge.mapper_config_iff (RomInes.placed_parse hparse)).mp hdec.mapper
  revert h
  decide

end RetroCpu
