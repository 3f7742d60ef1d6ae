import Mathlib.Algebra.Group.Nat.Defs
import Mathlib.Data.List.GetD
import Mathlib.Tactic.Common
import RetroCpu.Bus

/-!
# iNES images

`RomInes` of `rom_ines.h` and `Rom::LoadRom`.  An image is a list of bytes, a pointer
into it is an offset, and a function that reads a byte outside of it gives `none`.

`Parse` looks at the header and never at the length of the image.  `loadRom_inBounds`
says for which images that goes well.
-/

namespace RetroCpu

/-- `memcpy` of `n` bytes from the image. -/
def readBytes (image : List Byte) (offset n : Nat) : Option (List Byte) :=
  if offset + n ≤ image.length then some ((image.drop offset).take n) else none

/-- `RomInes::VramConfig`. -/
inductive VramConfig
  | verticalMirror
  | horizontalMirror
  | quadScreen
  deriving DecidableEq, Repr

def VramConfig.toU32 : VramConfig → BitVec 32
  | verticalMirror => 0
  | horizontalMirror => 1
  | quadScreen => 2

/-- `RomInes`. -/
structure RomInes where
  memory : List Byte
  chrRom : Nat
  prgRom : Nat
  chrRomSize : BitVec 32
  prgRomSize : BitVec 32
  ramSize : BitVec 32
  ramSizeBacked : BitVec 32
  chrRamSize : BitVec 32 := 0
  chrRamSizeBacked : BitVec 32 := 0
  mapperNum : BitVec 32
  submapper : BitVec 32
  vramConfig : VramConfig
  system : BitVec 32
  hasTrainer : Bool
  trainer : List Byte

namespace RomInes

/-- `get_size` in `Parse`. -/
def getSize (shift : Byte) : BitVec 32 :=
  if shift = 0 then 0 else (1 : BitVec 32) <<< (shift.toNat + 6)

/-- The array `trainer` after `Parse`. -/
def readTrainer (image : List Byte) (hasTrainer : Bool) : Option (List Byte) :=
  if hasTrainer then readBytes image 16 512 else some []

/-- `Parse`.  It has no path that returns false. -/
def parse (image : List Byte) : Option RomInes := do
  let flags6 ← image[6]?
  let hasTrainer := flags6 &&& 4 != 0
  let trainer ← readTrainer image hasTrainer
  let data := if hasTrainer then 16 + 512 else 16
  let flags7 ← image[7]?
  let nChrRom ← image[5]?
  let nPrgRom ← image[4]?
  let flags8 ← image[8]?
  let chrRomSize : BitVec 32 := nChrRom.setWidth 32
  let prgRomSize : BitVec 32 := nPrgRom.setWidth 32
  let vramConfig :=
    if flags6 &&& 8 ≠ 0 then .quadScreen
    else if flags6 &&& 1 ≠ 0 then .verticalMirror else .horizontalMirror
  if flags7 &&& 0xC = 8 then
    let flags9 ← image[9]?
    let flags10 ← image[10]?
    let flags11 ← image[11]?
    let flags12 ← image[12]?
    let prgRomSize := (prgRomSize ||| (flags9 &&& 0xF).setWidth 32 <<< 8) <<< 14
    let chrRomSize := (chrRomSize ||| (flags9 &&& 0xF0).setWidth 32 <<< 4) <<< 13
    return {
      memory := image, hasTrainer, trainer, vramConfig, prgRomSize, chrRomSize
      prgRom := data, chrRom := data + prgRomSize.toNat
      mapperNum := (flags8 &&& 0xF).setWidth 32 <<< 8
      submapper := (flags8 >>> 4).setWidth 32
      ramSize := getSize (flags10 &&& 0xF), ramSizeBacked := getSize ((flags10 >>> 4) &&& 0xF)
      chrRamSize := getSize (flags11 &&& 0xF)
      chrRamSizeBacked := getSize ((flags11 >>> 4) &&& 0xF)
      system := (flags12 &&& 3).setWidth 32 }
  else
    let prgRomSize := prgRomSize <<< 14
    let chrRomSize := chrRomSize <<< 13
    return {
      memory := image, hasTrainer, trainer, vramConfig, prgRomSize, chrRomSize
      prgRom := data, chrRom := data + prgRomSize.toNat
      mapperNum := ((flags7 &&& 0xF0#8) ||| (flags6 >>> 4)).setWidth 32
      submapper := 0
      ramSize := if flags8 = 0 then 8192 else 8192 * flags8.setWidth 32, ramSizeBacked := 0
      system := 0 }

/-- What `GetRegion` returns. -/
inductive RegionPtr
  | null
  /-- A pointer into the image. -/
  | image (offset : Nat)
  /-- The array `trainer` of the object. -/
  | trainer
  deriving DecidableEq

/-- `GetRegion`. -/
def getRegion (rom : RomInes) (type : String) : RegionPtr × BitVec 32 :=
  if type = "CHR ROM" then (.image rom.chrRom, rom.chrRomSize)
  else if type = "PRG ROM" then (.image rom.prgRom, rom.prgRomSize)
  else if rom.hasTrainer && type == "TRAINER" then (.trainer, 512)
  else (.null, 0)

/-- `GetConfig`. -/
def getConfig (rom : RomInes) (type : String) : Option (BitVec 32) :=
  if type = "PRG RAM SIZE" then some rom.ramSize
  else if type = "PRG NVRAM SIZE" then some rom.ramSizeBacked
  else if type = "CHR RAM SIZE" then some rom.chrRamSize
  else if type = "CHR NVRAM SIZE" then some rom.chrRamSizeBacked
  else if type = "DISPLAY" then some rom.system
  else if type = "VRAM CONFIG" then some rom.vramConfig.toU32
  else if type = "MAPPER" then some (rom.mapperNum <<< 8 ||| rom.submapper)
  else none

end RomInes

/-- The bytes that `Rom::LoadRom` looks for. -/
def inesMagic : List Byte := [0x4E, 0x45, 0x53, 0x1A]

/-- `data[i] == magic[0] && data[i + 1] == magic[1] && …`. -/
def matchesAt (image : List Byte) (i : Nat) : List Byte → Option Bool
  | [] => some true
  | b :: magic => do
    if (← image[i]?) = b then matchesAt image (i + 1) magic else return false

/-- `Rom::LoadRom`.  The inner `none` is the null pointer it returns. -/
def loadRom (image : List Byte) : Option (Option RomInes) := do
  if ← matchesAt image 0 inesMagic then
    let ines ← RomInes.parse image
    return some ines
  else return none

/-! ### Bounds -/

namespace RomInes

/-- The sizes that a header announces. -/
def trainerLength (image : List Byte) : Nat := if image.getD 6 0 &&& 4 ≠ 0 then 512 else 0

def prgLength (image : List Byte) : Nat :=
  16384 * ((image.getD 4 0).toNat +
    if image.getD 7 0 &&& 0xC = 8 then 256 * ((image.getD 9 0).toNat % 16) else 0)

def chrLength (image : List Byte) : Nat :=
  8192 * ((image.getD 5 0).toNat +
    if image.getD 7 0 &&& 0xC = 8 then 256 * ((image.getD 9 0).toNat / 16) else 0)

/-- The mapper and submapper numbers that `Parse` takes from a header. -/
def mapperNumber (image : List Byte) : Nat :=
  if image.getD 7 0 &&& 0xC = 8 then 256 * ((image.getD 8 0).toNat % 16)
  else 16 * ((image.getD 7 0).toNat / 16) + (image.getD 6 0).toNat / 16

def submapperNumber (image : List Byte) : Nat :=
  if image.getD 7 0 &&& 0xC = 8 then (image.getD 8 0).toNat / 16 else 0

def vramConfigOf (flags6 : Byte) : VramConfig :=
  if flags6 &&& 8 ≠ 0 then .quadScreen
  else if flags6 &&& 1 ≠ 0 then .verticalMirror else .horizontalMirror

theorem toNat_and_f0 : ∀ b : Byte, (b &&& 0xF0).toNat = 16 * (b.toNat / 16) := by decide +kernel

theorem toNat_and_0f : ∀ b : Byte, (b &&& 0xF).toNat = b.toNat % 16 := by decide +kernel

theorem toNat_units (b : Byte) {x : BitVec 32} (hx : x.toNat < 2 ^ 24) :
    (b.setWidth 32 ||| x <<< 8).toNat = b.toNat + 256 * x.toNat := by
  have hb := b.isLt
  have hshift : (x <<< 8).toNat = x.toNat <<< 8 := by
    rw [BitVec.toNat_shiftLeft, Nat.mod_eq_of_lt]
    rw [Nat.shiftLeft_eq]
    omega
  have hwide : (b.setWidth 32).toNat = b.toNat := BitVec.toNat_setWidth_of_le (by decide)
  rw [BitVec.toNat_or, hshift, hwide, Nat.or_comm, ← Nat.shiftLeft_add_eq_or_of_lt hb,
    Nat.shiftLeft_eq]
  omega

theorem toNat_shiftLeft_of_lt {x : BitVec 32} {n : Nat} (h : x.toNat * 2 ^ n < 2 ^ 32) :
    (x <<< n).toNat = x.toNat * 2 ^ n := by
  rw [BitVec.toNat_shiftLeft, Nat.shiftLeft_eq, Nat.mod_eq_of_lt h]

theorem toNat_prgSize (n flags9 : Byte) :
    ((n.setWidth 32 ||| (flags9 &&& 0xF).setWidth 32 <<< 8) <<< 14 : BitVec 32).toNat =
      16384 * (n.toNat + 256 * (flags9.toNat % 16)) := by
  have hn := n.isLt
  have hx : ((flags9 &&& 0xF).setWidth 32 : BitVec 32).toNat = flags9.toNat % 16 :=
    (BitVec.toNat_setWidth_of_le (by decide)).trans (toNat_and_0f _)
  have hunits := toNat_units n (x := (flags9 &&& 0xF).setWidth 32) (by omega)
  rw [hx] at hunits
  rw [toNat_shiftLeft_of_lt (by omega), hunits]
  omega

theorem toNat_chrSize (n flags9 : Byte) :
    ((n.setWidth 32 ||| (flags9 &&& 0xF0).setWidth 32 <<< 4) <<< 13 : BitVec 32).toNat =
      8192 * (n.toNat + 256 * (flags9.toNat / 16)) := by
  have hn := n.isLt
  have hf := flags9.isLt
  have hwide : ((flags9 &&& 0xF0).setWidth 32 : BitVec 32).toNat = 16 * (flags9.toNat / 16) :=
    (BitVec.toNat_setWidth_of_le (by decide)).trans (toNat_and_f0 _)
  have hx : (flags9 &&& 0xF0).setWidth 32 <<< 4 = BitVec.ofNat 32 (flags9.toNat / 16) <<< 8 := by
    apply BitVec.eq_of_toNat_eq
    have h16 : (BitVec.ofNat 32 (flags9.toNat / 16)).toNat = flags9.toNat / 16 :=
      Nat.mod_eq_of_lt (by omega)
    rw [toNat_shiftLeft_of_lt (by omega), toNat_shiftLeft_of_lt (by omega), hwide, h16]
    omega
  have h16 : (BitVec.ofNat 32 (flags9.toNat / 16)).toNat = flags9.toNat / 16 :=
    Nat.mod_eq_of_lt (by omega)
  have hunits := toNat_units n (x := BitVec.ofNat 32 (flags9.toNat / 16)) (by omega)
  rw [h16] at hunits
  rw [hx, toNat_shiftLeft_of_lt (by omega), hunits]
  omega

theorem toNat_inesSize (n : Byte) {k : Nat} (hk : k ≤ 14) :
    (n.setWidth 32 <<< k : BitVec 32).toNat = 2 ^ k * n.toNat := by
  have hn := n.isLt
  have hwide : (n.setWidth 32 : BitVec 32).toNat = n.toNat :=
    BitVec.toNat_setWidth_of_le (by decide)
  have hpow : 2 ^ k ≤ 2 ^ 14 := Nat.pow_le_pow_right (by decide) hk
  have hlt : n.toNat * 2 ^ k < 2 ^ 32 := by
    calc n.toNat * 2 ^ k ≤ 256 * 2 ^ 14 := Nat.mul_le_mul (by omega) hpow
      _ < 2 ^ 32 := by decide
  rw [toNat_shiftLeft_of_lt (by rwa [hwide]), hwide, Nat.mul_comm]

theorem getD_of_getElem? {image : List Byte} {i : Nat} {b : Byte} (h : image[i]? = some b) :
    image.getD i 0 = b := by
  rw [List.getD_eq_getElem?_getD, h]
  rfl

/-- Where `Parse` places the regions. -/
structure Placed (image : List Byte) (rom : RomInes) : Prop where
  memory : rom.memory = image
  prgRom : rom.prgRom = 16 + trainerLength image
  chrRom : rom.chrRom = rom.prgRom + rom.prgRomSize.toNat
  prgRomSize : rom.prgRomSize.toNat = prgLength image
  chrRomSize : rom.chrRomSize.toNat = chrLength image
  trainer : readTrainer image rom.hasTrainer = some rom.trainer
  hasTrainer : rom.hasTrainer = (image.getD 6 0 &&& 4 != 0)
  mapperNum : rom.mapperNum.toNat = mapperNumber image
  submapper : rom.submapper.toNat = submapperNumber image
  vramConfig : rom.vramConfig = vramConfigOf (image.getD 6 0)

theorem toNat_nes2Mapper (flags8 : Byte) :
    ((flags8 &&& 0xF).setWidth 32 <<< 8 : BitVec 32).toNat = 256 * (flags8.toNat % 16) := by
  have hwide : ((flags8 &&& 0xF).setWidth 32 : BitVec 32).toNat = flags8.toNat % 16 :=
    (BitVec.toNat_setWidth_of_le (by decide)).trans (toNat_and_0f _)
  rw [toNat_shiftLeft_of_lt (by omega), hwide]
  omega

theorem toNat_highNibble (b : Byte) : (b >>> 4).toNat = b.toNat / 16 := by
  rw [BitVec.toNat_ushiftRight, Nat.shiftRight_eq_div_pow]

theorem toNat_inesMapper (flags7 flags6 : Byte) :
    (((flags7 &&& 0xF0#8) ||| (flags6 >>> 4)).setWidth 32 : BitVec 32).toNat =
      16 * (flags7.toNat / 16) + flags6.toNat / 16 := by
  have h6 := flags6.isLt
  have hlow : flags6.toNat / 16 < 2 ^ 4 := by omega
  have hhigh : (flags7 &&& 0xF0#8).toNat = 16 * (flags7.toNat / 16) := toNat_and_f0 flags7
  rw [BitVec.toNat_setWidth_of_le (by decide), BitVec.toNat_or, hhigh, toNat_highNibble,
    Nat.mul_comm 16, ← Nat.shiftLeft_eq _ 4, ← Nat.shiftLeft_add_eq_or_of_lt hlow]

theorem data_eq (flags6 : Byte) :
    (if flags6 &&& 4 != 0 then 16 + 512 else 16) = 16 + if flags6 &&& 4 ≠ 0 then 512 else 0 := by
  simp only [bne_iff_ne]
  split <;> rfl

theorem placed_parse {image : List Byte} {rom : RomInes} (h : parse image = some rom) :
    Placed image rom := by
  simp only [parse, Option.bind_eq_bind, Option.bind_eq_some_iff] at h
  obtain ⟨flags6, h6, trainer, ht, flags7, h7, n5, h5, n4, h4, flags8, h8, h⟩ := h
  have d6 := getD_of_getElem? h6
  have d7 := getD_of_getElem? h7
  have d5 := getD_of_getElem? h5
  have d4 := getD_of_getElem? h4
  have d8 := getD_of_getElem? h8
  have hdata : 16 + trainerLength image = if flags6 &&& 4 != 0 then 16 + 512 else 16 := by
    rw [data_eq, trainerLength, d6]
  by_cases hines : flags7 &&& 0xC = 8
  · rw [if_pos hines] at h
    simp only [Option.bind_eq_some_iff] at h
    obtain ⟨flags9, h9, _, _, _, _, _, _, h⟩ := h
    have d9 := getD_of_getElem? h9
    obtain rfl := Option.some.inj h
    refine ⟨rfl, hdata.symm, rfl, ?_, ?_, ht, by rw [d6], ?_, ?_, by rw [d6]; rfl⟩
    · rw [prgLength, d4, d7, d9, if_pos hines]
      exact toNat_prgSize n4 flags9
    · rw [chrLength, d5, d7, d9, if_pos hines]
      exact toNat_chrSize n5 flags9
    · rw [mapperNumber, d7, d8, if_pos hines]
      exact toNat_nes2Mapper flags8
    · rw [submapperNumber, d7, d8, if_pos hines]
      exact (BitVec.toNat_setWidth_of_le (by decide)).trans (toNat_highNibble flags8)
  · rw [if_neg hines] at h
    obtain rfl := Option.some.inj h
    refine ⟨rfl, hdata.symm, rfl, ?_, ?_, ht, by rw [d6], ?_, ?_, by rw [d6]; rfl⟩
    · rw [prgLength, d4, d7, if_neg hines]
      exact toNat_inesSize n4 (by decide)
    · rw [chrLength, d5, d7, if_neg hines]
      exact toNat_inesSize n5 (by decide)
    · rw [mapperNumber, d6, d7, if_neg hines]
      exact toNat_inesMapper flags7 flags6
    · rw [submapperNumber, d7, if_neg hines]
      rfl

/-- `Parse` reads the header and, if there is one, the trainer. -/
theorem parse_isSome (image : List Byte) (hheader : 13 ≤ image.length)
    (htrainer : 16 + trainerLength image ≤ image.length ∨ trainerLength image = 0) :
    ∃ rom, parse image = some rom := by
  have hat : ∀ i, i < 13 → image[i]? = some (image.getD i 0) := by
    intro i hi
    rw [List.getD_eq_getElem?_getD, List.getElem?_eq_getElem (by omega)]
    rfl
  have ht : ∃ t, readTrainer image (image.getD 6 0 &&& 4 != 0) = some t := by
    by_cases h : image.getD 6 0 &&& 4 != 0
    · have hlen : trainerLength image = 512 := if_pos (bne_iff_ne.mp h)
      rw [hlen] at htrainer
      refine ⟨(image.drop 16).take 512, ?_⟩
      rw [readTrainer, if_pos h, readBytes, if_pos (by omega)]
    · exact ⟨[], if_neg h⟩
  obtain ⟨t, ht⟩ := ht
  simp only [parse, hat 6 (by decide), hat 7 (by decide), hat 5 (by decide), hat 4 (by decide),
    hat 8 (by decide), hat 9 (by decide), hat 10 (by decide), hat 11 (by decide),
    hat 12 (by decide), ht, Option.bind_eq_bind, Option.bind_some]
  by_cases hines : image.getD 7 0 &&& 0xC = 8
  · exact ⟨_, if_pos hines⟩
  · exact ⟨_, if_neg hines⟩

end RomInes

theorem matchesAt_eq {image : List Byte} {i : Nat} {magic : List Byte} :
    matchesAt image i magic =
      if magic <+: image.drop i then some true
      else if image.drop i <+: magic then none else some false := by
  induction magic generalizing i with
  | nil => simp [matchesAt]
  | cons b magic ih =>
    by_cases hi : i < image.length
    · have hdrop : image.drop i = image[i] :: image.drop (i + 1) := List.drop_eq_getElem_cons hi
      rw [matchesAt, List.getElem?_eq_getElem hi, hdrop]
      simp only [Option.bind_eq_bind, Option.bind_some, List.cons_prefix_cons]
      by_cases hb : image[i] = b
      · simp [hb, ih]
      · simp [hb, Ne.symm hb]
    · have hdrop : image.drop i = [] := List.drop_eq_nil_of_le (by omega)
      rw [matchesAt, List.getElem?_eq_none (by omega), hdrop]
      simp

theorem loadRom_of_magic {image : List Byte} (h : inesMagic <+: image) :
    loadRom image = (RomInes.parse image).map some := by
  have hm : matchesAt image 0 inesMagic = some true := by
    rw [matchesAt_eq, List.drop_zero, if_pos h]
  rw [loadRom, hm]
  cases RomInes.parse image <;> rfl

theorem loadRom_of_not_magic {image : List Byte} (h : ¬inesMagic <+: image) :
    loadRom image = if image <+: inesMagic then none else some none := by
  rw [loadRom, matchesAt_eq, List.drop_zero, if_neg h]
  split <;> rfl

/-- A region that `GetRegion` reports lies in the image. -/
def InImage (image : List Byte) : RomInes.RegionPtr × BitVec 32 → Prop
  | (.image offset, size) => offset + size.toNat ≤ image.length
  | _ => True

/-- What `LoadRom` reads and what it reports lies in the image. -/
structure LoadsInBounds (image : List Byte) : Prop where
  reads : ∃ r, loadRom image = some r
  regions : ∀ rom, loadRom image = some (some rom) →
    ∀ type, InImage image (rom.getRegion type)
  trainer : ∀ rom, loadRom image = some (some rom) → rom.hasTrainer = true →
    readBytes image 16 512 = some rom.trainer

def Fits (image : List Byte) : Prop :=
  if inesMagic <+: image then
    16 + RomInes.trainerLength image + RomInes.prgLength image + RomInes.chrLength image ≤
      image.length
  else ¬image <+: inesMagic

theorem RomInes.Placed.inImage_iff {image : List Byte} {rom : RomInes} (h : Placed image rom) :
    (∀ type, InImage image (rom.getRegion type)) ↔
      16 + trainerLength image + prgLength image + chrLength image ≤ image.length := by
  have hchr := h.chrRom
  rw [h.prgRom, h.prgRomSize] at hchr
  constructor
  · intro hall
    have hin : rom.chrRom + rom.chrRomSize.toNat ≤ image.length := hall "CHR ROM"
    rwa [hchr, h.chrRomSize] at hin
  · intro hle type
    unfold getRegion
    split
    · show rom.chrRom + rom.chrRomSize.toNat ≤ image.length
      rw [hchr, h.chrRomSize]
      exact hle
    · split
      · show rom.prgRom + rom.prgRomSize.toNat ≤ image.length
        rw [h.prgRom, h.prgRomSize]
        omega
      · split <;> trivial

theorem LoadsInBounds.fits {image : List Byte} (h : LoadsInBounds image) : Fits image := by
  obtain ⟨r, hr⟩ := h.reads
  unfold Fits
  by_cases hmagic : inesMagic <+: image
  · have hload := loadRom_of_magic hmagic
    rw [if_pos hmagic]
    rw [hload, Option.map_eq_some_iff] at hr
    obtain ⟨rom, hrom, -⟩ := hr
    rw [hrom] at hload
    exact (RomInes.placed_parse hrom).inImage_iff.mp (h.regions rom hload)
  · rw [if_neg hmagic]
    intro hshort
    rw [loadRom_of_not_magic hmagic, if_pos hshort] at hr
    cases hr

theorem Fits.loadsInBounds {image : List Byte} (h : Fits image) : LoadsInBounds image := by
  unfold Fits at h
  by_cases hmagic : inesMagic <+: image
  · rw [if_pos hmagic] at h
    obtain ⟨rom, hrom⟩ := RomInes.parse_isSome image (by omega) (by omega)
    have hplaced := RomInes.placed_parse hrom
    have hload := loadRom_of_magic hmagic
    rw [hrom] at hload
    have huniq : ∀ rom', loadRom image = some (some rom') → rom = rom' := fun rom' h' =>
      Option.some.inj (Option.some.inj (hload.symm.trans h'))
    refine ⟨⟨_, hload⟩, ?_, ?_⟩
    · intro rom' h'
      obtain rfl := huniq rom' h'
      exact hplaced.inImage_iff.mpr h
    · intro rom' h' htrainer
      obtain rfl := huniq rom' h'
      have ht := hplaced.trainer
      rwa [RomInes.readTrainer, if_pos htrainer] at ht
  · rw [if_neg hmagic] at h
    have hload := loadRom_of_not_magic hmagic
    rw [if_neg h] at hload
    have hnone : ∀ rom, loadRom image ≠ some (some rom) := by simp [hload]
    exact ⟨⟨_, hload⟩, fun rom h' => absurd h' (hnone rom), fun rom h' => absurd h' (hnone rom)⟩

/-- **`LoadRom` stays in the image, and so do the regions of its ROM, exactly for the
images that are as long as their headers announce** and, when the magic number does not
match, do not end before the byte that shows it. -/
theorem loadsInBounds_iff (image : List Byte) : LoadsInBounds image ↔ Fits image :=
  ⟨LoadsInBounds.fits, Fits.loadsInBounds⟩

/-- A header alone that announces one unit of PRG ROM. -/
theorem not_loadsInBounds_headerOnly :
    ¬LoadsInBounds (inesMagic ++ [1, 0, 0, 0, 0, 0, 0, 0, 0, 0, 0, 0]) := by
  intro h
  have hfits := h.fits
  rw [Fits, if_pos (List.prefix_append _ _)] at hfits
  revert hfits
  decide

end RetroCpu
