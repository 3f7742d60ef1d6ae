import RetroCpu.Nes.Sprites
import Mathlib.Algebra.Group.Nat.Defs

/-!
# The sprites of a row

What `EvaluateSprites` leaves in the list, with the pattern bytes.

* `onRow`: the entries of sprite memory that have a row of the picture.
* `IsSprite`: a sprite has the position, the attributes and the pattern row of its entry.
* `evaluateSpritesChecked`: `EvaluateSprites` with a check of each index into sprite memory.
* `evaluateSprites_onRow`: **the list holds the first eight entries of the row**, in order.
-/

namespace RetroCpu.Nes.Ppu

variable {p : Ppu}

/-! ### Entries and rows -/

/-- The entries with `Y ≤ y < Y + height`. -/
def onRow (p : Ppu) (y : ℕ) : List ℕ :=
  (List.range 64).filter fun k => p.spriteTop k ≤ y ∧ y < p.spriteTop k + p.spriteHeight

theorem lineSet_eq_onRow (p : Ppu) (y : ℕ) : p.lineSet (y + 2) = (p.onRow y).take 8 := by
  rw [lineSet, lineSetOf, onRow]
  refine congrArg (List.take 8) (List.filter_congr fun k _ => decide_eq_decide.mpr ?_)
  rw [Covers]
  omega

/-- The row of the entry `k` that is on the row `y` of the picture, from below in a flipped
sprite. -/
def entryRow (p : Ppu) (y k : ℕ) : ℕ :=
  if p.oam (BitVec.ofNat 8 (4 * k + 2)) &&& 0x80 ≠ 0 then p.spriteHeight - 1 - (y - p.spriteTop k)
  else y - p.spriteTop k

/-- Where a row of a tile is in the pattern tables.  A tall sprite is two tiles, one below the
other, of the table that the lowest bit of its number selects. -/
def rowAddr (p : Ppu) (tile : Byte) (row : ℕ) : ℕ :=
  if p.tallSprites then
    0x1000 * (tile.toNat % 2) + 16 * (tile.toNat / 2 * 2 + row / 8) + row % 8
  else p.spritePatternAddr.toNat + 16 * tile.toNat + row

/-- The sprite is the entry `k`, with the pattern of its row on the row `y` of the picture. -/
structure IsSprite (p : Ppu) (chr : ℕ → Byte) (y k : ℕ) (sprite : Sprite) : Prop where
  x : sprite.x = p.oam (BitVec.ofNat 8 (4 * k + 3))
  attrib : sprite.attrib =
    (p.oam (BitVec.ofNat 8 (4 * k + 2)) &&& 0xE3) ||| (if k = 0 then 0x10 else 0)
  low : sprite.low = chr (p.rowAddr (p.oam (BitVec.ofNat 8 (4 * k + 1))) (p.entryRow y k))
  high : sprite.high = chr (p.rowAddr (p.oam (BitVec.ofNat 8 (4 * k + 1))) (p.entryRow y k) + 8)

/-! ### Pattern tables -/

/-- The addresses below `0x2000` hold `chr`. -/
def PatternTables (chr : ℕ → Byte) (bus : SystemBus Unit) : Prop :=
  ∀ a : CpuAddr, a < 0x2000 → ∃ n readonly,
    SystemBus.Backed bus.memory bus.memMask a n readonly ∧ bus.host n = chr a.toNat

theorem read_patternTables {chr : ℕ → Byte} (hchr : PatternTables chr p.bus) {addr : CpuAddr}
    (haddr : addr < 0x2000) :
    ∃ bus, PatternTables chr bus ∧ p.read addr = (chr addr.toNat, { p with bus := bus }) := by
  have hmask : addr &&& 0x3FFF = addr := by
    have h : (0x3FFF : CpuAddr).toNat = 2 ^ 14 - 1 := rfl
    refine BitVec.eq_of_toNat_eq ?_
    rw [BitVec.toNat_and, h, Nat.and_two_pow_sub_one_eq_mod]
    bv_omega
  obtain ⟨n, readonly, hbacked, hhost⟩ := hchr addr haddr
  obtain ⟨hdata, hsame⟩ := SystemBus.Backed.readByte hbacked 0
  have hf := SystemBus.frame_readByte p.bus 0 addr
  refine ⟨(p.bus.readByte 0 addr).bus, ?_, ?_⟩
  · rw [PatternTables, hf.memory, hf.memMask, hsame]
    exact hchr
  · have hlow : ¬(0x3F00 : CpuAddr) ≤ addr := by bv_omega
    rw [read, hmask, if_neg hlow, readByte, ← hhost, ← hdata]

/-- The number of a tall sprite is the number of a table and of its upper tile. -/
theorem tall_tile (tile : Byte) :
    (tile &&& 1).toNat = tile.toNat % 2 ∧ (tile &&& 0xFE).toNat = tile.toNat / 2 * 2 := by
  have hall : ∀ b : Byte,
      (b &&& 1).toNat = b.toNat % 2 ∧ (b &&& 0xFE).toNat = b.toNat / 2 * 2 := by
    decide +kernel
  exact hall tile

theorem rowAddr_lt (hpattern : p.spritePatternAddr = 0 ∨ p.spritePatternAddr = 0x1000)
    (tile : Byte) {row : ℕ} (hrow : row < p.spriteHeight) :
    p.rowAddr tile row + 8 < 0x2000 := by
  have htile := tile.isLt
  have hpat : p.spritePatternAddr.toNat = 0 ∨ p.spritePatternAddr.toNat = 0x1000 := by
    rcases hpattern with h | h <;> simp [h]
  unfold rowAddr
  unfold spriteHeight at hrow
  split_ifs at hrow ⊢ <;> omega

theorem toNat_spriteAddr (hpattern : p.spritePatternAddr = 0 ∨ p.spritePatternAddr = 0x1000)
    (tile : Byte) {row : ℕ} (hrow : row < p.spriteHeight) :
    (p.spriteAddr tile (BitVec.ofNat 8 row)).toNat = p.rowAddr tile row := by
  have htile := tile.isLt
  have hlt := rowAddr_lt hpattern tile hrow
  obtain ⟨hbank, hupper⟩ := tall_tile tile
  have hwide (b : Byte) : (b.setWidth 32).toNat = b.toNat := BitVec.toNat_setWidth_of_le (by decide)
  have hrowNat : row < 16 := by
    unfold spriteHeight at hrow
    split at hrow <;> omega
  have h8 : (8 : Byte).toNat = 8 := rfl
  have h16 : (16 : CpuAddr).toNat = 16 := rfl
  have h8w : (8 : CpuAddr).toNat = 8 := rfl
  have hle : (8 : Byte) ≤ BitVec.ofNat 8 row ↔ 8 ≤ row := by
    rw [BitVec.le_def, BitVec.toNat_ofNat, h8]
    omega
  unfold spriteAddr rowAddr at *
  unfold spriteHeight at hrow
  by_cases htall : p.tallSprites
  · simp only [htall, if_true, hle] at hrow hlt ⊢
    split <;>
    simp only [BitVec.toNat_add, BitVec.toNat_mul, BitVec.toNat_shiftLeft, hwide, hbank, hupper,
      BitVec.toNat_ofNat, Nat.shiftLeft_eq, h16, h8w] <;> omega
  · simp only [Bool.not_eq_true] at htall
    simp only [htall, Bool.false_eq_true, if_false] at hrow hlt ⊢
    simp only [BitVec.toNat_add, BitVec.toNat_mul, hwide, BitVec.toNat_ofNat, h16]
    have hpat : (p.spritePatternAddr.setWidth 32).toNat = p.spritePatternAddr.toNat :=
      BitVec.toNat_setWidth_of_le (by decide)
    rw [hpat]
    omega

/-! ### One entry -/

theorem covers_onRow {k : ℕ} (hfirst : 1 ≤ p.currentScanline) :
    p.Covers (p.currentScanline + 1) k ↔ p.spriteTop k ≤ p.currentScanline - 1 ∧
      p.currentScanline - 1 < p.spriteTop k + p.spriteHeight := by
  rw [Covers]
  omega

theorem entryRow_lt {y k : ℕ} (htop : p.spriteTop k ≤ y)
    (hbottom : y < p.spriteTop k + p.spriteHeight) : p.entryRow y k < p.spriteHeight := by
  unfold entryRow
  split <;> omega

/-- The row is a byte, and so is the row that the source computes from the end of the sprite. -/
theorem row_eq {y k : ℕ} (hy : y < 240) (htop : p.spriteTop k ≤ y)
    (hbottom : y < p.spriteTop k + p.spriteHeight) :
    (if p.oam (BitVec.ofNat 8 (4 * k + 2)) &&& 0x80 ≠ 0 then
        p.spriteEnd (p.oam (BitVec.ofNat 8 (4 * k))) - (BitVec.ofNat 32 y).setWidth 8 - 1
      else (BitVec.ofNat 32 y).setWidth 8 - p.oam (BitVec.ofNat 8 (4 * k))) =
      BitVec.ofNat 8 (p.entryRow y k) := by
  unfold entryRow spriteEnd
  unfold spriteTop at htop hbottom ⊢
  unfold spriteHeight at hbottom ⊢
  generalize p.oam (BitVec.ofNat 8 (4 * k)) = top at htop hbottom ⊢
  have hytop : ((BitVec.ofNat 32 y).setWidth 8).toNat = y := by
    rw [BitVec.toNat_setWidth, BitVec.toNat_ofNat]
    omega
  generalize (BitVec.ofNat 32 y).setWidth 8 = row at hytop ⊢
  cases htall : p.tallSprites with
  | false =>
    simp only [htall, Bool.false_eq_true, if_false] at hbottom ⊢
    split <;> bv_omega
  | true =>
    simp only [htall, if_true] at hbottom ⊢
    split <;> bv_omega

theorem addEntry_of_reads (p : Ppu) {k : ℕ} {row low high : Byte} {bus bus' : SystemBus Unit}
    (hrow : (if p.oam (BitVec.ofNat 8 (4 * k + 2)) &&& 0x80 ≠ 0 then
        p.spriteEnd (p.oam (BitVec.ofNat 8 (4 * k))) - p.lineRow.setWidth 8 - 1
      else p.lineRow.setWidth 8 - p.oam (BitVec.ofNat 8 (4 * k))) = row)
    (hlow : p.readSpriteBit0 (p.oam (BitVec.ofNat 8 (4 * k + 1))) row =
      (low, { p with bus := bus }))
    (hhigh : ({ p with bus := bus } : Ppu).readSpriteBit1 (p.oam (BitVec.ofNat 8 (4 * k + 1))) row =
      (high, { p with bus := bus' })) :
    p.addEntry k =
      { p with
        bus := bus'
        sprites := Function.update p.sprites p.numSprites
          { low, high
            attrib := if BitVec.ofNat 32 (4 * k) = 0 then
                p.oam (BitVec.ofNat 8 (4 * k + 2)) &&& 0xE3 ||| 0x10
              else p.oam (BitVec.ofNat 8 (4 * k + 2)) &&& 0xE3
            x := p.oam (BitVec.ofNat 8 (4 * k + 3)) }
        numSprites := p.numSprites + 1 } := by
  have h1 : (BitVec.ofNat 32 (4 * k) + 1).setWidth 8 = BitVec.ofNat 8 (4 * k + 1) := entry_addr k 1
  have h2 : (BitVec.ofNat 32 (4 * k) + 2).setWidth 8 = BitVec.ofNat 8 (4 * k + 2) := entry_addr k 2
  have h3 : (BitVec.ofNat 32 (4 * k) + 3).setWidth 8 = BitVec.ofNat 8 (4 * k + 3) := entry_addr k 3
  rw [← h2] at hrow ⊢
  rw [← h1] at hlow hhigh
  rw [← h3]
  unfold addEntry addSprite
  dsimp only
  rw [hrow, hlow, hhigh]

theorem addEntry_isSprite {chr : ℕ → Byte} (hchr : PatternTables chr p.bus)
    (hpattern : p.spritePatternAddr = 0 ∨ p.spritePatternAddr = 0x1000) {k : ℕ} (hk : k < 64)
    (hfirst : 1 ≤ p.currentScanline) (hlast : p.currentScanline ≤ 240)
    (hcovers : p.Covers (p.currentScanline + 1) k) :
    ∃ bus sprite, PatternTables chr bus ∧ IsSprite p chr (p.currentScanline - 1) k sprite ∧
      p.addEntry k =
        { p with
          bus := bus, sprites := Function.update p.sprites p.numSprites sprite
          numSprites := p.numSprites + 1 } := by
  obtain ⟨htop, hbottom⟩ := (covers_onRow hfirst).mp hcovers
  have hlt := entryRow_lt htop hbottom
  have hline : p.lineRow = BitVec.ofNat 32 (p.currentScanline - 1) := by
    rw [lineRow]
    bv_omega
  have hrow := row_eq (by omega) htop hbottom
  rw [← hline] at hrow
  generalize htile : p.oam (BitVec.ofNat 8 (4 * k + 1)) = tile
  have haddr := toNat_spriteAddr hpattern tile hlt
  have hrange := rowAddr_lt hpattern tile hlt
  have hlow : p.spriteAddr tile (BitVec.ofNat 8 (p.entryRow (p.currentScanline - 1) k)) <
      0x2000 := by
    rw [BitVec.lt_def, haddr]
    exact Nat.lt_of_le_of_lt (Nat.le_add_right _ 8) hrange
  have haddr8 : (p.spriteAddr tile (BitVec.ofNat 8 (p.entryRow (p.currentScanline - 1) k)) +
      8).toNat = p.rowAddr tile (p.entryRow (p.currentScanline - 1) k) + 8 := by
    rw [BitVec.toNat_add, haddr]
    exact Nat.mod_eq_of_lt (Nat.lt_trans hrange (by decide))
  have hhigh : p.spriteAddr tile (BitVec.ofNat 8 (p.entryRow (p.currentScanline - 1) k)) + 8 <
      0x2000 := by
    rw [BitVec.lt_def, haddr8]
    exact hrange
  obtain ⟨bus, hbus, hreadlow⟩ := read_patternTables hchr hlow
  obtain ⟨bus', hbus', hreadhigh⟩ := read_patternTables (p := { p with bus := bus }) hbus hhigh
  rw [← htile] at hreadlow hreadhigh
  refine ⟨bus', _, hbus', ⟨rfl, ?_, ?_, ?_⟩, addEntry_of_reads p hrow hreadlow hreadhigh⟩
  · have hzero : BitVec.ofNat 32 (4 * k) = 0 ↔ k = 0 := by bv_omega
    by_cases h : k = 0
    · rw [if_pos (hzero.mpr h), if_pos h]
    · rw [if_neg (mt hzero.mp h), if_neg h]
      exact (BitVec.or_zero).symm
  · rw [htile, haddr]
  · rw [htile, haddr8]

/-! ### Indices into sprite memory -/

/-- `oam[index]`, if it is there. -/
def oamChecked (p : Ppu) (index : BitVec 32) : Option Byte :=
  if index < 256 then some (p.oam (index.setWidth 8)) else none

/-- The accesses to `oam` of `addSprite`. -/
def addSpriteChecked (p : Ppu) (index : BitVec 32) (sY eY : Byte) (y : BitVec 32) : Option Ppu :=
  (p.oamChecked (index + 1)).bind fun _ =>
    (p.oamChecked (index + 2)).bind fun _ =>
      (p.oamChecked (index + 3)).bind fun _ => some (p.addSprite index sY eY y)

/-- The loop of `EvaluateSprites` with its accesses to `oam` checked.  It gives `none` when `fuel`
runs out. -/
def evaluateSpritesChecked : ℕ → BitVec 32 → Ppu → Option Ppu
  | 0, _, _ => none
  | fuel + 1, index, p =>
    if index < 253 then
      let y : BitVec 32 := BitVec.ofNat 32 p.currentScanline - 1
      (p.oamChecked index).bind fun sY =>
        let eY := p.spriteEnd sY
        if sY.setWidth 32 ≤ y ∧ y < eY.setWidth 32 then
          (if p.numSprites < 8 then p.addSpriteChecked index sY eY y else some p).bind fun p =>
            evaluateSpritesChecked fuel (index + 4) p
        else if p.numSprites = 8 then
          let index := index + 4
          evaluateSpritesChecked fuel ((index &&& 0xFFC) + ((index + 1) &&& 3)) p
        else evaluateSpritesChecked fuel (index + 4) p
    else some p

/-- Until the list is full, `index` is at an entry. -/
structure AtEntry (index : BitVec 32) (p : Ppu) : Prop where
  range : index.toNat < 260
  count : p.numSprites ≤ 8
  aligned : p.numSprites < 8 → 4 ∣ index.toNat

theorem oamChecked_of_lt {index : BitVec 32} (h : index < 256) :
    p.oamChecked index = some (p.oam (index.setWidth 8)) := if_pos h

theorem addSpriteChecked_eq {index : BitVec 32} (h : AtEntry index p) (hlt : index < 253)
    (hn : p.numSprites < 8) (sY eY : Byte) (y : BitVec 32) :
    p.addSpriteChecked index sY eY y = some (p.addSprite index sY eY y) := by
  have haligned := h.aligned hn
  have h1 : index + 1 < 256 := by bv_omega
  have h2 : index + 2 < 256 := by bv_omega
  have h3 : index + 3 < 256 := by bv_omega
  rw [addSpriteChecked, oamChecked_of_lt h1, oamChecked_of_lt h2, oamChecked_of_lt h3]
  rfl

theorem numSprites_addSprite (p : Ppu) (index : BitVec 32) (sY eY : Byte) (y : BitVec 32) :
    (p.addSprite index sY eY y).numSprites = p.numSprites + 1 := by
  obtain ⟨bus, sprite, h, -⟩ := addSprite_eq p index sY eY y
  rw [h]

/-- The walk from entry to entry once the list is full. -/
theorem toNat_diagonal {index : BitVec 32} (h : index < 253) :
    ((index + 4 &&& 0xFFC) + ((index + 4 + 1) &&& 3)).toNat =
      (index.toNat / 4 + 1) * 4 + (index.toNat + 1) % 4 := by
  have hall : ∀ n < 253, ((BitVec.ofNat 32 n + 4 &&& 0xFFC) +
      ((BitVec.ofNat 32 n + 4 + 1) &&& 3)).toNat = (n / 4 + 1) * 4 + (n + 1) % 4 := by
    decide +kernel
  have hn : index.toNat < 253 := by bv_omega
  simpa using hall index.toNat hn

theorem evaluateSpritesChecked_eq {fuel fuel' : ℕ} {index : BitVec 32} (h : AtEntry index p)
    (hfuel : 64 - index.toNat / 4 < fuel) (hfuel' : 64 - index.toNat / 4 < fuel') :
    evaluateSpritesChecked fuel index p = some (evaluateSpritesLoop fuel' index p) := by
  induction fuel generalizing fuel' index p with
  | zero => omega
  | succ fuel ih =>
    obtain ⟨fuel', rfl⟩ : ∃ n, fuel' = n + 1 := ⟨fuel' - 1, by omega⟩
    rw [evaluateSpritesChecked, evaluateSpritesLoop]
    by_cases hlt : index < 253
    · have hnext : (index + 4).toNat = index.toNat + 4 := by bv_omega
      have hlow : index < 256 := by bv_omega
      have hrange : index.toNat < 253 := by bv_omega
      have hto : AtEntry (index + 4) p :=
        ⟨by omega, h.count, fun hn => by have := h.aligned hn; omega⟩
      simp only [if_pos hlt, oamChecked_of_lt hlow, Option.bind_some]
      split
      · split
        · next hn =>
          rw [addSpriteChecked_eq h hlt hn, Option.bind_some]
          refine ih ⟨hto.range, ?_, fun _ => hto.aligned hn⟩ (by omega) (by omega)
          rw [numSprites_addSprite]
          exact hn
        · rw [Option.bind_some]
          exact ih hto (by omega) (by omega)
      · split
        · next hn =>
          have hd := toNat_diagonal hlt
          exact ih ⟨by omega, h.count, fun hn' => absurd hn (by omega)⟩ (by omega) (by omega)
        · exact ih hto (by omega) (by omega)
    · rw [if_neg hlt, if_neg hlt]

theorem evaluateSprites_checked (p : Ppu) {fuel : ℕ} (hfuel : 65 ≤ fuel) :
    evaluateSpritesChecked fuel 0 { p with numSprites := 0 } = some p.evaluateSprites :=
  evaluateSpritesChecked_eq ⟨by decide, Nat.zero_le _, fun _ => Nat.dvd_zero 4⟩
    (Nat.lt_of_lt_of_le (by decide) hfuel) (by decide)

/-! ### The list -/

theorem evaluateSprites_collected {chr : ℕ → Byte} (hchr : PatternTables chr p.bus)
    (hpattern : p.spritePatternAddr = 0 ∨ p.spritePatternAddr = 0x1000)
    (hfirst : 1 ≤ p.currentScanline) (hlast : p.currentScanline ≤ 240) :
    Collected (PatternTables chr) (IsSprite p chr (p.currentScanline - 1)) p p.evaluateSprites
      (p.currentScanline + 1) 64 := by
  have hstart : Collected (PatternTables chr) (IsSprite p chr (p.currentScanline - 1)) p
      { p with numSprites := 0 } (p.currentScanline + 1) 0 :=
    ⟨⟨p.bus, p.sprites, 0, hchr, rfl⟩, .nil⟩
  refine hstart.loop hfirst hlast ?_ 253 (by decide) (by decide)
  intro q k hchange hk hcovers
  obtain ⟨bus, sprites, n, hbus, rfl⟩ := hchange
  obtain ⟨bus', sprite, hbus', hsprite, hadd⟩ := addEntry_isSprite
    (p := { p with bus := bus, sprites := sprites, numSprites := n }) hbus hpattern hk hfirst hlast
    hcovers
  exact ⟨bus', sprite, hbus', ⟨hsprite.x, hsprite.attrib, hsprite.low, hsprite.high⟩, hadd⟩

/-- **Sprite evaluation.**  It ends, its indices into sprite memory are below 256, and the list
holds the first eight entries with a row on the line, in order, with the pattern of that row. -/
theorem evaluateSprites_onRow {chr : ℕ → Byte} (hchr : PatternTables chr p.bus)
    (hpattern : p.spritePatternAddr = 0 ∨ p.spritePatternAddr = 0x1000)
    (hfirst : 1 ≤ p.currentScanline) (hlast : p.currentScanline ≤ 240) :
    (∀ fuel, 65 ≤ fuel →
      evaluateSpritesChecked fuel 0 { p with numSprites := 0 } = some p.evaluateSprites) ∧
    p.evaluateSprites.numSprites = min 8 (p.onRow (p.currentScanline - 1)).length ∧
    ∀ j, j < p.evaluateSprites.numSprites → ∃ k, (p.onRow (p.currentScanline - 1))[j]? = some k ∧
      IsSprite p chr (p.currentScanline - 1) k (p.evaluateSprites.sprites j) := by
  have hcollected := evaluateSprites_collected hchr hpattern hfirst hlast
  have hline : p.lineSetOf (p.currentScanline + 1) 64 =
      (p.onRow (p.currentScanline - 1)).take 8 := by
    have h := lineSet_eq_onRow p (p.currentScanline - 1)
    rwa [show p.currentScanline - 1 + 2 = p.currentScanline + 1 by omega] at h
  have hcount := hcollected.length
  rw [hline, List.length_take] at hcount
  refine ⟨fun fuel hfuel => evaluateSprites_checked p hfuel, hcount.symm, fun j hj => ?_⟩
  have hentries := hcollected.entries
  rw [hline] at hentries
  have hj' : j < ((p.onRow (p.currentScanline - 1)).take 8).length := by
    rw [List.length_take]
    omega
  have hrel := hentries.get hj' (by rw [length_spriteList]; exact hj)
  refine ⟨_, ?_, by simpa [spriteList] using hrel⟩
  rw [List.length_take] at hj'
  exact List.getElem?_eq_getElem (by omega)

/-- A bus of RAM has what the RAM has in the pattern tables. -/
theorem patternTables_simple (mem : HostMemory) :
    PatternTables mem (SystemBus.simple 14 mem) := by
  intro a ha
  have hw : ((SystemBus.simple 14 mem).memory.page
      (a &&& (SystemBus.simple 14 mem).memMask)).readOnly = false := by
    show (0#32 &&& Page.kReadOnly != 0) = false
    decide
  refine ⟨a.toNat, false, ⟨Page.isIo_eq_false rfl rfl _, ⟨0, rfl, ?_⟩, hw⟩, rfl⟩
  have h : (SystemBus.simple 14 mem).memMask.toNat = 2 ^ 14 - 1 := rfl
  have hpage : (SystemBus.simple 14 mem).memory.pageMask.toNat = 2 ^ 14 - 1 := rfl
  rw [Nat.zero_add, MemoryMap.offset, BitVec.toNat_and, BitVec.toNat_and, h, hpage,
    Nat.and_two_pow_sub_one_eq_mod, Nat.and_two_pow_sub_one_eq_mod]
  bv_omega

/-- Sixty-four sprites on one row. -/
theorem evaluateSprites_onRow_crowded : ∃ p : Ppu, p.evaluateSprites.numSprites = 8 ∧
    IsSprite p (BitVec.ofNat 8) 9 7 (p.evaluateSprites.sprites 7) := by
  let p : Ppu :=
    { zeroed with
      bus := SystemBus.simple 14 (BitVec.ofNat 8), currentScanline := 10, oam := fun _ => 5 }
  have h := evaluateSprites_onRow (p := p) (patternTables_simple _) (.inl rfl) (by decide)
    (by decide)
  have hrow : p.onRow (p.currentScanline - 1) = List.range 64 := by decide
  rw [hrow] at h
  obtain ⟨-, hn, hsprites⟩ := h
  obtain ⟨k, hk, hsprite⟩ := hsprites 7 (by rw [hn]; decide)
  cases hk
  exact ⟨p, hn, hsprite⟩

end RetroCpu.Nes.Ppu
