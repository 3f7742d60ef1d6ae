import Mathlib.Algebra.Group.Nat.Defs
import RetroCpu.Nes.Background

/-!
# The colour of a pixel

Which of the background and the sprites a pixel of `DrawPixels` shows, and when the sprite 0 is
hit.

* `Sprite.value`: the 2-bit value that a sprite has in a column.
* `firstOpaque`: the sprite that a column looks at.
* `pixelAt`: what the pixel `i` of a group is.
* `drawPixels_composited`: **`DrawPixels` draws `pixelAt` and marks the hit of the sprite 0**.
-/

namespace RetroCpu.Nes

/-- The 2-bit value of a sprite in a column of the picture: a bit of its pattern in its eight
columns, from right to left in a flipped sprite, and nothing outside. -/
def Sprite.value (s : Sprite) (x : ℕ) : BitVec 32 :=
  if s.x.toNat ≤ x ∧ x < s.x.toNat + 8 then
    patternValue s.low s.high
      (if s.attrib &&& 0x40 ≠ 0 then x - s.x.toNat else 7 - (x - s.x.toNat))
  else 0

/-- The palette entry of a sprite in a column. -/
def Sprite.color (s : Sprite) (x : ℕ) : BitVec 32 :=
  0x10 + 4 * (s.attrib &&& 3).setWidth 32 + s.value x

/-- The colour where `s` is the first opaque sprite. -/
def Sprite.over (s : Sprite) (x : ℕ) (background : BitVec 32) : BitVec 32 :=
  if s.attrib &&& 0x20 ≠ 0 ∧ background ≠ 0 then background else s.color x

/-- The status register after pixels of which one hits the sprite 0 if `hit`. -/
structure MarksHit (hit : Prop) (status status' : Byte) : Prop where
  bit : status' &&& 0x40 ≠ 0 ↔ status &&& 0x40 ≠ 0 ∨ hit
  others : status' &&& 0xBF = status &&& 0xBF

namespace Ppu

/-- The first sprite of the list that has an opaque pixel in the column. -/
def firstOpaque (p : Ppu) (x : ℕ) : Option Sprite :=
  if p.spriteEnabled && (8 ≤ x || p.mask &&& 4 ≠ 0) then
    ((List.range p.numSprites).map p.sprites).find? fun s => s.value x ≠ 0
  else none

/-- The colour of a column over a background. -/
def colorOver (p : Ppu) (x : ℕ) (background : BitVec 32) : BitVec 32 :=
  (p.firstOpaque x).elim background fun s => s.over x background

/-- The sprite 0 is the first opaque sprite, over an opaque background. -/
def HitOver (p : Ppu) (x : ℕ) (background : BitVec 32) : Prop :=
  background ≠ 0 ∧ ∃ s, p.firstOpaque x = some s ∧ s.attrib &&& 0x10 ≠ 0

/-- The background of the pixel `i` of a group: the rest of the current tile, which is shifted
already, and then the next tile. -/
def backgroundAt (p : Ppu) (i : ℕ) : BitVec 32 :=
  if i < 8 - p.scrollFineX.toNat then
    p.view.tileColor p.current (7 - i) (p.currentPixelClock - 8 + i)
  else
    p.view.tileColor p.next (7 - (i + p.scrollFineX.toNat - 8)) (p.currentPixelClock - 8 + i)

def colorAt (p : Ppu) (i : ℕ) : BitVec 32 :=
  p.colorOver (p.currentPixelClock - 8 + i) (p.backgroundAt i)

def pixelOver (p : Ppu) (y : BitVec 32) (x : ℕ) (background : BitVec 32) : Pixel where
  offset := (p.stride * y).toNat + 4 * x
  x := BitVec.ofNat 32 x
  y := y
  background := background
  color := (p.colorOver x background).setWidth 8
  rgb := p.rgbPalette (((p.colorOver x background).setWidth 8).setWidth 5)

def pixelAt (p : Ppu) (i : ℕ) : Pixel :=
  p.pixelOver (BitVec.ofNat 32 p.currentScanline - 1) (p.currentPixelClock - 8 + i)
    (p.backgroundAt i)

end Ppu

theorem MarksHit.trans {P Q : Prop} {s₀ s₁ s₂ : Byte} (h : MarksHit P s₀ s₁)
    (h' : MarksHit Q s₁ s₂) : MarksHit (P ∨ Q) s₀ s₂ :=
  ⟨by rw [h'.bit, h.bit, or_assoc], h'.others.trans h.others⟩

theorem MarksHit.congr {P Q : Prop} {s₀ s₁ : Byte} (h : MarksHit P s₀ s₁) (hiff : P ↔ Q) :
    MarksHit Q s₀ s₁ := ⟨by rw [h.bit, hiff], h.others⟩

/-! ### The bits of a sprite -/

theorem spriteLow_eq (low : Byte) {k : ℕ} (hk : k < 8) :
    (low.setWidth 32 >>> (7 - BitVec.ofNat 32 k)) &&& 1 =
      if low.getLsbD (7 - k) then 1#32 else 0 := by
  have hall : ∀ (b : Byte) (k : Fin 8), (b.setWidth 32 >>> (7 - BitVec.ofNat 32 k.val)) &&& 1 =
      if b.getLsbD (7 - k.val) then 1#32 else 0 := by decide +kernel
  exact hall low ⟨k, hk⟩

theorem spriteHigh_eq (high : Byte) {k : ℕ} (hk : k < 8) :
    (if BitVec.ofNat 32 k = 7 then (high.setWidth 32 <<< 1) &&& 2
      else (high.setWidth 32 >>> (6 - BitVec.ofNat 32 k)) &&& 2) =
      if high.getLsbD (7 - k) then 2#32 else 0 := by
  have hall : ∀ (b : Byte) (k : Fin 8),
      (if BitVec.ofNat 32 k.val = 7 then (b.setWidth 32 <<< 1) &&& 2
        else (b.setWidth 32 >>> (6 - BitVec.ofNat 32 k.val)) &&& 2) =
        if b.getLsbD (7 - k.val) then 2#32 else 0 := by decide +kernel
  exact hall high ⟨k, hk⟩

theorem spriteIndex_eq (s : Sprite) {k : ℕ} (hk : k < 8) :
    (let px := BitVec.ofNat 32 k
    let idx : BitVec 32 := (s.low.setWidth 32 >>> (7 - px)) &&& 1
    if px = 7 then idx ||| ((s.high.setWidth 32 <<< 1) &&& 2)
    else idx ||| ((s.high.setWidth 32 >>> (6 - px)) &&& 2)) =
      patternValue s.low s.high (7 - k) := by
  have hor : ∀ (b₀ b₁ : Bool), ((if b₀ then 1#32 else 0) ||| if b₁ then 2#32 else 0) =
      (if b₀ then 1 else 0) + if b₁ then 2 else 0 := by decide
  dsimp only
  rw [← apply_ite (fun high => (s.low.setWidth 32 >>> (7 - BitVec.ofNat 32 k)) &&& 1 ||| high),
    spriteLow_eq s.low hk, spriteHigh_eq s.high hk]
  exact hor _ _

theorem Sprite.color_lt (s : Sprite) (x : ℕ) : s.color x < 32 := by
  have hattrib : (s.attrib &&& 3).toNat ≤ 3 := by
    rw [BitVec.toNat_and]
    exact Nat.and_le_right
  have hbits : ∀ b₀ b₁ : Bool, ((if b₀ then 1#32 else 0) + if b₁ then 2 else 0) < 4 := by decide
  have hvalue : s.value x < 4 := by
    rw [Sprite.value]
    split
    · exact hbits _ _
    · decide
  rw [Sprite.color]
  bv_omega

theorem column_sprite (s : Sprite) {x : ℕ} (hx : x < 256) :
    BitVec.ofNat 32 x - s.x.setWidth 32 < 8 ↔ s.x.toNat ≤ x ∧ x < s.x.toNat + 8 := by
  have hlt := s.x.isLt
  bv_omega

theorem column_flipped (s : Sprite) {x : ℕ} (hleft : s.x.toNat ≤ x) (hright : x < s.x.toNat + 8) :
    (if s.attrib &&& 0x40 ≠ 0 then 7 - (BitVec.ofNat 32 x - s.x.setWidth 32)
      else BitVec.ofNat 32 x - s.x.setWidth 32) =
      BitVec.ofNat 32 (if s.attrib &&& 0x40 ≠ 0 then 7 - (x - s.x.toNat) else x - s.x.toNat) := by
  have hlt := s.x.isLt
  split <;> bv_omega

namespace Ppu

variable {p : Ppu}

/-- One sprite of the list. -/
theorem spriteColor_cons (s : Sprite) (rest : List Sprite) {x : ℕ} (hx : x < 256)
    (color : BitVec 32) :
    spriteColor (BitVec.ofNat 32 x) color (s :: rest) =
      if s.value x ≠ 0 then (color ≠ 0 && s.attrib &&& 0x10 ≠ 0, s.over x color)
      else spriteColor (BitVec.ofNat 32 x) color rest := by
  rw [spriteColor]
  dsimp only
  by_cases hcolumn : s.x.toNat ≤ x ∧ x < s.x.toNat + 8
  · have hindex := spriteIndex_eq s
      (k := if s.attrib &&& 0x40 ≠ 0 then 7 - (x - s.x.toNat) else x - s.x.toNat)
      (by split <;> omega)
    have hbit : 7 - (if s.attrib &&& 0x40 ≠ 0 then 7 - (x - s.x.toNat) else x - s.x.toNat) =
        if s.attrib &&& 0x40 ≠ 0 then x - s.x.toNat else 7 - (x - s.x.toNat) := by
      split <;> omega
    have hvalue : s.value x = patternValue s.low s.high
        (7 - if s.attrib &&& 0x40 ≠ 0 then 7 - (x - s.x.toNat) else x - s.x.toNat) := by
      rw [Sprite.value, if_pos hcolumn, hbit]
    dsimp only at hindex
    rw [if_pos ((column_sprite s hx).mpr hcolumn), column_flipped s hcolumn.1 hcolumn.2, hindex,
      ← hvalue]
    refine if_congr Iff.rfl ?_ rfl
    rw [Sprite.over, ← ite_not (_ ∨ _)]
    by_cases hbehind : s.attrib &&& 0x20 ≠ 0 ∧ color ≠ 0
    · rw [if_pos hbehind, if_pos (not_or.mpr hbehind)]
    · rw [if_neg hbehind, if_neg (mt not_or.mp hbehind)]
      rfl
  · have hvalue : s.value x = 0 := by rw [Sprite.value, if_neg hcolumn]
    rw [if_neg (mt (column_sprite s hx).mp hcolumn), hvalue, if_neg (not_not.mpr rfl)]

/-- The sprites of a pixel: the first opaque one is shown over the background or behind it. -/
theorem spriteColor_eq (l : List Sprite) {x : ℕ} (hx : x < 256) (color : BitVec 32) :
    (spriteColor (BitVec.ofNat 32 x) color l).2 =
      ((l.find? fun s => s.value x ≠ 0).elim color fun s => s.over x color) ∧
    ((spriteColor (BitVec.ofNat 32 x) color l).1 = true ↔
      color ≠ 0 ∧ ∃ s, (l.find? fun s => s.value x ≠ 0) = some s ∧ s.attrib &&& 0x10 ≠ 0) := by
  induction l with
  | nil => exact ⟨rfl, by simp [spriteColor]⟩
  | cons s rest ih =>
    rw [spriteColor_cons s rest hx color]
    by_cases hvalue : s.value x ≠ 0
    · rw [if_pos hvalue, List.find?_cons_of_pos (by simpa using hvalue)]
      exact ⟨rfl, by simp⟩
    · rw [if_neg hvalue, List.find?_cons_of_neg (by simpa using hvalue)]
      exact ih

theorem getColor_eq (p : Ppu) {x : ℕ} (hx : x < 256) (background : BitVec 32) :
    ∃ hit, (if p.spriteEnabled && (8 ≤ BitVec.ofNat 32 x || p.mask &&& 4 ≠ 0) then
        spriteColor (BitVec.ofNat 32 x) background ((List.range p.numSprites).map p.sprites)
      else (false, background)) = (hit, p.colorOver x background) ∧
      (hit = true ↔ p.HitOver x background) := by
  have hle : (8 : BitVec 32) ≤ BitVec.ofNat 32 x ↔ 8 ≤ x := by
    rw [BitVec.le_def, BitVec.toNat_ofNat, Nat.mod_eq_of_lt (by omega)]
    rfl
  simp only [hle]
  unfold colorOver HitOver firstOpaque
  split
  · obtain ⟨hcolor, hhit⟩ :=
      spriteColor_eq ((List.range p.numSprites).map p.sprites) hx background
    exact ⟨_, Prod.ext rfl hcolor, hhit⟩
  · exact ⟨false, rfl, by simp⟩

theorem marksHit_or {hit : Bool} {P : Prop} (h : hit = true ↔ P) (status : Byte) :
    MarksHit P status (if hit then status ||| 0x40 else status) := by
  have hset : ∀ b : Byte, (b ||| 0x40) &&& 0x40 ≠ 0 ∧ (b ||| 0x40) &&& 0xBF = b &&& 0xBF := by
    decide +kernel
  cases hit with
  | true => exact ⟨iff_of_true (hset status).1 (.inr (h.mp rfl)), (hset status).2⟩
  | false =>
    have hP : ¬P := fun hp => Bool.false_ne_true (h.mpr hp)
    exact ⟨(or_iff_left hP).symm, rfl⟩

/-- `get_color`, with the tile shifted `i` times. -/
theorem drawPixel_over (y : BitVec 32) {t : Tile} {i x : ℕ} (ht : p.current = t.shifted i)
    (hi : i < 8) (hx : x < 256) : ∃ status,
      p.drawPixel (BitVec.ofNat 32 x) y =
        { p with
          current := t.shifted (i + 1), status := status
          frame := p.frame ++ [p.pixelOver y x (p.view.tileColor t (7 - i) x)] } ∧
      MarksHit (p.HitOver x (p.view.tileColor t (7 - i) x)) p.status status := by
  have hbackground : p.backgroundColor (BitVec.ofNat 32 x) = p.view.tileColor t (7 - i) x :=
    View.backgroundColor_shifted p.view ht hi hx
  have hbytes : (BitVec.ofNat 32 x * 4).toNat = 4 * x := by
    rw [BitVec.toNat_mul, BitVec.toNat_ofNat]
    show x % 2 ^ 32 * 4 % 2 ^ 32 = 4 * x
    omega
  obtain ⟨hit, hget, hhit⟩ := getColor_eq p hx (p.view.tileColor t (7 - i) x)
  refine ⟨_, ?_, marksHit_or hhit p.status⟩
  rw [drawPixel, hbackground]
  dsimp only
  rw [hget, hbytes, ← Tile.shifted_shifted, ← ht]
  rfl

/-- The loops of `DrawPixels` over `n` pixels of one tile. -/
theorem drawLoop_over (y : BitVec 32) (n : ℕ) {t : Tile} {i x : ℕ} (ht : p.current = t.shifted i)
    (hn : i + n ≤ 8) (hx : x + n ≤ 256) : ∃ status,
      drawLoop y n (BitVec.ofNat 32 x) p =
        { p with
          current := t.shifted (i + n), status := status
          frame := p.frame ++ (List.range n).map fun j =>
            p.pixelOver y (x + j) (p.view.tileColor t (7 - (i + j)) (x + j)) } ∧
      MarksHit (∃ j < n, p.HitOver (x + j) (p.view.tileColor t (7 - (i + j)) (x + j))) p.status
        status := by
  induction n generalizing p i x with
  | zero =>
    refine ⟨p.status, ?_, by simp, rfl⟩
    rw [drawLoop, List.range_zero, List.map_nil, List.append_nil, Nat.add_zero, ← ht]
  | succ n ih =>
    obtain ⟨status₁, hpixel, hmarks₁⟩ := drawPixel_over y ht (by omega) (by omega : x < 256)
    have hnext : BitVec.ofNat 32 x + 1 = BitVec.ofNat 32 (x + 1) := (BitVec.ofNat_add x 1).symm
    obtain ⟨status₂, hloop, hmarks₂⟩ :=
      ih (p := p.drawPixel (BitVec.ofNat 32 x) y) (i := i + 1) (x := x + 1)
        (by rw [hpixel]) (by omega) (by omega)
    have hi (j : ℕ) : i + 1 + j = i + (j + 1) := by omega
    have hj (j : ℕ) : x + 1 + j = x + (j + 1) := by omega
    refine ⟨status₂, ?_, ?_⟩
    · rw [drawLoop, hnext, hloop, hpixel, List.range_succ_eq_map, List.map_cons, List.map_map]
      simp only [hi, hj, List.append_assoc]
      rfl
    · rw [hpixel] at hmarks₂
      refine (hmarks₁.trans hmarks₂).congr ?_
      rw [Nat.exists_lt_succ_left]
      simp only [hi, hj]
      rfl

/-- Where the bits of the tiles are. -/
theorem backgroundAt_current {i : ℕ} (hi : i < 8 - p.scrollFineX.toNat) :
    p.backgroundAt i = p.view.tileColor p.current (7 - i) (p.currentPixelClock - 8 + i) := if_pos hi

theorem backgroundAt_next (hfx : p.scrollFineX.toNat < 8) (j : ℕ) :
    p.backgroundAt (8 - p.scrollFineX.toNat + j) = p.view.tileColor p.next (7 - j)
      (p.currentPixelClock - 8 + (8 - p.scrollFineX.toNat) + j) := by
  have hbit : 8 - p.scrollFineX.toNat + j + p.scrollFineX.toNat - 8 = j := by omega
  rw [backgroundAt, if_neg (by omega), hbit, Nat.add_assoc]

theorem backgroundAt_lt (hcurrent : p.current.attrib ≤ 3) (hnext : p.next.attrib ≤ 3) (i : ℕ) :
    p.backgroundAt i < 16 := by
  have hall : ∀ attrib : Byte, attrib ≤ 3 → ∀ b₀ b₁ : Bool,
      (let value : BitVec 32 := (if b₀ then 1 else 0) + if b₁ then 2 else 0
      if value = 0 then 0 else value + 4 * attrib.setWidth 32) < 16 := by
    decide +kernel
  have htile (t : Tile) (ht : t.attrib ≤ 3) (bit x : ℕ) : p.view.tileColor t bit x < 16 := by
    rw [View.tileColor]
    split
    · exact hall t.attrib ht _ _
    · decide
  rw [backgroundAt]
  split
  · exact htile p.current hcurrent _ _
  · exact htile p.next hnext _ _

/-- What is left of the tile after a group. -/
theorem drawPixels_over (hfx : p.scrollFineX.toNat < 8) (hdot : 8 ≤ p.currentPixelClock)
    (hlast : p.currentPixelClock ≤ 256) : ∃ status,
      p.drawPixels =
        { p with
          current := p.next.shifted p.scrollFineX.toNat, status := status
          frame := p.frame ++ (List.range 8).map p.pixelAt } ∧
      MarksHit (∃ i < 8, p.HitOver (p.currentPixelClock - 8 + i) (p.backgroundAt i)) p.status
        status := by
  have hn := toNat_rest hfx
  have hx : BitVec.ofNat 32 p.currentPixelClock - 8 = BitVec.ofNat 32 (p.currentPixelClock - 8) :=
    BitVec.ofNat_sub_ofNat_of_le _ 8 (by decide) hdot
  have hxn := ofNat_add_rest hfx (p.currentPixelClock - 8)
  have hrest : 8 - (8 - p.scrollFineX.toNat) = p.scrollFineX.toNat := by omega
  have hstart (t : Tile) : t = t.shifted 0 := by
    unfold Tile.shifted
    simp
  have hfirst (j : ℕ) (hj : j < 8 - p.scrollFineX.toNat) :
      p.view.tileColor p.current (7 - (0 + j)) (p.currentPixelClock - 8 + j) =
        p.backgroundAt j := by
    rw [Nat.zero_add, backgroundAt_current hj]
  have hsecond (j : ℕ) :
      p.view.tileColor p.next (7 - (0 + j))
        (p.currentPixelClock - 8 + (8 - p.scrollFineX.toNat) + j) =
      p.backgroundAt (8 - p.scrollFineX.toNat + j) := by
    rw [Nat.zero_add, backgroundAt_next hfx]
  obtain ⟨status₁, hloop₁, hmarks₁⟩ :=
    drawLoop_over (BitVec.ofNat 32 p.currentScanline - 1) (8 - p.scrollFineX.toNat)
      (hstart p.current) (by omega)
      (by omega : p.currentPixelClock - 8 + (8 - p.scrollFineX.toNat) ≤ 256)
  obtain ⟨status₂, hloop₂, hmarks₂⟩ :=
    drawLoop_over (p := { p with
        current := p.next, status := status₁
        frame := p.frame ++ (List.range (8 - p.scrollFineX.toNat)).map fun j =>
          p.pixelOver (BitVec.ofNat 32 p.currentScanline - 1) (p.currentPixelClock - 8 + j)
            (p.view.tileColor p.current (7 - (0 + j)) (p.currentPixelClock - 8 + j)) })
      (BitVec.ofNat 32 p.currentScanline - 1) p.scrollFineX.toNat (hstart p.next) (by omega)
      (by omega : p.currentPixelClock - 8 + (8 - p.scrollFineX.toNat) + p.scrollFineX.toNat ≤ 256)
  refine ⟨status₂, ?_, (hmarks₁.trans hmarks₂).congr ?_⟩
  · have hpixels := View.map_range_append (m := 8 - p.scrollFineX.toNat) (n := p.scrollFineX.toNat)
      (h := p.pixelAt)
      (f := fun j => p.pixelOver (BitVec.ofNat 32 p.currentScanline - 1)
        (p.currentPixelClock - 8 + j)
        (p.view.tileColor p.current (7 - (0 + j)) (p.currentPixelClock - 8 + j)))
      (g := fun j => p.pixelOver (BitVec.ofNat 32 p.currentScanline - 1)
        (p.currentPixelClock - 8 + (8 - p.scrollFineX.toNat) + j)
        (p.view.tileColor p.next (7 - (0 + j))
          (p.currentPixelClock - 8 + (8 - p.scrollFineX.toNat) + j)))
      (fun j hj => by rw [hfirst j hj]; rfl)
      (fun j hj => by rw [hsecond j, Nat.add_assoc]; rfl)
    rw [Nat.sub_add_cancel (Nat.le_of_lt hfx)] at hpixels
    rw [← hpixels, ← List.append_assoc, drawPixels, if_neg (by omega)]
    dsimp only
    rw [hx, hn, hloop₁, hxn, hrest]
    refine hloop₂.trans ?_
    rw [Nat.zero_add]
    rfl
  · constructor
    · rintro (⟨j, hj, hhit⟩ | ⟨j, hj, hhit⟩)
      · rw [hfirst j hj] at hhit
        exact ⟨j, by omega, hhit⟩
      · refine ⟨8 - p.scrollFineX.toNat + j, by omega, ?_⟩
        rw [← hsecond j, ← Nat.add_assoc]
        exact hhit
    · rintro ⟨i, hi, hhit⟩
      by_cases hj : i < 8 - p.scrollFineX.toNat
      · refine .inl ⟨i, hj, ?_⟩
        rw [hfirst i hj]
        exact hhit
      · obtain ⟨j, rfl⟩ := Nat.exists_eq_add_of_le (Nat.le_of_not_lt hj)
        rw [← hsecond j, ← Nat.add_assoc] at hhit
        exact .inr ⟨j, by omega, hhit⟩

theorem colorOver_lt {background : BitVec 32} (h : background < 32) (x : ℕ) :
    p.colorOver x background < 32 := by
  rw [colorOver]
  cases p.firstOpaque x with
  | none => exact h
  | some s =>
    rw [Option.elim_some, Sprite.over]
    split
    · exact h
    · exact s.color_lt x

theorem colorAt_lt (hcurrent : p.current.attrib ≤ 3) (hnext : p.next.attrib ≤ 3) (i : ℕ) :
    p.colorAt i < 32 := by
  have hbackground := backgroundAt_lt hcurrent hnext i
  exact colorOver_lt (by bv_omega) _

end Ppu

end RetroCpu.Nes
