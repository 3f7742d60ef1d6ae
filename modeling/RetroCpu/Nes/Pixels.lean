import Mathlib.Logic.Function.Iterate
import RetroCpu.Nes.Ppu

/-!
# Tiles and pixels

`View` is the part of the picture processor that the background comes from: its memory, the
scroll registers, the three tiles, and what has been drawn.  `View.shown` is the view in the
middle of a scanline, `group_shown` follows it over eight dots, and `pixel_eq` says which
bits of which tile a pixel gets its colour from.
-/

namespace RetroCpu.Nes

/-- The picture processor as far as the background goes.  `drawn` has the column, the row and
the background colour of each pixel. -/
structure View where
  memory : MemoryMap
  memMask : BitVec 32
  host : HostMemory
  paletteIndices : BitVec 5 → Byte
  bgPatternAddr : Word
  vramAddr : Word
  scrollFineX : Word
  bgEnabled : Bool
  left : Bool
  current : Tile
  next : Tile
  future : Tile
  drawn : List (BitVec 32 × BitVec 32 × BitVec 32)

namespace View

def Mapped (v : View) : Prop :=
  ∀ a < 0x3F00, ∃ n readonly, SystemBus.Backed v.memory v.memMask a n readonly

/-- The byte that `Read` returns. -/
def peek (v : View) (addr : CpuAddr) : Byte :=
  let addr := addr &&& 0x3FFF
  if 0x3F00 ≤ addr then v.paletteIndices (Ppu.paletteIndex addr)
  else
    let addr := addr &&& v.memMask
    v.host ((v.memory.page addr).ptr.getD 0 + v.memory.offset addr)

/-- `ReadNameTableByte`. -/
def nametable (v : View) : Byte := v.peek (0x2000 ||| (v.vramAddr &&& 0xFFF).setWidth 32)

/-- `ReadAttribTableByte`. -/
def attrib (v : View) : Byte := Ppu.attribBits v.vramAddr (v.peek (Ppu.attribAddr v.vramAddr))

/-- The address that `ReadBackgroundBit0` reads. -/
def backgroundAddr (v : View) (nt : Byte) : CpuAddr :=
  v.bgPatternAddr.setWidth 32 + nt.setWidth 32 * 16#32 +
    ((v.vramAddr >>> 12) &&& 7).setWidth 32

/-- The tile that `vram_addr` addresses. -/
def tile (v : View) : Tile where
  nametable := v.nametable
  attrib := v.attrib
  low := v.peek (v.backgroundAddr v.nametable)
  high := v.peek (v.backgroundAddr v.nametable + 8)

/-- The background colour in `get_color`. -/
def backgroundColor (v : View) (x : BitVec 32) : BitVec 32 :=
  let color : BitVec 32 :=
    if v.bgEnabled && (8 ≤ x || v.left) then
      (4#32 * v.current.attrib.setWidth 32 + (v.current.low >>> 7).setWidth 32) |||
        ((v.current.high >>> 6) &&& 2).setWidth 32
    else 0
  if color &&& 3 = 0 then 0 else color

/-- One round of the loops in `DrawPixels`. -/
def drawPixel (v : View) (x y : BitVec 32) : View :=
  { v with
    current := { v.current with low := v.current.low <<< 1, high := v.current.high <<< 1 }
    drawn := v.drawn ++ [(x, y, v.backgroundColor x)] }

def drawLoop (y : BitVec 32) : Nat → BitVec 32 → View → View
  | 0, _, v => v
  | n + 1, x, v => drawLoop y n (x + 1) (v.drawPixel x y)

/-- `DrawPixels`, from the column `x` on. -/
def drawPixels (v : View) (x y : BitVec 32) : View :=
  let n : BitVec 32 := 8 - v.scrollFineX.setWidth 32
  let v := drawLoop y n.toNat x v
  let v := { v with current := v.next }
  drawLoop y (8 - n.toNat) (x + n) v

/-- A tile as it is being fetched, at `vram_addr`. -/
def fetchedNt (v : View) (t : Tile) : Tile := { t with nametable := v.nametable }

def fetchedAt (v : View) (t : Tile) : Tile := { t with attrib := v.attrib }

def fetchedBg (v : View) (t : Tile) : Tile :=
  { t with low := v.peek (v.backgroundAddr t.nametable) }

def fetchedBg2 (v : View) (t : Tile) : Tile :=
  { t with high := v.peek (v.backgroundAddr t.nametable + 8) }

/-- Eight dots that draw from the column `x` on and fetch a tile. -/
def group (v : View) (x y : BitVec 32) : View :=
  let v := { v with future := v.tile }.drawPixels x y
  { v with vramAddr := Ppu.horizNext v.vramAddr, next := v.future }

end View

/-! ### A tile and its bits -/

/-- A tile whose patterns are shifted by `n`. -/
def Tile.shifted (t : Tile) (n : Nat) : Tile := { t with low := t.low <<< n, high := t.high <<< n }

theorem Tile.shifted_shifted (t : Tile) (m n : Nat) :
    (t.shifted m).shifted n = t.shifted (m + n) := by
  unfold shifted
  simp only [BitVec.shiftLeft_add]

def patternValue (low high : Byte) (bit : Nat) : BitVec 32 :=
  (if low.getLsbD bit then 1 else 0) + if high.getLsbD bit then 2 else 0

theorem low_shifted (low : Byte) {i : Nat} (hi : i < 8) :
    ((low <<< i) >>> 7).setWidth 32 = if low.getLsbD (7 - i) then 1#32 else 0 := by
  have hall : ∀ (b : Byte) (i : Fin 8), ((b <<< i.val) >>> 7).setWidth 32 =
      if b.getLsbD (7 - i.val) then 1#32 else 0 := by decide +kernel
  exact hall low ⟨i, hi⟩

theorem high_shifted (high : Byte) {i : Nat} (hi : i < 8) :
    (((high <<< i) >>> 6) &&& 2).setWidth 32 = if high.getLsbD (7 - i) then 2#32 else 0 := by
  have hall : ∀ (b : Byte) (i : Fin 8), (((b <<< i.val) >>> 6) &&& 2).setWidth 32 =
      if b.getLsbD (7 - i.val) then 2#32 else 0 := by decide +kernel
  exact hall high ⟨i, hi⟩

/-- The attribute and the two bits of the pattern put together. -/
theorem color_eq (attrib : Byte) (b₀ b₁ : Bool) :
    (let color : BitVec 32 := (4#32 * attrib.setWidth 32 + if b₀ then 1 else 0) |||
      if b₁ then 2 else 0
    if color &&& 3 = 0 then 0 else color) =
      let value : BitVec 32 := (if b₀ then 1 else 0) + if b₁ then 2 else 0
      if value = 0 then 0 else value + 4 * attrib.setWidth 32 := by
  revert attrib b₀ b₁
  decide +kernel

/-- How many columns of a tile are left at a fine scroll. -/
theorem toNat_rest {fineX : Word} (h : fineX.toNat < 8) :
    ((8 : BitVec 32) - fineX.setWidth 32).toNat = 8 - fineX.toNat := by
  have hwide : (fineX.setWidth 32).toNat = fineX.toNat := BitVec.toNat_setWidth_of_le (by decide)
  have h8 : (8 : BitVec 32).toNat = 8 := rfl
  rw [BitVec.toNat_sub, hwide, h8]
  omega

theorem ofNat_add_rest {fineX : Word} (h : fineX.toNat < 8) (x : Nat) :
    BitVec.ofNat 32 x + ((8 : BitVec 32) - fineX.setWidth 32) =
      BitVec.ofNat 32 (x + (8 - fineX.toNat)) := by
  rw [BitVec.ofNat_add, ← toNat_rest h, BitVec.ofNat_toNat, BitVec.setWidth_eq]

namespace View

def tileColor (v : View) (t : Tile) (bit x : Nat) : BitVec 32 :=
  if v.bgEnabled && (8 ≤ x || v.left) then
    let value := patternValue t.low t.high bit
    if value = 0 then 0 else value + 4 * t.attrib.setWidth 32
  else 0

theorem backgroundColor_shifted (v : View) {t : Tile} {i x : Nat}
    (ht : v.current = t.shifted i) (hi : i < 8) (hx : x < 256) :
    v.backgroundColor (BitVec.ofNat 32 x) = v.tileColor t (7 - i) x := by
  have hlow : v.current.low = t.low <<< i := congrArg Tile.low ht
  have hhigh : v.current.high = t.high <<< i := congrArg Tile.high ht
  have hattrib : v.current.attrib = t.attrib := by
    rw [ht]
    rfl
  have hle : (8 : BitVec 32) ≤ BitVec.ofNat 32 x ↔ 8 ≤ x := by
    rw [BitVec.le_def, BitVec.toNat_ofNat, Nat.mod_eq_of_lt (by omega)]
    rfl
  unfold backgroundColor tileColor
  rw [hlow, hhigh, hattrib, low_shifted t.low hi, high_shifted t.high hi]
  simp only [hle]
  cases v.bgEnabled && (8 ≤ x || v.left) with
  | false => simp
  | true => exact color_eq t.attrib _ _

/-- Pixels are drawn, and `t` is left of the tile. -/
def paint (v : View) (t : Tile) (pixels : List (BitVec 32 × BitVec 32 × BitVec 32)) : View :=
  { v with current := t, drawn := v.drawn ++ pixels }

theorem paint_paint (v : View) (t t' : Tile) (ps ps' : List (BitVec 32 × BitVec 32 × BitVec 32)) :
    (v.paint t ps).paint t' ps' = v.paint t' (ps ++ ps') := by
  unfold paint
  rw [List.append_assoc]

def tilePixel (v : View) (y : BitVec 32) (t : Tile) (bit x : Nat) :
    BitVec 32 × BitVec 32 × BitVec 32 := (BitVec.ofNat 32 x, y, v.tileColor t bit x)

theorem drawPixel_eq (y : BitVec 32) {v : View} {t : Tile} {i x : Nat}
    (ht : v.current = t.shifted i) (hi : i < 8) (hx : x < 256) :
    v.drawPixel (BitVec.ofNat 32 x) y =
      v.paint (t.shifted (i + 1)) [v.tilePixel y t (7 - i) x] := by
  have hcolor := backgroundColor_shifted v ht hi hx
  rw [drawPixel, hcolor, ← Tile.shifted_shifted, ← ht]
  rfl

/-- The pixels that `n` rounds of `DrawPixels` draw from a shifted tile. -/
theorem drawLoop_eq (y : BitVec 32) (n : Nat) {v : View} {t : Tile} {i x : Nat}
    (ht : v.current = t.shifted i) (hn : i + n ≤ 8) (hx : x + n ≤ 256) :
    drawLoop y n (BitVec.ofNat 32 x) v =
      v.paint (t.shifted (i + n))
        ((List.range n).map fun j => v.tilePixel y t (7 - (i + j)) (x + j)) := by
  induction n generalizing v i x with
  | zero =>
    rw [drawLoop, List.range_zero, List.map_nil, Nat.add_zero, ← ht, paint, List.append_nil]
  | succ n ih =>
    have hx1 : BitVec.ofNat 32 x + 1 = BitVec.ofNat 32 (x + 1) := (BitVec.ofNat_add x 1).symm
    have hshift : i + 1 + n = i + (n + 1) := by omega
    have hpixel : ∀ j, (v.paint (t.shifted (i + 1)) [v.tilePixel y t (7 - i) x]).tilePixel y t
        (7 - (i + 1 + j)) (x + 1 + j) = v.tilePixel y t (7 - (i + (j + 1))) (x + (j + 1)) := by
      intro j
      rw [Nat.add_assoc i, Nat.add_assoc x, Nat.add_comm 1 j]
      rfl
    have hpaint : (v.paint (t.shifted (i + 1)) [v.tilePixel y t (7 - i) x]).current =
        t.shifted (i + 1) := rfl
    rw [drawLoop, drawPixel_eq y ht (by omega) (by omega), hx1,
      ih hpaint (by omega) (by omega), paint_paint, hshift,
      List.range_succ_eq_map, List.map_cons, List.map_map]
    simp only [hpixel]
    rfl

/-- `DrawPixels`: the rest of one tile and the start of the next. -/
theorem drawPixels_eq (y : BitVec 32) {v : View} {t : Tile} {x : Nat}
    (hfx : v.scrollFineX.toNat < 8) (ht : v.current = t.shifted v.scrollFineX.toNat)
    (hx : x + 8 ≤ 256) :
    v.drawPixels (BitVec.ofNat 32 x) y =
      v.paint (v.next.shifted v.scrollFineX.toNat)
        (((List.range (8 - v.scrollFineX.toNat)).map fun j =>
            v.tilePixel y t (7 - (v.scrollFineX.toNat + j)) (x + j)) ++
          (List.range v.scrollFineX.toNat).map fun j =>
            v.tilePixel y v.next (7 - j) (x + (8 - v.scrollFineX.toNat) + j)) := by
  have hn := toNat_rest hfx
  have hxn := ofNat_add_rest hfx x
  have hrest : 8 - (8 - v.scrollFineX.toNat) = v.scrollFineX.toNat := by omega
  have hfirst := drawLoop_eq y (8 - v.scrollFineX.toNat) ht (by omega) (by omega : x + _ ≤ 256)
  have hnext : ∀ ps, ({
      v.paint (t.shifted (v.scrollFineX.toNat + (8 - v.scrollFineX.toNat))) ps with
      current := v.next } : View) = v.paint v.next ps := fun _ => rfl
  have hstart : v.next = v.next.shifted 0 := by
    unfold Tile.shifted
    simp
  have hsecond := fun ps => drawLoop_eq y v.scrollFineX.toNat
    (v := v.paint v.next ps) (x := x + (8 - v.scrollFineX.toNat)) hstart (by omega) (by omega)
  rw [drawPixels, hn, hfirst, hxn, hrest]
  show drawLoop y _ _ { v.paint _ _ with current := v.next } = _
  rw [hnext, hsecond, paint_paint, Nat.zero_add]
  simp only [Nat.zero_add]
  rfl

end View

namespace View

def tileAt (v : View) (k : Nat) : Tile :=
  tile { v with vramAddr := Ppu.horizNext^[k] v.vramAddr }

def pixel (v : View) (y : BitVec 32) (x : Nat) : BitVec 32 × BitVec 32 × BitVec 32 :=
  v.tilePixel y (v.tileAt ((x + v.scrollFineX.toNat) / 8)) (7 - (x + v.scrollFineX.toNat) % 8) x

/-- The view after `k` groups of a scanline that begins at `v`: two tiles are ready, and the
next one is fetched from the column after them. -/
def shown (v : View) (y : BitVec 32) (k : Nat) (future : Tile) : View :=
  { v with
    vramAddr := Ppu.horizNext^[k + 2] v.vramAddr
    current := (v.tileAt k).shifted v.scrollFineX.toNat
    next := v.tileAt (k + 1), future
    drawn := v.drawn ++ (List.range (8 * k)).map (v.pixel y) }

theorem map_range_append {α : Type} {f g h : Nat → α} {m n : Nat} (hf : ∀ j < m, f j = h j)
    (hg : ∀ j < n, g j = h (m + j)) :
    (List.range m).map f ++ (List.range n).map g = (List.range (m + n)).map h := by
  have hleft : (List.range m).map f = (List.range m).map h :=
    List.map_congr_left fun j hj => hf j (List.mem_range.mp hj)
  have hright : (List.range n).map g = ((List.range n).map (m + ·)).map h := by
    rw [List.map_map]
    exact List.map_congr_left fun j hj => hg j (List.mem_range.mp hj)
  rw [List.range_add, List.map_append, hleft, hright]

/-- **A group of dots draws the next eight pixels and fetches the next tile.** -/
theorem group_shown (v : View) (y : BitVec 32) {k : Nat} (hfx : v.scrollFineX.toNat < 8)
    (hk : k < 32) (t : Tile) :
    (v.shown y k t).group (BitVec.ofNat 32 (8 * k)) y = v.shown y (k + 1) (v.tileAt (k + 2)) := by
  have htile : (v.shown y k t).tile = v.tileAt (k + 2) := rfl
  have hvram : Ppu.horizNext (Ppu.horizNext^[k + 2] v.vramAddr) =
      Ppu.horizNext^[k + 1 + 2] v.vramAddr := (Function.iterate_succ_apply' _ (k + 2) _).symm
  have hdraw := drawPixels_eq y (v := { v.shown y k t with future := v.tileAt (k + 2) })
    (x := 8 * k) (t := v.tileAt k) hfx rfl (by omega)
  have hpixels : (List.range (8 * k)).map (v.pixel y) ++
      (((List.range (8 - v.scrollFineX.toNat)).map fun j =>
          v.tilePixel y (v.tileAt k) (7 - (v.scrollFineX.toNat + j)) (8 * k + j)) ++
        (List.range v.scrollFineX.toNat).map fun j =>
          v.tilePixel y (v.tileAt (k + 1)) (7 - j) (8 * k + (8 - v.scrollFineX.toNat) + j)) =
      (List.range (8 * (k + 1))).map (v.pixel y) := by
    have hgroup := map_range_append (m := 8 - v.scrollFineX.toNat) (n := v.scrollFineX.toNat)
      (h := fun j => v.pixel y (8 * k + j))
      (f := fun j => v.tilePixel y (v.tileAt k) (7 - (v.scrollFineX.toNat + j)) (8 * k + j))
      (g := fun j =>
        v.tilePixel y (v.tileAt (k + 1)) (7 - j) (8 * k + (8 - v.scrollFineX.toNat) + j))
      (by
        intro j hj
        have hdiv : (8 * k + j + v.scrollFineX.toNat) / 8 = k := by omega
        have hmod : (8 * k + j + v.scrollFineX.toNat) % 8 = v.scrollFineX.toNat + j := by omega
        rw [pixel, hdiv, hmod])
      (by
        intro j hj
        have hx : 8 * k + (8 - v.scrollFineX.toNat + j) =
            8 * k + (8 - v.scrollFineX.toNat) + j := by
          omega
        have hdiv : (8 * k + (8 - v.scrollFineX.toNat + j) + v.scrollFineX.toNat) / 8 = k + 1 := by
          omega
        have hmod : (8 * k + (8 - v.scrollFineX.toNat + j) + v.scrollFineX.toNat) % 8 = j := by
          omega
        rw [pixel, hdiv, hmod, hx])
    have hadd : 8 * (k + 1) = 8 * k + (8 - v.scrollFineX.toNat + v.scrollFineX.toNat) := by omega
    have hsplit : List.range (8 * k + (8 - v.scrollFineX.toNat + v.scrollFineX.toNat)) =
        List.range (8 * k) ++
          (List.range (8 - v.scrollFineX.toNat + v.scrollFineX.toNat)).map (8 * k + ·) :=
      List.range_add
    rw [hgroup, hadd, hsplit, List.map_append, List.map_map]
    rfl
  rw [group, htile, hdraw]
  unfold paint shown
  simp only [List.append_assoc, hvram]
  rw [← hpixels]
  rfl

/-! ### The colour of a pixel -/

theorem horizNext_row (w : Word) :
    (Ppu.horizNext w >>> 12) &&& (7 : Word) = (w >>> 12) &&& (7 : Word) := by
  unfold Ppu.horizNext
  by_cases h : w &&& 0x1F = 0x1F
  · rw [if_pos h, BitVec.ushiftRight_xor_distrib]
    have h0 : (0x41F : Word) >>> 12 = 0#16 := by decide
    rw [h0, BitVec.xor_zero]
  · rw [if_neg h]
    have hlow : w.toNat % 32 ≠ 31 := by
      intro hmod
      apply h
      apply BitVec.eq_of_toNat_eq
      rw [BitVec.toNat_and]
      exact (Nat.and_two_pow_sub_one_eq_mod w.toNat 5).trans hmod
    have hshift : (w + 1) >>> 12 = w >>> 12 := by
      apply BitVec.eq_of_toNat_eq
      have hw := w.isLt
      have hone : (1 : Word).toNat = 1 := rfl
      rw [BitVec.toNat_ushiftRight, BitVec.toNat_ushiftRight, Nat.shiftRight_eq_div_pow,
        Nat.shiftRight_eq_div_pow, BitVec.toNat_add, hone]
      omega
    rw [hshift]

theorem iterate_horizNext_row (w : Word) (k : Nat) :
    (Ppu.horizNext^[k] w >>> 12) &&& (7 : Word) = (w >>> 12) &&& (7 : Word) := by
  induction k with
  | zero => rfl
  | succ k ih => rw [Function.iterate_succ_apply', horizNext_row, ih]

/-- The background colour of the column `x` of a scanline that begins at `v`. -/
def background (v : View) (x : Nat) : BitVec 32 :=
  let column := x + v.scrollFineX.toNat
  let addr := Ppu.horizNext^[column / 8] v.vramAddr
  let nt := v.peek (0x2000 ||| (addr &&& 0xFFF).setWidth 32)
  let row := (v.vramAddr >>> 12) &&& 7
  let pattern : CpuAddr := v.bgPatternAddr.setWidth 32 + nt.setWidth 32 * 16#32 + row.setWidth 32
  let value := patternValue (v.peek pattern) (v.peek (pattern + 8)) (7 - column % 8)
  if value = 0 then 0
  else value + 4 * (Ppu.attribBits addr (v.peek (Ppu.attribAddr addr))).setWidth 32

theorem pixel_eq (v : View) (y : BitVec 32) (x : Nat) : v.pixel y x =
    (BitVec.ofNat 32 x, y,
      if v.bgEnabled && (8 ≤ x || v.left) then v.background x else 0) := by
  unfold pixel tilePixel tileColor background tileAt tile backgroundAddr
  dsimp only
  rw [iterate_horizNext_row]
  rfl

end View

end RetroCpu.Nes
