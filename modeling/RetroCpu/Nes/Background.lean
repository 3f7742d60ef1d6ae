import RetroCpu.Nes.Beam
import RetroCpu.Nes.Pixels

/-!
# The background pipeline

What each fetch does to the `View` of the picture processor.  Where every address below the
palette is memory, that depends on the view alone.
-/

namespace RetroCpu.Nes

namespace Ppu

/-- The column, the row and the background colour of each pixel in the frame buffer. -/
def drawn (p : Ppu) : List (BitVec 32 × BitVec 32 × BitVec 32) :=
  p.frame.map fun pixel => (pixel.x, pixel.y, pixel.background)

def view (p : Ppu) : View where
  memory := p.bus.memory
  memMask := p.bus.memMask
  host := p.bus.host
  paletteIndices := p.paletteIndices
  bgPatternAddr := p.bgPatternAddr
  vramAddr := p.vramAddr
  scrollFineX := p.scrollFineX
  bgEnabled := p.bgEnabled
  left := p.mask &&& 2 ≠ 0
  current := p.current
  next := p.next
  future := p.future
  drawn := p.drawn

/-! ### Reads -/

variable {p : Ppu} {v : View}

theorem read_view (hm : p.view.Mapped) (addr : CpuAddr) :
    (p.read addr).1 = p.view.peek addr ∧ (p.read addr).2.view = p.view := by
  unfold read View.peek
  dsimp only
  by_cases hpalette : 0x3F00 ≤ addr &&& 0x3FFF
  · rw [if_pos hpalette, if_pos hpalette]
    exact ⟨rfl, rfl⟩
  · obtain ⟨n, readonly, hbacked⟩ := hm (addr &&& 0x3FFF) (by bv_omega)
    obtain ⟨hdata, hhost⟩ := SystemBus.Backed.readByte hbacked 0
    obtain ⟨base, hbase, hn⟩ := hbacked.ptr
    have hf := SystemBus.frame_readByte p.bus 0 (addr &&& 0x3FFF)
    rw [if_neg hpalette, if_neg hpalette, hbase, Option.getD_some, hn]
    refine ⟨hdata, ?_⟩
    show { p.view with
      memory := (p.bus.readByte 0 (addr &&& 0x3FFF)).bus.memory
      memMask := (p.bus.readByte 0 (addr &&& 0x3FFF)).bus.memMask
      host := (p.bus.readByte 0 (addr &&& 0x3FFF)).bus.host } = p.view
    rw [hf.memory, hf.memMask, hhost]
    rfl

/-! ### Drawing -/

theorem view_drawPixel (p : Ppu) (x y : BitVec 32) :
    (p.drawPixel x y).view = p.view.drawPixel x y := by
  unfold drawPixel View.drawPixel view drawn
  simp only [List.map_append, List.map_cons, List.map_nil]
  rfl

theorem view_drawLoop (y : BitVec 32) (n : Nat) (x : BitVec 32) (p : Ppu) :
    (drawLoop y n x p).view = View.drawLoop y n x p.view := by
  induction n generalizing x p with
  | zero => rfl
  | succ n ih => rw [drawLoop, View.drawLoop, ih, view_drawPixel]

theorem view_drawPixels (h : p.currentPixelClock ≤ 256) :
    p.drawPixels.view = p.view.drawPixels (BitVec.ofNat 32 p.currentPixelClock - 8)
      (BitVec.ofNat 32 p.currentScanline - 1) := by
  have hset : ∀ q : Ppu, ({ q with current := q.next } : Ppu).view =
      { q.view with current := q.view.next } := fun _ => rfl
  rw [drawPixels, if_neg (by omega)]
  dsimp only
  rw [view_drawLoop, hset, view_drawLoop]
  rfl

theorem frame_read (p : Ppu) (addr : CpuAddr) : (p.read addr).2.frame = p.frame := by
  simp only [read]
  split <;> rfl

theorem frame_incrVert (p : Ppu) : p.incrVert.frame = p.frame := by
  unfold incrVert
  split <;> rfl

theorem frame_addSprite (p : Ppu) (index : BitVec 32) (sY eY : Byte) (y : BitVec 32) :
    (p.addSprite index sY eY y).frame = p.frame := by
  unfold addSprite
  simp only [readSpriteBit0, readSpriteBit1]
  exact (frame_read _ _).trans (frame_read _ _)

theorem frame_evaluateSpritesLoop (fuel : Nat) (index : BitVec 32) (p : Ppu) :
    (evaluateSpritesLoop fuel index p).frame = p.frame := by
  induction fuel generalizing index p with
  | zero => rfl
  | succ fuel ih =>
    simp only [evaluateSpritesLoop]
    split
    · split
      · rw [ih]
        split
        · exact frame_addSprite _ _ _ _ _
        · rfl
      · split
        · exact ih _ _
        · exact ih _ _
    · rfl

/-- The last fetch of a scanline draws, and what comes after it draws nothing. -/
theorem drawn_leaveBg2 (p : Ppu) : p.leaveBg2.drawn = p.drawn := by
  unfold leaveBg2 drawn
  split
  · dsimp only
    split
    · rw [evaluateSprites, frame_evaluateSpritesLoop]
      exact congrArg (List.map _) (frame_incrVert _)
    · rfl
  · rfl

theorem view_leaveBg2 {p : Ppu} (hclock : p.currentPixelClock ≠ 256) : p.leaveBg2.view =
    { p.view with vramAddr := horizNext p.view.vramAddr, next := p.view.future } := by
  rw [leaveBg2, if_neg hclock]
  rfl

theorem clock_drawPixels (p : Ppu) : p.drawPixels.currentPixelClock = p.currentPixelClock :=
  congrArg Beam.clock (beam_drawPixels p)

/-! ### What a fetch does -/

section Fetch

variable (hm : p.view.Mapped)

include hm

theorem view_fetchNt : p.fetchNt.view =
    { p.view with future := p.view.fetchedNt p.view.future } := by
  obtain ⟨hdata, hview⟩ := read_view hm (0x2000 ||| (p.vramAddr &&& 0xFFF).setWidth 32)
  show { p.readNameTableByte.2.view with
    future := { p.readNameTableByte.2.view.future with nametable := p.readNameTableByte.1 } } = _
  rw [readNameTableByte, hview, hdata]
  rfl

theorem view_fetchAt : p.fetchAt.view =
    { p.view with future := p.view.fetchedAt p.view.future } := by
  obtain ⟨hdata, hview⟩ := read_view hm (attribAddr p.vramAddr)
  have hvram : (p.read (attribAddr p.vramAddr)).2.vramAddr = p.vramAddr :=
    congrArg View.vramAddr hview
  show { (p.read (attribAddr p.vramAddr)).2.view with
    future :=
      { (p.read (attribAddr p.vramAddr)).2.view.future with
        attrib := attribBits (p.read (attribAddr p.vramAddr)).2.vramAddr
          (p.read (attribAddr p.vramAddr)).1 } } = _
  rw [hvram, hview, hdata]
  rfl

theorem view_fetchBg : p.fetchBg.view =
    { p.view with future := p.view.fetchedBg p.view.future } := by
  obtain ⟨hdata, hview⟩ := read_view hm (p.backgroundAddr p.future.nametable)
  show { (p.read (p.backgroundAddr p.future.nametable)).2.view with
    future :=
      { (p.read (p.backgroundAddr p.future.nametable)).2.view.future with
        low := (p.read (p.backgroundAddr p.future.nametable)).1 } } = _
  rw [hview, hdata]
  rfl

/-- The picture processor when a tile is complete, before it draws. -/
theorem view_high (nt : Byte) : ∃ q : Ppu,
    p.readBackgroundBit1 nt = (p.view.peek (p.view.backgroundAddr nt + 8), q) ∧
      q.view = p.view ∧ q.beam = p.beam := by
  obtain ⟨hdata, hview⟩ := read_view hm (p.backgroundAddr nt + 8)
  refine ⟨(p.read (p.backgroundAddr nt + 8)).2, ?_, hview, beam_read _ _⟩
  exact Prod.ext hdata rfl

omit hm in
theorem view_setFuture (q : Ppu) (t : Tile) :
    ({ q with future := t } : Ppu).view = { q.view with future := t } := rfl

/-- The fetch that completes a tile draws eight pixels. -/
theorem view_fetchBg2 (hscanline : p.currentScanline ≠ 0) (hclock : p.currentPixelClock < 256) :
    p.fetchBg2.view =
      (let v := View.drawPixels { p.view with future := p.view.fetchedBg2 p.view.future }
        (BitVec.ofNat 32 p.currentPixelClock - 8) (BitVec.ofNat 32 p.currentScanline - 1)
      { v with vramAddr := horizNext v.vramAddr, next := v.future }) := by
  obtain ⟨q, hread, hview, hbeam⟩ := view_high hm p.future.nametable
  have hq : q.currentScanline = p.currentScanline := congrArg Beam.scanline hbeam
  have hc : q.currentPixelClock = p.currentPixelClock := congrArg Beam.clock hbeam
  have hfuture : q.future = p.view.future := congrArg View.future hview
  unfold fetchBg2
  rw [hread]
  dsimp only
  rw [if_pos (by rw [hq]; exact hscanline), view_leaveBg2, view_drawPixels, view_setFuture,
    hview, hq, hc, hfuture]
  · rfl
  · show q.currentPixelClock ≤ 256
    omega
  · rw [clock_drawPixels]
    show q.currentPixelClock ≠ 256
    omega

/-- The last fetch of a scanline draws as well. -/
theorem drawn_fetchBg2 (hscanline : p.currentScanline ≠ 0) (hclock : p.currentPixelClock ≤ 256) :
    p.fetchBg2.drawn =
      (View.drawPixels { p.view with future := p.view.fetchedBg2 p.view.future }
        (BitVec.ofNat 32 p.currentPixelClock - 8)
        (BitVec.ofNat 32 p.currentScanline - 1)).drawn := by
  obtain ⟨q, hread, hview, hbeam⟩ := view_high hm p.future.nametable
  have hq : q.currentScanline = p.currentScanline := congrArg Beam.scanline hbeam
  have hc : q.currentPixelClock = p.currentPixelClock := congrArg Beam.clock hbeam
  have hfuture : q.future = p.view.future := congrArg View.future hview
  have hdrawn : ∀ q : Ppu, q.drawn = q.view.drawn := fun _ => rfl
  unfold fetchBg2
  rw [hread]
  dsimp only
  rw [if_pos (by rw [hq]; exact hscanline), drawn_leaveBg2, hdrawn, view_drawPixels, view_setFuture,
    hview, hq, hc, hfuture]
  · rfl
  · show q.currentPixelClock ≤ 256
    omega

theorem view_fetchTailNt : p.fetchTailNt.view =
    { p.view with next := p.view.fetchedNt p.view.next } := by
  obtain ⟨hdata, hview⟩ := read_view hm (0x2000 ||| (p.vramAddr &&& 0xFFF).setWidth 32)
  show { p.readNameTableByte.2.view with
    next := { p.readNameTableByte.2.view.next with nametable := p.readNameTableByte.1 } } = _
  rw [readNameTableByte, hview, hdata]
  rfl

theorem view_fetchTailAt : p.fetchTailAt.view =
    { p.view with next := p.view.fetchedAt p.view.next } := by
  obtain ⟨hdata, hview⟩ := read_view hm (attribAddr p.vramAddr)
  have hvram : (p.read (attribAddr p.vramAddr)).2.vramAddr = p.vramAddr :=
    congrArg View.vramAddr hview
  show { (p.read (attribAddr p.vramAddr)).2.view with
    next :=
      { (p.read (attribAddr p.vramAddr)).2.view.next with
        attrib := attribBits (p.read (attribAddr p.vramAddr)).2.vramAddr
          (p.read (attribAddr p.vramAddr)).1 } } = _
  rw [hvram, hview, hdata]
  rfl

theorem view_fetchTailBg : p.fetchTailBg.view =
    { p.view with next := p.view.fetchedBg p.view.next } := by
  obtain ⟨hdata, hview⟩ := read_view hm (p.backgroundAddr p.next.nametable)
  show { (p.read (p.backgroundAddr p.next.nametable)).2.view with
    next :=
      { (p.read (p.backgroundAddr p.next.nametable)).2.view.next with
        low := (p.read (p.backgroundAddr p.next.nametable)).1 } } = _
  rw [hview, hdata]
  rfl

/-- A tile of the next scanline is complete. -/
theorem view_fetchTailBg2 : p.fetchTailBg2.view =
    (let next := p.view.fetchedBg2 p.view.next
    { p.view with
      vramAddr := horizNext p.view.vramAddr, next
      current := if p.currentPixelClock = 336 then p.view.current else next }) := by
  obtain ⟨q, hread, hview, hbeam⟩ := view_high hm p.next.nametable
  have hc : q.currentPixelClock = p.currentPixelClock := congrArg Beam.clock hbeam
  have hnext : q.next = p.view.next := congrArg View.next hview
  have hleave : ∀ q : Ppu, q.leaveTailBg2.view =
      { q.view with
        current := if q.currentPixelClock = 336 then q.view.current else q.view.next } := by
    intro q
    unfold leaveTailBg2
    split <;> rfl
  have hset : ∀ (q : Ppu) (t : Tile), ({ q with next := t } : Ppu).incrHoriz.view =
      { q.view with vramAddr := horizNext q.view.vramAddr, next := t } := fun _ _ => rfl
  have hclock : ∀ (q : Ppu) (t : Tile), ({ q with next := t } : Ppu).incrHoriz.currentPixelClock =
      q.currentPixelClock := fun _ _ => rfl
  unfold fetchTailBg2
  rw [hread]
  dsimp only
  rw [hleave, hset, hclock, hview, hc, hnext]
  rfl

end Fetch

end Ppu

end RetroCpu.Nes
