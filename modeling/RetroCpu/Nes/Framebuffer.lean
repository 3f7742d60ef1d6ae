import Mathlib.Algebra.Group.Nat.Defs
import Mathlib.Data.List.Forall2
import Mathlib.Tactic.SplitIfs
import RetroCpu.Lib.Run
import RetroCpu.Nes.Compositing
import RetroCpu.Nes.Events
import RetroCpu.Nes.Sprites

/-!
# The frame buffer

Where the pixels go that `DrawPixels` writes.  `drawn_event` says which pixels an event draws,
and `framebuffer_covered` follows a scanline from its first dot to its last.
-/

namespace RetroCpu.Nes

/-- A pixel in the column `x` of the row `y`, in one of the 32 colours of the palette. -/
structure Lands (stride y : BitVec 32) (x : Nat) (pixel : Pixel) : Prop where
  column : pixel.x.toNat = x
  row : pixel.y = y
  offset : pixel.offset = (stride * y).toNat + 4 * x
  color : pixel.color < 32

namespace Ppu

/-! ### Drawing -/

/-- `DrawPixels` draws the eight columns that end at the dot. -/
theorem lands_drawPixels {p : Ppu} (hfx : p.scrollFineX.toNat < 8)
    (hfirst : 8 ≤ p.currentPixelClock) (hlast : p.currentPixelClock ≤ 256)
    (hcurrent : p.current.attrib ≤ 3)
    (hnext : p.next.attrib ≤ 3) : ∃ current status ps,
      p.drawPixels = { p with current := current, status := status, frame := p.frame ++ ps } ∧
      current.attrib = p.next.attrib ∧
      List.Forall₂ (Lands p.stride (BitVec.ofNat 32 p.currentScanline - 1))
        (List.range' (p.currentPixelClock - 8) 8) ps := by
  obtain ⟨status, hdraw, -⟩ := drawPixels_over hfx hfirst hlast
  refine ⟨_, status, _, hdraw, rfl, ?_⟩
  rw [List.range'_eq_map_range, List.forall₂_map_left_iff, List.forall₂_map_right_iff,
    List.forall₂_same]
  intro i hi
  have hcolumn := List.mem_range.mp hi
  have hcolor := colorAt_lt hcurrent hnext i
  refine ⟨?_, rfl, rfl, ?_⟩
  · show (BitVec.ofNat 32 (p.currentPixelClock - 8 + i)).toNat = _
    rw [BitVec.toNat_ofNat]
    omega
  · show (p.colorAt i).setWidth 8 < (32 : Byte)
    bv_omega

/-! ### What a step draws -/

/-- The attributes of the tiles that are drawn next are two bits. -/
structure Attribs (p : Ppu) : Prop where
  fineX : p.scrollFineX.toNat < 8
  current : p.current.attrib ≤ 3
  next : p.next.attrib ≤ 3
  future : p.state = .fetchBg ∨ p.state = .fetchBg2 → p.future.attrib ≤ 3

/-- From `p` to `q` the columns `xs` of the scanline are drawn. -/
structure Draws (p q : Ppu) (xs : List Nat) : Prop where
  attribs : Attribs q
  stride : q.stride = p.stride
  pixels : ∃ ps, q.frame = p.frame ++ ps ∧
    List.Forall₂ (Lands p.stride (BitVec.ofNat 32 p.currentScanline - 1)) xs ps

def columns (p : Ppu) : List Nat :=
  if p.state = .fetchBg2 ∧ p.currentPixelClock % 2 = 0 ∧ p.currentScanline ≠ 0 then
    List.range' (p.currentPixelClock - 8) 8
  else []

variable {p : Ppu}

theorem draws_nil {q : Ppu} (h : Attribs q) (hframe : q.frame = p.frame)
    (hstride : q.stride = p.stride) : Draws p q [] :=
  ⟨h, hstride, [], by rw [hframe, List.append_nil], .nil⟩

theorem Draws.frame_eq {q : Ppu} (h : Draws p q []) : q.frame = p.frame := by
  obtain ⟨-, -, ps, hframe, hps⟩ := h
  cases hps
  rw [hframe, List.append_nil]

theorem attribBits_le (vramAddr : Word) (b : Byte) : attribBits vramAddr b ≤ 3 := by
  have hand : ∀ b : Byte, b &&& 3 ≤ 3 := by decide
  exact hand _

theorem draws_onEvenDot {f : Ppu → Ppu} {xs : List Nat} (h : Attribs p)
    (hf : p.currentPixelClock % 2 = 0 → Draws p (f p) xs) :
    Draws p (p.onEvenDot f) (if p.currentPixelClock % 2 = 0 then xs else []) := by
  unfold onEvenDot
  rw [Nat.and_one_is_mod]
  by_cases heven : p.currentPixelClock % 2 = 0
  · rw [if_pos heven, if_pos heven]
    obtain ⟨⟨hfineX, hcurrent, hnext, hfuture⟩, hstride, hpixels⟩ := hf heven
    exact ⟨⟨hfineX, hcurrent, hnext, hfuture⟩, hstride, hpixels⟩
  · rw [if_neg heven, if_neg heven]
    exact draws_nil ⟨h.fineX, h.current, h.next, h.future⟩ rfl rfl

section Cases

variable (h : Attribs p)

include h

theorem draws_fetchNt : Draws p p.fetchNt [] := by
  obtain ⟨bus, hread⟩ := read_eq p (0x2000 ||| (p.vramAddr &&& 0xFFF).setWidth 32)
  unfold fetchNt readNameTableByte
  dsimp only
  rw [hread]
  exact draws_nil ⟨h.fineX, h.current, h.next, by simp⟩ rfl rfl

theorem draws_fetchAt : Draws p p.fetchAt [] := by
  obtain ⟨bus, hread⟩ := read_eq p (attribAddr p.vramAddr)
  unfold fetchAt readAttribTableByte
  dsimp only
  rw [hread]
  exact draws_nil ⟨h.fineX, h.current, h.next, fun _ => attribBits_le _ _⟩ rfl rfl

theorem draws_fetchBg (hs : p.state = .fetchBg) : Draws p p.fetchBg [] := by
  obtain ⟨bus, hread⟩ := read_eq p (p.backgroundAddr p.future.nametable)
  unfold fetchBg readBackgroundBit0
  dsimp only
  rw [hread]
  exact draws_nil ⟨h.fineX, h.current, h.next, fun _ => h.future (Or.inl hs)⟩ rfl rfl

/-- What comes after `DrawPixels` draws nothing. -/
theorem draws_leaveBg2 (hs : p.state = .fetchBg2) : Draws p p.leaveBg2 [] := by
  have hfuture := h.future (Or.inr hs)
  unfold leaveBg2
  dsimp only
  split
  · split
    · obtain ⟨vramAddr, hvert⟩ := incrVert_eq { p with state := .fetchBadNt }
      obtain ⟨bus, sprites, n, hsprites⟩ := evaluateSprites_eq
        { p with state := .fetchBadNt, vramAddr := vramAddr }
      rw [hvert, hsprites]
      exact draws_nil ⟨h.fineX, h.current, h.next, by simp⟩ rfl rfl
    · exact draws_nil ⟨h.fineX, h.current, h.next, by simp⟩ rfl rfl
  · exact draws_nil ⟨h.fineX, h.current, hfuture, by simp⟩ rfl rfl

theorem draws_fetchBg2 (hs : p.state = .fetchBg2) (hfirst : 8 ≤ p.currentPixelClock)
    (hlast : p.currentPixelClock ≤ 256) : Draws p p.fetchBg2
      (if p.currentScanline ≠ 0 then List.range' (p.currentPixelClock - 8) 8 else []) := by
  obtain ⟨bus, hread⟩ := read_eq p (p.backgroundAddr p.future.nametable + 8)
  have hattribs : ∀ bus high current status frame, current.attrib ≤ 3 → Attribs
      { p with
        bus := bus, future := { p.future with high := high }, current := current
        status := status, frame := frame } := fun _ _ _ _ _ hcurrent =>
    ⟨h.fineX, hcurrent, h.next, fun _ => h.future (Or.inr hs)⟩
  unfold fetchBg2 readBackgroundBit1
  dsimp only
  rw [hread]
  dsimp only
  generalize (p.read (p.backgroundAddr p.future.nametable + 8)).1 = high
  by_cases hscanline : p.currentScanline ≠ 0
  · rw [if_pos hscanline, if_pos hscanline]
    obtain ⟨current, status, ps, hdraw, hcurrent, hps⟩ := lands_drawPixels
      (p := { p with bus := bus, future := { p.future with high := high } }) h.fineX hfirst hlast
      h.current h.next
    have hcurrent' : current.attrib ≤ 3 := hcurrent ▸ h.next
    obtain ⟨hleave, hstride, rest, hframe, hrest⟩ :=
      draws_leaveBg2 (hattribs bus high current status (p.frame ++ ps) hcurrent') hs
    cases hrest
    rw [hdraw]
    exact ⟨hleave, hstride, ps, by rw [hframe, List.append_nil], hps⟩
  · rw [if_neg hscanline, if_neg hscanline]
    obtain ⟨hleave, hstride, rest, hframe, hrest⟩ :=
      draws_leaveBg2 (hattribs bus high p.current p.status p.frame h.current) hs
    exact ⟨hleave, hstride, rest, hframe, hrest⟩

theorem draws_fetchTailNt : Draws p p.fetchTailNt [] := by
  obtain ⟨bus, hread⟩ := read_eq p (0x2000 ||| (p.vramAddr &&& 0xFFF).setWidth 32)
  unfold fetchTailNt readNameTableByte
  dsimp only
  rw [hread]
  exact draws_nil ⟨h.fineX, h.current, h.next, by simp⟩ rfl rfl

theorem draws_fetchTailAt : Draws p p.fetchTailAt [] := by
  obtain ⟨bus, hread⟩ := read_eq p (attribAddr p.vramAddr)
  unfold fetchTailAt readAttribTableByte
  dsimp only
  rw [hread]
  exact draws_nil ⟨h.fineX, h.current, attribBits_le _ _, by simp⟩ rfl rfl

theorem draws_fetchTailBg : Draws p p.fetchTailBg [] := by
  obtain ⟨bus, hread⟩ := read_eq p (p.backgroundAddr p.next.nametable)
  unfold fetchTailBg readBackgroundBit0
  dsimp only
  rw [hread]
  exact draws_nil ⟨h.fineX, h.current, h.next, by simp⟩ rfl rfl

theorem draws_fetchTailBg2 : Draws p p.fetchTailBg2 [] := by
  obtain ⟨bus, hread⟩ := read_eq p (p.backgroundAddr p.next.nametable + 8)
  unfold fetchTailBg2 readBackgroundBit1 leaveTailBg2
  dsimp only
  rw [hread]
  split
  · exact draws_nil ⟨h.fineX, h.current, h.next, by simp⟩ rfl rfl
  · exact draws_nil ⟨h.fineX, h.next, h.next, by simp⟩ rfl rfl

end Cases

theorem draws_endNt2 (h : Attribs p) : Draws p p.endNt2 [] := by
  unfold endNt2
  split
  · dsimp only
    split
    · exact draws_nil ⟨h.fineX, h.current, h.next, by simp⟩ rfl rfl
    · exact draws_nil ⟨h.fineX, h.current, h.next, by simp⟩ rfl rfl
  · exact draws_nil ⟨h.fineX, h.current, h.next, h.future⟩ rfl rfl

theorem draws_postrenderScanline (h : Attribs p) (hs : p.state = .postrenderScanline) :
    Draws p p.postrenderScanline [] := by
  have hvblank : ∃ status frameId next nmis, p.enterVblank =
      { p with status := status, frameId := frameId, ppuCycleOfNextNmi := next, nmis := nmis } := by
    unfold enterVblank
    split
    · split
      · exact ⟨_, _, _, _, rfl⟩
      · split <;> exact ⟨_, _, _, _, rfl⟩
    · exact ⟨_, _, _, _, rfl⟩
  obtain ⟨status, frameId, next, nmis, henter⟩ := hvblank
  unfold postrenderScanline
  dsimp only
  rw [henter]
  split
  · split
    · exact draws_nil ⟨h.fineX, h.current, h.next, by simp⟩ rfl rfl
    · exact draws_nil ⟨h.fineX, h.current, h.next, by simp [hs]⟩ rfl rfl
  · exact draws_nil ⟨h.fineX, h.current, h.next, by simp [hs]⟩ rfl rfl

theorem columns_eq_nil (hs : p.state ≠ .fetchBg2) : p.columns = [] := if_neg fun h => hs h.1

/-- **Only the last fetch of a tile draws.** -/
theorem draws_fetchStep (h : Attribs p)
    (hclock : p.state = .fetchBg2 → 8 ≤ p.currentPixelClock ∧ p.currentPixelClock ≤ 256 ∨
      p.currentPixelClock % 2 = 1) : Draws p p.fetchStep p.columns := by
  have hquiet : ∀ f : Ppu → Ppu, Draws p (f p) [] → Draws p (p.onEvenDot f) [] := by
    intro f hf
    have hdraws := draws_onEvenDot (f := f) h fun _ => hf
    rwa [ite_self] at hdraws
  cases hs : p.state
  case fetchBg2 =>
    have hdraws := draws_onEvenDot (f := fetchBg2) h fun heven => by
      rcases hclock hs with ⟨hfirst, hlast⟩ | hodd
      · exact draws_fetchBg2 h hs hfirst hlast
      · omega
    have hcolumns : p.columns = if p.currentPixelClock % 2 = 0 then
        if p.currentScanline ≠ 0 then List.range' (p.currentPixelClock - 8) 8 else [] else [] := by
      simp only [columns, hs, true_and, ite_and]
    rw [fetchStep, hs, hcolumns]
    exact hdraws
  all_goals
    rw [columns_eq_nil (by rw [hs]; decide), fetchStep, hs]
  case fetchScanlineStart => exact draws_nil h rfl rfl
  case fetchNt => exact hquiet _ (draws_fetchNt h)
  case fetchAt => exact hquiet _ (draws_fetchAt h)
  case fetchBg => exact hquiet _ (draws_fetchBg h hs)
  case fetchBadNt =>
    obtain ⟨bus, hread⟩ := read_eq p (0x2000 ||| (p.vramAddr &&& 0xFFF).setWidth 32)
    apply hquiet
    unfold fetchBadNt readNameTableByte
    rw [hread]
    exact draws_nil ⟨h.fineX, h.current, h.next, by simp⟩ rfl rfl
  case fetchBadNt2 =>
    obtain ⟨bus, hread⟩ := read_eq p (0x2000 ||| (p.vramAddr &&& 0xFFF).setWidth 32)
    apply hquiet
    unfold fetchBadNt2 readNameTableByte
    rw [hread]
    exact draws_nil ⟨h.fineX, h.current, h.next, by simp⟩ rfl rfl
  case fetchSpriteLow =>
    exact hquiet _ (draws_nil ⟨h.fineX, h.current, h.next, by simp [fetchSpriteLow]⟩ rfl rfl)
  case fetchSpriteHigh =>
    apply hquiet
    unfold fetchSpriteHigh
    split <;> exact draws_nil ⟨h.fineX, h.current, h.next, by simp⟩ rfl rfl
  case fetchTailNt => exact hquiet _ (draws_fetchTailNt h)
  case fetchTailAt => exact hquiet _ (draws_fetchTailAt h)
  case fetchTailBg => exact hquiet _ (draws_fetchTailBg h)
  case fetchTailBg2 => exact hquiet _ (draws_fetchTailBg2 h)
  case endNt1 => exact hquiet _ (draws_nil ⟨h.fineX, h.current, h.next, by simp [endNt1]⟩ rfl rfl)
  case endNt2 => exact draws_endNt2 h
  case postrenderScanline => exact draws_postrenderScanline h hs
  case renderDisabledScanline =>
    dsimp only
    split
    · exact draws_nil ⟨h.fineX, h.current, h.next, by simp⟩ rfl rfl
    · exact draws_endNt2 h

theorem columns_eq (h : p.beam.Valid) {x : Nat} {rest : List Nat} (hx : p.columns = x :: rest) :
    1 ≤ p.currentScanline ∧ p.currentScanline ≤ 240 ∧ p.currentPixelClock % 8 = 0 ∧
      8 ≤ p.currentPixelClock ∧ p.currentPixelClock ≤ 256 := by
  unfold columns at hx
  split at hx
  · rename_i hcond
    obtain ⟨hs, heven, hscanline⟩ := hcond
    obtain ⟨hle, hfetch⟩ := fetchState_of_state h hs
    obtain ⟨hpos, hlast, hmod⟩ := (fetchState_eq_fetchBg2 _ h.clock).mp ⟨hfetch, heven⟩
    have hpos' : 0 < p.currentPixelClock := hpos
    have hlast' : p.currentPixelClock ≤ 256 := hlast
    have hmod' : p.currentPixelClock % 8 = 0 := hmod
    exact ⟨by omega, hle, hmod', by omega, hlast'⟩
  · cases hx

theorem draws_start (h : Attribs p) (hs : p.state = .fetchScanlineStart) :
    Draws p p.ppuStep [] := by
  obtain ⟨vramAddr, hcopy⟩ := copyVert_eq p
  have hstate : p.copyVert.state = .fetchScanlineStart := by
    rw [hcopy]
    exact hs
  unfold ppuStep
  dsimp only
  rw [if_pos hstate]
  generalize hq : ({ p.copyVert.scanlineStart with
    currentPixelClock := p.copyVert.scanlineStart.currentPixelClock + 1 } : Ppu) = q
  have hqs : q.state = if p.renderingEnabled then .fetchNt else .renderDisabledScanline := by
    rw [← hq, hcopy]
    rfl
  have hne : q.state ≠ .fetchBg ∧ q.state ≠ .fetchBg2 := by
    rw [hqs]
    split <;> decide
  have hattribs : Attribs q := by
    refine ⟨?_, ?_, ?_, fun hfuture => absurd hfuture (not_or.mpr hne)⟩
    · rw [← hq, hcopy]
      exact h.fineX
    · rw [← hq, hcopy]
      exact h.current
    · rw [← hq, hcopy]
      exact h.next
  have hframe : q.frame = p.frame := by
    rw [← hq, hcopy]
    rfl
  have hstride : q.stride = p.stride := by
    rw [← hq, hcopy]
    rfl
  split
  · obtain ⟨vramAddr', hcopy'⟩ := copyVert_eq q
    have hfetch : Draws q.copyVert q.copyVert.fetchStep q.copyVert.columns := by
      apply draws_fetchStep
      · rw [hcopy']
        exact ⟨hattribs.fineX, hattribs.current, hattribs.next, hattribs.future⟩
      · rw [hcopy']
        exact fun hbg2 => absurd hbg2 hne.2
    have hnil : q.copyVert.columns = [] := by
      rw [hcopy']
      exact columns_eq_nil hne.2
    rw [hnil] at hfetch
    refine draws_nil hfetch.attribs ?_ ?_
    · rw [hfetch.frame_eq, hcopy']
      exact hframe
    · rw [hfetch.stride, hcopy']
      exact hstride
  · exact draws_nil hattribs hframe hstride

/-- **A step draws eight columns at every eighth dot of a line that fetches its tiles.** -/
theorem draws_ppuStep (hv : p.beam.Valid) (h : Attribs p) : Draws p p.ppuStep p.columns := by
  by_cases hstart : p.state = .fetchScanlineStart
  · rw [columns_eq_nil (by rw [hstart]; decide)]
    exact draws_start h hstart
  · obtain ⟨vramAddr, hcopy⟩ := copyVert_eq p
    have hfetch : Draws { p with vramAddr := vramAddr }
        ({ p with vramAddr := vramAddr } : Ppu).fetchStep p.columns := by
      refine draws_fetchStep (p := { p with vramAddr := vramAddr })
        ⟨h.fineX, h.current, h.next, h.future⟩ fun hs => ?_
      by_cases heven : p.currentPixelClock % 2 = 0
      · obtain ⟨hle, hbg2⟩ := fetchState_of_state hv hs
        obtain ⟨hpos, hlast, hmod⟩ := (fetchState_eq_fetchBg2 _ hv.clock).mp ⟨hbg2, heven⟩
        have hpos' : 0 < p.currentPixelClock := hpos
        have hmod' : p.currentPixelClock % 8 = 0 := hmod
        exact Or.inl ⟨(by omega : 8 ≤ p.currentPixelClock), hlast⟩
      · exact Or.inr (by omega : p.currentPixelClock % 2 = 1)
    rw [ppuStep_of_ne_start hstart, hcopy]
    exact ⟨hfetch.attribs, hfetch.stride, hfetch.pixels⟩

def eventColumns (p : Ppu) : PpuEvent → List Nat
  | .ppuStep => p.columns
  | _ => []

section Registers

variable (h : Attribs p)

include h

theorem draws_readReg (offset : BitVec 32) : Draws p (p.readReg offset).2 [] := by
  unfold readReg
  dsimp only
  split
  · exact draws_nil ⟨h.fineX, h.current, h.next, h.future⟩ rfl rfl
  · split
    · exact draws_nil ⟨h.fineX, h.current, h.next, h.future⟩ rfl rfl
    · split
      · unfold readData
        dsimp only
        split
        · obtain ⟨bus, hread⟩ := read_eq p.readBuffer (p.readBuffer.vramAddr.setWidth 32)
          rw [hread]
          exact draws_nil ⟨h.fineX, h.current, h.next, h.future⟩ rfl rfl
        · exact draws_nil ⟨h.fineX, h.current, h.next, h.future⟩ rfl rfl
      · exact draws_nil h rfl rfl

theorem draws_writeScroll (value : Byte) : Draws p (p.writeScroll value) [] := by
  have hfineX : ∀ value : Byte, ((value &&& 7).setWidth 16 : Word).toNat < 8 := by decide
  unfold writeScroll
  split
  · exact draws_nil ⟨hfineX value, h.current, h.next, h.future⟩ rfl rfl
  · exact draws_nil ⟨h.fineX, h.current, h.next, h.future⟩ rfl rfl

theorem draws_writeAddr (value : Byte) : Draws p (p.writeAddr value) [] := by
  unfold writeAddr
  split <;> exact draws_nil ⟨h.fineX, h.current, h.next, h.future⟩ rfl rfl

theorem draws_writeData (value : Byte) : Draws p (p.writeData value) [] := by
  unfold writeData write
  dsimp only
  split <;> exact draws_nil ⟨h.fineX, h.current, h.next, h.future⟩ rfl rfl

theorem draws_writeReg (addr : BitVec 32) (value : Byte) : Draws p (p.writeReg addr value) [] := by
  have hlatch : Attribs { p with latch := value } := ⟨h.fineX, h.current, h.next, h.future⟩
  have hdraws : ∀ q : Ppu, Draws { p with latch := value } q [] → Draws p q [] :=
    fun q hq => draws_nil hq.attribs hq.frame_eq hq.stride
  unfold writeReg
  dsimp only
  split
  · exact draws_nil ⟨h.fineX, h.current, h.next, h.future⟩ rfl rfl
  split
  · exact draws_nil ⟨h.fineX, h.current, h.next, h.future⟩ rfl rfl
  split
  · split <;> exact draws_nil ⟨h.fineX, h.current, h.next, h.future⟩ rfl rfl
  split
  · split <;> exact draws_nil ⟨h.fineX, h.current, h.next, h.future⟩ rfl rfl
  split
  · exact hdraws _ (draws_writeScroll hlatch value)
  split
  · exact hdraws _ (draws_writeAddr hlatch value)
  split
  · exact hdraws _ (draws_writeData hlatch value)
  · exact draws_nil hlatch rfl rfl

end Registers

/-- What an event draws. -/
theorem draws_event (hv : p.beam.Valid) (h : Attribs p) (e : PpuEvent) :
    Draws p (p.event e) (p.eventColumns e) := by
  cases e with
  | tick => exact draws_nil ⟨h.fineX, h.current, h.next, h.future⟩ rfl rfl
  | ppuStep => exact draws_ppuStep hv h
  | readReg offset => exact draws_readReg h offset
  | writeReg addr value => exact draws_writeReg h addr value
  | oamDma bytes => exact draws_nil ⟨h.fineX, h.current, h.next, h.future⟩ rfl rfl

/-! ### Runs -/

/-- What the pixels of a run depend on. -/
structure Ready (stride : BitVec 32) (p : Ppu) : Prop where
  valid : p.beam.Valid
  attribs : Attribs p
  stride : p.stride = stride

variable {stride : BitVec 32}

theorem Ready.event (h : Ready stride p) (e : PpuEvent) : Ready stride (p.event e) :=
  ⟨valid_event h.valid e, (draws_event h.valid h.attribs e).attribs,
    (draws_event h.valid h.attribs e).stride.trans h.stride⟩

theorem Ready.events (h : Ready stride p) (es : List PpuEvent) : Ready stride (p.events es) := by
  induction es generalizing p with
  | nil => exact h
  | cons e es ih => exact ih (h.event e)

/-- How many columns of a line are drawn when the beam comes to a dot. -/
def drawnColumns (clock : Nat) : Nat := 8 * min ((clock - 1) / 8) 32

theorem columns_rendered (hscanline : p.currentScanline ≠ 0)
    (hstate : p.state = fetchState p.currentPixelClock) (hpos : 0 < p.currentPixelClock)
    (hlt : p.currentPixelClock < 341) :
    List.range (drawnColumns p.currentPixelClock) ++ p.columns =
      List.range (drawnColumns (p.currentPixelClock + 1)) := by
  have hbg2 := fetchState_eq_fetchBg2 _ hlt
  by_cases hdraw : p.currentPixelClock ≤ 256 ∧ p.currentPixelClock % 8 = 0
  · obtain ⟨hlast, hmod⟩ := hdraw
    obtain ⟨hs, heven⟩ := hbg2.mpr ⟨hpos, hlast, hmod⟩
    have hbefore : drawnColumns p.currentPixelClock = p.currentPixelClock - 8 := by
      unfold drawnColumns
      omega
    have hafter : drawnColumns (p.currentPixelClock + 1) = p.currentPixelClock - 8 + 8 := by
      unfold drawnColumns
      omega
    rw [columns, if_pos ⟨hstate.trans hs, heven, hscanline⟩, hbefore, hafter,
      List.range_eq_range', List.range_eq_range']
    have happend := List.range'_append_1 (s := 0) (m := p.currentPixelClock - 8) (n := 8)
    rwa [Nat.zero_add] at happend
  · have hsame : drawnColumns (p.currentPixelClock + 1) = drawnColumns p.currentPixelClock := by
      unfold drawnColumns
      omega
    have hnil : p.columns = [] := by
      refine if_neg fun hcond => hdraw ?_
      obtain ⟨-, hlast, hmod⟩ := hbg2.mp ⟨hstate.symm.trans hcond.1, hcond.2.1⟩
      exact ⟨hlast, hmod⟩
    rw [hsame, hnil, List.append_nil]

/-- The picture processor on a scanline that was begun with the frame buffer `start`: either
the line is being drawn, or it is over. -/
structure OnLine (stride : BitVec 32) (start : List Pixel) (s : Nat) (p : Ppu) : Prop where
  ready : Ready stride p
  drawn : ∃ n pixels, p.frame = start ++ pixels ∧
    List.Forall₂ (Lands stride (BitVec.ofNat 32 s - 1)) (List.range n) pixels ∧
    (p.currentScanline = s → p.state = fetchState p.currentPixelClock ∧ 0 < p.currentPixelClock ∧
      n = drawnColumns p.currentPixelClock) ∧
    (p.currentScanline ≠ s → n = 256)

theorem OnLine.event {start : List Pixel} {s : Nat} (h : OnLine stride start s p)
    (hpos : 1 ≤ s) (hline : p.currentScanline = s) (e : PpuEvent) :
    OnLine stride start s (p.event e) := by
  obtain ⟨n, pixels, hframe, hpixels, hon, -⟩ := h.drawn
  obtain ⟨hstate, hclock, rfl⟩ := hon hline
  have hlt : p.currentPixelClock < 341 := h.ready.valid.clock
  obtain ⟨-, -, ps, hps, hlands⟩ := draws_event h.ready.valid h.ready.attribs e
  refine ⟨h.ready.event e, ?_⟩
  rw [h.ready.stride, hline] at hlands
  have hall : List.Forall₂ (Lands stride (BitVec.ofNat 32 s - 1))
      (List.range (drawnColumns p.currentPixelClock) ++ p.eventColumns e) (pixels ++ ps) :=
    List.rel_append hpixels hlands
  by_cases he : e = .ppuStep
  · subst he
    have hcolumns := columns_rendered (by omega) hstate hclock hlt
    have heq : p.eventColumns .ppuStep = p.columns := rfl
    rw [heq, hcolumns] at hall
    refine ⟨_, _, by rw [hps, hframe, List.append_assoc], hall, ?_⟩
    by_cases hlast : p.currentPixelClock = 340
    · have hbeam := beam_rendered_last h.ready.valid hstate hlast
      have hnext : (p.event .ppuStep).currentScanline = p.currentScanline + 1 :=
        congrArg Beam.scanline hbeam
      refine ⟨fun hs => by omega, fun _ => ?_⟩
      rw [hlast]
      rfl
    · have hbeam := beam_rendered_next hstate hclock (by omega)
      have hnext : (p.event .ppuStep).currentScanline = p.currentScanline :=
        congrArg Beam.scanline hbeam
      have hs : (p.event .ppuStep).state = fetchState (p.currentPixelClock + 1) :=
        congrArg Beam.state hbeam
      have hc : (p.event .ppuStep).currentPixelClock = p.currentPixelClock + 1 :=
        congrArg Beam.clock hbeam
      refine ⟨fun _ => ?_, fun hs => by omega⟩
      rw [hs, hc]
      exact ⟨rfl, Nat.succ_pos _, rfl⟩
  · obtain ⟨rendering, hbeam⟩ := samePlace_event he p
    have hnil : p.eventColumns e = [] := by
      cases e <;> first | rfl | exact absurd rfl he
    have hnext : (p.event e).currentScanline = p.currentScanline := congrArg Beam.scanline hbeam
    have hs : (p.event e).state = p.state := congrArg Beam.state hbeam
    have hc : (p.event e).currentPixelClock = p.currentPixelClock := congrArg Beam.clock hbeam
    rw [hnil, List.append_nil] at hall
    refine ⟨_, _, by rw [hps, hframe, List.append_assoc], hall, fun _ => ?_, fun hs => by omega⟩
    rw [hs, hc]
    exact ⟨hstate, hclock, rfl⟩

theorem onLine_first (h : Ready stride p) (hfirst : p.currentScanline ≤ 240)
    (hclock : p.currentPixelClock = 0) (hrendering : p.renderingEnabled = true) :
    OnLine stride p.frame p.currentScanline p.ppuStep := by
  have hstate : p.state = .fetchScanlineStart := by
    rcases h.valid.rendered hfirst with hstate | ⟨-, hpos⟩
    · have hzero : p.beam.clock = 0 := hclock
      rw [hzero] at hstate
      exact hstate
    · exact absurd hclock (Nat.ne_of_gt hpos)
  have hbeam := beam_rendered_first hstate hclock hrendering
  have hnext : p.ppuStep.currentScanline = p.currentScanline := congrArg Beam.scanline hbeam
  have hs : p.ppuStep.state = .fetchNt := congrArg Beam.state hbeam
  have hc : p.ppuStep.currentPixelClock = if p.beam.skips then 2 else 1 :=
    congrArg Beam.clock hbeam
  have hframe := (draws_start h.attribs hstate).frame_eq
  refine ⟨h.event .ppuStep, 0, [], by rw [hframe, List.append_nil], .nil, fun _ => ?_, fun hs => ?_⟩
  · rw [hs, hc]
    cases p.beam.skips <;> exact ⟨rfl, by decide, rfl⟩
  · exact absurd hnext hs

/-- The four bytes of a pixel are those of the column `x` in the row that the scanline `s` draws,
and its colour is one of the palette. -/
structure OnRow (stride : BitVec 32) (s x : Nat) (pixel : Pixel) : Prop where
  column : pixel.x.toNat = x ∧ x < 256
  offset : pixel.offset = stride.toNat * (s - 1) + 4 * x
  inside : 4 * x + 4 ≤ stride.toNat
  color : pixel.color < 32

/-- A row of a buffer whose rows have 32-bit offsets. -/
theorem onRow_of_lands {s x : Nat} {pixel : Pixel} (hstride : 1024 ≤ stride)
    (hfits : 239 * stride.toNat < 2 ^ 32) (hfirst : 1 ≤ s) (hlast : s ≤ 240) (hx : x < 256)
    (h : Lands stride (BitVec.ofNat 32 s - 1) x pixel) : OnRow stride s x pixel := by
  have hwide : 1024 ≤ stride.toNat := hstride
  have hrow : (BitVec.ofNat 32 s - 1).toNat = s - 1 := by bv_omega
  have hproduct : stride.toNat * (s - 1) ≤ stride.toNat * 239 := Nat.mul_le_mul_left _ (by omega)
  have hmul : (stride * (BitVec.ofNat 32 s - 1)).toNat = stride.toNat * (s - 1) := by
    rw [BitVec.toNat_mul, hrow]
    exact Nat.mod_eq_of_lt (by omega)
  refine ⟨⟨h.column, hx⟩, ?_, by omega, h.color⟩
  rw [h.offset, hmul]

theorem onRow_all {s : Nat} (hstride : 1024 ≤ stride) (hfits : 239 * stride.toNat < 2 ^ 32)
    (hfirst : 1 ≤ s) (hlast : s ≤ 240) {xs : List Nat} {pixels : List Pixel}
    (hxs : ∀ x ∈ xs, x < 256)
    (h : List.Forall₂ (Lands stride (BitVec.ofNat 32 s - 1)) xs pixels) :
    List.Forall₂ (OnRow stride s) xs pixels := by
  induction h with
  | nil => exact .nil
  | cons hpixel _ ih =>
    have hx := hxs _ List.mem_cons_self
    exact .cons (onRow_of_lands hstride hfits hfirst hlast hx hpixel)
      (ih fun x hx => hxs x (List.mem_cons_of_mem _ hx))

/-- What a run from `p` draws in a frame buffer of 240 rows. -/
structure DrawsRows (p : Ppu) : Prop where
  /-- The pixels that an event draws are in columns of the row that the scanline draws. -/
  safe : ∀ es e, ∃ xs pixels, ((p.events es).event e).frame = (p.events es).frame ++ pixels ∧
    List.Forall₂ (OnRow p.stride (p.events es).currentScanline) xs pixels ∧
    (xs ≠ [] → 1 ≤ (p.events es).currentScanline ∧ (p.events es).currentScanline ≤ 240)
  /-- A line that starts in the fetching state draws its columns in order, and it draws all of
  them. -/
  covered : ∀ es q, 1 ≤ (p.events es).currentScanline → (p.events es).currentScanline ≤ 240 →
    (p.events es).currentPixelClock = 0 → (p.events es).renderingEnabled = true →
    Run (fun e r => some (event r e)) (fun r _ => r.currentScanline = (p.events es).currentScanline)
      (p.events es).ppuStep q →
    ∃ n pixels, q.frame = (p.events es).frame ++ pixels ∧
      List.Forall₂ (OnRow p.stride (p.events es).currentScanline) (List.range n) pixels ∧
      n ≤ 256 ∧ (q.currentScanline ≠ (p.events es).currentScanline → n = 256)

theorem Ready.drawsRows (h : Ready stride p) (hstride : 1024 ≤ stride)
    (hfits : 239 * stride.toNat < 2 ^ 32) : DrawsRows p := by
  constructor
  · intro es e
    have hready := h.events es
    obtain ⟨-, -, pixels, hpixels, hlands⟩ := draws_event hready.valid hready.attribs e
    cases hxs : (p.events es).eventColumns e with
    | nil =>
      rw [hxs] at hlands
      cases hlands
      exact ⟨[], [], hpixels, .nil, fun hne => absurd rfl hne⟩
    | cons x rest =>
      have hcolumns : (p.events es).columns = x :: rest := by
        cases e with
        | ppuStep => exact hxs
        | tick => cases hxs
        | readReg offset => cases hxs
        | writeReg addr value => cases hxs
        | oamDma bytes => cases hxs
      obtain ⟨hfirst, hlast, -, hclock, hclock'⟩ := columns_eq hready.valid hcolumns
      have hlt : ∀ x' ∈ x :: rest, x' < 256 := by
        intro x' hx'
        rw [← hcolumns, columns] at hx'
        split at hx'
        · have := (List.mem_range'_1.mp hx').2
          omega
        · cases hx'
      rw [hready.stride, hxs] at hlands
      refine ⟨x :: rest, pixels, hpixels, ?_, fun _ => ⟨hfirst, hlast⟩⟩
      rw [h.stride]
      exact onRow_all hstride hfits hfirst hlast hlt hlands
  · intro es q hfirst hlast hclock hrendering hrun
    have hready := h.events es
    have hline : OnLine stride (p.events es).frame (p.events es).currentScanline q := by
      refine hrun.invariant (onLine_first hready hlast hclock hrendering) ?_
      intro e r r' hr hok hstep
      cases hstep
      exact hr.event hfirst hok e
    obtain ⟨n, pixels, hframe, hpixels, hon, hover⟩ := hline.drawn
    have hn : n ≤ 256 := by
      by_cases hs : q.currentScanline = (p.events es).currentScanline
      · rw [(hon hs).2.2, drawnColumns]
        omega
      · exact Nat.le_of_eq (hover hs)
    refine ⟨n, pixels, hframe, ?_, hn, hover⟩
    rw [h.stride]
    exact onRow_all hstride hfits hfirst hlast
      (fun x hx => Nat.lt_of_lt_of_le (List.mem_range.mp hx) hn) hpixels

/-- The picture processor after `Initialize`, with a frame buffer of its own width. -/
def withBuffer (memory : Ppu) (stride : BitVec 32) : Ppu :=
  { memory.construct.initializePpu true with stride }

theorem ready_withBuffer {memory : Ppu} (hcurrent : memory.current.attrib ≤ 3)
    (hnext : memory.next.attrib ≤ 3) : Ready stride (withBuffer memory stride) :=
  ⟨valid_initial memory,
    ⟨Nat.zero_lt_succ 7, hcurrent, hnext, fun h => by rcases h with h | h <;> cases h⟩, rfl⟩

/-- **Every pixel of a run is drawn in its place, and every line is drawn from end to end**, if
the offset of the last row fits in 32 bits. -/
theorem framebuffer_safe (memory : Ppu) (stride : BitVec 32) (hstride : 1024 ≤ stride)
    (hfits : 239 * stride.toNat < 2 ^ 32) (hcurrent : memory.current.attrib ≤ 3)
    (hnext : memory.next.attrib ≤ 3) : DrawsRows (withBuffer memory stride) :=
  (ready_withBuffer hcurrent hnext).drawsRows hstride hfits

theorem framebuffer_safe_zeroed : DrawsRows (withBuffer zeroed 1024) :=
  framebuffer_safe zeroed 1024 (by decide) (by decide) (by decide) (by decide)

/-! ### A buffer whose rows do not fit -/

/-- A program that renders from the first frame on, until the first eight columns of the row 128
are drawn. -/
def untilRow128 : List PpuEvent := .writeReg 1 8 :: List.replicate (341 * 129 + 8) .ppuStep

/-- The step that draws the first eight columns of a row puts the first of them at its start. -/
theorem first_pixel (h : Ready stride p) (hstart : AtFrameStart p)
    (hrendering : p.renderingEnabled = true) (heven : p.frameId &&& 1 = 0) {s : Nat} (hpos : s ≠ 0)
    (hlast : s < 240) {q : Ppu} (hq : q = p.events (List.replicate (341 * s + 8) .ppuStep)) :
    q.currentScanline = s ∧ ∃ pixel, (q.event .ppuStep).frame[q.frame.length]? = some pixel ∧
      Lands stride (BitVec.ofNat 32 s - 1) 0 pixel := by
  have hready := h.events (List.replicate (341 * s + 8) .ppuStep)
  have hbeam := beam_steps (n := 341 * s + 8) hstart h.valid hrendering heven (by omega)
  have hmod : (341 * s + 8) % 341 = 8 := by omega
  have hdiv : (341 * s + 8) / 341 = s := by omega
  rw [← hq] at hready hbeam
  rw [hmod, hdiv] at hbeam
  have hs : q.state = .fetchBg2 := congrArg Beam.state hbeam
  have hc : q.currentPixelClock = 8 := congrArg Beam.clock hbeam
  have hl : q.currentScanline = s := congrArg Beam.scanline hbeam
  obtain ⟨-, -, pixels, hpixels, hlands⟩ := draws_event hready.valid hready.attribs .ppuStep
  have hcolumns : q.eventColumns .ppuStep = 0 :: List.range' 1 7 := by
    show q.columns = _
    rw [columns, if_pos ⟨hs, by rw [hc], by rw [hl]; exact hpos⟩, hc]
    rfl
  rw [hcolumns, hready.stride, hl] at hlands
  cases hlands with
  | cons hpixel _ =>
    refine ⟨hl, _, ?_, hpixel⟩
    rw [hpixels, List.getElem?_append_right (Nat.le_refl _), Nat.sub_self]
    rfl

/-- In a buffer whose rows have 32 MB the row 128 begins where the row 0 does. -/
theorem wideBuffer_row128 :
    ((withBuffer zeroed 0x2000000).events untilRow128).currentScanline = 129 ∧ ∃ pixel,
      (((withBuffer zeroed 0x2000000).events untilRow128).event .ppuStep).frame[
        ((withBuffer zeroed 0x2000000).events untilRow128).frame.length]? = some pixel ∧
      pixel.offset = 0 ∧ ¬OnRow 0x2000000 129 0 pixel := by
  have hready : Ready 0x2000000 (withBuffer zeroed 0x2000000) :=
    ready_withBuffer (by decide) (by decide)
  have hstart : AtFrameStart ((withBuffer zeroed 0x2000000).event (.writeReg 1 8)) :=
    ⟨rfl, rfl, rfl⟩
  obtain ⟨hl, pixel, hframe, hpixel⟩ := first_pixel (s := 129)
    (q := (withBuffer zeroed 0x2000000).events untilRow128) (hready.event (.writeReg 1 8))
    hstart rfl rfl (by decide) (by decide) (by rw [untilRow128, events_cons])
  refine ⟨hl, pixel, hframe, hpixel.offset, fun hrow => ?_⟩
  have hoffset := hrow.offset
  rw [hpixel.offset] at hoffset
  exact absurd hoffset (by decide)

end Ppu

end RetroCpu.Nes
