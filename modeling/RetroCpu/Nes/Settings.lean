import RetroCpu.Nes.Ppu

/-!
# What a step leaves alone

`Settings` is the part of the picture processor that `PpuStep` only reads: the registers that
the CPU writes, sprite memory, the palette, and the clock.
-/

namespace RetroCpu.Nes

/-- The members that `PpuStep` does not write. -/
structure Settings where
  memory : MemoryMap
  memMask : BitVec 32
  stride : BitVec 32
  lastPpuCycle : BitVec 64
  nominalPpuFrameTime : BitVec 32
  ppuClockSize : BitVec 32
  numRenderScanlines : Nat
  numPostrenderScanlines : Nat
  totalScanlines : Nat
  paletteIndices : BitVec 5 → Byte
  rgbPalette : BitVec 5 → BitVec 32
  latch : Byte
  ppudataBuffer : Byte
  control : Byte
  mask : Byte
  bgEnabled : Bool
  spriteEnabled : Bool
  oamaddr : Byte
  regT : Word
  scrollFineX : Word
  oam : Byte → Byte
  spritePatternAddr : Word
  bgPatternAddr : Word
  addrWrite : Bool
  increment : Word
  renderingEnabled : Bool
  tallSprites : Bool

namespace Ppu

def settings (p : Ppu) : Settings where
  memory := p.bus.memory
  memMask := p.bus.memMask
  stride := p.stride
  lastPpuCycle := p.lastPpuCycle
  nominalPpuFrameTime := p.nominalPpuFrameTime
  ppuClockSize := p.ppuClockSize
  numRenderScanlines := p.numRenderScanlines
  numPostrenderScanlines := p.numPostrenderScanlines
  totalScanlines := p.totalScanlines
  paletteIndices := p.paletteIndices
  rgbPalette := p.rgbPalette
  latch := p.latch
  ppudataBuffer := p.ppudataBuffer
  control := p.control
  mask := p.mask
  bgEnabled := p.bgEnabled
  spriteEnabled := p.spriteEnabled
  oamaddr := p.oamaddr
  regT := p.regT
  scrollFineX := p.scrollFineX
  oam := p.oam
  spritePatternAddr := p.spritePatternAddr
  bgPatternAddr := p.bgPatternAddr
  addrWrite := p.addrWrite
  increment := p.increment
  renderingEnabled := p.renderingEnabled
  tallSprites := p.tallSprites

/-- A function of the picture processor that leaves the settings alone. -/
def Keeps (f : Ppu → Ppu) : Prop := ∀ p, (f p).settings = p.settings

/-! ### Reads, sprites and pixels -/

theorem read_eq (p : Ppu) (addr : CpuAddr) : ∃ bus, (p.read addr).2 = { p with bus := bus } := by
  simp only [read]
  split
  · exact ⟨p.bus, rfl⟩
  · exact ⟨_, rfl⟩

theorem incrVert_eq (p : Ppu) : ∃ vramAddr, p.incrVert = { p with vramAddr := vramAddr } := by
  unfold incrVert
  split <;> exact ⟨_, rfl⟩

theorem copyVert_eq (p : Ppu) : ∃ vramAddr, p.copyVert = { p with vramAddr := vramAddr } := by
  unfold copyVert
  split <;> exact ⟨_, rfl⟩

theorem settings_read (p : Ppu) (addr : CpuAddr) : (p.read addr).2.settings = p.settings := by
  simp only [read]
  split
  · rfl
  · have hf := SystemBus.frame_readByte p.bus 0 (addr &&& 0x3FFF)
    show { p.settings with
      memory := (p.bus.readByte 0 (addr &&& 0x3FFF)).bus.memory
      memMask := (p.bus.readByte 0 (addr &&& 0x3FFF)).bus.memMask } = p.settings
    rw [hf.memory, hf.memMask]
    rfl

theorem keeps_incrVert : Keeps incrVert := by
  intro p
  unfold incrVert
  split <;> rfl

theorem settings_addSprite (p : Ppu) (index : BitVec 32) (sY eY : Byte) (y : BitVec 32) :
    (p.addSprite index sY eY y).settings = p.settings := by
  unfold addSprite
  simp only [readSpriteBit0, readSpriteBit1]
  exact (settings_read _ _).trans (settings_read _ _)

theorem settings_evaluateSpritesLoop (fuel : Nat) (index : BitVec 32) (p : Ppu) :
    (evaluateSpritesLoop fuel index p).settings = p.settings := by
  induction fuel generalizing index p with
  | zero => rfl
  | succ fuel ih =>
    simp only [evaluateSpritesLoop]
    split
    · split
      · rw [ih]
        split
        · exact settings_addSprite _ _ _ _ _
        · rfl
      · split
        · exact ih _ _
        · exact ih _ _
    · rfl

theorem keeps_evaluateSprites : Keeps evaluateSprites := fun p =>
  settings_evaluateSpritesLoop _ _ { p with numSprites := 0 }

theorem settings_drawLoop (y : BitVec 32) (n : Nat) (x : BitVec 32) (p : Ppu) :
    (drawLoop y n x p).settings = p.settings := by
  induction n generalizing x p with
  | zero => rfl
  | succ n ih => exact ih _ _

theorem keeps_drawPixels : Keeps drawPixels := by
  intro p
  unfold drawPixels
  split
  · rfl
  · exact (settings_drawLoop _ _ _ _).trans (settings_drawLoop _ _ _ _)

/-! ### The cases of `PpuStep` -/

theorem keeps_onEvenDot {f : Ppu → Ppu} (hf : Keeps f) : Keeps (onEvenDot · f) := by
  intro p
  show (if p.currentPixelClock &&& 1 = 0 then f p else p).settings = p.settings
  split
  · exact hf p
  · rfl

theorem keeps_fetchNt : Keeps fetchNt := fun _ => settings_read _ _

theorem keeps_fetchAt : Keeps fetchAt := fun _ => settings_read _ _

theorem keeps_fetchBg : Keeps fetchBg := fun _ => settings_read _ _

theorem keeps_leaveBg2 : Keeps leaveBg2 := by
  intro p
  unfold leaveBg2
  split
  · dsimp only
    split
    · exact (keeps_evaluateSprites _).trans (keeps_incrVert _)
    · rfl
  · rfl

theorem keeps_fetchBg2 : Keeps fetchBg2 := by
  intro p
  have hread := settings_read p (p.backgroundAddr p.future.nametable + 8)
  unfold fetchBg2
  dsimp only
  split
  · exact (keeps_leaveBg2 _).trans ((keeps_drawPixels _).trans hread)
  · exact (keeps_leaveBg2 _).trans hread

theorem keeps_fetchBadNt : Keeps fetchBadNt := fun _ => settings_read _ _

theorem keeps_fetchBadNt2 : Keeps fetchBadNt2 := fun _ => settings_read _ _

theorem keeps_fetchTailNt : Keeps fetchTailNt := fun _ => settings_read _ _

theorem keeps_fetchTailAt : Keeps fetchTailAt := fun _ => settings_read _ _

theorem keeps_fetchTailBg : Keeps fetchTailBg := fun _ => settings_read _ _

theorem keeps_leaveTailBg2 : Keeps leaveTailBg2 := by
  intro p
  unfold leaveTailBg2
  split <;> rfl

theorem keeps_fetchTailBg2 : Keeps fetchTailBg2 := fun p =>
  (keeps_leaveTailBg2 _).trans (settings_read p (p.backgroundAddr p.next.nametable + 8))

theorem keeps_endNt2 : Keeps endNt2 := by
  intro p
  unfold endNt2
  split
  · dsimp only
    split <;> rfl
  · rfl

theorem keeps_enterVblank : Keeps enterVblank := by
  intro p
  unfold enterVblank
  split
  · split
    · rfl
    · split <;> rfl
  · rfl

theorem keeps_postrenderScanline : Keeps postrenderScanline := by
  intro p
  have h := keeps_enterVblank p
  unfold postrenderScanline
  dsimp only
  split
  · split <;> exact h
  · exact h

theorem keeps_copyVert : Keeps copyVert := by
  intro p
  unfold copyVert
  split <;> rfl

theorem keeps_fetchStep : Keeps fetchStep := by
  intro p
  unfold fetchStep
  split
  · rfl
  · exact keeps_onEvenDot keeps_fetchNt p
  · exact keeps_onEvenDot keeps_fetchAt p
  · exact keeps_onEvenDot keeps_fetchBg p
  · exact keeps_onEvenDot keeps_fetchBg2 p
  · exact keeps_onEvenDot keeps_fetchBadNt p
  · exact keeps_onEvenDot keeps_fetchBadNt2 p
  · exact keeps_onEvenDot (fun _ => rfl : Keeps fetchSpriteLow) p
  · exact keeps_onEvenDot (fun _ => rfl : Keeps fetchSpriteHigh) p
  · exact keeps_onEvenDot keeps_fetchTailNt p
  · exact keeps_onEvenDot keeps_fetchTailAt p
  · exact keeps_onEvenDot keeps_fetchTailBg p
  · exact keeps_onEvenDot keeps_fetchTailBg2 p
  · exact keeps_onEvenDot (fun _ => rfl : Keeps endNt1) p
  · split
    · rfl
    · exact keeps_endNt2 p
  · exact keeps_endNt2 p
  · exact keeps_postrenderScanline p

/-- **`PpuStep` leaves the settings alone.** -/
theorem settings_ppuStep (p : Ppu) : p.ppuStep.settings = p.settings := by
  have hcopy := keeps_copyVert p
  unfold ppuStep
  dsimp only
  split
  · split
    · exact (keeps_fetchStep _).trans ((keeps_copyVert _).trans hcopy)
    · exact hcopy
  · exact (keeps_fetchStep _).trans hcopy

end Ppu

end RetroCpu.Nes
