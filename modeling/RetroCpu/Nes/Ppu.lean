import RetroCpu.SystemBus

/-!
# The picture processor

`PPU_2C02` of `2c02.cc`: a system bus of its own, the registers that the CPU sees, the
background pipeline with its three tiles, and the machine that `PpuStep` drives through the
dots of a frame.

What `DrawPixels` puts into the frame buffer is a list of pixels, oldest first, each with
the colour indices it came from.  `assert_nmi` is a count of its calls.
-/

namespace RetroCpu.Nes

/-- `PPUSTATE`. -/
inductive PpuState
  | fetchScanlineStart
  | fetchNt
  | fetchAt
  | fetchBg
  | fetchBg2
  | fetchBadNt
  | fetchBadNt2
  | fetchSpriteLow
  | fetchSpriteHigh
  | fetchTailNt
  | fetchTailAt
  | fetchTailBg
  | fetchTailBg2
  | endNt1
  | endNt2
  | postrenderScanline
  | renderDisabledScanline
  deriving DecidableEq, Repr

/-- `tile_data`. -/
structure Tile where
  nametable : Byte
  attrib : Byte
  low : Byte
  high : Byte

/-- `sprite`. -/
structure Sprite where
  low : Byte
  high : Byte
  attrib : Byte
  x : Byte

/-- Four bytes that `DrawPixels` copies into the frame buffer: where they go, and the
background colour and the colour that the pixel was drawn with. -/
structure Pixel where
  offset : Nat
  x : BitVec 32
  y : BitVec 32
  background : BitVec 32
  color : Byte
  rgb : BitVec 32

/-- `PPU_2C02`.  The counters of dots and scanlines are natural numbers. -/
structure Ppu where
  bus : SystemBus Unit
  stride : BitVec 32
  frame : List Pixel
  nmis : Nat
  lastPpuCycle : BitVec 64
  nominalPpuFrameTime : BitVec 32
  ppuCycleOfNextNmi : BitVec 64
  ppuClockSize : BitVec 32
  numRenderScanlines : Nat
  numPostrenderScanlines : Nat
  totalScanlines : Nat
  currentScanline : Nat
  currentPixelClock : Nat
  current : Tile
  next : Tile
  future : Tile
  paletteIndices : BitVec 5 → Byte
  rgbPalette : BitVec 5 → BitVec 32
  sprites : Nat → Sprite
  numSprites : Nat
  state : PpuState
  latch : Byte
  ppudataBuffer : Byte
  status : Byte
  control : Byte
  mask : Byte
  bgEnabled : Bool
  spriteEnabled : Bool
  oamaddr : Byte
  vramAddr : Word
  regT : Word
  scrollFineX : Word
  frameId : BitVec 32
  oam : Byte → Byte
  spritePatternAddr : Word
  bgPatternAddr : Word
  addrWrite : Bool
  increment : Word
  renderingEnabled : Bool
  tallSprites : Bool
  frameProduced : Bool

/-- `RGB`. -/
def rgb (r g b : BitVec 32) : BitVec 32 := r * 65536 ||| g * 256 ||| b

/-- `global_rgb_palette`. -/
def globalRgbPalette : List (BitVec 32) :=
  [
    rgb 102 102 102, rgb 0 42 136, rgb 20 18 168, rgb 59 0 164,
    rgb 92 0 126, rgb 110 0 64, rgb 108 7 0, rgb 87 29 0,
    rgb 52 53 0, rgb 12 73 0, rgb 0 82 0, rgb 0 79 8,
    rgb 0 64 78, rgb 0 0 0, rgb 0 0 0, rgb 0 0 0,
    rgb 174 174 174, rgb 21 95 218, rgb 66 64 254, rgb 118 39 255,
    rgb 161 27 205, rgb 184 30 124, rgb 181 50 32, rgb 153 79 0,
    rgb 108 110 0, rgb 56 135 0, rgb 13 148 0, rgb 0 144 50,
    rgb 0 124 142, rgb 0 0 0, rgb 0 0 0, rgb 0 0 0,
    rgb 254 254 254, rgb 100 176 254, rgb 147 144 254, rgb 199 119 254,
    rgb 243 106 254, rgb 254 110 205, rgb 254 130 112, rgb 235 159 35,
    rgb 189 191 0, rgb 137 217 0, rgb 93 229 48, rgb 69 225 130,
    rgb 72 206 223, rgb 79 79 79, rgb 0 0 0, rgb 0 0 0,
    rgb 254 254 254, rgb 193 224 254, rgb 212 211 254, rgb 233 200 254,
    rgb 251 195 254, rgb 254 197 235, rgb 254 205 198, rgb 247 217 166,
    rgb 229 230 149, rgb 208 240 151, rgb 190 245 171, rgb 180 243 205,
    rgb 181 236 243, rgb 184 184 184, rgb 0 0 0, rgb 0 0 0
  ]

namespace Ppu

/-- The default member initialisers.  The other members are what was in memory. -/
def construct (p : Ppu) : Ppu :=
  { p with
    lastPpuCycle := 0, currentScanline := 0, currentPixelClock := 0, numSprites := 0
    state := .fetchScanlineStart, ppudataBuffer := 0, status := 0, control := 0, mask := 0
    oamaddr := 0, vramAddr := 0, regT := 0, scrollFineX := 0, frameId := 0, addrWrite := false
    renderingEnabled := false, tallSprites := false, frameProduced := false }

/-- `Initialize`. -/
def initializePpu (p : Ppu) (isNtsc : Bool) : Ppu :=
  let p : Ppu :=
    if isNtsc then
      { p with numRenderScanlines := 240, numPostrenderScanlines := 1, totalScanlines := 262 }
    else p
  { p with
    currentScanline := 0, currentPixelClock := 0, ppuCycleOfNextNmi := 0, stride := 1024 }

/-! ### Memory -/

/-- `SystemBus::ReadByte` of the PPU.  Its pages belong to no device, so the clock is not
looked at. -/
def readByte (p : Ppu) (addr : CpuAddr) : Byte × Ppu :=
  let r := p.bus.readByte 0 addr
  (r.data, { p with bus := r.bus })

/-- `SystemBus::WriteByte` of the PPU. -/
def writeByte (p : Ppu) (addr : CpuAddr) (v : Byte) : Ppu :=
  { p with bus := (p.bus.writeByte 0 addr v).bus }

/-- The entry of `palette_indices` that an address selects. -/
def paletteIndex (addr : CpuAddr) : BitVec 5 :=
  let b : BitVec 5 := addr.setWidth 5
  if b &&& 0x13 = 0x10 then b ^^^ 0x10 else b

/-- `Read`. -/
def read (p : Ppu) (addr : CpuAddr) : Byte × Ppu :=
  let addr := addr &&& 0x3FFF
  if 0x3F00 ≤ addr then (p.paletteIndices (paletteIndex addr), p) else p.readByte addr

/-- `Write`. -/
def write (p : Ppu) (addr : CpuAddr) (value : Byte) : Ppu :=
  let addr := addr &&& 0x3FFF
  if 0x3F00 ≤ addr then
    let b := paletteIndex addr
    let value := value &&& 0x3F
    { p with
      paletteIndices := Function.update p.paletteIndices b value
      rgbPalette := Function.update p.rgbPalette b (globalRgbPalette.getD value.toNat 0) }
  else p.writeByte addr value

/-- `ReadNameTableByte`. -/
def readNameTableByte (p : Ppu) : Byte × Ppu :=
  p.read (0x2000 ||| (p.vramAddr &&& 0xFFF).setWidth 32)

/-- The address that `ReadAttribTableByte` reads. -/
def attribAddr (vramAddr : Word) : CpuAddr :=
  let index : Byte := (((vramAddr >>> 4) &&& 0x38#16) ||| ((vramAddr >>> 2) &&& 7)).setWidth 8
  0x23C0 ||| (vramAddr &&& 0xC00).setWidth 32 ||| index.setWidth 32

/-- The two bits of an attribute byte for the tile. -/
def attribBits (vramAddr : Word) (b : Byte) : Byte :=
  let b := if vramAddr &&& 0x40 ≠ 0 then b >>> 4 else b
  let b := if vramAddr &&& 2 ≠ 0 then b >>> 2 else b
  b &&& 3

/-- `ReadAttribTableByte`. -/
def readAttribTableByte (p : Ppu) : Byte × Ppu :=
  let (b, p) := p.read (attribAddr p.vramAddr)
  (attribBits p.vramAddr b, p)

/-- The address that `ReadBackgroundBit0` reads. -/
def backgroundAddr (p : Ppu) (nt : Byte) : CpuAddr :=
  p.bgPatternAddr.setWidth 32 + nt.setWidth 32 * 16#32 +
    ((p.vramAddr >>> 12) &&& 7).setWidth 32

/-- `ReadBackgroundBit0`. -/
def readBackgroundBit0 (p : Ppu) (nt : Byte) : Byte × Ppu := p.read (p.backgroundAddr nt)

/-- `ReadBackgroundBit1`. -/
def readBackgroundBit1 (p : Ppu) (nt : Byte) : Byte × Ppu := p.read (p.backgroundAddr nt + 8)

/-- The address that `ReadSpriteBit0` reads. -/
def spriteAddr (p : Ppu) (idx y : Byte) : CpuAddr :=
  if p.tallSprites then
    let addr : CpuAddr := (idx &&& 1).setWidth 32 <<< 12 + 16 * (idx &&& 0xFE).setWidth 32
    if 8 ≤ y then addr + y.setWidth 32 + 8 else addr + y.setWidth 32
  else p.spritePatternAddr.setWidth 32 + 16 * idx.setWidth 32 + y.setWidth 32

/-- `ReadSpriteBit0`. -/
def readSpriteBit0 (p : Ppu) (idx y : Byte) : Byte × Ppu := p.read (p.spriteAddr idx y)

/-- `ReadSpriteBit1`. -/
def readSpriteBit1 (p : Ppu) (idx y : Byte) : Byte × Ppu := p.read (p.spriteAddr idx y + 8)

/-! ### Scrolling -/

/-- `IncrHoriz` on the address. -/
def horizNext (vramAddr : Word) : Word :=
  if vramAddr &&& 0x1F = 0x1F then vramAddr ^^^ 0x41F else vramAddr + 1

/-- `IncrHoriz`. -/
def incrHoriz (p : Ppu) : Ppu := { p with vramAddr := horizNext p.vramAddr }

/-- `IncrVert`. -/
def incrVert (p : Ppu) : Ppu :=
  if p.vramAddr &&& 0x7000 ≠ 0x7000 then
    let vramAddr := p.vramAddr + 0x1000
    { p with vramAddr := (vramAddr &&& 0xF3E0) ||| (p.regT &&& 0xC1F) }
  else
    let vramAddr := p.vramAddr &&& 0xFFF
    let y := (vramAddr >>> 5) &&& 0x1F
    let (y, vramAddr) : Word × Word :=
      if y = 29 then (0, vramAddr ^^^ 0x800)
      else if y = 31 then (0, vramAddr)
      else (y + 1, vramAddr)
    { p with vramAddr := (vramAddr &&& 0xF000#16) ||| (y <<< 5) ||| (p.regT &&& 0xC1F) }

/-! ### Sprites and pixels -/

/-- `EvaluateSprites` puts the sprite at `index` of `oam` into the list. -/
def addSprite (p : Ppu) (index : BitVec 32) (sY eY : Byte) (y : BitVec 32) : Ppu :=
  let oamAt (k : BitVec 32) : Byte := p.oam ((index + k).setWidth 8)
  let row : Byte := if oamAt 2 &&& 0x80 ≠ 0 then eY - y.setWidth 8 - 1 else y.setWidth 8 - sY
  let (low, p) := p.readSpriteBit0 (oamAt 1) row
  let (high, p) := p.readSpriteBit1 (oamAt 1) row
  let attrib := oamAt 2 &&& 0xE3
  let attrib := if index = 0 then attrib ||| 0x10 else attrib
  { p with
    sprites := Function.update p.sprites p.numSprites { low, high, attrib, x := oamAt 3 }
    numSprites := p.numSprites + 1 }

def spriteEnd (p : Ppu) (sY : Byte) : Byte := if p.tallSprites then sY + 8 + 8 else sY + 8

/-- The loop of `EvaluateSprites`.  Each round moves `index` up by one at least, so `fuel` is
enough when it is the distance to 253. -/
def evaluateSpritesLoop : Nat → BitVec 32 → Ppu → Ppu
  | 0, _, p => p
  | fuel + 1, index, p =>
    if index < 253 then
      let y : BitVec 32 := BitVec.ofNat 32 p.currentScanline - 1
      let sY := p.oam (index.setWidth 8)
      let eY := p.spriteEnd sY
      if sY.setWidth 32 ≤ y ∧ y < eY.setWidth 32 then
        let p := if p.numSprites < 8 then p.addSprite index sY eY y else p
        evaluateSpritesLoop fuel (index + 4) p
      else if p.numSprites = 8 then
        let index := index + 4
        evaluateSpritesLoop fuel ((index &&& 0xFFC) + ((index + 1) &&& 3)) p
      else evaluateSpritesLoop fuel (index + 4) p
    else p

/-- `EvaluateSprites`. -/
def evaluateSprites (p : Ppu) : Ppu := evaluateSpritesLoop 253 0 { p with numSprites := 0 }

/-- The sprites in `get_color`: whether sprite 0 is hit, and the colour that is returned. -/
def spriteColor (x color : BitVec 32) : List Sprite → Bool × BitVec 32
  | [] => (false, color)
  | s :: rest =>
    let px := x - s.x.setWidth 32
    if px < 8 then
      let px := if s.attrib &&& 0x40 ≠ 0 then 7 - px else px
      let idx : BitVec 32 := (s.low.setWidth 32 >>> (7 - px)) &&& 1
      let idx :=
        if px = 7 then idx ||| ((s.high.setWidth 32 <<< 1) &&& 2)
        else idx ||| ((s.high.setWidth 32 >>> (6 - px)) &&& 2)
      if idx ≠ 0 then
        let hit := color ≠ 0 && s.attrib &&& 0x10 ≠ 0
        if s.attrib &&& 0x20 = 0 ∨ color = 0 then
          (hit, 0x10 + 4 * (s.attrib &&& 3).setWidth 32 + idx)
        else (hit, color)
      else spriteColor x color rest
    else spriteColor x color rest

/-- The background colour in `get_color`. -/
def backgroundColor (p : Ppu) (x : BitVec 32) : BitVec 32 :=
  let color : BitVec 32 :=
    if p.bgEnabled && (8 ≤ x || p.mask &&& 2 ≠ 0) then
      (4#32 * p.current.attrib.setWidth 32 + (p.current.low >>> 7).setWidth 32) |||
        ((p.current.high >>> 6) &&& 2).setWidth 32
    else 0
  if color &&& 3 = 0 then 0 else color

/-- One round of the loops in `DrawPixels`: `get_color` and the copy to the frame buffer. -/
def drawPixel (p : Ppu) (x y : BitVec 32) : Ppu :=
  let background := p.backgroundColor x
  let (hit, color) :=
    if p.spriteEnabled && (8 ≤ x || p.mask &&& 4 ≠ 0) then
      spriteColor x background ((List.range p.numSprites).map p.sprites)
    else (false, background)
  let color : Byte := color.setWidth 8
  { p with
    current :=
      { p.current with low := p.current.low <<< 1, high := p.current.high <<< 1 }
    status := if hit then p.status ||| 0x40 else p.status
    frame := p.frame ++
      [{ offset := (p.stride * y).toNat + (x * 4).toNat, x, y, background, color
         rgb := p.rgbPalette (color.setWidth 5) }] }

def drawLoop (y : BitVec 32) : Nat → BitVec 32 → Ppu → Ppu
  | 0, _, p => p
  | n + 1, x, p => drawLoop y n (x + 1) (p.drawPixel x y)

/-- `DrawPixels`. -/
def drawPixels (p : Ppu) : Ppu :=
  if 256 < p.currentPixelClock then p
  else
    let x : BitVec 32 := BitVec.ofNat 32 p.currentPixelClock - 8
    let y : BitVec 32 := BitVec.ofNat 32 p.currentScanline - 1
    let n : BitVec 32 := 8 - p.scrollFineX.setWidth 32
    let p := drawLoop y n.toNat x p
    let p := { p with current := p.next }
    drawLoop y (8 - n.toNat) (x + n) p

/-! ### The dots of a frame -/

/-- A step that only counts the dot, or does `f` on an even one. -/
def onEvenDot (p : Ppu) (f : Ppu → Ppu) : Ppu :=
  let p := if p.currentPixelClock &&& 1 = 0 then f p else p
  { p with currentPixelClock := p.currentPixelClock + 1 }

/-- `case FETCH_NT`. -/
def fetchNt (p : Ppu) : Ppu :=
  let (nametable, p) := p.readNameTableByte
  { p with future := { p.future with nametable }, state := .fetchAt }

/-- `case FETCH_AT`. -/
def fetchAt (p : Ppu) : Ppu :=
  let (attrib, p) := p.readAttribTableByte
  { p with future := { p.future with attrib }, state := .fetchBg }

/-- `case FETCH_BG`. -/
def fetchBg (p : Ppu) : Ppu :=
  let (low, p) := p.readBackgroundBit0 p.future.nametable
  { p with future := { p.future with low }, state := .fetchBg2 }

/-- `case FETCH_BG2` after `DrawPixels`. -/
def leaveBg2 (p : Ppu) : Ppu :=
  if p.currentPixelClock = 256 then
    let p := { p with state := .fetchBadNt }
    if 0 < p.currentScanline then p.incrVert.evaluateSprites else p
  else
    let p := p.incrHoriz
    { p with state := .fetchNt, next := p.future }

/-- `case FETCH_BG2`. -/
def fetchBg2 (p : Ppu) : Ppu :=
  let (high, p) := p.readBackgroundBit1 p.future.nametable
  let p := { p with future := { p.future with high } }
  if p.currentScanline ≠ 0 then p.drawPixels.leaveBg2 else p.leaveBg2

/-- `case FETCH_BAD_NT`. -/
def fetchBadNt (p : Ppu) : Ppu := { p.readNameTableByte.2 with state := .fetchBadNt2 }

/-- `case FETCH_BAD_NT2`. -/
def fetchBadNt2 (p : Ppu) : Ppu := { p.readNameTableByte.2 with state := .fetchSpriteLow }

/-- `case FETCH_SPRITE_LOW`. -/
def fetchSpriteLow (p : Ppu) : Ppu := { p with state := .fetchSpriteHigh }

/-- `case FETCH_SPRITE_HIGH`. -/
def fetchSpriteHigh (p : Ppu) : Ppu :=
  { p with state := if p.currentPixelClock = 320 then .fetchTailNt else .fetchBadNt }

/-- `case FETCH_TAIL_NT`. -/
def fetchTailNt (p : Ppu) : Ppu :=
  let (nametable, p) := p.readNameTableByte
  { p with next := { p.next with nametable }, state := .fetchTailAt }

/-- `case FETCH_TAIL_AT`. -/
def fetchTailAt (p : Ppu) : Ppu :=
  let (attrib, p) := p.readAttribTableByte
  { p with next := { p.next with attrib }, state := .fetchTailBg }

/-- `case FETCH_TAIL_BG`. -/
def fetchTailBg (p : Ppu) : Ppu :=
  let (low, p) := p.readBackgroundBit0 p.next.nametable
  { p with next := { p.next with low }, state := .fetchTailBg2 }

/-- `case FETCH_TAIL_BG2` after `IncrHoriz`. -/
def leaveTailBg2 (p : Ppu) : Ppu :=
  if p.currentPixelClock = 336 then { p with state := .endNt1 }
  else { p with state := .fetchTailNt, current := p.next }

/-- `case FETCH_TAIL_BG2`. -/
def fetchTailBg2 (p : Ppu) : Ppu :=
  let (high, p) := p.readBackgroundBit1 p.next.nametable
  let p := { p with next := { p.next with high } }
  p.incrHoriz.leaveTailBg2

/-- `case END_NT1`. -/
def endNt1 (p : Ppu) : Ppu := { p with state := .endNt2 }

/-- `case END_NT2`, which returns on an even dot. -/
def endNt2 (p : Ppu) : Ppu :=
  if p.currentPixelClock &&& 1 = 0 then
    let p :=
      { p with
        state := .fetchScanlineStart, currentPixelClock := 0
        currentScanline := p.currentScanline + 1 }
    if p.numRenderScanlines < p.currentScanline then
      { p with frameProduced := true, state := .postrenderScanline }
    else p
  else { p with currentPixelClock := p.currentPixelClock + 1 }

/-- `case POSTRENDER_SCANLINE` before it counts the dot. -/
def enterVblank (p : Ppu) : Ppu :=
  if p.currentScanline = p.numRenderScanlines + p.numPostrenderScanlines then
    if p.currentPixelClock = 1 then
      let frameId := p.frameId + 1
      let next := p.lastPpuCycle + p.nominalPpuFrameTime.setWidth 64 +
        (2 * p.ppuClockSize).setWidth 64
      { p with
        status := p.status ||| 0x80, frameId
        ppuCycleOfNextNmi :=
          if frameId &&& 1 = 0 then next + p.ppuClockSize.setWidth 64 else next }
    else if p.status &&& p.control &&& 0x80 ≠ 0 ∧ p.currentPixelClock = 4 then
      { p with nmis := p.nmis + 1 }
    else p
  else p

/-- `case POSTRENDER_SCANLINE`. -/
def postrenderScanline (p : Ppu) : Ppu :=
  let p := p.enterVblank
  if p.currentPixelClock + 1 = 341 then
    if p.currentScanline + 1 = p.totalScanlines then
      { p with currentPixelClock := 0, currentScanline := 0, state := .fetchScanlineStart }
    else { p with currentPixelClock := 0, currentScanline := p.currentScanline + 1 }
  else { p with currentPixelClock := p.currentPixelClock + 1 }

/-- The vertical scroll that `PpuStep` copies before anything else. -/
def copyVert (p : Ppu) : Ppu :=
  if p.renderingEnabled ∧ p.currentScanline = 0 ∧ 280 ≤ p.currentPixelClock ∧
      p.currentPixelClock ≤ 304 then
    { p with vramAddr := (p.vramAddr &&& 0xC1F) ||| (p.regT &&& 0xF3E0) }
  else p

/-- The cases of `PpuStep` but the first. -/
def fetchStep (p : Ppu) : Ppu :=
  match p.state with
  | .fetchScanlineStart => p
  | .fetchNt => p.onEvenDot fetchNt
  | .fetchAt => p.onEvenDot fetchAt
  | .fetchBg => p.onEvenDot fetchBg
  | .fetchBg2 => p.onEvenDot fetchBg2
  | .fetchBadNt => p.onEvenDot fetchBadNt
  | .fetchBadNt2 => p.onEvenDot fetchBadNt2
  | .fetchSpriteLow => p.onEvenDot fetchSpriteLow
  | .fetchSpriteHigh => p.onEvenDot fetchSpriteHigh
  | .fetchTailNt => p.onEvenDot fetchTailNt
  | .fetchTailAt => p.onEvenDot fetchTailAt
  | .fetchTailBg => p.onEvenDot fetchTailBg
  | .fetchTailBg2 => p.onEvenDot fetchTailBg2
  | .endNt1 => p.onEvenDot endNt1
  | .renderDisabledScanline =>
    -- the case falls through
    if p.currentPixelClock ≠ 340 then { p with currentPixelClock := p.currentPixelClock + 1 }
    else p.endNt2
  | .endNt2 => p.endNt2
  | .postrenderScanline => p.postrenderScanline

/-- `case FETCH_SCANLINE_START` up to the test for the odd frame. -/
def scanlineStart (p : Ppu) : Ppu :=
  { p with
    current :=
      { p.current with
        high := p.current.high <<< p.scrollFineX, low := p.current.low <<< p.scrollFineX }
    state := if p.renderingEnabled then .fetchNt else .renderDisabledScanline
    status := if p.currentScanline = 0 then 0 else p.status }

/-- The odd frame leaves out a dot. -/
def skipsDot (p : Ppu) : Bool :=
  p.currentScanline == 1 && p.renderingEnabled && p.frameId &&& 1 != 0

/-- `PpuStep`.  Where the source calls itself the state is `FETCH_NT`, so the call is one of
the other cases. -/
def ppuStep (p : Ppu) : Ppu :=
  let p := p.copyVert
  if p.state = .fetchScanlineStart then
    let p := p.scanlineStart
    let p := { p with currentPixelClock := p.currentPixelClock + 1 }
    if p.skipsDot then p.copyVert.fetchStep else p
  else p.fetchStep

theorem copyVert_of_scanline {p : Ppu} (h : p.currentScanline ≠ 0) : p.copyVert = p :=
  if_neg fun hcopy => h hcopy.2.1

/-! ### Registers -/

/-- What `CatchUpToCpu` does before `PpuStep`. -/
def tick (p : Ppu) : Ppu :=
  { p with lastPpuCycle := p.lastPpuCycle + p.ppuClockSize.setWidth 64 }

/-- One round of the loop in `CatchUpToCpu`.  A run of it is what the picture processor does
while nobody looks at its registers. -/
def clockStep (p : Ppu) : Ppu := p.tick.ppuStep

/-- `CatchUpToCpu`, or `none` when `fuel` steps are not enough. -/
def catchUpToCpu (cpuCycle : BitVec 64) : Nat → Ppu → Option Ppu
  | 0, _ => none
  | fuel + 1, p =>
    if p.lastPpuCycle < cpuCycle then catchUpToCpu cpuCycle fuel p.tick.ppuStep else some p

/-- Register 2 of `ReadPPU`, the status. -/
def readStatus (p : Ppu) : Ppu :=
  { p with
    latch := (p.latch &&& 0x1F) ||| p.status, status := p.status &&& 0x7F, addrWrite := false }

/-- Register 7 of `ReadPPU`, up to the test for the palette. -/
def readBuffer (p : Ppu) : Ppu :=
  let latch := p.ppudataBuffer
  let (v, p) := p.readByte (p.vramAddr.setWidth 32)
  { p with latch, ppudataBuffer := v, vramAddr := p.vramAddr + p.increment }

/-- Register 7 of `ReadPPU`, the data port. -/
def readData (p : Ppu) : Ppu :=
  let p := p.readBuffer
  if 0x3F00 ≤ p.vramAddr then
    let (v, p) := p.read (p.vramAddr.setWidth 32)
    { p with latch := v }
  else p

/-- `ReadPPU` after `CatchUpToCpu`. -/
def readReg (p : Ppu) (offset : BitVec 32) : Byte × Ppu :=
  let p :=
    if offset &&& 7 = 2 then p.readStatus
    else if offset &&& 7 = 4 then { p with latch := p.oam p.oamaddr }
    else if offset &&& 7 = 7 then p.readData
    else p
  (p.latch, p)

/-- Register 0 of `WritePPU`. -/
def writeControl (p : Ppu) (value : Byte) : Ppu :=
  let tallSprites := value &&& 0x20 != 0
  { p with
    control := value
    increment := if value &&& 4 ≠ 0 then 32 else 1
    regT := (p.regT &&& 0xF3FF#16) ||| ((value &&& 3).setWidth 16 <<< 10)
    tallSprites
    spritePatternAddr := if !tallSprites && value &&& 8 != 0 then 0x1000 else 0
    bgPatternAddr := if value &&& 0x10 ≠ 0 then 0x1000 else 0 }

/-- Register 1 of `WritePPU`. -/
def writeMask (p : Ppu) (value : Byte) : Ppu :=
  { p with
    mask := value
    renderingEnabled :=
      if p.renderingEnabled then
        if value &&& 0x18 = 0 then false else p.renderingEnabled
      else if value &&& 0x18 ≠ 0 then true else p.renderingEnabled
    bgEnabled := value &&& 8 != 0
    spriteEnabled := value &&& 0x10 != 0 }

/-- Register 5 of `WritePPU`. -/
def writeScroll (p : Ppu) (value : Byte) : Ppu :=
  if p.addrWrite = false then
    { p with
      regT := (p.regT &&& 0xFFE0#16) ||| ((value >>> 3) &&& 0x1F).setWidth 16
      scrollFineX := (value &&& 7).setWidth 16, addrWrite := !p.addrWrite }
  else
    let regT : Word := p.regT &&& 0x0C1F
    let regT : Word := regT ||| ((value &&& 0xF8).setWidth 16 <<< 2)
    let regT : Word := regT ||| ((value &&& 7).setWidth 16 <<< 12)
    { p with regT, addrWrite := !p.addrWrite }

/-- Register 6 of `WritePPU`. -/
def writeAddr (p : Ppu) (value : Byte) : Ppu :=
  if p.addrWrite = false then
    { p with
      regT := (p.regT &&& 0xFF#16) ||| ((value &&& 0x3F).setWidth 16 <<< 8)
      addrWrite := !p.addrWrite }
  else
    let regT : Word := (p.regT &&& 0xFF00) ||| value.setWidth 16
    { p with regT, vramAddr := regT, addrWrite := !p.addrWrite }

/-- Register 7 of `WritePPU`, the data port. -/
def writeData (p : Ppu) (value : Byte) : Ppu :=
  let p := p.write (p.vramAddr.setWidth 32) value
  { p with vramAddr := p.vramAddr + p.increment }

/-- `WritePPU` after `CatchUpToCpu`.  `DoPanic` prints and returns, so a write that panics leaves
its value in the latch. -/
def writeReg (p : Ppu) (addr : BitVec 32) (value : Byte) : Ppu :=
  let p := { p with latch := value }
  if addr &&& 7 = 0 then p.writeControl value
  else if addr &&& 7 = 1 then p.writeMask value
  else if addr &&& 7 = 3 then
    -- `panic`
    if p.renderingEnabled then p else { p with oamaddr := value }
  else if addr &&& 7 = 4 then
    -- `panic`
    if p.renderingEnabled then p
    else { p with oam := Function.update p.oam p.oamaddr value, oamaddr := p.oamaddr + 1 }
  else if addr &&& 7 = 5 then p.writeScroll value
  else if addr &&& 7 = 6 then p.writeAddr value
  else if addr &&& 7 = 7 then p.writeData value
  else p

/-- `ReadPPU`.  It does not look at `peek`. -/
def readPpu (cpuCycle : BitVec 64) (fuel : Nat) (offset : BitVec 32) (p : Ppu) :
    Option (Byte × Ppu) := do
  let p ← catchUpToCpu cpuCycle fuel p
  return p.readReg offset

/-- `WritePPU`. -/
def writePpu (cpuCycle : BitVec 64) (fuel : Nat) (addr : BitVec 32) (value : Byte) (p : Ppu) :
    Option Ppu := do
  let p ← catchUpToCpu cpuCycle fuel p
  return p.writeReg addr value

/-- A picture processor in zeroed memory, on a bus of 16 kB RAM. -/
def zeroed : Ppu where
  bus := SystemBus.simple 14 fun _ => 0
  stride := 0
  frame := []
  nmis := 0
  lastPpuCycle := 0
  nominalPpuFrameTime := 0
  ppuCycleOfNextNmi := 0
  ppuClockSize := 0
  numRenderScanlines := 0
  numPostrenderScanlines := 0
  totalScanlines := 0
  currentScanline := 0
  currentPixelClock := 0
  current := ⟨0, 0, 0, 0⟩
  next := ⟨0, 0, 0, 0⟩
  future := ⟨0, 0, 0, 0⟩
  paletteIndices := fun _ => 0
  rgbPalette := fun _ => 0
  sprites := fun _ => ⟨0, 0, 0, 0⟩
  numSprites := 0
  state := .fetchScanlineStart
  latch := 0
  ppudataBuffer := 0
  status := 0
  control := 0
  mask := 0
  bgEnabled := false
  spriteEnabled := false
  oamaddr := 0
  vramAddr := 0
  regT := 0
  scrollFineX := 0
  frameId := 0
  oam := fun _ => 0
  spritePatternAddr := 0
  bgPatternAddr := 0
  addrWrite := false
  increment := 0
  renderingEnabled := false
  tallSprites := false
  frameProduced := false

end Ppu

end RetroCpu.Nes
