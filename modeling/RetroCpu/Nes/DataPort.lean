import RetroCpu.Nes.Settings

/-!
# The data port

A byte that goes out through `$2007` and comes back.  A read of the port moves `vram_addr` on
before it looks whether the address is in the palette, so near the palette and inside it
the byte that comes back is the one of another address.  `roundTrips_iff` says when it is
the right one all the same.
-/

namespace RetroCpu.Nes.Ppu

/-- No time passes before an access at the cycle. -/
def Idle (cpuCycle : BitVec 64) (p : Ppu) : Prop := ¬p.lastPpuCycle < cpuCycle

def addrHi (a : Word) : Byte := (a >>> 8).setWidth 8

def addrLo (a : Word) : Byte := a.setWidth 8

def setAddr (cpuCycle : BitVec 64) (a : Word) (p : Ppu) : Option Ppu := do
  let (_, p) ← readPpu cpuCycle 1 2 p
  let p ← writePpu cpuCycle 1 6 (addrHi a) p
  writePpu cpuCycle 1 6 (addrLo a) p

/-- What the round trip sees: the byte that comes back, and `vram_addr` before and after each
access of `$2007`. -/
structure Trip where
  value : Byte
  moves : List (Word × Word)

/-- The control register, the byte out, and the byte back: on the second read below the
palette, on the first one in it. -/
def trip (cpuCycle : BitVec 64) (c : Byte) (a : Word) (b : Byte) (p : Ppu) : Option Trip := do
  let p ← writePpu cpuCycle 1 0 c p
  let p₁ ← setAddr cpuCycle a p
  let p₂ ← writePpu cpuCycle 1 7 b p₁
  let p₃ ← setAddr cpuCycle a p₂
  let (v, p₄) ← readPpu cpuCycle 1 7 p₃
  if a < 0x3F00 then
    let (v, p₅) ← readPpu cpuCycle 1 7 p₄
    return ⟨v, [(p₁.vramAddr, p₂.vramAddr), (p₃.vramAddr, p₄.vramAddr), (p₄.vramAddr, p₅.vramAddr)]⟩
  else return ⟨v, [(p₁.vramAddr, p₂.vramAddr), (p₃.vramAddr, p₄.vramAddr)]⟩

def selected (c : Byte) : Word := if c &&& 4 ≠ 0 then 32 else 1

/-- The byte comes back, without its two high bits from the palette, and each access of
`$2007` moves `vram_addr` by the selected increment. -/
def RoundTrips (cpuCycle : BitVec 64) (c : Byte) (a : Word) (b : Byte) (p : Ppu) : Prop :=
  ∃ t, trip cpuCycle c a b p = some t ∧
    t.value = (if a < 0x3F00 then b else b &&& 0x3F) ∧
    ∀ m ∈ t.moves, m.2 = m.1 + selected c

/-- The read does not reach the palette, or it finds the byte there by chance; in the palette
it is the cell one increment on that holds the byte, or past its end the byte at the start
of the pattern tables. -/
def PortHolds (c : Byte) (a : Word) (b : Byte) (p : Ppu) : Prop :=
  if a < 0x3F00 then
    a + 2 * selected c < 0x3F00 ∨
      p.paletteIndices (paletteIndex ((a + 2 * selected c).setWidth 32)) = b
  else if a + selected c < 0x4000 then
    paletteIndex ((a + selected c).setWidth 32) = paletteIndex (a.setWidth 32) ∨
      p.paletteIndices (paletteIndex ((a + selected c).setWidth 32)) = b &&& 0x3F
  else
    ((p.bus.readByte 0 (a.setWidth 32)).bus.readByte 0
      ((a + selected c).setWidth 32 &&& 0x3FFF)).data = b &&& 0x3F

/-! ### The accesses -/

section Access

variable {cpuCycle : BitVec 64} {p : Ppu}

theorem readPpu_idle (h : Idle cpuCycle p) (offset : BitVec 32) :
    readPpu cpuCycle 1 offset p = some (p.readReg offset) := by
  rw [readPpu, catchUpToCpu, if_neg h]
  rfl

theorem writePpu_idle (h : Idle cpuCycle p) (addr : BitVec 32) (value : Byte) :
    writePpu cpuCycle 1 addr value p = some (p.writeReg addr value) := by
  rw [writePpu, catchUpToCpu, if_neg h]
  rfl

theorem and_ff00 : ∀ h : Byte,
    ((h &&& 0x3F).setWidth 16 <<< 8) &&& 0xFF00#16 = (h &&& 0x3F).setWidth 16 <<< 8 := by
  decide +kernel

theorem toNat_and_3f : ∀ h : Byte, (h &&& 0x3F).toNat = h.toNat % 64 := by decide +kernel

/-- The two writes to `$2006` put the address together. -/
theorem regT_addr {a : Word} (ha : a < 0x4000) (t : Word) :
    ((((t &&& 0xFF#16) ||| ((addrHi a &&& 0x3F).setWidth 16 <<< 8)) &&& 0xFF00) |||
      (addrLo a).setWidth 16) = a := by
  have hlt : a.toNat < 0x4000 := ha
  have hmask : (t &&& 0xFF#16) &&& 0xFF00 = 0#16 := by
    rw [BitVec.and_assoc]
    exact BitVec.and_zero
  have hhi : ((addrHi a &&& 0x3F).setWidth 16 : Word).toNat = a.toNat / 256 := by
    rw [BitVec.toNat_setWidth_of_le (by decide), toNat_and_3f, addrHi, BitVec.toNat_setWidth,
      BitVec.toNat_ushiftRight, Nat.shiftRight_eq_div_pow]
    omega
  have hlo : ((addrLo a).setWidth 16 : Word).toNat = a.toNat % 2 ^ 8 := by
    rw [BitVec.toNat_setWidth_of_le (by decide), addrLo, BitVec.toNat_setWidth]
  rw [BitVec.and_or_distrib_right, hmask, BitVec.zero_or]
  have hand := and_ff00 (addrHi a)
  rw [show (0xFF00 : Word) = 0xFF00#16 from rfl, hand]
  apply BitVec.eq_of_toNat_eq
  rw [BitVec.toNat_or, BitVec.toNat_shiftLeft, hhi, hlo, Nat.shiftLeft_eq,
    Nat.mod_eq_of_lt (by omega), ← Nat.shiftLeft_eq,
    ← Nat.shiftLeft_add_eq_or_of_lt (Nat.mod_lt _ (by decide)), Nat.shiftLeft_eq]
  omega

def addressed (a : Word) (p : Ppu) : Ppu :=
  { p with
    latch := addrLo a, status := p.status &&& 0x7F, addrWrite := false, regT := a, vramAddr := a }

def halfAddressed (a : Word) (p : Ppu) : Ppu :=
  { p with
    latch := addrHi a, status := p.status &&& 0x7F, addrWrite := true
    regT := (p.regT &&& 0xFF#16) ||| ((addrHi a &&& 0x3F).setWidth 16 <<< 8) }

theorem setAddr_eq (h : Idle cpuCycle p) {a : Word} (ha : a < 0x4000) :
    setAddr cpuCycle a p = some (addressed a p) := by
  have hhi : p.readStatus.writeReg 6 (addrHi a) = halfAddressed a p := rfl
  have hlo : (halfAddressed a p).writeReg 6 (addrLo a) = addressed a p := by
    have hwrite : (halfAddressed a p).writeReg 6 (addrLo a) = { addressed a p with
        regT := ((halfAddressed a p).regT &&& 0xFF00) ||| (addrLo a).setWidth 16
        vramAddr := ((halfAddressed a p).regT &&& 0xFF00) ||| (addrLo a).setWidth 16 } := rfl
    rw [hwrite, halfAddressed, regT_addr ha]
    rfl
  rw [setAddr, readPpu_idle h]
  show ((writePpu cpuCycle 1 6 (addrHi a) p.readStatus).bind _) = _
  rw [writePpu_idle (p := p.readStatus) h, hhi]
  show writePpu cpuCycle 1 6 (addrLo a) (halfAddressed a p) = _
  rw [writePpu_idle (p := halfAddressed a p) h, hlo]

/-! ### The port -/

/-- `Write` leaves all but the bus and the palette. -/
theorem write_eq (p : Ppu) (addr : CpuAddr) (value : Byte) : ∃ bus indices palette,
    p.write addr value =
      { p with bus := bus, paletteIndices := indices, rgbPalette := palette } := by
  unfold write
  dsimp only
  split
  · exact ⟨_, _, _, rfl⟩
  · exact ⟨_, _, _, rfl⟩

/-- A read of the port leaves all but the bus, the two latches and the address. -/
theorem readData_eq (p : Ppu) : ∃ bus latch,
    p.readData =
      { p with
        bus := bus, latch := latch
        ppudataBuffer := (p.readByte (p.vramAddr.setWidth 32)).1
        vramAddr := p.vramAddr + p.increment } := by
  unfold readData
  dsimp only
  split
  · obtain ⟨bus, hbus⟩ := read_eq p.readBuffer (p.readBuffer.vramAddr.setWidth 32)
    rw [hbus]
    exact ⟨_, _, rfl⟩
  · exact ⟨_, _, rfl⟩

theorem vramAddr_readData (p : Ppu) : p.readData.vramAddr = p.vramAddr + p.increment := by
  obtain ⟨bus, latch, hdata⟩ := readData_eq p
  rw [hdata]

theorem increment_readData (p : Ppu) : p.readData.increment = p.increment := by
  obtain ⟨bus, latch, hdata⟩ := readData_eq p
  rw [hdata]

theorem lastPpuCycle_readData (p : Ppu) : p.readData.lastPpuCycle = p.lastPpuCycle := by
  obtain ⟨bus, latch, hdata⟩ := readData_eq p
  rw [hdata]

theorem paletteIndices_readData (p : Ppu) : p.readData.paletteIndices = p.paletteIndices := by
  obtain ⟨bus, latch, hdata⟩ := readData_eq p
  rw [hdata]

theorem ppudataBuffer_readData (p : Ppu) :
    p.readData.ppudataBuffer = (p.readByte (p.vramAddr.setWidth 32)).1 := by
  obtain ⟨bus, latch, hdata⟩ := readData_eq p
  rw [hdata]

/-- A write to the port moves the address and leaves the increment and the clock. -/
theorem writeData_move (p : Ppu) (v : Byte) :
    (p.writeData v).vramAddr = p.vramAddr + p.increment ∧
      (p.writeData v).increment = p.increment ∧
      (p.writeData v).lastPpuCycle = p.lastPpuCycle := by
  obtain ⟨bus, indices, palette, hwrite⟩ := write_eq p (p.vramAddr.setWidth 32) v
  rw [writeData, hwrite]
  exact ⟨rfl, rfl, rfl⟩

theorem latch_readData (p : Ppu) : p.readData.latch =
    if 0x3F00 ≤ p.vramAddr + p.increment then
      (p.readBuffer.read ((p.vramAddr + p.increment).setWidth 32)).1
    else p.ppudataBuffer := by
  unfold readData
  rw [apply_ite latch]
  rfl

end Access

/-! ### The trip -/

section Trip

variable (c : Byte) (a : Word) (b : Byte) (p : Ppu)

/-- The state after each access of the trip. -/
def afterControl : Ppu := ({ p with latch := c } : Ppu).writeControl c

def ready : Ppu := { addressed a (afterControl c p) with latch := b }

def afterWrite : Ppu := (ready c a b p).writeData b

def afterRead : Ppu := (addressed a (afterWrite c a b p)).readData

variable {cpuCycle : BitVec 64} {c a b p}

theorem bus_ready : (ready c a b p).bus = p.bus := rfl

theorem paletteIndices_ready : (ready c a b p).paletteIndices = p.paletteIndices := rfl

theorem lastPpuCycle_ready : (ready c a b p).lastPpuCycle = p.lastPpuCycle := rfl

theorem increment_afterWrite : (afterWrite c a b p).increment = selected c :=
  (writeData_move (ready c a b p) b).2.1

theorem vramAddr_afterWrite : (afterWrite c a b p).vramAddr = a + selected c :=
  (writeData_move (ready c a b p) b).1

theorem increment_afterRead : (afterRead c a b p).increment = selected c :=
  (increment_readData (addressed a (afterWrite c a b p))).trans increment_afterWrite

theorem vramAddr_afterRead : (afterRead c a b p).vramAddr = a + selected c := by
  have hmove := vramAddr_readData (addressed a (afterWrite c a b p))
  have hincrement : (addressed a (afterWrite c a b p)).increment = selected c :=
    increment_afterWrite
  rw [hincrement] at hmove
  exact hmove

theorem idle_afterWrite (h : Idle cpuCycle p) : Idle cpuCycle (afterWrite c a b p) := by
  have hcycle : (afterWrite c a b p).lastPpuCycle = p.lastPpuCycle :=
    (writeData_move (ready c a b p) b).2.2.trans lastPpuCycle_ready
  rw [Idle, hcycle]
  exact h

theorem idle_afterRead (h : Idle cpuCycle p) : Idle cpuCycle (afterRead c a b p) := by
  have hcycle : (afterRead c a b p).lastPpuCycle = (afterWrite c a b p).lastPpuCycle :=
    lastPpuCycle_readData (addressed a (afterWrite c a b p))
  rw [Idle, hcycle]
  exact idle_afterWrite h

/-- The trip, access by access. -/
theorem trip_eq (h : Idle cpuCycle p) (ha : a < 0x4000) : trip cpuCycle c a b p =
    if a < 0x3F00 then
      some ⟨(afterRead c a b p).readData.latch,
        [(a, (afterWrite c a b p).vramAddr), (a, (afterRead c a b p).vramAddr),
          ((afterRead c a b p).vramAddr, (afterRead c a b p).readData.vramAddr)]⟩
    else
      some ⟨(afterRead c a b p).latch,
        [(a, (afterWrite c a b p).vramAddr), (a, (afterRead c a b p).vramAddr)]⟩ := by
  have hcontrol : writePpu cpuCycle 1 0 c p = some (afterControl c p) := writePpu_idle h 0 c
  have haddr : setAddr cpuCycle a (afterControl c p) = some (addressed a (afterControl c p)) :=
    setAddr_eq (p := afterControl c p) h ha
  have hwrite : writePpu cpuCycle 1 7 b (addressed a (afterControl c p)) =
      some (afterWrite c a b p) := writePpu_idle (p := addressed a (afterControl c p)) h 7 b
  have haddr' : setAddr cpuCycle a (afterWrite c a b p) =
      some (addressed a (afterWrite c a b p)) := setAddr_eq (idle_afterWrite h) ha
  have hread : readPpu cpuCycle 1 7 (addressed a (afterWrite c a b p)) =
      some ((afterRead c a b p).latch, afterRead c a b p) :=
    readPpu_idle (p := addressed a (afterWrite c a b p)) (idle_afterWrite (p := p) h) 7
  have hread' : readPpu cpuCycle 1 7 (afterRead c a b p) =
      some ((afterRead c a b p).readData.latch, (afterRead c a b p).readData) :=
    readPpu_idle (idle_afterRead h) 7
  rw [trip, hcontrol]
  simp only [Option.bind_eq_bind, Option.bind_some, haddr, hwrite, haddr', hread, hread']
  rfl

theorem and_mask {a : Word} (ha : a < 0x4000) : a.setWidth 32 &&& 0x3FFF = a.setWidth 32 := by
  have hm : (0x3FFF : CpuAddr).toNat = 2 ^ 14 - 1 := by decide
  have hlt : (a.setWidth 32).toNat < 2 ^ 14 := by
    rw [BitVec.toNat_setWidth_of_le (by decide)]
    exact ha
  apply BitVec.eq_of_toNat_eq
  rw [BitVec.toNat_and, hm, Nat.and_two_pow_sub_one_eq_mod, Nat.mod_eq_of_lt hlt]

theorem palette_le_iff {a : Word} : (0x3F00 : CpuAddr) ≤ a.setWidth 32 ↔ 0x3F00 ≤ a := by
  rw [BitVec.le_def, BitVec.le_def, BitVec.toNat_setWidth_of_le (by decide)]
  rfl

theorem read_palette {q : Ppu} {x : Word} (hle : 0x3F00 ≤ x) (hlt : x < 0x4000) :
    (q.read (x.setWidth 32)).1 = q.paletteIndices (paletteIndex (x.setWidth 32)) := by
  rw [read, and_mask hlt, if_pos (palette_le_iff.mpr hle)]

theorem writeData_of_lt {q : Ppu} (hx : q.vramAddr < 0x3F00) (v : Byte) :
    (q.writeData v).bus = (q.bus.writeByte 0 (q.vramAddr.setWidth 32) v).bus ∧
      (q.writeData v).paletteIndices = q.paletteIndices := by
  have hwrite : q.write (q.vramAddr.setWidth 32) v = q.writeByte (q.vramAddr.setWidth 32) v := by
    rw [write, and_mask (a := q.vramAddr) (by bv_omega), if_neg]
    rw [palette_le_iff]
    bv_omega
  rw [writeData, hwrite]
  exact ⟨rfl, rfl⟩

theorem writeData_palette {q : Ppu} (hle : 0x3F00 ≤ q.vramAddr) (hlt : q.vramAddr < 0x4000)
    (v : Byte) :
    (q.writeData v).bus = q.bus ∧
      (q.writeData v).paletteIndices =
        Function.update q.paletteIndices (paletteIndex (q.vramAddr.setWidth 32)) (v &&& 0x3F) := by
  have hwrite : q.write (q.vramAddr.setWidth 32) v =
      { q with
        paletteIndices :=
          Function.update q.paletteIndices (paletteIndex (q.vramAddr.setWidth 32)) (v &&& 0x3F)
        rgbPalette := Function.update q.rgbPalette (paletteIndex (q.vramAddr.setWidth 32))
          (globalRgbPalette.getD (v &&& 0x3F).toNat 0) } := by
    rw [write, and_mask hlt, if_pos (palette_le_iff.mpr hle)]
  rw [writeData, hwrite]
  exact ⟨rfl, rfl⟩

/-- Below the palette the byte goes to memory and back. -/
theorem buffer_afterRead (ha : a < 0x3F00)
    (hram : (SystemBus.ramAddr p.bus.memory p.bus.memMask (a.setWidth 32)).isSome) :
    ((afterWrite c a b p).readByte (a.setWidth 32)).1 = b := by
  obtain ⟨n, hn⟩ := Option.isSome_iff_exists.mp hram
  have hbus : (afterWrite c a b p).bus = (p.bus.writeByte 0 (a.setWidth 32) b).bus :=
    bus_ready (p := p) ▸ (writeData_of_lt (q := ready c a b p) ha b).1
  have hframe := SystemBus.frame_writeByte p.bus 0 (a.setWidth 32) b
  show ((afterWrite c a b p).bus.readByte 0 (a.setWidth 32)).data = b
  rw [hbus, SystemBus.readByte_of_ramAddr (n := n) (by rw [hframe.memory, hframe.memMask, hn]),
    SystemBus.host_writeByte hn, Function.update_self]

theorem selected_cases (c : Byte) : selected c = 32 ∨ selected c = 1 := by
  unfold selected
  split
  · exact Or.inl rfl
  · exact Or.inr rfl

/-- What the second read gives below the palette. -/
theorem value_ram (ha : a < 0x3F00)
    (hram : (SystemBus.ramAddr p.bus.memory p.bus.memMask (a.setWidth 32)).isSome) :
    (afterRead c a b p).readData.latch =
      if a + 2 * selected c < 0x3F00 then b
      else p.paletteIndices (paletteIndex ((a + 2 * selected c).setWidth 32)) := by
  have hbuffer : (afterRead c a b p).ppudataBuffer = b :=
    (ppudataBuffer_readData (addressed a (afterWrite c a b p))).trans (buffer_afterRead ha hram)
  have hnext : a + selected c + selected c = a + 2 * selected c := by grind
  have hsel := selected_cases c
  rw [latch_readData, vramAddr_afterRead, increment_afterRead, hnext, hbuffer]
  by_cases hlt : a + 2 * selected c < 0x3F00
  · rw [if_pos hlt, if_neg (by bv_omega)]
  · have hpalette : a + 2 * selected c < 0x4000 := by
      rcases hsel with hsel | hsel
      · rw [hsel] at hlt ⊢
        bv_omega
      · rw [hsel] at hlt ⊢
        bv_omega
    rw [if_neg hlt, if_pos (by bv_omega), read_palette (by bv_omega) hpalette]
    have hread : (afterRead c a b p).paletteIndices = (afterWrite c a b p).paletteIndices :=
      paletteIndices_readData (addressed a (afterWrite c a b p))
    have hwrite : (afterWrite c a b p).paletteIndices = p.paletteIndices :=
      (writeData_of_lt (q := ready c a b p) ha b).2.trans paletteIndices_ready
    exact congrFun (hread.trans hwrite) _

/-- What the first read gives in the palette. -/
theorem value_palette (hle : 0x3F00 ≤ a) (hlt : a < 0x4000) :
    (afterRead c a b p).latch =
      if a + selected c < 0x4000 then
        if paletteIndex ((a + selected c).setWidth 32) = paletteIndex (a.setWidth 32) then
          b &&& 0x3F
        else p.paletteIndices (paletteIndex ((a + selected c).setWidth 32))
      else ((p.bus.readByte 0 (a.setWidth 32)).bus.readByte 0
        ((a + selected c).setWidth 32 &&& 0x3FFF)).data := by
  obtain ⟨hbus, hindices⟩ := writeData_palette (q := ready c a b p) hle hlt b
  rw [bus_ready] at hbus
  rw [paletteIndices_ready] at hindices
  have hincrement : (addressed a (afterWrite c a b p)).increment = selected c :=
    increment_afterWrite
  have hvram : (addressed a (afterWrite c a b p)).vramAddr = a := rfl
  have hsel := selected_cases c
  have hpast : 0x3F00 ≤ a + selected c := by
    rcases hsel with hsel | hsel
    · rw [hsel]
      bv_omega
    · rw [hsel]
      bv_omega
  rw [afterRead, latch_readData, hvram, hincrement, if_pos hpast]
  by_cases hend : a + selected c < 0x4000
  · rw [if_pos hend, read_palette hpast hend]
    have hcell : (addressed a (afterWrite c a b p)).readBuffer.paletteIndices =
        Function.update p.paletteIndices (paletteIndex (a.setWidth 32)) (b &&& 0x3F) := hindices
    rw [hcell, Function.update_apply]
  · have hmasked : ((a + selected c).setWidth 32 : CpuAddr) &&& 0x3FFF < 0x3F00 := by
      have hm : (0x3FFF : CpuAddr).toNat = 2 ^ 14 - 1 := by decide
      have hsum : (a + selected c).toNat < 0x4000 + 33 := by
        rcases hsel with hsel | hsel
        · rw [hsel]
          bv_omega
        · rw [hsel]
          bv_omega
      have hge : 0x4000 ≤ (a + selected c).toNat := by
        by_contra hlt'
        exact hend (by bv_omega)
      rw [BitVec.lt_def, BitVec.toNat_and, hm, Nat.and_two_pow_sub_one_eq_mod,
        BitVec.toNat_setWidth_of_le (by decide)]
      show (a + selected c).toNat % 2 ^ 14 < 0x3F00
      omega
    rw [if_neg hend, read, if_neg (by bv_omega)]
    show ((SystemBus.readByte (afterWrite c a b p).bus 0 (a.setWidth 32)).bus.readByte 0 _).data = _
    rw [afterWrite, hbus]

end Trip

/-- In the memory on the bus the next read is of the byte that was written. -/
theorem roundTrips_ram {cpuCycle : BitVec 64} {c : Byte} {a : Word} {b : Byte} {p : Ppu}
    (hidle : Idle cpuCycle p) (hlt : a < 0x4000) (ha : a < 0x3F00)
    (hram : (SystemBus.ramAddr p.bus.memory p.bus.memMask (a.setWidth 32)).isSome) :
    RoundTrips cpuCycle c a b p ↔ PortHolds c a b p := by
  have htrip := trip_eq (c := c) (b := b) hidle hlt
  have hvalue := value_ram (c := c) (b := b) ha hram
  have hlast : (afterRead c a b p).readData.vramAddr = a + selected c + selected c := by
    rw [vramAddr_readData, vramAddr_afterRead, increment_afterRead]
  rw [if_pos ha] at htrip
  rw [PortHolds, if_pos ha]
  constructor
  · rintro ⟨t, ht, hval, -⟩
    rw [htrip] at ht
    obtain rfl := Option.some.inj ht
    dsimp only at hval
    rw [if_pos ha, hvalue] at hval
    by_cases hpast : a + 2 * selected c < 0x3F00
    · exact Or.inl hpast
    · rw [if_neg hpast] at hval
      exact Or.inr hval
  · intro h
    refine ⟨_, htrip, ?_, ?_⟩
    · dsimp only
      rw [if_pos ha, hvalue]
      split
      · rfl
      · rename_i hpast
        exact h.resolve_left hpast
    · simp [vramAddr_afterWrite, vramAddr_afterRead, hlast]

/-- In the palette the read is not buffered. -/
theorem roundTrips_palette {cpuCycle : BitVec 64} {c : Byte} {a : Word} {b : Byte} {p : Ppu}
    (hidle : Idle cpuCycle p) (hlt : a < 0x4000) (ha : ¬a < 0x3F00) :
    RoundTrips cpuCycle c a b p ↔ PortHolds c a b p := by
  have htrip := trip_eq (c := c) (b := b) hidle hlt
  have hle' : 0x3F00 ≤ a := BitVec.not_lt.mp ha
  have hvalue := value_palette (c := c) (b := b) (p := p) hle' hlt
  rw [if_neg ha] at htrip
  rw [PortHolds, if_neg ha]
  constructor
  · rintro ⟨t, ht, hval, -⟩
    rw [htrip] at ht
    obtain rfl := Option.some.inj ht
    dsimp only at hval
    rw [if_neg ha, hvalue] at hval
    by_cases hend : a + selected c < 0x4000
    · rw [if_pos hend] at hval ⊢
      by_cases hcell : paletteIndex ((a + selected c).setWidth 32) = paletteIndex (a.setWidth 32)
      · exact Or.inl hcell
      · rw [if_neg hcell] at hval
        exact Or.inr hval
    · rw [if_neg hend] at hval ⊢
      exact hval
  · intro h
    refine ⟨_, htrip, ?_, ?_⟩
    · dsimp only
      rw [if_neg ha, hvalue]
      by_cases hend : a + selected c < 0x4000
      · rw [if_pos hend] at h ⊢
        by_cases hcell :
            paletteIndex ((a + selected c).setWidth 32) = paletteIndex (a.setWidth 32)
        · rw [if_pos hcell]
        · rw [if_neg hcell]
          exact h.resolve_left hcell
      · rw [if_neg hend] at h ⊢
        exact h
    · simp [vramAddr_afterWrite, vramAddr_afterRead]

/-- **The byte comes back exactly when the read does not pass over the start of the palette,
or finds the byte where it ends up.** -/
theorem roundTrips_iff (cpuCycle : BitVec 64) (c : Byte) (a : Word) (b : Byte) (p : Ppu)
    (hidle : Idle cpuCycle p) (hle : 0x2000 ≤ a) (hlt : a < 0x4000)
    (hram : ∀ x : Word, 0x2000 ≤ x → x < 0x3F00 →
      (SystemBus.ramAddr p.bus.memory p.bus.memMask (x.setWidth 32)).isSome) :
    RoundTrips cpuCycle c a b p ↔ PortHolds c a b p := by
  by_cases ha : a < 0x3F00
  · exact roundTrips_ram hidle hlt ha (hram a hle ha)
  · exact roundTrips_palette hidle hlt ha

/-- `$3F01` with an increment of 1 gives back the entry after it. -/
theorem not_roundTrips_3F01 :
    (∀ x : Word, 0x2000 ≤ x → x < 0x3F00 →
      (SystemBus.ramAddr zeroed.bus.memory zeroed.bus.memMask (x.setWidth 32)).isSome) ∧
    Idle 0 zeroed ∧ ¬RoundTrips 0 0 0x3F01 1 zeroed := by
  refine ⟨fun x _ _ => SystemBus.isSome_ramAddr_simple _ _ _, BitVec.lt_irrefl 0, ?_⟩
  have htrip : trip 0 0 0x3F01 1 zeroed = some ⟨0, [(0x3F01, 0x3F02), (0x3F01, 0x3F02)]⟩ := rfl
  rintro ⟨t, ht, hvalue, -⟩
  rw [htrip] at ht
  obtain rfl := Option.some.inj ht
  revert hvalue
  decide

theorem roundTrips_2000 : RoundTrips 0 0 0x2000 1 zeroed := by
  refine (roundTrips_iff 0 0 0x2000 1 zeroed (BitVec.lt_irrefl 0) (by decide) (by decide)
    fun x _ _ => SystemBus.isSome_ramAddr_simple _ _ _).mpr ?_
  rw [PortHolds, if_pos (by decide)]
  exact Or.inl (by decide)

end RetroCpu.Nes.Ppu
