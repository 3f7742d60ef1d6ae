import RetroCpu.Bus
import RetroCpu.Lib.WordBytes
import RetroCpu.Wdc65816.Tables

/-!
# The registers and modes of the CPU

`Core` holds the members of `WDC65C816` and of its `cpu_state` that only the CPU
itself writes.  The clock and the bus are kept apart in `Machine`, because every
memory access moves them and nothing else.  The instruction trace is left out:
no other function reads it.

The status register is spread over five fields.  `getStatusRegister` packs them
into the architectural byte and `setStatusRegister` unpacks it, and
`getStatusRegister_setStatusRegister` says what comes back: the byte itself,
with bits 4 and 5 read from the widths that are in force afterwards.

`onUpdateMode` picks the row of the opcode table for the emulation and width
bits.  `Coherent` is what it establishes: the bits do not contradict each other
and the row in use is theirs.
-/

namespace RetroCpu

open WordBytes

/-- The CPU's own state. -/
structure Core where
  a : Word
  x : Word
  y : Word
  d : Word
  sp : Word
  codeSegmentBase : CpuAddr
  dataSegmentBase : CpuAddr
  ip : CpuAddr
  mode : Mode
  zero : BitVec 32
  negative : BitVec 32
  interrupts : BitVec 32
  carry : BitVec 32
  otherFlags : BitVec 32
  modeNative6502 : Bool
  modeEmulation : Bool
  modeLongA : Bool
  modeLongXy : Bool
  supportsDecimal : Bool
  fastBlockMoves : Bool
  currentInstructionSet : InstructionSet
  numEmulatedInstructions : BitVec 64
  internalCycleTiming : BitVec 32
  deriving Inhabited

/-- `ip_mask`, which the constructor sets and nothing writes afterwards. -/
def ipMask : CpuAddr := 0xFFFF

namespace Core

/-- `regs.reglist[r].u16`. -/
def reg (c : Core) : Reg → Word
  | .a => c.a
  | .x => c.x
  | .y => c.y
  | .d => c.d
  | .sp => c.sp

/-- Write `regs.reglist[r].u16`. -/
def setReg (c : Core) (r : Reg) (v : Word) : Core :=
  match r with
  | .a => { c with a := v }
  | .x => { c with x := v }
  | .y => { c with y := v }
  | .d => { c with d := v }
  | .sp => { c with sp := v }

/-- `GetCanonicalAddress`. -/
def getCanonicalAddress (c : Core) : CpuAddr := c.codeSegmentBase + (c.ip &&& ipMask)

/-- The program bank, the byte the code takes from `code_segment_base`. -/
def programBank (c : Core) : Byte := (c.codeSegmentBase >>> 16).setWidth 8

/-- The data bank, the byte the code takes from `data_segment_base`. -/
def dataBank (c : Core) : Byte := (c.dataSegmentBase >>> 16).setWidth 8

def pc (c : Core) : Word := c.ip.setWidth 16

/-- A bank byte shifted into place is read back. -/
theorem bank_shift : ∀ bank : Byte, (bank.setWidth 32 <<< 16 >>> 16).setWidth 8 = bank := by
  decide +kernel

/-! ### Modes -/

/-- `OnUpdateMode`. -/
def onUpdateMode (c : Core) : Core :=
  let c :=
    if c.modeNative6502 then
      { c with mode := .native6502, modeEmulation := true, modeLongA := false, modeLongXy := false }
    else if c.modeEmulation then
      { c with mode := .emulation, modeLongA := false, modeLongXy := false }
    else { c with mode := .ofWidths c.modeLongA c.modeLongXy }
  let c := if !c.modeLongXy then { c with x := setHi c.x 0, y := setHi c.y 0 } else c
  { c with currentInstructionSet := execOps c.mode }

/-- The emulation and width bits fit together and select the opcode row in use. -/
structure Coherent (c : Core) : Prop where
  native6502 : c.modeNative6502 = true → c.modeEmulation = true
  emulation : c.modeEmulation = true → c.modeLongA = false ∧ c.modeLongXy = false
  mode : c.mode = if c.modeNative6502 then .native6502 else if c.modeEmulation then .emulation
    else .ofWidths c.modeLongA c.modeLongXy
  instructionSet : c.currentInstructionSet = execOps c.mode

/-- **`OnUpdateMode` makes any state coherent.** -/
theorem coherent_onUpdateMode (c : Core) : c.onUpdateMode.Coherent := by
  cases h6 : c.modeNative6502 <;> cases he : c.modeEmulation <;> cases hx : c.modeLongXy <;>
    constructor <;> simp [onUpdateMode, h6, he, hx]

def IndexFits (c : Core) : Prop := c.modeLongXy = false → hi c.x = 0 ∧ hi c.y = 0

theorem indexFits_onUpdateMode (c : Core) : c.onUpdateMode.IndexFits := by
  cases h6 : c.modeNative6502 <;> cases he : c.modeEmulation <;> cases hx : c.modeLongXy <;>
    simp [IndexFits, onUpdateMode, h6, he, hx]

/-- What `OnUpdateMode` writes, field by field. -/
theorem onUpdateMode_eq (c : Core) : c.onUpdateMode =
    { c with
      modeEmulation := c.modeNative6502 || c.modeEmulation
      modeLongA := !c.modeNative6502 && !c.modeEmulation && c.modeLongA
      modeLongXy := !c.modeNative6502 && !c.modeEmulation && c.modeLongXy
      mode := c.onUpdateMode.mode
      currentInstructionSet := c.onUpdateMode.currentInstructionSet
      x := c.onUpdateMode.x
      y := c.onUpdateMode.y } := by
  cases h6 : c.modeNative6502 <;> cases he : c.modeEmulation <;> cases hx : c.modeLongXy <;>
    simp [onUpdateMode, h6, he, hx]

theorem onUpdateMode_idem (c : Core) : c.onUpdateMode.onUpdateMode = c.onUpdateMode := by
  cases h6 : c.modeNative6502 <;> cases he : c.modeEmulation <;> cases hx : c.modeLongXy <;>
    simp [onUpdateMode, h6, he, hx, setHi]

/-- `OnUpdateMode` keeps X or clears its high byte. -/
theorem hi_onUpdateMode_x (c : Core) :
    hi c.onUpdateMode.x = hi c.x ∨ hi c.onUpdateMode.x = 0 := by
  cases h6 : c.modeNative6502 <;> cases he : c.modeEmulation <;> cases hx : c.modeLongXy <;>
    simp [onUpdateMode, h6, he, hx]

/-- `OnUpdateMode` keeps Y or clears its high byte. -/
theorem hi_onUpdateMode_y (c : Core) :
    hi c.onUpdateMode.y = hi c.y ∨ hi c.onUpdateMode.y = 0 := by
  cases h6 : c.modeNative6502 <;> cases he : c.modeEmulation <;> cases hx : c.modeLongXy <;>
    simp [onUpdateMode, h6, he, hx]

/-! ### The status register -/

/-- `SetNZ`. -/
def setNZ (c : Core) {n : Nat} (v : BitVec n) : Core :=
  { c with zero := v.setWidth 32, negative := (v >>> (n - 1)).setWidth 32 }

/-- The part of `GetStatusRegister` that packs the flags. -/
def packFlags (otherFlags zero interrupts carry negative : BitVec 32) : Byte :=
  let v := (otherFlags &&& 0x48).setWidth 8
  let v := if zero = 0 then v ||| 2 else v
  let v := if interrupts = 0 then v ||| 4 else v
  let v := if carry &&& 2 ≠ 0 then v ||| 1 else v
  if negative &&& 1 ≠ 0 then v ||| 0x80 else v

/-- The part of `GetStatusRegister` that adds the widths. -/
def packWidths (v : Byte) (emulation longA longXy : Bool) : Byte :=
  if emulation then v ||| 0x30
  else
    let v := if !longA then v ||| 0x20 else v
    if !longXy then v ||| 0x10 else v

/-- `GetStatusRegister`. -/
def getStatusRegister (c : Core) : Byte :=
  packWidths (packFlags c.otherFlags c.zero c.interrupts c.carry c.negative)
    c.modeEmulation c.modeLongA c.modeLongXy

/-- The part of `SetStatusRegister` that unpacks the flags. -/
def setFlags (c : Core) (v : Byte) : Core :=
  { c with
    otherFlags := v.setWidth 32
    zero := 2 - (v.setWidth 32 &&& 2)
    carry := (v.setWidth 32 &&& 1) <<< 1
    interrupts := (1 : BitVec 32) - ((v.setWidth 32 >>> 2) &&& 1)
    negative := v.setWidth 32 >>> 7 }

/-- `SetStatusRegister`. -/
def setStatusRegister (c : Core) (v : Byte) : Core :=
  let c := c.setFlags v
  let longA : Bool := v &&& 0x20 == 0
  let longXy : Bool := v &&& 0x10 == 0
  let changedMode := c.modeLongA != longA || c.modeLongXy != longXy
  let c := { c with modeLongA := longA, modeLongXy := longXy }
  if changedMode then c.onUpdateMode else c

/-- What `SetStatusRegister` writes, field by field. -/
theorem setStatusRegister_eq {c : Core} (hc : c.Coherent) (v : Byte) : c.setStatusRegister v =
    { c.setFlags v with
      modeLongA := !c.modeEmulation && v &&& 0x20 == 0
      modeLongXy := !c.modeEmulation && v &&& 0x10 == 0
      mode := (c.setStatusRegister v).mode
      currentInstructionSet := (c.setStatusRegister v).currentInstructionSet
      x := (c.setStatusRegister v).x
      y := (c.setStatusRegister v).y } := by
  have h6 := hc.native6502
  have he := hc.emulation
  simp only [setStatusRegister]
  split
  · rw [onUpdateMode_eq]
    cases h : c.modeEmulation <;> cases h' : c.modeNative6502 <;> simp_all [setFlags]
  · next h =>
    rw [Bool.not_eq_true, Bool.or_eq_false_iff, bne_eq_false_iff_eq, bne_eq_false_iff_eq] at h
    cases h' : c.modeEmulation
    · simp [setFlags, h']
    · obtain ⟨ha, hx⟩ := he h'
      have ha' : (v &&& 0x20 == 0) = false := h.1.symm.trans ha
      have hx' : (v &&& 0x10 == 0) = false := h.2.symm.trans hx
      simp only [setFlags, h', ha', hx', Bool.not_true, Bool.false_and]

/-- A call of `OnUpdateMode` after `SetStatusRegister` covers the case in which the latter
skips it. -/
theorem onUpdateMode_setStatusRegister (c : Core) (v : Byte) :
    (c.setStatusRegister v).onUpdateMode =
      ({ c.setFlags v with
        modeLongA := v &&& 0x20 == 0, modeLongXy := v &&& 0x10 == 0 }).onUpdateMode := by
  simp only [setStatusRegister]
  split
  · exact onUpdateMode_idem _
  · rfl

theorem coherent_setStatusRegister {c : Core} (hc : c.Coherent) (v : Byte) :
    (c.setStatusRegister v).Coherent := by
  simp only [setStatusRegister]
  split
  · exact coherent_onUpdateMode _
  · next h =>
    rw [Bool.not_eq_true, Bool.or_eq_false_iff, bne_eq_false_iff_eq, bne_eq_false_iff_eq] at h
    rw [← h.1, ← h.2]
    exact ⟨hc.native6502, hc.emulation, hc.mode, hc.instructionSet⟩

theorem modeEmulation_setStatusRegister {c : Core} (hc : c.Coherent) (v : Byte) :
    (c.setStatusRegister v).modeEmulation = c.modeEmulation := by
  rw [setStatusRegister_eq hc]
  rfl

/-- Packing the unpacked flags gives all bits of the byte but the widths. -/
theorem packFlags_unpacked : ∀ v : Byte,
    packFlags (v.setWidth 32) (2 - (v.setWidth 32 &&& 2))
      ((1 : BitVec 32) - ((v.setWidth 32 >>> 2) &&& 1)) ((v.setWidth 32 &&& 1) <<< 1)
      (v.setWidth 32 >>> 7) = v &&& 0xCF := by
  decide +kernel

theorem packWidths_unpacked : ∀ (v : Byte) (emulation : Bool),
    packWidths (v &&& 0xCF) emulation (!emulation && v &&& 0x20 == 0)
      (!emulation && v &&& 0x10 == 0) = if emulation then v ||| 0x30 else v := by
  decide +kernel

/-- **The status register reads back what was written to it**, with the width bits set while
the emulation bit is. -/
theorem getStatusRegister_setStatusRegister {c : Core} (hc : c.Coherent) (v : Byte) :
    (c.setStatusRegister v).getStatusRegister = if c.modeEmulation then v ||| 0x30 else v := by
  rw [setStatusRegister_eq hc, ← packWidths_unpacked, ← packFlags_unpacked]
  rfl

theorem packFlags_and (otherFlags zero interrupts carry negative : BitVec 32) :
    packFlags otherFlags zero interrupts carry negative &&& 0x30 = 0 := by
  have h48 : (otherFlags &&& 0x48).setWidth 8 = otherFlags.setWidth 8 &&& (0x48 : Byte) := by
    rw [BitVec.setWidth_and]
    rfl
  have key : ∀ (w : Byte) (z i c n : Bool),
      (let v := w &&& 0x48
       let v := if z then v ||| 2 else v
       let v := if i then v ||| 4 else v
       let v := if c then v ||| 1 else v
       if n then v ||| 0x80 else v) &&& 0x30 = 0 := by
    decide +kernel
  have := key (otherFlags.setWidth 8) (zero = 0) (interrupts = 0) (carry &&& 2 ≠ 0)
    (negative &&& 1 ≠ 0)
  simpa only [packFlags, h48, decide_eq_true_eq] using this

theorem packWidths_and : ∀ (v : Byte) (emulation longA longXy : Bool), v &&& 0x30 = 0 →
    (emulation = true → longA = false ∧ longXy = false) →
    (packWidths v emulation longA longXy &&& 0x20 == 0) = longA ∧
      (packWidths v emulation longA longXy &&& 0x10 == 0) = longXy := by
  decide +kernel

theorem packWidths_and_flags : ∀ (v : Byte) (emulation longA longXy : Bool), v &&& 0x30 = 0 →
    packWidths v emulation longA longXy &&& 0xCF = v := by
  decide +kernel

/-- Bits 4 and 5 of the status register are the widths. -/
theorem getStatusRegister_and {c : Core} (hc : c.Coherent) :
    (c.getStatusRegister &&& 0x20 == 0) = c.modeLongA ∧
      (c.getStatusRegister &&& 0x10 == 0) = c.modeLongXy :=
  packWidths_and _ _ _ _ (packFlags_and _ _ _ _ _) hc.emulation

/-- The flags packed in the status register are those it was packed from. -/
theorem getStatusRegister_flags (c : Core) :
    c.getStatusRegister &&& 0xCF =
      packFlags c.otherFlags c.zero c.interrupts c.carry c.negative :=
  packWidths_and_flags _ _ _ _ (packFlags_and _ _ _ _ _)

end Core

end RetroCpu
