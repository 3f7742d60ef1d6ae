import RetroCpu.Wdc65816.SaveState

/-!
# What a program can tell of the CPU

A program sees the registers, the banks, sixteen bits of `ip`, and of the flags what
`GetStatusRegister` packs.  The five fields that hold the flags have more bits than that, and so
has `ip`.

* `Core.Near`: two cores differ in nothing that a program sees.
* `Core.Alike`: besides, the opcode row in use is that of the modes.
* `Core.Near.onUpdateMode`: `OnUpdateMode` makes the one the other.

`T` relates the prices of an internal cycle.  With `mixed` one of the two may be the 6502 and the
other a 65816 in emulation mode.
-/

namespace RetroCpu

open WordBytes

namespace Core

def IsBank (base : CpuAddr) : Prop := ∃ bank : Byte, base = bank.setWidth 32 <<< 16

theorem isBank_zero : IsBank 0 := ⟨0, rfl⟩

theorem isBank_shift (bank : Byte) : IsBank (bank.setWidth 32 <<< 16) := ⟨bank, rfl⟩

/-- The bank of an address. -/
theorem isBank_and (addr : CpuAddr) : IsBank (addr &&& 0xFF0000) := by
  refine ⟨(addr >>> 16).setWidth 8, ?_⟩
  have key : ∀ v : CpuAddr, (v.setWidth 8).setWidth 32 = v &&& 0xFF := by
    intro v
    apply BitVec.eq_of_toNat_eq
    have hm : (0xFF : CpuAddr).toNat = 2 ^ 8 - 1 := by decide
    have hv := v.isLt
    rw [BitVec.toNat_and, hm, Nat.and_two_pow_sub_one_eq_mod, BitVec.toNat_setWidth,
      BitVec.toNat_setWidth]
    omega
  rw [key, BitVec.shiftLeft_and_distrib, BitVec.shiftLeft_ushiftRight, BitVec.and_assoc]
  rfl

theorem IsBank.eq {base : CpuAddr} (h : IsBank base) :
    base = ((base >>> 16).setWidth 8 : Byte).setWidth 32 <<< 16 := by
  obtain ⟨bank, rfl⟩ := h
  rw [bank_shift]

/-- A program sees the same in both. -/
structure Near (T : BitVec 32 → BitVec 32 → Prop) (mixed : Prop) (c c' : Core) : Prop where
  native : ¬mixed → c.modeNative6502 = c'.modeNative6502
  emulated : mixed → c.modeEmulation = true
  modeEmulation : c.modeEmulation = c'.modeEmulation
  modeLongA : c.modeLongA = c'.modeLongA
  modeLongXy : c.modeLongXy = c'.modeLongXy
  a : c.a = c'.a
  x : c.x = c'.x
  y : c.y = c'.y
  d : c.d = c'.d
  sp : c.sp = c'.sp
  codeSegmentBase : c.codeSegmentBase = c'.codeSegmentBase
  dataSegmentBase : c.dataSegmentBase = c'.dataSegmentBase
  codeBank : IsBank c.codeSegmentBase
  dataBank : IsBank c.dataSegmentBase
  pc : c.ip.setWidth 16 = c'.ip.setWidth 16
  zero : c.zero = 0 ↔ c'.zero = 0
  negative : c.negative &&& 1 = c'.negative &&& 1
  interrupts : c.interrupts = c'.interrupts
  carry : c.carry &&& 2 = c'.carry &&& 2
  otherFlags : c.otherFlags &&& 0x48 = c'.otherFlags &&& 0x48
  supportsDecimal : c.supportsDecimal = c'.supportsDecimal
  fastBlockMoves : c.fastBlockMoves = c'.fastBlockMoves
  numEmulatedInstructions : c.numEmulatedInstructions = c'.numEmulatedInstructions
  internalCycleTiming : T c.internalCycleTiming c'.internalCycleTiming

structure Alike (T : BitVec 32 → BitVec 32 → Prop) (mixed : Prop) (c c' : Core) : Prop extends
    Near T mixed c c' where
  left : c.Coherent
  right : c'.Coherent

def modes (c : Core) : Bool × Bool × Bool × Bool × Mode × InstructionSet :=
  (c.modeNative6502, c.modeEmulation, c.modeLongA, c.modeLongXy, c.mode, c.currentInstructionSet)

theorem Coherent.of_modes {c c' : Core} (h : c.Coherent) (hm : c'.modes = c.modes) :
    c'.Coherent := by
  simp only [modes, Prod.mk.injEq] at hm
  obtain ⟨h1, h2, h3, h4, h5, h6⟩ := hm
  refine ⟨?_, ?_, ?_, ?_⟩
  · rw [h1, h2]
    exact h.native6502
  · rw [h2, h3, h4]
    exact h.emulation
  · rw [h1, h2, h3, h4, h5]
    exact h.mode
  · rw [h5, h6]
    exact h.instructionSet

variable {T : BitVec 32 → BitVec 32 → Prop} {mixed : Prop} {c c' : Core}

/-- A change that leaves the modes alone. -/
theorem Alike.of_near {d d' : Core} (h : Alike T mixed c c') (hn : Near T mixed d d')
    (hm : d.modes = c.modes) (hm' : d'.modes = c'.modes) : Alike T mixed d d' where
  toNear := hn
  left := h.left.of_modes hm
  right := h.right.of_modes hm'

/-! ### The flags -/

/-- A change of `ip`, of the flags and of the instruction count. -/
theorem Alike.flags (h : Alike T mixed c c') {ip ip' zero zero' negative negative' interrupts
    interrupts' carry carry' other other' : BitVec 32} {num num' : BitVec 64}
    (hpc : ip.setWidth 16 = ip'.setWidth 16) (hz : zero = 0 ↔ zero' = 0)
    (hn : negative &&& 1 = negative' &&& 1) (hi : interrupts = interrupts')
    (hc : carry &&& 2 = carry' &&& 2) (ho : other &&& 0x48 = other' &&& 0x48)
    (hnum : num = num') :
    Alike T mixed
      { c with
        ip := ip, zero := zero, negative := negative, interrupts := interrupts, carry := carry
        otherFlags := other, numEmulatedInstructions := num }
      { c' with
        ip := ip', zero := zero', negative := negative', interrupts := interrupts'
        carry := carry', otherFlags := other', numEmulatedInstructions := num' } :=
  h.of_near
    { h.toNear with
      pc := hpc, zero := hz, negative := hn, interrupts := hi, carry := hc, otherFlags := ho
      numEmulatedInstructions := hnum }
    rfl rfl

/-- Some bits of equal bits. -/
theorem and_and_of_eq {v w k : BitVec 32} (m : BitVec 32) (h : v &&& k = w &&& k) :
    v &&& m &&& k = w &&& m &&& k := by
  rw [BitVec.and_assoc, BitVec.and_comm m k, ← BitVec.and_assoc, h, BitVec.and_assoc,
    BitVec.and_comm k m, ← BitVec.and_assoc]

theorem or_and_of_eq {v w k : BitVec 32} (m : BitVec 32) (h : v &&& k = w &&& k) :
    (v ||| m) &&& k = (w ||| m) &&& k := by
  rw [BitVec.and_or_distrib_right, h, ← BitVec.and_or_distrib_right]

/-- A mask within the one that is known. -/
theorem and_of_le {v w k m : BitVec 32} (h : v &&& k = w &&& k) (hm : k &&& m = m) :
    v &&& m = w &&& m := by
  rw [← hm, ← BitVec.and_assoc, h, BitVec.and_assoc]

/-- The carry as it is added. -/
theorem carry_shift (v : BitVec 32) : (v >>> 1) &&& (1 : BitVec 32) = (v &&& 2) >>> 1 := by
  rw [BitVec.ushiftRight_and_distrib]
  rfl

/-- The carry that `ANC` takes from the sign. -/
theorem shift_and_of_eq {v w : BitVec 32} (h : v &&& (1 : BitVec 32) = w &&& (1 : BitVec 32)) :
    v <<< 1 &&& (2 : BitVec 32) = w <<< 1 &&& (2 : BitVec 32) := by
  have key : ∀ u : BitVec 32,
      u <<< 1 &&& (2 : BitVec 32) = (u &&& (1 : BitVec 32)) <<< 1 := fun u => by
    rw [BitVec.shiftLeft_and_distrib]
    rfl
  rw [key, key, h]

theorem Near.carryIn (h : Near T mixed c c') :
    (c.carry >>> 1) &&& (1 : BitVec 32) = (c'.carry >>> 1) &&& 1 := by
  have h2 := carry_shift c'.carry
  rw [← h.carry, ← carry_shift c.carry] at h2
  exact h2.symm

/-- **The status register is the same.** -/
theorem Near.getStatusRegister (h : Near T mixed c c') :
    c.getStatusRegister = c'.getStatusRegister := by
  have hz : (c.zero = 0) = (c'.zero = 0) := propext h.zero
  simp only [Core.getStatusRegister, packFlags, h.otherFlags, hz, h.interrupts, h.carry,
    h.negative, h.modeEmulation, h.modeLongA, h.modeLongXy]

/-! ### Registers -/

theorem Near.reg (h : Near T mixed c c') (r : Reg) : c.reg r = c'.reg r := by
  cases r with
  | a => exact h.a
  | x => exact h.x
  | y => exact h.y
  | d => exact h.d
  | sp => exact h.sp

theorem Near.get (h : Near T mixed c c') (r : Reg) (s : Size) : c.get r s = c'.get r s := by
  cases s with
  | u8 => exact congrArg lo (h.reg r)
  | u16 => exact h.reg r

theorem Near.offset (h : Near T mixed c c') (r : Option Reg) : c.offset r = c'.offset r := by
  cases r with
  | none => rfl
  | some r => exact congrArg (BitVec.setWidth 32) (h.reg r)

theorem modes_setReg (c : Core) (r : Reg) (v : Word) : (c.setReg r v).modes = c.modes := by
  cases r <;> rfl

theorem Near.setReg (h : Near T mixed c c') (r : Reg) (v : Word) :
    Near T mixed (c.setReg r v) (c'.setReg r v) := by
  cases r with
  | a => exact { h with a := rfl }
  | x => exact { h with x := rfl }
  | y => exact { h with y := rfl }
  | d => exact { h with d := rfl }
  | sp => exact { h with sp := rfl }

theorem Alike.set (h : Alike T mixed c c') (r : Reg) {s : Size} (v : Val s) :
    Alike T mixed (c.set r v) (c'.set r v) := by
  have key : ∀ w : Word, Alike T mixed (c.setReg r w) (c'.setReg r w) := fun w =>
    h.of_near (h.toNear.setReg r w) (modes_setReg c r w) (modes_setReg c' r w)
  cases s with
  | u8 =>
    have hr := h.toNear.reg r
    show Alike T mixed (c.setReg r (setLo (c.reg r) v)) (c'.setReg r (setLo (c'.reg r) v))
    rw [hr]
    exact key _
  | u16 => exact key v

/-- A change of the accumulator and of the index registers. -/
theorem Alike.registers (h : Alike T mixed c c') {a a' x x' y y' : Word} (ha : a = a')
    (hx : x = x') (hy : y = y') :
    Alike T mixed { c with a := a, x := x, y := y } { c' with a := a', x := x', y := y' } :=
  h.of_near { h.toNear with a := ha, x := hx, y := hy } rfl rfl

theorem Alike.setSp (h : Alike T mixed c c') {sp sp' : Word} (hsp : sp = sp') :
    Alike T mixed { c with sp := sp } { c' with sp := sp' } :=
  h.of_near { h.toNear with sp := hsp } rfl rfl

theorem Alike.setCodeSegmentBase (h : Alike T mixed c c') {bank : CpuAddr} (hb : IsBank bank) :
    Alike T mixed { c with codeSegmentBase := bank } { c' with codeSegmentBase := bank } :=
  h.of_near { h.toNear with codeSegmentBase := rfl, codeBank := hb } rfl rfl

theorem Alike.setDataSegmentBase (h : Alike T mixed c c') {bank : CpuAddr} (hb : IsBank bank) :
    Alike T mixed { c with dataSegmentBase := bank } { c' with dataSegmentBase := bank } :=
  h.of_near { h.toNear with dataSegmentBase := rfl, dataBank := hb } rfl rfl

/-! ### Modes -/

theorem onUpdateMode_x (c : Core) : c.onUpdateMode.x =
    if !c.modeNative6502 && !c.modeEmulation && c.modeLongXy then c.x else setHi c.x 0 := by
  cases h6 : c.modeNative6502 <;> cases he : c.modeEmulation <;> cases hx : c.modeLongXy <;>
    simp [onUpdateMode, h6, he, hx]

theorem onUpdateMode_y (c : Core) : c.onUpdateMode.y =
    if !c.modeNative6502 && !c.modeEmulation && c.modeLongXy then c.y else setHi c.y 0 := by
  cases h6 : c.modeNative6502 <;> cases he : c.modeEmulation <;> cases hx : c.modeLongXy <;>
    simp [onUpdateMode, h6, he, hx]

/-- Where one is the 6502, both emulate it. -/
theorem Near.nand (h : Near T mixed c c') : (!c.modeNative6502 && !c.modeEmulation) =
    (!c'.modeNative6502 && !c'.modeEmulation) := by
  by_cases hm : mixed
  · have he := h.emulated hm
    have he' := h.modeEmulation.symm.trans he
    rw [he, he', Bool.not_true, Bool.and_false, Bool.and_false]
  · rw [h.native hm, h.modeEmulation]

/-- **`OnUpdateMode` keeps what a program sees alike.** -/
theorem Near.onUpdateMode (h : Near T mixed c c') :
    Alike T mixed c.onUpdateMode c'.onUpdateMode := by
  have hnand := h.nand
  have hemu : (c.modeNative6502 || c.modeEmulation) = (c'.modeNative6502 || c'.modeEmulation) := by
    have := congrArg (! ·) hnand
    simpa only [Bool.not_and, Bool.not_not] using this
  refine ⟨⟨?_, ?_, ?_, ?_, ?_, ?_, ?_, ?_, ?_, ?_, ?_, ?_, ?_, ?_, ?_, ?_, ?_, ?_, ?_, ?_, ?_, ?_,
    ?_, ?_⟩,
    c.coherent_onUpdateMode, c'.coherent_onUpdateMode⟩
  · rw [onUpdateMode_eq c, onUpdateMode_eq c']
    exact h.native
  · rw [onUpdateMode_eq c]
    intro hm
    show (c.modeNative6502 || c.modeEmulation) = true
    rw [h.emulated hm, Bool.or_true]
  · rw [onUpdateMode_eq c, onUpdateMode_eq c']
    exact hemu
  · rw [onUpdateMode_eq c, onUpdateMode_eq c']
    show (!c.modeNative6502 && !c.modeEmulation && c.modeLongA) = _
    rw [hnand, h.modeLongA]
  · rw [onUpdateMode_eq c, onUpdateMode_eq c']
    show (!c.modeNative6502 && !c.modeEmulation && c.modeLongXy) = _
    rw [hnand, h.modeLongXy]
  · rw [onUpdateMode_eq c, onUpdateMode_eq c']
    exact h.a
  · rw [onUpdateMode_x, onUpdateMode_x, hnand, h.modeLongXy, h.x]
  · rw [onUpdateMode_y, onUpdateMode_y, hnand, h.modeLongXy, h.y]
  all_goals first | rw [onUpdateMode_eq c, onUpdateMode_eq c'] | rw [onUpdateMode_eq c]
  · exact h.d
  · exact h.sp
  · exact h.codeSegmentBase
  · exact h.dataSegmentBase
  · exact h.codeBank
  · exact h.dataBank
  · exact h.pc
  · exact h.zero
  · exact h.negative
  · exact h.interrupts
  · exact h.carry
  · exact h.otherFlags
  · exact h.supportsDecimal
  · exact h.fastBlockMoves
  · exact h.numEmulatedInstructions
  · exact h.internalCycleTiming

/-! ### Instructions -/

theorem Alike.addIp (h : Alike T mixed c c') (n : CpuAddr) :
    Alike T mixed (c.addIp n) (c'.addIp n) := by
  refine h.flags ?_ h.zero h.negative h.interrupts h.carry h.otherFlags h.numEmulatedInstructions
  rw [BitVec.setWidth_add _ _ (by decide), BitVec.setWidth_add _ _ (by decide), h.pc]

theorem Alike.setIp (h : Alike T mixed c c') {ip ip' : CpuAddr}
    (hpc : ip.setWidth 16 = ip'.setWidth 16) :
    Alike T mixed { c with ip := ip } { c' with ip := ip' } :=
  h.flags hpc h.zero h.negative h.interrupts h.carry h.otherFlags h.numEmulatedInstructions

theorem Alike.setNZ (h : Alike T mixed c c') {n : ℕ} (v : BitVec n) :
    Alike T mixed (c.setNZ v) (c'.setNZ v) :=
  h.flags h.pc Iff.rfl rfl h.interrupts h.carry h.otherFlags h.numEmulatedInstructions

theorem Alike.setZero (h : Alike T mixed c c') (v : BitVec 32) :
    Alike T mixed { c with zero := v } { c' with zero := v } :=
  h.flags h.pc Iff.rfl h.negative h.interrupts h.carry h.otherFlags h.numEmulatedInstructions

theorem Alike.setCarry (h : Alike T mixed c c') {v w : BitVec 32} (hv : v &&& 2 = w &&& 2) :
    Alike T mixed { c with carry := v } { c' with carry := w } :=
  h.flags h.pc h.zero h.negative h.interrupts hv h.otherFlags h.numEmulatedInstructions

theorem Alike.setInterrupts (h : Alike T mixed c c') (v : BitVec 32) :
    Alike T mixed { c with interrupts := v } { c' with interrupts := v } :=
  h.flags h.pc h.zero h.negative rfl h.carry h.otherFlags h.numEmulatedInstructions

theorem Alike.setOther (h : Alike T mixed c c') {v w : BitVec 32}
    (hv : v &&& 0x48 = w &&& 0x48) :
    Alike T mixed { c with otherFlags := v } { c' with otherFlags := w } :=
  h.flags h.pc h.zero h.negative h.interrupts h.carry hv h.numEmulatedInstructions

theorem Alike.decSp (h : Alike T mixed c c') : Alike T mixed c.decSp c'.decSp :=
  h.setSp (by rw [h.sp, h.modeEmulation])

theorem Alike.incSp (h : Alike T mixed c c') : Alike T mixed c.incSp c'.incSp :=
  h.setSp (by rw [h.sp, h.modeEmulation])

theorem Alike.setProgramBank (h : Alike T mixed c c') (bank : Byte) :
    Alike T mixed (c.setProgramBank bank) (c'.setProgramBank bank) :=
  h.setCodeSegmentBase (isBank_shift bank)

/-- The flags of a sum or a difference, and the result in A. -/
theorem Alike.accumulate (h : Alike T mixed c c') {s : Size} (v : Val s)
    {zero cn carry other other' : BitVec 32} (ho : other &&& 0x48 = other' &&& 0x48) :
    Alike T mixed
      (({ c with zero := zero, carry := carry, negative := cn, otherFlags := other }).set .a v)
      (({ c' with zero := zero, carry := carry, negative := cn, otherFlags := other' }).set .a v) :=
  (h.flags h.pc Iff.rfl rfl h.interrupts rfl ho h.numEmulatedInstructions).set .a v

theorem overflow_and {v w : BitVec 32} (h : v &&& 0x48 = w &&& 0x48) (on : Bool) :
    ((v &&& 0xFFBF) ||| if on then 0x40 else 0) &&& 0x48 =
      ((w &&& 0xFFBF) ||| if on then 0x40 else 0) &&& 0x48 :=
  or_and_of_eq _ (and_and_of_eq _ h)

theorem Alike.addDec (h : Alike T mixed c c') {s : Size} (v : Val s) :
    Alike T mixed (c.addDec v) (c'.addDec v) := by
  unfold Core.addDec
  rw [h.toNear.carryIn, h.toNear.get]
  exact h.accumulate _ h.otherFlags

theorem Alike.subDec (h : Alike T mixed c c') {s : Size} (v : Val s) :
    Alike T mixed (c.subDec v) (c'.subDec v) := by
  unfold Core.subDec
  rw [h.toNear.carryIn, h.toNear.get]
  exact h.accumulate _ h.otherFlags

theorem Alike.addBin (h : Alike T mixed c c') {s : Size} (v : Val s) :
    Alike T mixed (c.addBin v) (c'.addBin v) := by
  unfold Core.addBin
  rw [h.toNear.carryIn, h.toNear.get]
  exact h.accumulate _ (overflow_and h.otherFlags _)

theorem Alike.subBin (h : Alike T mixed c c') {s : Size} (v : Val s) :
    Alike T mixed (c.subBin v) (c'.subBin v) := by
  unfold Core.subBin
  rw [h.toNear.carryIn, h.toNear.get]
  exact h.accumulate _ (overflow_and h.otherFlags _)

/-- The decimal flag is the same. -/
theorem Near.decimal (h : Near T mixed c c') : (c.otherFlags &&& 0x8 != 0) =
    (c'.otherFlags &&& 0x8 != 0) := by
  rw [and_of_le h.otherFlags (by decide)]

theorem Alike.adc (h : Alike T mixed c c') {s : Size} (v : Val s) : Alike T mixed
    (if c.supportsDecimal && c.otherFlags &&& 0x8 != 0 then c.addDec v else c.addBin v)
    (if c'.supportsDecimal && c'.otherFlags &&& 0x8 != 0 then c'.addDec v else c'.addBin v) := by
  rw [h.supportsDecimal, h.decimal]
  split
  · exact h.addDec v
  · exact h.addBin v

theorem Alike.sbc (h : Alike T mixed c c') {s : Size} (v : Val s) : Alike T mixed
    (if c.supportsDecimal && c.otherFlags &&& 0x8 != 0 then c.subDec v else c.subBin v)
    (if c'.supportsDecimal && c'.otherFlags &&& 0x8 != 0 then c'.subDec v else c'.subBin v) := by
  rw [h.supportsDecimal, h.decimal]
  split
  · exact h.subDec v
  · exact h.subBin v

theorem Alike.doCmp (h : Alike T mixed c c') {s : Size} (reg data : Val s) :
    Alike T mixed (c.doCmp reg data) (c'.doCmp reg data) :=
  (h.setNZ _).setCarry rfl

theorem Alike.lsrSetFlags (h : Alike T mixed c c') {s : Size} (v : Val s) :
    Alike T mixed (c.lsrSetFlags v) (c'.lsrSetFlags v) :=
  h.flags h.pc Iff.rfl rfl h.interrupts rfl h.otherFlags h.numEmulatedInstructions

/-- A branch goes the same way. -/
theorem Near.doBranch (h : Near T mixed c c') (impl : BranchImpl) :
    impl.doBranch c = impl.doBranch c' := by
  have hz : (c.zero == 0) = (c'.zero == 0) := by
    rw [Bool.eq_iff_iff, beq_iff_eq, beq_iff_eq]
    exact h.zero
  have hv := and_of_le (m := 0x40) h.otherFlags (by decide)
  cases impl with
  | bcc => simp only [BranchImpl.doBranch, h.carry]
  | bcs => simp only [BranchImpl.doBranch, h.carry]
  | beq => exact hz
  | bmi => simp only [BranchImpl.doBranch, h.negative]
  | bne => exact congrArg (! ·) hz
  | bpl => simp only [BranchImpl.doBranch, h.negative]
  | bra => rfl
  | bvc => simp only [BranchImpl.doBranch, hv]
  | bvs => simp only [BranchImpl.doBranch, hv]

/-! ### Instructions that change the modes -/

theorem or_eq_zero_iff_of {v w : BitVec 32} (h : v = 0 ↔ w = 0) (m : BitVec 32) :
    v ||| m = 0 ↔ w ||| m = 0 := by
  have key : ∀ u : BitVec 32, u ||| m = 0 ↔ u = 0 ∧ m = 0 := fun u => BitVec.or_eq_zero_iff
  rw [key, key, h]

theorem ite_and_of_eq {v w k : BitVec 32} (p : Prop) [Decidable p] (u : BitVec 32)
    (h : v &&& k = w &&& k) : (if p then u else v) &&& k = (if p then u else w) &&& k := by
  split
  · rfl
  · exact h

/-- A change of the widths where one of them differs. -/
theorem Alike.widths (h : Alike T mixed c c') (p q : Prop) [Decidable p] [Decidable q] (on : Bool)
    {w w' : Prop} [Decidable w] [Decidable w'] (hw : w ↔ w') :
    Alike T mixed
      (if w then
        let c := if p then { c with modeLongXy := on } else c
        let c := if q then { c with modeLongA := on } else c
        c.onUpdateMode
      else c)
      (if w' then
        let c := if p then { c' with modeLongXy := on } else c'
        let c := if q then { c with modeLongA := on } else c
        c.onUpdateMode
      else c') := by
  have hn := h.toNear
  by_cases hp : w
  · rw [if_pos hp, if_pos (hw.mp hp)]
    dsimp only
    split <;> split
    · exact Near.onUpdateMode { hn with modeLongA := rfl, modeLongXy := rfl }
    · exact Near.onUpdateMode { hn with modeLongA := rfl }
    · exact Near.onUpdateMode { hn with modeLongXy := rfl }
    · exact Near.onUpdateMode hn
  · rw [if_neg hp, if_neg fun hw' => hp (hw.mpr hw')]
    exact h

theorem Alike.rep (h : Alike T mixed c c') (flags : Byte) :
    Alike T mixed (c.rep flags) (c'.rep flags) := by
  have hf := h.flags h.pc (or_eq_zero_iff_of h.zero ((flags &&& 2).setWidth 32))
    (ite_and_of_eq (flags &&& 0x80 ≠ 0) 0 h.negative)
    (congrArg (fun v => if flags &&& 4 ≠ 0 then 1 else v) h.interrupts)
    (ite_and_of_eq (flags &&& 1 ≠ 0) 0 h.carry)
    (and_and_of_eq (~~~(flags.setWidth 32)) h.otherFlags) h.numEmulatedInstructions
  have hw : (flags &&& 0x10 ≠ 0 ∧ !c.modeLongXy) ∨ (flags &&& 0x20 ≠ 0 ∧ !c.modeLongA) ↔
      (flags &&& 0x10 ≠ 0 ∧ !c'.modeLongXy) ∨ (flags &&& 0x20 ≠ 0 ∧ !c'.modeLongA) := by
    rw [h.modeLongXy, h.modeLongA]
  exact hf.widths (flags &&& 0x10 ≠ 0) (flags &&& 0x20 ≠ 0) true hw

theorem Alike.sep (h : Alike T mixed c c') (flags : Byte) :
    Alike T mixed (c.sep flags) (c'.sep flags) := by
  have hz : (if flags &&& 2 ≠ 0 then 0 else c.zero) = 0 ↔
      (if flags &&& 2 ≠ 0 then 0 else c'.zero) = 0 := by
    split
    · exact Iff.rfl
    · exact h.zero
  have hf := h.flags h.pc hz (ite_and_of_eq (flags &&& 0x80 ≠ 0) 1 h.negative)
    (congrArg (fun v => if flags &&& 4 ≠ 0 then 0 else v) h.interrupts)
    (ite_and_of_eq (flags &&& 1 ≠ 0) 2 h.carry)
    (or_and_of_eq (flags.setWidth 32) h.otherFlags) h.numEmulatedInstructions
  have hw : (flags &&& 0x10 ≠ 0 ∧ c.modeLongXy) ∨ (flags &&& 0x20 ≠ 0 ∧ c.modeLongA) ↔
      (flags &&& 0x10 ≠ 0 ∧ c'.modeLongXy) ∨ (flags &&& 0x20 ≠ 0 ∧ c'.modeLongA) := by
    rw [h.modeLongXy, h.modeLongA]
  exact hf.widths (flags &&& 0x10 ≠ 0) (flags &&& 0x20 ≠ 0) false hw

/-- The flags that `SetStatusRegister` unpacks. -/
theorem Near.setFlags (h : Near T mixed c c') (v : Byte) :
    Near T mixed (c.setFlags v) (c'.setFlags v) :=
  { h with
    zero := Iff.rfl, negative := rfl, interrupts := rfl, carry := rfl, otherFlags := rfl }

theorem Alike.setStatusRegister (h : Alike T mixed c c') (v : Byte) :
    Alike T mixed (c.setStatusRegister v) (c'.setStatusRegister v) := by
  have hn := h.toNear.setFlags v
  have hw : (c.modeLongA != (v &&& 0x20 == 0) || c.modeLongXy != (v &&& 0x10 == 0)) =
      (c'.modeLongA != (v &&& 0x20 == 0) || c'.modeLongXy != (v &&& 0x10 == 0)) := by
    rw [h.modeLongXy, h.modeLongA]
  by_cases hp : (c.modeLongA != (v &&& 0x20 == 0) || c.modeLongXy != (v &&& 0x10 == 0)) = true
  · have h1 : c.setStatusRegister v = _ := if_pos hp
    have h2 : c'.setStatusRegister v = _ := if_pos (hw.symm.trans hp)
    rw [h1, h2]
    exact Near.onUpdateMode { hn with modeLongA := rfl, modeLongXy := rfl }
  · have h1 : c.setStatusRegister v = _ := if_neg hp
    have h2 : c'.setStatusRegister v = _ := if_neg fun hp' => hp (hw.trans hp')
    refine ⟨?_, coherent_setStatusRegister h.left v, coherent_setStatusRegister h.right v⟩
    rw [h1, h2]
    exact { hn with modeLongA := rfl, modeLongXy := rfl }

/-- `XCE`, which the 6502 has not got. -/
theorem Alike.xce (h : Alike T mixed c c') (hm : ¬mixed) : Alike T mixed c.xce c'.xce := by
  have hw : (c.carry &&& 2 != 0) = c.modeEmulation ↔ (c'.carry &&& 2 != 0) = c'.modeEmulation := by
    rw [h.carry, h.modeEmulation]
  by_cases hp : (c.carry &&& 2 != 0) = c.modeEmulation
  · have h1 : c.xce = _ := if_pos hp
    have h2 : c'.xce = _ := if_pos (hw.mp hp)
    rw [h1, h2]
    exact h
  · have h1 : c.xce = _ := if_neg hp
    have h2 : c'.xce = _ := if_neg fun hp' => hp (hw.mpr hp')
    rw [h1, h2]
    exact Near.onUpdateMode
      { h.toNear with
        emulated := fun h => absurd h hm, modeEmulation := congrArg (! ·) h.modeEmulation }

/-! ### Interrupts and resets -/

/-- The registers at the entry of a handler.  The 6502 keeps the decimal flag, and the 65816
clears it. -/
theorem Alike.handler (h : Alike T mixed c c') (ip : CpuAddr)
    (hd : ¬mixed ∨ c.otherFlags &&& 8 = 0) :
    Alike T mixed
      { c with
        ip := ip, codeSegmentBase := 0, interrupts := 0
        otherFlags := if c.modeNative6502 then c.otherFlags else c.otherFlags &&& 0xFFF7 }
      { c' with
        ip := ip, codeSegmentBase := 0, interrupts := 0
        otherFlags := if c'.modeNative6502 then c'.otherFlags else c'.otherFlags &&& 0xFFF7 } := by
  have ho : (if c.modeNative6502 then c.otherFlags else c.otherFlags &&& 0xFFF7) &&& 0x48 =
      (if c'.modeNative6502 then c'.otherFlags else c'.otherFlags &&& 0xFFF7) &&& 0x48 := by
    have hand := and_and_of_eq 0xFFF7 h.otherFlags
    rcases hd with hm | hd
    · rw [h.native hm]
      split
      · exact h.otherFlags
      · exact hand
    · -- where the flag is clear, clearing it changes nothing
      have key : ∀ v : BitVec 32, v &&& 8 = 0 → v &&& 0xFFF7 &&& 0x48 = v &&& 0x48 := by
        intro v hv
        calc v &&& 0xFFF7 &&& 0x48 = v &&& (0xFFF7 &&& 0x48) ||| v &&& 8 := by
              rw [hv, BitVec.and_assoc]
              exact BitVec.or_zero.symm
          _ = v &&& 0x48 := by
              rw [← BitVec.and_or_distrib_left]
              rfl
      have hd' : c'.otherFlags &&& 8 = 0 := by
        rw [← and_of_le h.otherFlags (by decide)]
        exact hd
      have h1 := key _ hd
      have h2 := key _ hd'
      split <;> split
      · exact h.otherFlags
      · rw [h2]
        exact h.otherFlags
      · rw [h1]
        exact h.otherFlags
      · exact hand
  exact h.of_near
    { h.toNear with
      pc := rfl, codeSegmentBase := rfl, codeBank := isBank_zero, interrupts := rfl
      otherFlags := ho }
    rfl rfl

theorem Near.powerOn (h : Near T mixed c c') : Near T mixed c.powerOn c'.powerOn :=
  { h with a := rfl, x := rfl, y := rfl, d := rfl, sp := rfl, zero := Iff.rfl }

theorem Near.resetSp (h : Near T mixed c c') : Near T mixed c.resetSp c'.resetSp :=
  { h with
    dataSegmentBase := rfl, codeSegmentBase := rfl, codeBank := isBank_zero
    dataBank := isBank_zero, sp := congrArg (fun sp => setLo sp (lo sp - 3)) h.sp }

theorem Near.resetMode (h : Near T mixed c c') (ip : Word) :
    Alike T mixed (c.resetMode ip) (c'.resetMode ip) :=
  Near.onUpdateMode
    { h with
      emulated := fun _ => rfl
      pc := rfl, dataSegmentBase := rfl, codeSegmentBase := rfl, interrupts := rfl
      codeBank := isBank_zero, dataBank := isBank_zero
      modeEmulation := rfl, modeLongA := rfl, modeLongXy := rfl }

end Core

end RetroCpu
