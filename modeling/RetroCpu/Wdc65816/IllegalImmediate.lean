import RetroCpu.Wdc65816.Stack
import RetroCpu.Wdc65816.StatusRegister

/-!
# `ANC` and `ALR`

Two opcodes of the 6502 that its makers left undefined are an `AND` with an immediate operand and
something after it: `ANC` copies N into C, and `ALR` shifts A to the right.  The code repeats what
`AND` and `LSR` do instead of calling them, and it reads the operand where the opcode is.

`LogicResult` is what a logic instruction of two bytes leaves in the registers.  The two opcodes
and what they stand for both leave one, so they differ where the byte taken from A does.
-/

namespace RetroCpu

open WordBytes Machine StateFn

structure SameRegisters (c c' : Core) : Prop where
  a : c'.a = c.a
  x : c'.x = c.x
  y : c'.y = c.y
  sp : c'.sp = c.sp
  status : c'.getStatusRegister = c.getStatusRegister
  ip : c'.ip = c.ip

/-- From `c`, a logic instruction of two bytes has come to `c'` with the byte `v` in A. -/
structure LogicResult (c c' : Core) (v : Byte) (carry : Bool) : Prop where
  a : c'.a = setLo c.a v
  x : c'.x = c.x
  y : c'.y = c.y
  sp : c'.sp = c.sp
  ip : c'.ip = c.ip + 2
  isCarry : c'.isCarry = carry
  isZero : c'.isZero = (v == 0)
  isNegative : c'.isNegative = v.msb
  interrupts : c'.interrupts = c.interrupts
  otherFlags : c'.otherFlags = c.otherFlags
  modeEmulation : c'.modeEmulation = c.modeEmulation
  modeLongA : c'.modeLongA = c.modeLongA
  modeLongXy : c'.modeLongXy = c.modeLongXy

namespace LogicResult

variable {c c' c'' : Core} {v v' : Byte} {carry carry' : Bool}

/-- The status register is what the result says. -/
theorem getStatusRegister_eq (h : LogicResult c c' v carry) (h' : LogicResult c c'' v carry) :
    c'.getStatusRegister = c''.getStatusRegister := by
  apply BitVec.eq_of_getLsbD_eq
  intro i hi
  rw [Core.getLsbD_getStatusRegister _ hi, Core.getLsbD_getStatusRegister _ hi]
  unfold Core.flagAt
  rw [h.isCarry, h'.isCarry, h.isZero, h'.isZero, h.isNegative, h'.isNegative, h.interrupts,
    h'.interrupts, h.otherFlags, h'.otherFlags, h.modeEmulation, h'.modeEmulation, h.modeLongA,
    h'.modeLongA, h.modeLongXy, h'.modeLongXy]

/-- Two results are the same registers if A and the carry are the same. -/
theorem sameRegisters_iff (h : LogicResult c c' v carry) (h' : LogicResult c c'' v' carry') :
    SameRegisters c' c'' ↔ v' = v ∧ carry' = carry := by
  constructor
  · intro hsame
    refine ⟨?_, ?_⟩
    · have ha := congrArg lo hsame.a
      rw [h.a, h'.a, lo_setLo, lo_setLo] at ha
      exact ha
    · have hbit := congrArg (fun p : Byte => p.getLsbD 0) hsame.status
      simp only [Core.getLsbD_getStatusRegister _ (by decide : 0 < 8)] at hbit
      exact h'.isCarry.symm.trans (hbit.trans h.isCarry)
  · rintro ⟨rfl, rfl⟩
    exact
      { a := h'.a.trans h.a.symm
        x := h'.x.trans h.x.symm
        y := h'.y.trans h.y.symm
        sp := h'.sp.trans h.sp.symm
        status := h'.getStatusRegister_eq h
        ip := h'.ip.trans h.ip.symm }

end LogicResult

/-- What an instruction writes that leaves a logic result. -/
theorem LogicResult.of_eq {c c' : Core} {v : Byte} {zero negative carry : BitVec 32}
    {count : BitVec 64}
    (h : c' = { c with
      a := setLo c.a v, ip := c.ip + 2, zero := zero, negative := negative, carry := carry
      numEmulatedInstructions := count })
    (hz : zero = v.setWidth 32) (hn : (negative &&& 1 != 0) = v.msb) :
    LogicResult c c' v (carry &&& 2 != 0) := by
  subst h
  have hzero : (v.setWidth 32 == (0 : BitVec 32)) = true ↔ v = 0 := Core.toU32_beq_zero (s := .u8) v
  refine ⟨rfl, rfl, rfl, rfl, rfl, rfl, ?_, hn, rfl, rfl, rfl, rfl, rfl⟩
  show (zero == 0) = (v == 0)
  rw [hz, Bool.eq_iff_iff, hzero, beq_iff_eq]

/-! ### The flags of a byte -/

/-- The lowest bit of a byte, one place up. -/
theorem and_two_shift (v : Byte) :
    ((v.setWidth 32 <<< 1 : BitVec 32) &&& 2 != 0) = v.getLsbD 0 := by
  rw [show (2 : BitVec 32) = BitVec.twoPow 32 1 from rfl, Core.and_twoPow_ne_zero,
    BitVec.getLsbD_shiftLeft, BitVec.getLsbD_setWidth]
  rfl

theorem and_one_sign (v : Byte) :
    ((v >>> 7).setWidth 32 &&& (1 : BitVec 32) != 0) = v.msb := by
  rw [show (1 : BitVec 32) = BitVec.twoPow 32 0 from rfl, Core.and_twoPow_ne_zero,
    BitVec.getLsbD_setWidth, BitVec.getLsbD_ushiftRight, BitVec.msb_eq_getLsbD_last]
  rfl

/-- What `LSR` writes for the byte `v` in A. -/
theorem LogicResult.of_shift {c c' : Core} {v : Byte} {count : BitVec 64}
    (h : c' = { c with
      a := setLo (setLo c.a v) (v >>> 1), ip := c.ip + 2, zero := (v >>> 1).setWidth 32
      negative := 0, carry := (v &&& 1).setWidth 32 <<< 1
      numEmulatedInstructions := count }) :
    LogicResult c c' (v >>> 1) (v.getLsbD 0) := by
  have hsign : ((0 : BitVec 32) &&& 1 != 0) = (v >>> 1).msb := by
    rw [BitVec.msb_eq_getLsbD_last, BitVec.getLsbD_ushiftRight,
      BitVec.getLsbD_of_ge v _ (by decide)]
    rfl
  have ha : setLo (setLo c.a v) (v >>> 1) = setLo c.a (v >>> 1) :=
    WordBytes.ext (by simp only [hi_setLo]) (by simp only [lo_setLo])
  rw [ha] at h
  have hresult := LogicResult.of_eq h rfl hsign
  rw [and_two_shift, BitVec.getLsbD_and, show (1 : Byte).getLsbD 0 = true from rfl,
    Bool.and_true] at hresult
  exact hresult

/-- A byte is its lowest bit and the others. -/
theorem eq_of_shift {v v' : Byte} (h : v' >>> 1 = v >>> 1) (h0 : v'.getLsbD 0 = v.getLsbD 0) :
    v' = v := by
  apply BitVec.eq_of_getLsbD_eq
  intro i hi
  cases i with
  | zero => exact h0
  | succ i =>
    have hbit := congrArg (fun w : Byte => w.getLsbD i) h
    simp only [BitVec.getLsbD_ushiftRight, Nat.add_comm 1 i] at hbit
    exact hbit

/-! ### What the opcodes stand for -/

variable {β : Type} [Bus β] {R : CpuAddr → Prop} {ram : PlainRam β R}

def andThenCarry : Exec β Unit := do
  (Op.opAnd (addrImm .u8 .u8 .u8)).exec
  update fun c => { c with carry := if c.isNegative then 2 else 0 }

/-- `AND` with an immediate operand, then `LSR` on A, as one instruction of two bytes. -/
def andThenLsr : Exec β Unit := do
  (Op.opAnd (addrImm .u8 .u8 .u8)).exec
  let ip ← getCore (·.ip)
  (Op.lsr (addrA .u8 .u8)).exec
  update fun c => { c with ip := ip }

def Op.decomposition : Op → Option (Exec β Unit)
  | anc => some andThenCarry
  | alr => some andThenLsr
  | _ => none

/-- The instructions used are those of the 6502's row. -/
example : (execOps .native6502).at 0x29 = some (.opAnd (addrImm .u8 .u8 .u8)) ∧
    (execOps .native6502).at 0x4A = some (.lsr (addrA .u8 .u8)) ∧
    (execOps .native6502).at 0x0B = some .anc ∧ (execOps .native6502).at 0x4B = some .alr := by
  decide

/-! ### Results -/

/-- The byte that `AND` leaves in A for the operand at `addr`. -/
def Machine.masked (m : Machine β) (addr : CpuAddr) : Byte :=
  let v : Byte := (readPBR .u8 addr m).1
  lo m.core.a &&& v

theorem logicResult_anc (m : Machine β) :
    LogicResult m.core (perform .anc m).2.core (m.masked m.core.ip) (m.masked m.core.ip).msb := by
  have hlo : lo (setLo m.core.a (m.masked m.core.ip)) = m.masked m.core.ip := lo_setLo _ _
  have hcore : (perform .anc m).2.core = { m.core with
      a := setLo m.core.a (m.masked m.core.ip), ip := m.core.ip + 2
      zero := (lo (setLo m.core.a (m.masked m.core.ip))).setWidth 32
      negative := (lo (setLo m.core.a (m.masked m.core.ip)) >>> 7).setWidth 32
      carry := (lo (setLo m.core.a (m.masked m.core.ip)) >>> 7).setWidth 32 <<< 1
      numEmulatedInstructions := m.core.numEmulatedInstructions + 1 } := rfl
  rw [hlo] at hcore
  generalize m.masked m.core.ip = v at hcore ⊢
  have h := LogicResult.of_eq hcore rfl (and_one_sign v)
  rw [and_two_shift, BitVec.getLsbD_ushiftRight] at h
  rw [BitVec.msb_eq_getLsbD_last]
  exact h

theorem logicResult_alr (m : Machine β) :
    LogicResult m.core (perform .alr m).2.core (m.masked m.core.ip >>> 1)
      ((m.masked m.core.ip).getLsbD 0) := by
  have hlo : lo (setLo m.core.a (m.masked m.core.ip)) = m.masked m.core.ip := lo_setLo _ _
  have hcore : (perform .alr m).2.core = { m.core with
      a := setLo (setLo m.core.a (m.masked m.core.ip))
        (lo (setLo m.core.a (m.masked m.core.ip)) >>> 1)
      ip := m.core.ip + 2
      zero := (lo (setLo m.core.a (m.masked m.core.ip)) >>> 1).setWidth 32
      negative := 0
      carry := (lo (setLo m.core.a (m.masked m.core.ip)) &&& 1).setWidth 32 <<< 1
      numEmulatedInstructions := m.core.numEmulatedInstructions + 1 } := rfl
  rw [hlo] at hcore
  generalize m.masked m.core.ip = v at hcore ⊢
  exact .of_shift hcore

theorem logicResult_andThenCarry (m : Machine β) :
    LogicResult m.core (andThenCarry m).2.core (m.masked (m.core.ip + 1))
      (m.masked (m.core.ip + 1)).msb := by
  have hcore : (andThenCarry m).2.core = { m.core with
      a := setLo m.core.a (m.masked (m.core.ip + 1)), ip := m.core.ip + 2
      zero := (m.masked (m.core.ip + 1)).setWidth 32
      negative := (m.masked (m.core.ip + 1) >>> 7).setWidth 32
      carry := if (m.masked (m.core.ip + 1) >>> 7).setWidth 32 &&& (1 : BitVec 32) != 0 then 2
        else 0 } := rfl
  generalize m.masked (m.core.ip + 1) = v at hcore ⊢
  rw [and_one_sign] at hcore
  have h := LogicResult.of_eq hcore rfl (and_one_sign v)
  have hcarry : ((if v.msb then 2 else 0 : BitVec 32) &&& 2 != 0) = v.msb := by
    cases v.msb <;> rfl
  rw [hcarry] at h
  exact h

theorem logicResult_andThenLsr (m : Machine β) :
    LogicResult m.core (andThenLsr m).2.core (m.masked (m.core.ip + 1) >>> 1)
      ((m.masked (m.core.ip + 1)).getLsbD 0) := by
  have hlo : lo (setLo m.core.a (m.masked (m.core.ip + 1))) = m.masked (m.core.ip + 1) :=
    lo_setLo _ _
  have hcore : (andThenLsr m).2.core = { m.core with
      a := setLo (setLo m.core.a (m.masked (m.core.ip + 1)))
        (lo (setLo m.core.a (m.masked (m.core.ip + 1))) >>> 1)
      ip := m.core.ip + 2
      zero := (lo (setLo m.core.a (m.masked (m.core.ip + 1))) >>> 1).setWidth 32
      negative := 0
      carry := (lo (setLo m.core.a (m.masked (m.core.ip + 1))) &&& 1).setWidth 32 <<< 1 } := rfl
  rw [hlo] at hcore
  generalize m.masked (m.core.ip + 1) = v at hcore ⊢
  exact .of_shift hcore

/-- **What `ANC` and `ALR` do is decided by the byte they leave of A.** -/
theorem sameRegisters_perform {op : Op} {reference : Exec β Unit}
    (href : op.decomposition = some reference) (m : Machine β) :
    SameRegisters (reference m).2.core (perform op m).2.core ↔
      m.masked m.core.ip = m.masked (m.core.ip + 1) := by
  cases op with
  | anc =>
    cases href
    rw [(logicResult_andThenCarry m).sameRegisters_iff (logicResult_anc m)]
    constructor
    · intro h
      exact h.1
    · intro h
      rw [h]
      exact ⟨rfl, rfl⟩
  | alr =>
    cases href
    rw [(logicResult_andThenLsr m).sameRegisters_iff (logicResult_alr m)]
    constructor
    · intro h
      exact eq_of_shift h.1 h.2
    · intro h
      rw [h]
      exact ⟨rfl, rfl⟩
  | _ => cases href

/-- **`ANC` and `ALR` are what they stand for only if A has the same bits in common with the
opcode as with the operand after it**, because they take the byte at the opcode for their
operand.  It holds for every state and any memory that the two bytes are in. -/
theorem decomposes_iff (ram : PlainRam β R) {m m' : Machine β} (hok : ram.ok m.bus)
    (hopcode : R (m.core.codeAddr m.core.ip)) (hoperand : R (m.core.codeAddr (m.core.ip + 1)))
    {op : Op} {reference : Exec β Unit} (href : op.decomposition = some reference)
    (hop : m.handler = some op) (h : m.emulateInstruction = some m') :
    SameRegisters (reference (fetch m).2).2.core m'.core ↔
      lo m.core.a &&& ram.peek m.bus (m.core.codeAddr m.core.ip) =
        lo m.core.a &&& ram.peek m.bus (m.core.codeAddr (m.core.ip + 1)) := by
  obtain ⟨op', hop', rfl⟩ := Option.map_eq_some_iff.mp h
  obtain rfl : op' = op := Option.some.inj (hop'.symm.trans hop)
  rw [sameRegisters_perform href, ← readPBR_fetch hok hopcode, ← readPBR_fetch hok hoperand]
  rfl

/-- A console's CPU at an instruction of two bytes, with all bits of A set. -/
def Machine.nesAt (opcode operand : Byte) : Machine (SystemBus Unit) :=
  let m := (powerOn (nes [opcode, operand])).2
  { m with core := { m.core with a := 0xFF } }

/-- `ANC #$0B`, whose operand is its opcode. -/
theorem decomposes_iff_anc : ∃ m', (nesAt 0x0B 0x0B).emulateInstruction = some m' ∧
    (SameRegisters (andThenCarry (fetch (nesAt 0x0B 0x0B)).2).2.core m'.core ↔
      lo (nesAt 0x0B 0x0B).core.a &&& SystemBus.simpleRam.peek (nesAt 0x0B 0x0B).bus 0x200 =
        lo (nesAt 0x0B 0x0B).core.a &&&
          SystemBus.simpleRam.peek (nesAt 0x0B 0x0B).bus 0x201) := by
  have hop : (nesAt 0x0B 0x0B).handler = some .anc := by decide +kernel
  have hip : (nesAt 0x0B 0x0B).core.codeAddr (nesAt 0x0B 0x0B).core.ip = 0x200 := by
    decide +kernel
  have hip' : (nesAt 0x0B 0x0B).core.codeAddr ((nesAt 0x0B 0x0B).core.ip + 1) = 0x201 := by
    decide +kernel
  have hm' : (nesAt 0x0B 0x0B).emulateInstruction =
      some (perform .anc (fetch (nesAt 0x0B 0x0B)).2).2 := by
    rw [emulateInstruction, hop]
    rfl
  have hok : SystemBus.simpleRam.ok (nesAt 0x0B 0x0B).bus := ⟨rfl, rfl, rfl⟩
  have hiff := decomposes_iff SystemBus.simpleRam hok
    (by rw [hip]; decide) (by rw [hip']; decide) rfl hop hm'
  rw [hip, hip'] at hiff
  exact ⟨_, hm', hiff⟩

/-- `ANC #$F0` leaves `0B` in A and `ALR #$F0` half of `4B`, where `AND #$F0` leaves `F0`. -/
theorem operand_not_read :
    (nesAt 0x0B 0xF0).core.mode = .native6502 ∧ (nesAt 0x4B 0xF0).core.mode = .native6502 ∧
    (∃ m', (nesAt 0x0B 0xF0).emulateInstruction = some m' ∧
      ¬SameRegisters (andThenCarry (fetch (nesAt 0x0B 0xF0)).2).2.core m'.core) ∧
    ∃ m', (nesAt 0x4B 0xF0).emulateInstruction = some m' ∧
      ¬SameRegisters (andThenLsr (fetch (nesAt 0x4B 0xF0)).2).2.core m'.core := by
  have hanc : (nesAt 0x0B 0xF0).emulateInstruction.map (·.core.a) = some 0x0B := by
    decide +kernel
  have halr : (nesAt 0x4B 0xF0).emulateInstruction.map (·.core.a) = some 0x25 := by
    decide +kernel
  have hand : (andThenCarry (fetch (nesAt 0x0B 0xF0)).2).2.core.a = 0xF0 := by decide +kernel
  have hlsr : (andThenLsr (fetch (nesAt 0x4B 0xF0)).2).2.core.a = 0x78 := by decide +kernel
  obtain ⟨m, hm, ha⟩ := Option.map_eq_some_iff.mp hanc
  obtain ⟨m', hm', ha'⟩ := Option.map_eq_some_iff.mp halr
  refine ⟨by decide +kernel, by decide +kernel, ⟨m, hm, ?_⟩, ⟨m', hm', ?_⟩⟩
  · intro h
    have h := h.a
    rw [ha, hand] at h
    exact absurd h (by decide)
  · intro h
    have h := h.a
    rw [ha', hlsr] at h
    exact absurd h (by decide)

end RetroCpu
