import RetroCpu.Wdc65816.Arithmetic

/-!
# Comparing

`CMP`, `CPX` and `CPY` take the difference of a register and an operand in the width of the two,
while `SBC` takes it in 32 bits and adds the carry.  `doCmp_subBin`: with the carry set the two
give the same flags.
-/

namespace RetroCpu

open Machine StateFn

namespace Core

/-! ### The flags of `DoCmp` -/

theorem isZero_doCmp (c : Core) {s : Size} (r v : Val s) :
    (c.doCmp r v).isZero = true ↔ r = v := by
  have hz : (c.doCmp r v).isZero = ((r - v).toU32 == 0) := rfl
  rw [hz, toU32_beq_zero, BitVec.sub_eq_iff_eq_add]
  exact iff_of_eq (congrArg (r = ·) (BitVec.zero_add v))

theorem isNegative_doCmp (c : Core) {s : Size} (r v : Val s) :
    (c.doCmp r v).isNegative = (r - v).msb := by
  have hn : (c.doCmp r v).negative = ((r - v) >>> (s.bits - 1)).setWidth 32 := rfl
  rw [isNegative, hn, show (1 : BitVec 32) = BitVec.twoPow 32 0 from rfl, and_twoPow_ne_zero,
    BitVec.getLsbD_setWidth, BitVec.getLsbD_ushiftRight, BitVec.msb_eq_getLsbD_last]
  rfl

theorem isCarry_doCmp (c : Core) {s : Size} (r v : Val s) :
    (c.doCmp r v).isCarry = true ↔ v ≤ r := by
  show ((if v ≤ r then 2 else 0 : BitVec 32) &&& 2 != 0) = true ↔ _
  split
  · next h => exact ⟨fun _ => h, fun _ => rfl⟩
  · next h => exact ⟨fun hf => absurd hf (by decide), fun hle => absurd hle h⟩

/-! ### The flags of `SubBin` -/

theorem carryIn_of_isCarry {b : Core} (h : b.isCarry = true) : b.carryIn = 1 := by
  have hbit : b.carry.getLsbD 1 = true := by
    rw [isCarry, show (2 : BitVec 32) = BitVec.twoPow 32 1 from rfl, and_twoPow_ne_zero] at h
    exact h
  rw [getLsbD_eq_decide, decide_eq_true_iff] at hbit
  rw [carryIn, BitVec.toNat_and, BitVec.toNat_ushiftRight, Nat.shiftRight_eq_div_pow]
  exact (Nat.and_one_is_mod _).trans hbit

section Carry

variable {b : Core} {s : Size} (v : Val s) (hcarry : b.isCarry = true)

include hcarry

theorem isZero_subBin_of_isCarry : (b.subBin v).isZero = true ↔ b.get .a s = v := by
  rw [isZero_subBin, carryIn_of_isCarry hcarry, ← BitVec.toNat_inj]
  omega

theorem isCarry_subBin_of_isCarry : (b.subBin v).isCarry = true ↔ v ≤ b.get .a s := by
  rw [isCarry_subBin, carryIn_of_isCarry hcarry, BitVec.le_def]
  omega

theorem isNegative_subBin_of_isCarry : (b.subBin v).isNegative = (b.get .a s - v).msb := by
  have hn : (b.subBin v).negative = ((b.get .a s).toU32 - v.toU32 - (1 : BitVec 32) +
      (b.carry >>> 1 &&& 1)) >>> (s.bits - 1) := by
    cases s <;> rfl
  have hone : b.carry >>> 1 &&& 1 = 1 := BitVec.eq_of_toNat_eq (carryIn_of_isCarry hcarry)
  have hbits : Val.ofBits s ((b.get .a s).toU32 - v.toU32) = b.get .a s - v := by
    have ha := (b.get .a s).isLt
    have hv := v.isLt
    apply BitVec.eq_of_toNat_eq
    rw [Val.ofBits, BitVec.toNat_setWidth, BitVec.toNat_sub, BitVec.toNat_sub, toNat_toU32,
      toNat_toU32]
    generalize (b.get .a s).toNat = a at ha ⊢
    generalize v.toNat = n at hv ⊢
    cases s <;> simp only [Size.bits] at ha hv ⊢ <;> omega
  rw [isNegative, hn, hone, BitVec.sub_add_cancel,
    show (1 : BitVec 32) = BitVec.twoPow 32 0 from rfl, and_twoPow_ne_zero,
    BitVec.getLsbD_ushiftRight, Nat.add_zero, getLsbD_sign, hbits, BitVec.msb_eq_decide]
  rfl

end Carry

/-- **Comparing is subtracting with the carry set.**  `DoCmp` leaves N, Z and C as `SubBin` does
from a state that holds the register in the accumulator, and changes nothing else. -/
theorem doCmp_subBin (c b : Core) {s : Size} (r v : Val s) (hr : b.get .a s = r)
    (hcarry : b.isCarry = true) :
    (c.doCmp r v).isZero = (b.subBin v).isZero ∧
      (c.doCmp r v).isNegative = (b.subBin v).isNegative ∧
      (c.doCmp r v).isCarry = (b.subBin v).isCarry ∧
      c.doCmp r v = { c with
        zero := (c.doCmp r v).zero
        negative := (c.doCmp r v).negative
        carry := (c.doCmp r v).carry } := by
  subst hr
  refine ⟨?_, ?_, ?_, rfl⟩
  · rw [Bool.eq_iff_iff, isZero_doCmp, isZero_subBin_of_isCarry v hcarry]
  · rw [isNegative_doCmp, isNegative_subBin_of_isCarry v hcarry]
  · rw [Bool.eq_iff_iff, isCarry_doCmp, isCarry_subBin_of_isCarry v hcarry]

/-- A byte compared with itself. -/
theorem doCmp_subBin_same :
    let b : Core := { (default : Core) with a := 5, carry := 2 }
    ((default : Core).doCmp (s := .u8) 5 5).isZero = (b.subBin (s := .u8) 5).isZero ∧
      ((default : Core).doCmp (s := .u8) 5 5).isNegative = (b.subBin (s := .u8) 5).isNegative ∧
      ((default : Core).doCmp (s := .u8) 5 5).isCarry = (b.subBin (s := .u8) 5).isCarry ∧
      (default : Core).doCmp (s := .u8) 5 5 = { (default : Core) with
        zero := ((default : Core).doCmp (s := .u8) 5 5).zero
        negative := ((default : Core).doCmp (s := .u8) 5 5).negative
        carry := ((default : Core).doCmp (s := .u8) 5 5).carry } :=
  doCmp_subBin (s := .u8) default { (default : Core) with a := 5, carry := 2 } 5 5 (by decide)
    (by decide)

end Core

end RetroCpu
