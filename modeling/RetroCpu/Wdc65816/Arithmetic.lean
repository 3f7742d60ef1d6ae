import Mathlib.Algebra.Group.Int.Defs
import Mathlib.Algebra.Group.Nat.Defs
import RetroCpu.Wdc65816.Exec

/-!
# Binary addition and subtraction

`AddBin` and `SubBin` work on one 32-bit word, and take the result, the carry and the
sign out of it by shifts.  `BinaryResult` says what an adder of the width `s` gives, in terms of
the integer `total` of the unsigned operands and the integer `signed` of the signed ones.

`addBin_spec`: `AddBin` is such an adder, whatever word the carry is held in.
`subBin_spec`: `SubBin` is one unless zero less all ones is taken with a borrow.  There
the difference is `-2 ^ w`: its low bits are zero, and the word that is kept for the
zero flag is not, because `SubBin` does not truncate it as `AddBin` does.
-/

namespace RetroCpu

open WordBytes

namespace Core

/-- `is_zero`. -/
def isZero (c : Core) : Bool := c.zero == 0

/-- `is_negative`. -/
def isNegative (c : Core) : Bool := c.negative &&& 1 != 0

/-- `is_carry`. -/
def isCarry (c : Core) : Bool := c.carry &&& 2 != 0

/-- `is_overflow`. -/
def isOverflow (c : Core) : Bool := c.otherFlags &&& 0x40 != 0

def carryIn (c : Core) : Nat := (c.carry >>> 1 &&& 1).toNat

/-- `r` is `c` after an adder of the width `s` whose operands add up to `total`, and to
`signed` when they are read as signed numbers.  Of `other_flags`, bits 0 to 15 are kept
but for the overflow bit. -/
structure BinaryResult (s : Size) (c r : Core) (total signed : Int) (carryOut : Prop) : Prop where
  result : ((r.get .a s).toNat : Int) = total % 2 ^ s.bits
  carry : r.isCarry = true ↔ carryOut
  zero : r.isZero = true ↔ r.get .a s = 0
  negative : r.isNegative = (r.get .a s).msb
  overflow : r.isOverflow = true ↔ ¬(-2 ^ (s.bits - 1) ≤ signed ∧ signed < 2 ^ (s.bits - 1))
  otherFlags : ∀ i < 16, i ≠ 6 → r.otherFlags.getLsbD i = c.otherFlags.getLsbD i
  high : s = .u8 → hi r.a = hi c.a
  frame : r = { c with
    a := r.a, zero := r.zero, negative := r.negative, carry := r.carry, otherFlags := r.otherFlags }

/-! ### Flags as bits -/

theorem getLsbD_eq_decide {n : Nat} (x : BitVec n) (k : Nat) :
    x.getLsbD k = decide (x.toNat / 2 ^ k % 2 = 1) := by
  rw [← BitVec.testBit_toNat, Nat.testBit_eq_decide_div_mod_eq]

theorem and_twoPow_ne_zero {n : Nat} (x : BitVec n) (k : Nat) :
    (x &&& BitVec.twoPow n k != 0) = x.getLsbD k := by
  rw [BitVec.and_twoPow]
  by_cases h : x.getLsbD k = true
  · have hk : k < n := BitVec.lt_of_getLsbD h
    rw [if_pos h, h, bne_iff_ne]
    intro h0
    have := congrArg BitVec.toNat h0
    rw [BitVec.toNat_twoPow_of_lt hk] at this
    simp at this
  · rw [if_neg h, Bool.not_eq_true] at *
    rw [h]
    simp

theorem isOverflow_setOverflow (c : Core) (v : Bool) : (c.setOverflow v).isOverflow = v := by
  have h := and_twoPow_ne_zero (c.setOverflow v).otherFlags 6
  rw [isOverflow, show (0x40 : BitVec 32) = BitVec.twoPow 32 6 from rfl, h]
  show ((c.otherFlags &&& 0xFFBF) ||| if v then 0x40 else 0).getLsbD 6 = v
  rw [BitVec.getLsbD_or, BitVec.getLsbD_and, show (0xFFBF : BitVec 32).getLsbD 6 = false from rfl]
  cases v <;> simp

theorem otherFlags_setOverflow (c : Core) (v : Bool) {i : Nat} (hi : i < 16) (h6 : i ≠ 6) :
    (c.setOverflow v).otherFlags.getLsbD i = c.otherFlags.getLsbD i := by
  have hmask : ∀ i < 16, i ≠ 6 → (0xFFBF : BitVec 32).getLsbD i = true ∧
      ∀ v : Bool, (if v then 0x40 else 0 : BitVec 32).getLsbD i = false := by
    decide
  obtain ⟨hkept, hset⟩ := hmask i hi h6
  show ((c.otherFlags &&& 0xFFBF) ||| if v then 0x40 else 0).getLsbD i = _
  rw [BitVec.getLsbD_or, BitVec.getLsbD_and, hkept, hset, Bool.and_true, Bool.or_false]

/-- What `AddBin` and `SubBin` have in common once the 32-bit result is there. -/
theorem binaryResult_of_bits {c r : Core} {s : Size} {res : BitVec 32} {v : Bool}
    (hr : r = (({ c with
      zero := r.zero, carry := r.carry
      negative := res >>> (s.bits - 1) } : Core).setOverflow v).set .a (Val.ofBits s res))
    {total signed : Int} {carryOut : Prop}
    (result : ((Val.ofBits s res).toNat : Int) = total % 2 ^ s.bits)
    (carry : r.isCarry = true ↔ carryOut)
    (zero : r.isZero = true ↔ Val.ofBits s res = 0)
    (overflow : v = true ↔ ¬(-2 ^ (s.bits - 1) ≤ signed ∧ signed < 2 ^ (s.bits - 1))) :
    BinaryResult s c r total signed carryOut := by
  have ha : r.get .a s = Val.ofBits s res := by
    rw [hr]
    cases s
    · exact lo_setLo _ _
    · rfl
  have hflags : r.otherFlags = (c.setOverflow v).otherFlags := by
    rw [hr]
    cases s <;> rfl
  refine ⟨by rw [ha, result], carry, by rw [zero, ha], ?_, ?_, ?_, ?_, ?_⟩
  · have hn : r.negative = res >>> (s.bits - 1) := by
      rw [hr]
      cases s <;> rfl
    rw [isNegative, hn, ha, show (1 : BitVec 32) = BitVec.twoPow 32 0 from rfl, and_twoPow_ne_zero,
      BitVec.getLsbD_ushiftRight]
    cases s <;> simp [BitVec.msb_eq_getLsbD_last, Val.ofBits, Size.bits]
  · rw [isOverflow, hflags, ← overflow]
    exact iff_of_eq (congrArg (· = true) (isOverflow_setOverflow c v))
  · intro i hi h6
    rw [hflags]
    exact otherFlags_setOverflow c v hi h6
  · rintro rfl
    rw [hr]
    exact hi_setLo _ _
  · rw [hr]
    cases s <;> rfl

theorem carryIn_le (c : Core) : c.carryIn ≤ 1 := by
  rw [carryIn, BitVec.toNat_and]
  exact Nat.and_le_right

/-! ### The sign bit -/

def signWeight (s : Size) : Nat := 2 ^ (s.bits - 1)

theorem two_pow_bits (s : Size) : 2 ^ s.bits = 2 * signWeight s := by
  cases s <;> rfl

theorem toNat_lt {s : Size} (v : Val s) : v.toNat < 2 * signWeight s := by
  rw [← two_pow_bits]
  exact v.isLt

theorem toInt_eq {s : Size} (v : Val s) :
    v.toInt = if signWeight s ≤ v.toNat then (v.toNat : Int) - 2 * signWeight s else v.toNat := by
  rw [BitVec.toInt_eq_toNat_cond, two_pow_bits]
  by_cases h : signWeight s ≤ v.toNat
  · rw [if_pos h, if_neg (by omega)]
    push_cast
    rfl
  · rw [if_neg h, if_pos (by omega)]

/-- The sign bit of a result in the width of the operands. -/
theorem getLsbD_sign (s : Size) (res : BitVec 32) :
    res.getLsbD (s.bits - 1) = decide (signWeight s ≤ (Val.ofBits s res).toNat) := by
  rw [signWeight, ← BitVec.msb_eq_decide, BitVec.msb_eq_getLsbD_last, Val.ofBits]
  cases s <;> simp [Size.bits]

/-- The sign bit of an operand, taken in 32 bits. -/
theorem sign_toU32 {s : Size} (v : Val s) :
    v.toU32.getLsbD (s.bits - 1) = decide (signWeight s ≤ v.toNat) := by
  have h : Val.ofBits s v.toU32 = v := by
    cases s <;> exact BitVec.setWidth_setWidth_of_le v (by decide)
  rw [getLsbD_sign, h]

theorem highBit (s : Size) :
    (1 <<< (8 * s.bytes - 1) : BitVec 32) = BitVec.twoPow 32 (s.bits - 1) := by
  cases s <;> rfl

theorem two_pow_sign (s : Size) : (2 : Int) ^ (s.bits - 1) = signWeight s := by
  rw [signWeight]
  push_cast
  rfl

/-- Of a sum or a difference of two operands, the remainder is at most one period away. -/
theorem eq_of_emod {h : Nat} (hh : 0 < h) {t m : Int} (hm : m = t % (2 * h))
    (hlo : -(2 * h) ≤ t) (hhi : t < 4 * h) : m = t ∨ m = t - 2 * h ∨ m = t + 2 * h := by
  have hq := Int.emod_add_mul_ediv t (2 * h)
  rw [← hm] at hq
  have h1 : -1 ≤ t / (2 * h) := Int.le_ediv_of_mul_le (by omega) (by omega)
  have h2 : t / (2 * h) < 2 := Int.ediv_lt_of_lt_mul (by omega) (by omega)
  have h3 : t / (2 * h) = -1 ∨ t / (2 * h) = 0 ∨ t / (2 * h) = 1 := by omega
  rcases h3 with h3 | h3 | h3 <;> rw [h3] at hq <;> omega

section Overflow

variable {s : Size} (a v : Val s) {res : BitVec 32} {t : Int}

/-- The remainder `res` leaves, in terms of the sign weight. -/
theorem ofBits_cases (hres : ((Val.ofBits s res).toNat : Int) = t % 2 ^ s.bits)
    (hlo : -2 ^ s.bits ≤ t) (hhi : t < 2 * 2 ^ s.bits) :
    ((Val.ofBits s res).toNat : Int) = t ∨ (Val.ofBits s res).toNat = t - 2 * signWeight s ∨
      (Val.ofBits s res).toNat = t + 2 * signWeight s := by
  have hp : (2 : Int) ^ s.bits = 2 * signWeight s := by exact_mod_cast two_pow_bits s
  have hh : 0 < signWeight s := Nat.two_pow_pos _
  rw [hp] at hres hlo hhi
  exact eq_of_emod hh hres hlo (by omega)

/-- The operands of an addition have one sign and the result the other one just when the signed
sum leaves the width. -/
theorem addOverflow_iff {k : Nat} (hk : k ≤ 1)
    (hres : ((Val.ofBits s res).toNat : Int) = (a.toNat + v.toNat + k : Int) % 2 ^ s.bits) :
    ((a.toU32 ^^^ res) &&& ~~~(a.toU32 ^^^ v.toU32) &&& 1 <<< (8 * s.bytes - 1) != 0) = true ↔
      ¬(-2 ^ (s.bits - 1) ≤ a.toInt + v.toInt + k ∧ a.toInt + v.toInt + k < 2 ^ (s.bits - 1)) := by
  have ha := toNat_lt a
  have hv := toNat_lt v
  have hr := toNat_lt (Val.ofBits s res)
  have h32 : s.bits - 1 < 32 := by cases s <;> decide
  have hp : (2 : Int) ^ s.bits = 2 * signWeight s := by exact_mod_cast two_pow_bits s
  have hcases := ofBits_cases hres (by omega) (by omega)
  rw [highBit, and_twoPow_ne_zero, BitVec.getLsbD_and, BitVec.getLsbD_xor, BitVec.getLsbD_not,
    BitVec.getLsbD_xor, sign_toU32, sign_toU32, getLsbD_sign, toInt_eq, toInt_eq, two_pow_sign,
    decide_eq_true h32]
  by_cases hsa : signWeight s ≤ a.toNat <;> by_cases hsv : signWeight s ≤ v.toNat <;>
    by_cases hsr : signWeight s ≤ (Val.ofBits s res).toNat <;>
    simp [hsa, hsv, hsr] <;> omega

/-- The operands of a subtraction have different signs and the result that of the second one just
when the signed difference leaves the width. -/
theorem subOverflow_iff {k : Nat} (hk : k ≤ 1)
    (hres : ((Val.ofBits s res).toNat : Int) = (a.toNat - v.toNat - 1 + k : Int) % 2 ^ s.bits) :
    ((a.toU32 ^^^ res) &&& (a.toU32 ^^^ v.toU32) &&& 1 <<< (8 * s.bytes - 1) != 0) = true ↔
      ¬(-2 ^ (s.bits - 1) ≤ a.toInt - v.toInt - 1 + k ∧
        a.toInt - v.toInt - 1 + k < 2 ^ (s.bits - 1)) := by
  have ha := toNat_lt a
  have hv := toNat_lt v
  have hr := toNat_lt (Val.ofBits s res)
  have hp : (2 : Int) ^ s.bits = 2 * signWeight s := by exact_mod_cast two_pow_bits s
  have hcases := ofBits_cases hres (by omega) (by omega)
  rw [highBit, and_twoPow_ne_zero, BitVec.getLsbD_and, BitVec.getLsbD_xor, BitVec.getLsbD_xor,
    sign_toU32, sign_toU32, getLsbD_sign, toInt_eq, toInt_eq, two_pow_sign]
  by_cases hsa : signWeight s ≤ a.toNat <;> by_cases hsv : signWeight s ≤ v.toNat <;>
    by_cases hsr : signWeight s ≤ (Val.ofBits s res).toNat <;>
    simp [hsa, hsv, hsr] <;> omega

end Overflow

/-! ### The results -/

theorem toNat_carryIn (c : Core) : (c.carry >>> 1 &&& 1).toNat = c.carryIn := rfl

theorem toNat_toU32 {s : Size} (v : Val s) : v.toU32.toNat = v.toNat := by
  have hv := v.isLt
  rw [Val.toU32, BitVec.toNat_setWidth]
  cases s <;> exact Nat.mod_eq_of_lt (Nat.lt_trans hv (by decide))

/-- The result of `AddBin`, as a number. -/
theorem toNat_addResult (c : Core) {s : Size} (v : Val s) :
    ((c.get .a s).toU32 + v.toU32 + (c.carry >>> 1 &&& 1)).toNat =
      (c.get .a s).toNat + v.toNat + c.carryIn := by
  have ha := (c.get .a s).isLt
  have hv := v.isLt
  have hk := c.carryIn_le
  have hs : 2 ^ s.bits ≤ 2 ^ 16 := by cases s <;> decide
  rw [BitVec.toNat_add, BitVec.toNat_add, toNat_toU32, toNat_toU32, toNat_carryIn]
  omega

/-- The result of `SubBin`, as a number. -/
theorem toNat_subResult (c : Core) {s : Size} (v : Val s) :
    (((c.get .a s).toU32 - v.toU32 - (1 : BitVec 32) + (c.carry >>> 1 &&& 1)).toNat : Int) =
      ((c.get .a s).toNat - v.toNat - 1 + c.carryIn : Int) % 2 ^ 32 := by
  have ha := (c.get .a s).isLt
  have hv := v.isLt
  have hk := c.carryIn_le
  have hs : 2 ^ s.bits ≤ 2 ^ 16 := by cases s <;> decide
  rw [BitVec.toNat_add, BitVec.toNat_sub, BitVec.toNat_sub, toNat_toU32, toNat_toU32,
    toNat_carryIn, show (1 : BitVec 32).toNat = 1 from rfl]
  omega

/-- A carry word shifted down holds the bit above the operands at place 1. -/
theorem shifted_and_two (s : Size) (res : BitVec 32) :
    (res >>> (8 * s.bytes - 1) &&& 2 != 0) = decide (res.toNat / 2 ^ s.bits % 2 = 1) := by
  rw [show (2 : BitVec 32) = BitVec.twoPow 32 1 from rfl, and_twoPow_ne_zero,
    BitVec.getLsbD_ushiftRight, ← getLsbD_eq_decide]
  cases s <;> rfl

theorem not_and_two (x : BitVec 32) : (~~~x &&& 2 != 0) = !(x &&& 2 != 0) := by
  rw [show (2 : BitVec 32) = BitVec.twoPow 32 1 from rfl, and_twoPow_ne_zero, and_twoPow_ne_zero]
  simp

theorem div_mod_two_iff {h n : Nat} (hn : n < 2 * h) : n / h % 2 = 1 ↔ h ≤ n := by
  have hq : n / h < 2 := Nat.div_lt_of_lt_mul (by omega)
  have h1 : 1 ≤ n / h ↔ 1 * h ≤ n := Nat.le_div_iff_mul_le (by omega)
  generalize n / h = q at hq h1 ⊢
  omega

theorem toU32_beq_zero {s : Size} (v : Val s) : (v.toU32 == 0) = true ↔ v = 0 := by
  rw [beq_iff_eq, ← BitVec.toNat_inj, toNat_toU32, ← BitVec.toNat_inj]
  rfl

/-- **`AddBin` is a binary adder.**  In either width, for any accumulator, operand and flags, the
accumulator becomes the sum with the carry modulo the width, the flags N, V, Z and C are those of
the sum, and nothing else changes. -/
theorem addBin_spec (c : Core) {s : Size} (v : Val s) :
    BinaryResult s c (c.addBin v)
      ((c.get .a s).toNat + v.toNat + c.carryIn) ((c.get .a s).toInt + v.toInt + c.carryIn)
      (2 ^ s.bits ≤ (c.get .a s).toNat + v.toNat + c.carryIn) := by
  have ha := (c.get .a s).isLt
  have hv := v.isLt
  have hk := c.carryIn_le
  have hn := toNat_addResult c v
  have hres : ((Val.ofBits s ((c.get .a s).toU32 + v.toU32 + (c.carry >>> 1 &&& 1))).toNat : Int) =
      ((c.get .a s).toNat + v.toNat + c.carryIn : Int) % 2 ^ s.bits := by
    rw [Val.ofBits, BitVec.toNat_setWidth, hn]
    push_cast
    rfl
  refine binaryResult_of_bits ?_ hres ?_ ?_ (addOverflow_iff _ _ hk hres)
  · cases s <;> rfl
  · have hc : (c.addBin v).isCarry = decide (((c.get .a s).toU32 + v.toU32 +
        (c.carry >>> 1 &&& 1)).toNat / 2 ^ s.bits % 2 = 1) := by
      rw [← shifted_and_two]
      cases s <;> rfl
    rw [hc, hn, decide_eq_true_iff, div_mod_two_iff (by omega)]
  · have hz : (c.addBin v).zero = (Val.ofBits s ((c.get .a s).toU32 + v.toU32 +
        (c.carry >>> 1 &&& 1))).toU32 := by
      cases s <;> rfl
    rw [isZero, hz]
    exact toU32_beq_zero _

/-- `SubBin` borrows when the difference is negative. -/
theorem isCarry_subBin (c : Core) {s : Size} (v : Val s) :
    (c.subBin v).isCarry = true ↔
      (0 : Int) ≤ (c.get .a s).toNat - v.toNat - 1 + c.carryIn := by
  have ha := (c.get .a s).isLt
  have hv := v.isLt
  have hk := c.carryIn_le
  have hn := toNat_subResult c v
  have hc : (c.subBin v).isCarry = !decide (((c.get .a s).toU32 - v.toU32 - (1 : BitVec 32) +
      (c.carry >>> 1 &&& 1)).toNat / 2 ^ s.bits % 2 = 1) := by
    rw [← shifted_and_two, ← not_and_two]
    cases s <;> rfl
  generalize (c.get .a s).toU32 - v.toU32 - (1 : BitVec 32) + (c.carry >>> 1 &&& 1) = r at hn hc
  rw [hc, Bool.not_eq_true', decide_eq_false_iff_not]
  generalize (c.get .a s).toNat = a at ha hn ⊢
  generalize v.toNat = b at hv hn ⊢
  cases s <;> simp only [Size.bits] at ha hv ⊢ <;> omega

/-- `SubBin` sets Z when the difference is zero as an integer. -/
theorem isZero_subBin (c : Core) {s : Size} (v : Val s) :
    (c.subBin v).isZero = true ↔
      (c.get .a s).toNat - v.toNat - 1 + c.carryIn = (0 : Int) := by
  have ha := (c.get .a s).isLt
  have hv := v.isLt
  have hk := c.carryIn_le
  have hs : 2 ^ s.bits ≤ 2 ^ 16 := by cases s <;> decide
  have hn := toNat_subResult c v
  have hz : (c.subBin v).zero = (c.get .a s).toU32 - v.toU32 - (1 : BitVec 32) +
      (c.carry >>> 1 &&& 1) := by
    cases s <;> rfl
  rw [isZero, hz, beq_iff_eq, ← BitVec.toNat_inj, ← Int.natCast_inj, hn]
  show _ = ((0 : Nat) : Int) ↔ _
  omega

/-- The operands of the one difference that has more than the width below zero. -/
theorem difference_eq_iff (c : Core) {s : Size} (v : Val s) :
    (c.get .a s).toNat - v.toNat - 1 + c.carryIn = (-2 ^ s.bits : Int) ↔
      c.get .a s = 0 ∧ v = BitVec.allOnes s.bits ∧ c.carryIn = 0 := by
  have ha := (c.get .a s).isLt
  have hv := v.isLt
  rw [← BitVec.toNat_inj, ← BitVec.toNat_inj, BitVec.toNat_allOnes]
  show _ ↔ _ = 0 ∧ _
  have hp : (2 : Int) ^ s.bits = (2 ^ s.bits : Nat) := by push_cast; rfl
  rw [hp]
  omega

/-- **`SubBin` is a binary subtracter unless the difference is `-2 ^ w`.**  The difference is
taken with the borrow; it is `-2 ^ w` when all ones are taken from zero with one, and then Z
stays clear although the accumulator becomes zero. -/
theorem subBin_spec (c : Core) {s : Size} (v : Val s) :
    BinaryResult s c (c.subBin v)
      ((c.get .a s).toNat - v.toNat - 1 + c.carryIn) ((c.get .a s).toInt - v.toInt - 1 + c.carryIn)
      ((0 : Int) ≤ (c.get .a s).toNat - v.toNat - 1 + c.carryIn) ↔
    ¬(c.get .a s = 0 ∧ v = BitVec.allOnes s.bits ∧ c.carryIn = 0) := by
  have ha := (c.get .a s).isLt
  have hv := v.isLt
  have hk := c.carryIn_le
  have hn := toNat_subResult c v
  have hp : (2 : Int) ^ s.bits ∣ 2 ^ 32 := by cases s <;> decide
  have hres : ((Val.ofBits s ((c.get .a s).toU32 - v.toU32 - (1 : BitVec 32) +
      (c.carry >>> 1 &&& 1))).toNat : Int) =
      ((c.get .a s).toNat - v.toNat - 1 + c.carryIn : Int) % 2 ^ s.bits := by
    rw [Val.ofBits, BitVec.toNat_setWidth, Int.natCast_emod, hn]
    push_cast
    exact Int.emod_emod_of_dvd _ hp
  have hw : (2 : Int) ^ s.bits = (2 ^ s.bits : Nat) := by push_cast; rfl
  have hs : 0 < 2 ^ s.bits := Nat.two_pow_pos _
  have hz : Val.ofBits s ((c.get .a s).toU32 - v.toU32 - (1 : BitVec 32) +
      (c.carry >>> 1 &&& 1)) = 0 ↔
      (c.get .a s).toNat - v.toNat - 1 + c.carryIn = (0 : Int) ∨
        (c.get .a s).toNat - v.toNat - 1 + c.carryIn = (-2 ^ s.bits : Int) := by
    have hlt := toNat_lt (Val.ofBits s ((c.get .a s).toU32 - v.toU32 - (1 : BitVec 32) +
      (c.carry >>> 1 &&& 1)))
    have hcases := ofBits_cases hres (by omega) (by omega)
    have hweight := two_pow_bits s
    rw [← BitVec.toNat_inj]
    show _ = 0 ↔ _
    omega
  rw [← difference_eq_iff]
  constructor
  · intro h hmin
    have hzero := h.zero
    have hresult := h.result
    rw [hmin, Int.emod_eq_zero_of_dvd (by simp)] at hresult
    rw [isZero_subBin, hmin, ← BitVec.toNat_inj] at hzero
    have := hzero.2 (by exact_mod_cast hresult)
    omega
  · intro hmin
    refine binaryResult_of_bits ?_ hres (isCarry_subBin c v) ?_
      (subOverflow_iff _ _ hk hres)
    · cases s <;> rfl
    · rw [isZero_subBin, hz]
      exact ⟨Or.inl, fun h => h.resolve_right hmin⟩

/-- Zero less all ones, with a borrow: the accumulator is zero and Z is clear. -/
theorem subBin_not_binary :
    let c : Core := { (default : Core) with a := 0, carry := 0 }
    let v : Val .u8 := 0xFF
    (c.subBin v).get .a .u8 = 0 ∧ (c.subBin v).isZero = false ∧
      ¬BinaryResult .u8 c (c.subBin v)
        ((c.get .a .u8).toNat - v.toNat - 1 + c.carryIn)
        ((c.get .a .u8).toInt - v.toInt - 1 + c.carryIn)
        ((0 : Int) ≤ (c.get .a .u8).toNat - v.toNat - 1 + c.carryIn) := by
  intro c v
  have ha : (c.subBin v).get .a .u8 = 0 := by decide
  have hz : (c.subBin v).isZero = false := by decide
  refine ⟨ha, hz, fun h => ?_⟩
  have hzero := h.zero.2 ha
  rw [hz] at hzero
  exact Bool.false_ne_true hzero

end Core

end RetroCpu
