import Mathlib.Data.BitVec
import RetroCpu.Lib.Bcd
import RetroCpu.Wdc65816.Arithmetic

/-!
# Decimal addition and subtraction

`AddDec` and `SubDec` share the correction of a binary sum: a mark at the top bit of each digit
that needs one, and from the marks a word with a 6 in each such digit, which is added at once.

`addDec_iff`: the sum of two decimals is right unless a digit is skipped.
`subDec_never`: a difference is never right, because the marks are made for a sum and the
complement of the operand is added.
-/

namespace RetroCpu

open Bcd WordBytes

def Size.digits (s : Size) : ℕ := s.bits / 4

theorem Size.pow_digits (s : Size) : 16 ^ s.digits = 2 ^ s.bits := by cases s <;> rfl

theorem Size.toNat_lt_digits (s : Size) (v : Val s) : v.toNat < 16 ^ s.digits := by
  rw [s.pow_digits]
  exact v.isLt

namespace Core

/-- `c'` has the code of `value` in its accumulator, with the flags of it. -/
structure DecimalResult (s : Size) (c' : Core) (value : ℕ) (carryOut : Prop) : Prop where
  accumulator : (c'.get .a s).toNat = encode value s.digits
  isCarry : c'.isCarry = true ↔ carryOut
  isZero : c'.isZero = true ↔ value = 0

/-! ### The correction -/

/-- The marks of `decimalAdjust`. -/
def adjustMarks (result reg data : BitVec 32) : BitVec 32 :=
  let mask : BitVec 32 := 0x88888888
  (((result ^^^ reg ^^^ data) >>> 1) &&& mask) |||
    ((result &&& ((result ||| (result <<< 1)) <<< 1)) &&& mask)

/-- What `decimalAdjust` adds. -/
def adjustment (result reg data : BitVec 32) : BitVec 32 :=
  (adjustMarks result reg data ||| (adjustMarks result reg data >>> 1)) >>> 1

theorem decimalAdjust_eq (result reg data : BitVec 32) :
    decimalAdjust result reg data = result + adjustment result reg data := rfl

def nibble (x : BitVec 32) (k : ℕ) : BitVec 4 := x.extractLsb' (4 * k) 4

theorem toNat_nibble (x : BitVec 32) (k : ℕ) : (nibble x k).toNat = digit x.toNat k := by
  rw [nibble, BitVec.extractLsb'_toNat, Nat.shiftRight_eq_div_pow, Nat.pow_mul, digit]

theorem getLsbD_nibble (x : BitVec 32) (k : ℕ) {i : ℕ} (hi : i < 4) :
    (nibble x k).getLsbD i = x.getLsbD (4 * k + i) := by
  rw [nibble, BitVec.getLsbD_extractLsb', decide_eq_true hi, Bool.true_and]

theorem getLsbD_marksMask : ∀ i < 32, (0x88888888 : BitVec 32).getLsbD i = decide (i % 4 = 3) := by
  decide

/-- Marks are at the top bits of digits only. -/
theorem getLsbD_adjustMarks_eq_false (r x y : BitVec 32) {i : ℕ} (h : i % 4 ≠ 3) :
    (adjustMarks r x y).getLsbD i = false := by
  have hmask : (0x88888888 : BitVec 32).getLsbD i = false := by
    by_cases hi : i < 32
    · rw [getLsbD_marksMask i hi, decide_eq_false h]
    · exact BitVec.getLsbD_of_ge _ _ (by omega)
  rw [adjustMarks, BitVec.getLsbD_or, BitVec.getLsbD_and, BitVec.getLsbD_and, hmask,
    Bool.and_false, Bool.and_false, Bool.or_false]

/-- A digit past 9, by its bits. -/
theorem ten_le_nibble : ∀ d : BitVec 4,
    (d.getLsbD 3 && (d.getLsbD 2 || d.getLsbD 1)) = decide (10 ≤ d.toNat) := by
  decide

/-- A digit is marked if the bit above it has changed or the digit is past 9. -/
theorem getLsbD_adjustMarks (r x y : BitVec 32) {k : ℕ} (hk : k < 8) :
    (adjustMarks r x y).getLsbD (4 * k + 3) =
      ((r ^^^ x ^^^ y).getLsbD (4 * k + 4) || decide (10 ≤ digit r.toNat k)) := by
  have h3 := getLsbD_nibble r k (by decide : 3 < 4)
  have h2 := getLsbD_nibble r k (by decide : 2 < 4)
  have h1 := getLsbD_nibble r k (by decide : 1 < 4)
  have hdigit := ten_le_nibble (nibble r k)
  rw [toNat_nibble, h3, h2, h1] at hdigit
  have hmask : (0x88888888 : BitVec 32).getLsbD (4 * k + 3) = true := by
    rw [getLsbD_marksMask _ (by omega), decide_eq_true (by omega)]
  have hup : 1 + (4 * k + 3) = 4 * k + 4 := by omega
  have hshift : ((r ||| (r <<< 1)) <<< 1).getLsbD (4 * k + 3) =
      (r.getLsbD (4 * k + 2) || r.getLsbD (4 * k + 1)) := by
    rw [BitVec.getLsbD_shiftLeft, BitVec.getLsbD_or, BitVec.getLsbD_shiftLeft,
      decide_eq_true (by omega : 4 * k + 3 < 32), decide_eq_false (by omega : ¬4 * k + 3 < 1),
      decide_eq_true (by omega : 4 * k + 3 - 1 < 32),
      decide_eq_false (by omega : ¬4 * k + 3 - 1 < 1)]
    rfl
  rw [adjustMarks, BitVec.getLsbD_or, BitVec.getLsbD_and, BitVec.getLsbD_and, hmask,
    Bool.and_true, Bool.and_true, BitVec.getLsbD_ushiftRight, hup, BitVec.getLsbD_and, hshift,
    hdigit]

/-- **The correction of a marked digit is 6.** -/
theorem digit_adjustment (r x y : BitVec 32) {k : ℕ} (hk : k < 8) :
    digit (adjustment r x y).toNat k =
      if (r ^^^ x ^^^ y).getLsbD (4 * k + 4) || decide (10 ≤ digit r.toNat k) then 6 else 0 := by
  have hbit : ∀ i, (adjustment r x y).getLsbD (4 * k + i) =
      ((adjustMarks r x y).getLsbD (4 * k + i + 1) ||
        (adjustMarks r x y).getLsbD (4 * k + i + 2)) := by
    intro i
    rw [adjustment, BitVec.getLsbD_ushiftRight, BitVec.getLsbD_or, BitVec.getLsbD_ushiftRight,
      Nat.add_comm 1, Nat.add_comm 1]
  have hnibble : nibble (adjustment r x y) k =
      if (adjustMarks r x y).getLsbD (4 * k + 3) then 6 else 0 := by
    apply BitVec.eq_of_getLsbD_eq
    intro i hi
    rw [getLsbD_nibble _ _ hi, hbit]
    obtain rfl | rfl | rfl | rfl : i = 0 ∨ i = 1 ∨ i = 2 ∨ i = 3 := by omega
    · rw [getLsbD_adjustMarks_eq_false _ _ _ (by omega),
        getLsbD_adjustMarks_eq_false _ _ _ (by omega)]
      split <;> rfl
    · rw [getLsbD_adjustMarks_eq_false _ _ _ (by omega), Bool.false_or]
      cases (adjustMarks r x y).getLsbD (4 * k + 3) <;> rfl
    · rw [getLsbD_adjustMarks_eq_false (i := 4 * k + 2 + 2) _ _ _ (by omega), Bool.or_false]
      cases (adjustMarks r x y).getLsbD (4 * k + 3) <;> rfl
    · rw [getLsbD_adjustMarks_eq_false _ _ _ (by omega),
        getLsbD_adjustMarks_eq_false _ _ _ (by omega)]
      split <;> rfl
  rw [← toNat_nibble, hnibble, getLsbD_adjustMarks r x y hk]
  split <;> rfl

/-- There is room for the correction in 32 bits. -/
theorem toNat_adjustment_lt (r x y : BitVec 32) : (adjustment r x y).toNat < 2 ^ 31 := by
  rw [adjustment, BitVec.toNat_ushiftRight, Nat.shiftRight_eq_div_pow]
  have h := (adjustMarks r x y ||| (adjustMarks r x y >>> 1)).isLt
  omega

theorem toNat_decimalAdjust {r : BitVec 32} (hr : r.toNat < 2 ^ 31) (x y : BitVec 32) :
    (decimalAdjust r x y).toNat = r.toNat + (adjustment r x y).toNat := by
  have h := toNat_adjustment_lt r x y
  rw [decimalAdjust_eq, BitVec.toNat_add]
  omega

/-- The bit above a digit of a binary sum has changed if the digit has carried. -/
theorem getLsbD_xor_sum {r x y : BitVec 32} {c : ℕ} (hc : c ≤ 1)
    (hr : r.toNat = x.toNat + y.toNat + c) (k : ℕ) :
    (r ^^^ x ^^^ y).getLsbD (4 * k + 4) = decide (Bcd.carry x.toNat y.toNat c (k + 1) = 1) := by
  have hp : 2 ^ (4 * k + 4) = 16 ^ (k + 1) := (Nat.pow_mul 2 4 (k + 1)).trans rfl
  have hdiv := add_div (x := x.toNat) (y := y.toNat) (Nat.pow_pos (by decide) : 0 < 16 ^ (k + 1)) hc
  have hle := carry_le x.toNat y.toNat c (k + 1)
  change _ = _ + Bcd.carry x.toNat y.toNat c (k + 1) at hdiv
  rw [BitVec.getLsbD_xor, BitVec.getLsbD_xor, getLsbD_eq_decide, getLsbD_eq_decide,
    getLsbD_eq_decide, hp, hr, hdiv]
  generalize x.toNat / 16 ^ (k + 1) = a
  generalize y.toNat / 16 ^ (k + 1) = b
  generalize Bcd.carry x.toNat y.toNat c (k + 1) = d at hle
  have ha := Nat.mod_two_eq_zero_or_one a
  have hb := Nat.mod_two_eq_zero_or_one b
  have hd : d = 0 ∨ d = 1 := by omega
  rcases ha with ha | ha <;> rcases hb with hb | hb <;> rcases hd with rfl | rfl <;>
    simp [Nat.add_mod, ha, hb]

/-- **The correction of a sum of decimals.** -/
theorem corrects_adjustment {r x y : BitVec 32} {c n : ℕ} (hn : n ≤ 8) (hc : c ≤ 1)
    (hr : r.toNat = x.toNat + y.toNat + c) (hx : IsBcd x.toNat n) (hy : IsBcd y.toNat n) :
    Corrects x.toNat y.toNat c (adjustment r x y).toNat n := by
  intro k hk
  have hdx := hx k hk
  have hdy := hy k hk
  have hle := carry_le x.toNat y.toNat c k
  rw [digit_adjustment r x y (by omega), getLsbD_xor_sum hc hr, hr, digit_add hc, carry_succ hc]
  have hd : digit x.toNat k + digit y.toNat k + Bcd.carry x.toNat y.toNat c k ≤ 19 := by omega
  generalize digit x.toNat k + digit y.toNat k + Bcd.carry x.toNat y.toNat c k = d at hd ⊢
  have hmark : (decide ((if 16 ≤ d then 1 else 0) = 1) || decide (10 ≤ d % 16)) =
      decide (10 ≤ d) := by
    by_cases h : 16 ≤ d
    · rw [if_pos h, decide_eq_true (by omega : 10 ≤ d)]
      rfl
    · rw [if_neg h, Nat.mod_eq_of_lt (by omega)]
      rfl
  rw [hmark]
  simp only [decide_eq_true_eq]

/-! ### Addition -/

/-- What `AddDec` and `SubDec` write, for the corrected word `res`. -/
theorem decimal_write {c c' : Core} {s : Size} (res : BitVec 32)
    (h : c' = ({ c with
      zero := (Val.ofBits s res).toU32
      carry := res >>> (8 * s.bytes - 1)
      negative := res >>> (8 * s.bytes - 1) }).set .a (Val.ofBits s res)) :
    (c'.get .a s).toNat = res.toNat % 16 ^ s.digits ∧
      (c'.isCarry = true ↔ res.toNat / 16 ^ s.digits % 2 = 1) ∧
      (c'.isZero = true ↔ (c'.get .a s).toNat = 0) := by
  have ha : c'.get .a s = Val.ofBits s res := by
    rw [h]
    cases s
    · exact lo_setLo _ _
    · rfl
  have hcarry : c'.carry = res >>> (8 * s.bytes - 1) := by
    rw [h]
    cases s <;> rfl
  have hzero : c'.zero = (Val.ofBits s res).toU32 := by
    rw [h]
    cases s <;> rfl
  rw [ha, isCarry, hcarry, isZero, hzero, shifted_and_two, decide_eq_true_iff, toU32_beq_zero,
    s.pow_digits, ← BitVec.toNat_inj]
  exact ⟨BitVec.toNat_setWidth _ _, Iff.rfl, Iff.rfl⟩

/-- The correction leaves the carry alone. -/
theorem adjustment_div_mod_two (r x y : BitVec 32) {n : ℕ} (hn : n < 8) :
    (adjustment r x y).toNat / 16 ^ n % 2 = 0 := by
  have h := digit_adjustment r x y hn
  rw [digit] at h
  split at h <;> omega

/-- The carry out of a corrected sum. -/
theorem sum_div_mod_two {t adj d p : ℕ} (hp : 0 < p) (heven : adj / p % 2 = 0) (hd : d < 2 * p)
    (hsum : t + adj % p = d) : (t + adj) / p % 2 = 1 ↔ p ≤ d := by
  have hadj := Nat.mod_add_div adj p
  have heq : t + adj = d + p * (adj / p) := by omega
  rw [heq, Nat.add_mul_div_left _ _ hp, Nat.add_mod, heven, Nat.add_zero, Nat.mod_mod]
  exact div_mod_two_iff hd

/-- The decimal sum that `AddDec` is to give. -/
def decimalTotal (c : Core) {s : Size} (v : Val s) : ℕ :=
  decode (c.get .a s).toNat s.digits + decode v.toNat s.digits + c.carryIn

/-- **`AddDec` adds decimals unless a digit is skipped**: two digits that are 9 together and get
their carry only from the correction of the digits below them.  Then the accumulator holds a
digit 10. -/
theorem addDec_iff (c : Core) {s : Size} (v : Val s)
    (ha : IsBcd (c.get .a s).toNat s.digits) (hv : IsBcd v.toNat s.digits) :
    DecimalResult s (c.addDec v) (c.decimalTotal v % 10 ^ s.digits)
        (10 ^ s.digits ≤ c.decimalTotal v) ↔
      ∀ k < s.digits, ¬Skips (c.get .a s).toNat v.toNat c.carryIn k := by
  have hn : s.digits < 8 := by cases s <;> decide
  have hc := c.carryIn_le
  have hr : ((c.get .a s).toU32 + v.toU32 + (c.carry >>> 1 &&& 1)).toNat =
      (c.get .a s).toU32.toNat + v.toU32.toNat + c.carryIn := by
    rw [toNat_addResult, toNat_toU32, toNat_toU32]
  obtain ⟨hacc, hcarry, hzero⟩ := decimal_write (c := c) (s := s)
    (decimalAdjust ((c.get .a s).toU32 + v.toU32 + (c.carry >>> 1 &&& 1)) (c.get .a s).toU32
      v.toU32) (rfl : c.addDec v = _)
  generalize (c.get .a s).toU32 + v.toU32 + (c.carry >>> 1 &&& 1) = r at hr hacc hcarry
  have hcorrects := corrects_adjustment hn.le hc hr (by rwa [toNat_toU32]) (by rwa [toNat_toU32])
  have heven := adjustment_div_mod_two r (c.get .a s).toU32 v.toU32 hn
  rw [toNat_toU32, toNat_toU32] at hr hcorrects
  have hlt : (c.get .a s).toNat + v.toNat + c.carryIn < 2 * 16 ^ s.digits := by
    have ha := s.toNat_lt_digits (c.get .a s)
    have hv := s.toNat_lt_digits v
    omega
  have hpow : 16 ^ s.digits ≤ 2 ^ 16 := by cases s <;> decide
  have hres := toNat_decimalAdjust (r := r) (by omega) (c.get .a s).toU32 v.toU32
  rw [hres, hr] at hacc hcarry
  have hiff := corrected_eq_encode_iff ha hv hc hcorrects
  generalize (adjustment r (c.get .a s).toU32 v.toU32).toNat = adj
    at hacc hcarry hcorrects heven hiff
  rw [← hiff]
  constructor
  · intro h
    rw [← encode_mod, ← decimalTotal, ← h.accumulator, hacc]
  · intro h
    have hsum := corrected_eq ha hv hc hcorrects (hiff.mp h)
    rw [Nat.mod_eq_of_lt (s.toNat_lt_digits _), Nat.mod_eq_of_lt (s.toNat_lt_digits _)] at hsum
    rw [h] at hacc
    refine ⟨?_, ?_, ?_⟩
    · rw [hacc, encode_mod]
      rfl
    · rw [hcarry, sum_div_mod_two (Nat.pow_pos (by decide)) heven (decimalSum_lt _ _) hsum,
        le_decimalSum_iff]
      rfl
    · rw [hzero, hacc, encode_eq_zero_iff]
      rfl

/-- `19 + 28`. -/
theorem addDec_iff_nineteen :
    let c : Core := { (default : Core) with a := 0x19 }
    DecimalResult .u8 (c.addDec (s := .u8) 0x28) (c.decimalTotal (s := .u8) 0x28 % 10 ^ 2)
        (10 ^ 2 ≤ c.decimalTotal (s := .u8) 0x28) ↔
      ∀ k < 2, ¬Skips 0x19 0x28 c.carryIn k :=
  addDec_iff (s := .u8) { (default : Core) with a := 0x19 } 0x28 (by decide) (by decide)

/-- `55 + 45` leaves `A0` in the accumulator, with no carry. -/
theorem addDec_skips :
    let c : Core := { (default : Core) with a := 0x55 }
    IsBcd (c.get .a .u8).toNat 2 ∧ IsBcd (0x45 : Val .u8).toNat 2 ∧
      (c.addDec (s := .u8) 0x45).get .a .u8 = 0xA0 ∧
      (c.addDec (s := .u8) 0x45).isCarry = false ∧ c.decimalTotal (s := .u8) 0x45 = 100 ∧
      ¬DecimalResult .u8 (c.addDec (s := .u8) 0x45) (c.decimalTotal (s := .u8) 0x45 % 10 ^ 2)
        (10 ^ 2 ≤ c.decimalTotal (s := .u8) 0x45) := by
  refine ⟨by decide, by decide, by decide, by decide, by decide, ?_⟩
  intro h
  exact absurd h.accumulator (by decide)

/-! ### Subtraction -/

/-- The decimal difference that `SubDec` is to give. -/
def decimalDifference (c : Core) {s : Size} (v : Val s) : ℤ :=
  decode (c.get .a s).toNat s.digits - decode v.toNat s.digits - 1 + c.carryIn

/-- The complement of the operand, as a number. -/
theorem toNat_complement {s : Size} (v : Val s) :
    (Val.toU32 (v ^^^ BitVec.allOnes _)).toNat = 16 ^ s.digits - 1 - v.toNat := by
  rw [toNat_toU32, BitVec.xor_allOnes, BitVec.toNat_not, s.pow_digits]

/-- The top digit of a difference, from the digits and the borrow below. -/
theorem top_digit_ne {a v d b e : ℕ} (ha : a < 10) (hv : v < 10) (hb : b ≤ 1) (he : e ≤ 1)
    (hd : d = if decide ((if 16 ≤ a + (15 - v) + b then 1 else 0) = 1) ||
      decide (10 ≤ (a + (15 - v) + b) % 16) then 6 else 0) :
    ((a + (15 - v) + b) % 16 + d + e) % 16 ≠ (a + 9 - v + b) % 10 := by
  by_cases h : 16 ≤ a + (15 - v) + b
  · rw [if_pos h] at hd
    have hsix : d = 6 := hd
    omega
  · rw [if_neg h] at hd
    by_cases h' : 10 ≤ (a + (15 - v) + b) % 16
    · rw [decide_eq_true h'] at hd
      have hsix : d = 6 := hd
      omega
    · rw [decide_eq_false h'] at hd
      have hzero : d = 0 := hd
      omega

/-- The bit above the operands. -/
theorem getLsbD_toU32_digits {s : Size} {k : ℕ} (hk : s.digits = k + 1) (v : Val s) :
    v.toU32.getLsbD (4 * k + 4) = false := by
  have hbits : s.bits ≤ 4 * k + 4 := by
    cases s <;> simp only [Size.digits, Size.bits] at hk ⊢ <;> omega
  rw [Val.toU32, BitVec.getLsbD_setWidth, BitVec.getLsbD_of_ge _ _ hbits, Bool.and_false]

/-- **`SubDec` leaves a wrong top digit.** -/
theorem digit_subDec_ne (c : Core) {s : Size} (v : Val s) {k : ℕ} (hk : s.digits = k + 1)
    (ha : IsBcd (c.get .a s).toNat s.digits) (hv : IsBcd v.toNat s.digits) :
    digit ((c.subDec v).get .a s).toNat k ≠
      (c.decimalDifference v % ((10 ^ s.digits : ℕ) : ℤ)).toNat / 10 ^ k % 10 := by
  have hc := c.carryIn_le
  have ha' : IsBcd (c.get .a s).toNat (k + 1) := hk ▸ ha
  have hv' : IsBcd v.toNat (k + 1) := hk ▸ hv
  have hn : k < 8 := by
    have : s.digits < 8 := by cases s <;> decide
    omega
  have hvlt : v.toNat < 16 ^ (k + 1) := hk ▸ s.toNat_lt_digits v
  have halt : (c.get .a s).toNat < 16 ^ (k + 1) := hk ▸ s.toNat_lt_digits (c.get .a s)
  have hpow : 16 ^ (k + 1) ≤ 2 ^ 16 := by
    rw [← hk]
    cases s <;> decide
  have hcomplement := toNat_complement v
  have hbit := getLsbD_toU32_digits hk v
  have hbit' := getLsbD_toU32_digits hk (v ^^^ BitVec.allOnes _)
  have hx := toNat_toU32 (c.get .a s)
  rw [hk] at hcomplement
  obtain ⟨hacc, -, -⟩ := decimal_write (c := c) (s := s)
    (decimalAdjust ((c.get .a s).toU32 + Val.toU32 (v ^^^ BitVec.allOnes _) +
      (c.carry >>> 1 &&& 1)) (c.get .a s).toU32 v.toU32) (rfl : c.subDec v = _)
  have hdiff := div_difference ha' hv' hc
  rw [hacc, decimalDifference, hk, hdiff, digit_mod (Nat.lt_succ_self k)]
  have hr : ((c.get .a s).toU32 + Val.toU32 (v ^^^ BitVec.allOnes _) +
      (c.carry >>> 1 &&& 1)).toNat = (c.get .a s).toU32.toNat +
        (Val.toU32 (v ^^^ BitVec.allOnes _)).toNat + c.carryIn := by
    rw [BitVec.toNat_add, BitVec.toNat_add, toNat_carryIn]
    omega
  generalize (c.get .a s).toU32 + Val.toU32 (v ^^^ BitVec.allOnes _) + (c.carry >>> 1 &&& 1) = r
    at hr ⊢
  generalize Val.toU32 (v ^^^ BitVec.allOnes _) = y' at hr hbit' hcomplement
  -- The marks are those of the sum with the complement at the top digit only.
  have hmark : (r ^^^ (c.get .a s).toU32 ^^^ v.toU32).getLsbD (4 * k + 4) =
      decide (Bcd.carry (c.get .a s).toU32.toNat y'.toNat c.carryIn (k + 1) = 1) := by
    rw [← getLsbD_xor_sum hc hr k, BitVec.getLsbD_xor,
      BitVec.getLsbD_xor (x := r ^^^ (c.get .a s).toU32) (y := y'), hbit, hbit']
  have hadj := digit_adjustment r (c.get .a s).toU32 v.toU32 hn
  rw [hmark, carry_succ hc] at hadj
  rw [toNat_decimalAdjust (by omega), ← Nat.add_zero (_ + _), digit_add (Nat.zero_le 1), hr,
    digit_add hc]
  rw [hr, digit_add hc] at hadj
  rw [hx, hcomplement, digit_complement hvlt,
    carry_complement (ha'.mono (Nat.le_succ k)) (hv'.mono (Nat.le_succ k)) hc hvlt] at hadj ⊢
  refine top_digit_ne (ha' k (Nat.lt_succ_self k)) (hv' k (Nat.lt_succ_self k)) ?_
    (carry_le _ _ _ _) hadj
  split <;> omega

/-- **`SubDec` subtracts no two decimals right**: in both widths, for all operands and either
carry, the accumulator is not left with the code of the difference. -/
theorem subDec_never (c : Core) {s : Size} (v : Val s) (ha : IsBcd (c.get .a s).toNat s.digits)
    (hv : IsBcd v.toNat s.digits) :
    ¬DecimalResult s (c.subDec v) (c.decimalDifference v % ((10 ^ s.digits : ℕ) : ℤ)).toNat
      (0 ≤ c.decimalDifference v) := by
  intro h
  obtain ⟨k, hk⟩ : ∃ k, s.digits = k + 1 := by
    cases s
    · exact ⟨1, rfl⟩
    · exact ⟨3, rfl⟩
  refine digit_subDec_ne c v hk ha hv ?_
  rw [h.accumulator, digit_encode (by omega)]

/-- `10 - 01`. -/
theorem subDec_never_ten :
    let c : Core := { (default : Core) with a := 0x10, carry := 2 }
    ¬DecimalResult .u8 (c.subDec (s := .u8) 0x01)
      (c.decimalDifference (s := .u8) 0x01 % ((10 ^ 2 : ℕ) : ℤ)).toNat
      (0 ≤ c.decimalDifference (s := .u8) 0x01) :=
  subDec_never (s := .u8) { (default : Core) with a := 0x10, carry := 2 } 0x01 (by decide)
    (by decide)

/-- `10 - 01` leaves `75` in the accumulator instead of `09`. -/
theorem subDec_wrong :
    let c : Core := { (default : Core) with a := 0x10, carry := 2 }
    IsBcd (c.get .a .u8).toNat 2 ∧ IsBcd (0x01 : Val .u8).toNat 2 ∧
      (c.subDec (s := .u8) 0x01).get .a .u8 = 0x75 ∧
      c.decimalDifference (s := .u8) 0x01 = 9 ∧
      ¬DecimalResult .u8 (c.subDec (s := .u8) 0x01)
        (c.decimalDifference (s := .u8) 0x01 % ((10 ^ 2 : ℕ) : ℤ)).toNat
        (0 ≤ c.decimalDifference (s := .u8) 0x01) := by
  refine ⟨by decide, by decide, by decide, by decide, ?_⟩
  intro h
  exact absurd h.accumulator (by decide)

end Core

end RetroCpu
