import Mathlib.Algebra.Group.Nat.Defs
import Mathlib.Tactic.Ring

/-!
# Binary-coded decimals

A number whose hexadecimal digits are all below 10 can be read as a decimal.  `decode` reads the
lowest `n` digits so and `encode` writes the lowest `n` decimal digits of a number.

The second half is about decimal addition by correction: the numbers are added in binary, and 6
is added to each digit that is past 9 or has carried, all at once.  The carries that are looked
at are those of the binary sum, so a digit of 9 that is to get its carry from the correction of
a lower digit is not corrected itself.  `Skips` says that there is such a digit, and the sum is
right just when there is none.
-/

namespace Bcd

/-- The digit of weight `16 ^ k`. -/
def digit (x k : ℕ) : ℕ := x / 16 ^ k % 16

/-- The value of the lowest digits, read as decimal digits. -/
def decode (x : ℕ) : ℕ → ℕ
  | 0 => 0
  | k + 1 => decode x k + digit x k * 10 ^ k

/-- The lowest decimal digits. -/
def encode (v : ℕ) : ℕ → ℕ
  | 0 => 0
  | k + 1 => encode v k + v / 10 ^ k % 10 * 16 ^ k

/-- The lowest `n` digits are decimal digits. -/
def IsBcd (x n : ℕ) : Prop := ∀ k < n, digit x k < 10

theorem IsBcd.mono {x m n : ℕ} (h : IsBcd x n) (hmn : m ≤ n) : IsBcd x m :=
  fun k hk => h k (Nat.lt_of_lt_of_le hk hmn)

instance (x n : ℕ) : Decidable (IsBcd x n) :=
  inferInstanceAs (Decidable (∀ k < n, digit x k < 10))

theorem digit_lt (x k : ℕ) : digit x k < 16 := Nat.mod_lt _ (by decide)

/-- The lowest `k + 1` digits are the lowest `k` and one more. -/
theorem mod_succ (x k : ℕ) : x % 16 ^ (k + 1) = x % 16 ^ k + digit x k * 16 ^ k := by
  rw [Nat.mod_pow_succ, Nat.mul_comm]
  rfl

theorem digit_mod {x k n : ℕ} (h : k < n) : digit (x % 16 ^ n) k = digit x k := by
  obtain ⟨d, rfl⟩ : ∃ d, n = k + (d + 1) := ⟨n - k - 1, by omega⟩
  rw [digit, digit, Nat.pow_add, Nat.mod_mul_right_div_self, Nat.pow_succ']
  exact Nat.mod_mul_right_mod _ _ _

/-- A number below `16 ^ k` with a digit put before it. -/
theorem digit_add_mul {r k : ℕ} (h : r < 16 ^ k) (q : ℕ) : digit (r + q * 16 ^ k) k = q % 16 := by
  rw [digit, Nat.add_mul_div_right _ _ (Nat.pos_of_ne_zero (by omega)), Nat.div_eq_of_lt h,
    Nat.zero_add]

theorem encode_lt (v n : ℕ) : encode v n < 16 ^ n := by
  induction n with
  | zero => exact Nat.one_pos
  | succ n ih =>
    have hd : v / 10 ^ n % 10 < 10 := Nat.mod_lt _ (by decide)
    have hm : v / 10 ^ n % 10 * 16 ^ n ≤ 9 * 16 ^ n := Nat.mul_le_mul_right _ (by omega)
    rw [encode, Nat.pow_succ]
    omega

/-- The digits of a code are decimal digits. -/
theorem digit_encode {v n k : ℕ} (h : k < n) : digit (encode v n) k = v / 10 ^ k % 10 := by
  have hd : v / 10 ^ k % 10 < 10 := Nat.mod_lt _ (by decide)
  induction n with
  | zero => cases h
  | succ n ih =>
    rw [encode]
    rcases Nat.lt_succ_iff_lt_or_eq.mp h with hlt | rfl
    · rw [← ih hlt, ← digit_mod (x := encode v n + _) hlt, Nat.add_mul_mod_self_right,
        digit_mod hlt]
    · rw [digit_add_mul (encode_lt v k)]
      omega

theorem encode_congr {v v' n : ℕ} (h : ∀ k < n, v / 10 ^ k % 10 = v' / 10 ^ k % 10) :
    encode v n = encode v' n := by
  induction n with
  | zero => rfl
  | succ n ih =>
    rw [encode, encode, ih fun k hk => h k (Nat.lt_succ_of_lt hk), h n (Nat.lt_succ_self n)]

theorem encode_mod (v n : ℕ) : encode (v % 10 ^ n) n = encode v n := by
  refine encode_congr fun k hk => ?_
  obtain ⟨d, rfl⟩ : ∃ d, n = k + (d + 1) := ⟨n - k - 1, by omega⟩
  rw [Nat.pow_add, Nat.mod_mul_right_div_self, Nat.pow_succ']
  exact Nat.mod_mul_right_mod _ _ _

theorem encode_eq_zero_iff (v n : ℕ) : encode v n = 0 ↔ v % 10 ^ n = 0 := by
  induction n with
  | zero => exact iff_of_true rfl (Nat.mod_one v)
  | succ n ih =>
    have h16 : 0 < 16 ^ n := Nat.pow_pos (by decide)
    have h10 : 0 < 10 ^ n := Nat.pow_pos (by decide)
    rw [encode, Nat.mod_pow_succ, Nat.add_eq_zero_iff, Nat.add_eq_zero_iff, ih, Nat.mul_eq_zero,
      Nat.mul_eq_zero]
    omega

theorem decode_lt {x n : ℕ} (h : IsBcd x n) : decode x n < 10 ^ n := by
  induction n with
  | zero => exact Nat.one_pos
  | succ n ih =>
    have hd := h n (Nat.lt_succ_self n)
    have hm : digit x n * 10 ^ n ≤ 9 * 10 ^ n := Nat.mul_le_mul_right _ (by omega)
    have hlt := ih (h.mono (Nat.le_succ n))
    rw [decode, Nat.pow_succ]
    omega

/-- **Codes are in the order of their values.** -/
theorem decode_lt_iff {x y n : ℕ} (hx : IsBcd x n) (hy : IsBcd y n) :
    decode x n < decode y n ↔ x % 16 ^ n < y % 16 ^ n := by
  induction n with
  | zero => simp [decode, Nat.mod_one]
  | succ n ih =>
    have ih := ih (hx.mono (Nat.le_succ n)) (hy.mono (Nat.le_succ n))
    have hdx := decode_lt (hx.mono (Nat.le_succ n))
    have hdy := decode_lt (hy.mono (Nat.le_succ n))
    have h16 : 0 < 16 ^ n := Nat.pow_pos (by decide)
    have hmx : x % 16 ^ n < 16 ^ n := Nat.mod_lt _ h16
    have hmy : y % 16 ^ n < 16 ^ n := Nat.mod_lt _ h16
    have hstep : ∀ {d e r s p : ℕ}, r < p → s < p → d < e → r + d * p < s + e * p := by
      intro d e r s p hr hs hde
      have hm : (d + 1) * p ≤ e * p := Nat.mul_le_mul_right p hde
      rw [Nat.add_mul] at hm
      omega
    rw [decode, decode, mod_succ, mod_succ]
    rcases Nat.lt_trichotomy (digit x n) (digit y n) with hlt | heq | hgt
    · exact iff_of_true (hstep hdx hdy hlt) (hstep hmx hmy hlt)
    · rw [heq]
      omega
    · have h1 := hstep hdy hdx hgt
      have h2 := hstep hmy hmx hgt
      omega

/-! ### Carries -/

/-- The carry of a binary sum into the digit `k`. -/
def carry (x y c k : ℕ) : ℕ := if 16 ^ k ≤ x % 16 ^ k + y % 16 ^ k + c then 1 else 0

theorem carry_le (x y c k : ℕ) : carry x y c k ≤ 1 := by
  unfold carry
  split <;> omega

/-- A sum of two numbers and a carry, divided. -/
theorem add_div {x y c p : ℕ} (hp : 0 < p) (hc : c ≤ 1) :
    (x + y + c) / p = x / p + y / p + if p ≤ x % p + y % p + c then 1 else 0 := by
  have hx := Nat.mod_lt x hp
  have hy := Nat.mod_lt y hp
  have hsum : x + y + c = (x % p + y % p + c) + (x / p + y / p) * p := by
    have hx' := Nat.mod_add_div x p
    have hy' := Nat.mod_add_div y p
    rw [Nat.add_mul, Nat.mul_comm (x / p), Nat.mul_comm (y / p)]
    omega
  rw [hsum, Nat.add_mul_div_right _ _ hp, Nat.add_comm]
  congr 1
  split
  · next h => exact Nat.div_eq_of_lt_le (by omega) (by omega)
  · next h => exact Nat.div_eq_of_lt (by omega)

theorem digit_add {x y c : ℕ} (hc : c ≤ 1) (k : ℕ) :
    digit (x + y + c) k = (digit x k + digit y k + carry x y c k) % 16 := by
  rw [digit, add_div (Nat.pow_pos (by decide)) hc, digit, digit, carry]
  omega

/-- A partial sum is one carry and what is left of it. -/
theorem carry_bounds {x y c : ℕ} (hc : c ≤ 1) (k : ℕ) :
    carry x y c k * 16 ^ k ≤ x % 16 ^ k + y % 16 ^ k + c ∧
      x % 16 ^ k + y % 16 ^ k + c < (carry x y c k + 1) * 16 ^ k := by
  have h16 : 0 < 16 ^ k := Nat.pow_pos (by decide)
  have hx := Nat.mod_lt x h16
  have hy := Nat.mod_lt y h16
  unfold carry
  split <;> omega

theorem carry_succ {x y c : ℕ} (hc : c ≤ 1) (k : ℕ) :
    carry x y c (k + 1) = if 16 ≤ digit x k + digit y k + carry x y c k then 1 else 0 := by
  obtain ⟨hlo, hhi⟩ := carry_bounds (x := x) (y := y) hc k
  have hsum : x % 16 ^ (k + 1) + y % 16 ^ (k + 1) + c =
      x % 16 ^ k + y % 16 ^ k + c + (digit x k + digit y k) * 16 ^ k := by
    rw [mod_succ, mod_succ, Nat.add_mul]
    omega
  rw [carry, hsum, Nat.pow_succ']
  generalize carry x y c k = b at hlo hhi ⊢
  generalize digit x k + digit y k = d
  by_cases h : 16 ≤ d + b
  · have hm : 16 * 16 ^ k ≤ (d + b) * 16 ^ k := Nat.mul_le_mul_right _ h
    rw [Nat.add_mul] at hm
    rw [if_pos h, if_pos (by omega)]
  · have hm : (d + (b + 1)) * 16 ^ k ≤ 16 * 16 ^ k := Nat.mul_le_mul_right _ (by omega)
    rw [Nat.add_mul] at hm
    rw [if_neg h, if_neg (by omega)]

/-! ### Complements -/

/-- The complement of a number, as its top digit and the rest. -/
theorem complement_eq {y k : ℕ} (h : y < 16 ^ (k + 1)) :
    16 ^ (k + 1) - 1 - y = 16 ^ k - 1 - y % 16 ^ k + (15 - digit y k) * 16 ^ k := by
  have hy := mod_succ y k
  have hlt : y % 16 ^ k < 16 ^ k := Nat.mod_lt _ (Nat.pow_pos (by decide))
  have hd := digit_lt y k
  have hm : 15 * 16 ^ k = (15 - digit y k) * 16 ^ k + digit y k * 16 ^ k := by
    rw [← Nat.add_mul]
    congr 1
    omega
  rw [Nat.mod_eq_of_lt h] at hy
  rw [Nat.pow_succ']
  omega

theorem digit_complement {y k : ℕ} (h : y < 16 ^ (k + 1)) :
    digit (16 ^ (k + 1) - 1 - y) k = 15 - digit y k := by
  have hp : 0 < 16 ^ k := Nat.pow_pos (by decide)
  rw [complement_eq h, digit_add_mul (by omega)]
  omega

/-- **The carry of a sum with a complement is a decimal borrow turned round.** -/
theorem carry_complement {x y c k : ℕ} (hx : IsBcd x k) (hy : IsBcd y k) (hc : c ≤ 1)
    (h : y < 16 ^ (k + 1)) : carry x (16 ^ (k + 1) - 1 - y) c k =
      if decode y k + 1 ≤ decode x k + c then 1 else 0 := by
  have hp : 0 < 16 ^ k := Nat.pow_pos (by decide)
  have hlt : y % 16 ^ k < 16 ^ k := Nat.mod_lt _ hp
  have hxy := decode_lt_iff hx hy
  have hyx := decode_lt_iff hy hx
  rw [carry, complement_eq h, Nat.add_mul_mod_self_right,
    Nat.mod_eq_of_lt (by omega : 16 ^ k - 1 - y % 16 ^ k < 16 ^ k)]
  congr 1
  apply propext
  omega

/-- The top digit of a decimal difference. -/
theorem div_difference {x y c k : ℕ} (hx : IsBcd x (k + 1)) (hy : IsBcd y (k + 1)) (hc : c ≤ 1) :
    (((decode x (k + 1) : ℤ) - decode y (k + 1) - 1 + c) % ((10 ^ (k + 1) : ℕ) : ℤ)).toNat /
        10 ^ k % 10 =
      (digit x k + 9 - digit y k + if decode y k + 1 ≤ decode x k + c then 1 else 0) % 10 := by
  have hdx := decode_lt (hx.mono (Nat.le_succ k))
  have hdy := decode_lt (hy.mono (Nat.le_succ k))
  have hdigit := hy k (Nat.lt_succ_self k)
  have hq : 0 < 10 ^ k := Nat.pow_pos (by decide)
  have hm : (digit x k + 9) * 10 ^ k =
      (digit x k + 9 - digit y k) * 10 ^ k + digit y k * 10 ^ k := by
    rw [← Nat.add_mul]
    congr 1
    omega
  have hm' : (digit x k + 9) * 10 ^ k = digit x k * 10 ^ k + 9 * 10 ^ k := Nat.add_mul _ _ _
  -- The difference and a whole turn, as a natural number.
  have hturn : (decode x (k + 1) : ℤ) - decode y (k + 1) - 1 + c =
      ((decode x k + (10 ^ k - 1 - decode y k) + c +
        (digit x k + 9 - digit y k) * 10 ^ k : ℕ) : ℤ) - ((10 ^ (k + 1) : ℕ) : ℤ) := by
    rw [decode, decode, Nat.pow_succ']
    omega
  rw [hturn, Int.sub_emod_right, ← Int.natCast_emod, Int.toNat_natCast, Nat.pow_succ',
    Nat.mul_comm 10, Nat.mod_mul_right_div_self, Nat.mod_mod, Nat.add_mul_div_right _ _ hq,
    Nat.add_comm]
  congr 2
  split
  · next hle => exact Nat.div_eq_of_lt_le (by omega) (by omega)
  · next hlt => exact Nat.div_eq_of_lt (by omega)

/-! ### Correction -/

/-- `adj` has a 6 where a digit of the binary sum is past 9 or has carried. -/
def Corrects (x y c adj n : ℕ) : Prop :=
  ∀ k < n, digit adj k = if 10 ≤ digit x k + digit y k + carry x y c k then 6 else 0

/-- The digits at `k` are 9 together, and the carry into them is one that only the correction of
the lower digits makes. -/
def Skips (x y c k : ℕ) : Prop :=
  digit x k + digit y k = 9 ∧ 10 ^ k ≤ decode x k + decode y k + c ∧
    x % 16 ^ k + y % 16 ^ k + c < 16 ^ k

instance (x y c k : ℕ) : Decidable (Skips x y c k) :=
  inferInstanceAs (Decidable (_ ∧ _ ∧ _))

/-- The lowest `n` digits of a number that is a sum of two decimals and a carry. -/
def decimalSum (d n : ℕ) : ℕ := encode d n + if 10 ^ n ≤ d then 16 ^ n else 0

variable {x y c adj n : ℕ}

theorem Corrects.mono (h : Corrects x y c adj (n + 1)) : Corrects x y c adj n :=
  fun k hk => h k (Nat.lt_succ_of_lt hk)

/-- One more digit of a sum. -/
theorem sum_succ (x y c adj k : ℕ) :
    x % 16 ^ (k + 1) + y % 16 ^ (k + 1) + c + adj % 16 ^ (k + 1) =
      x % 16 ^ k + y % 16 ^ k + c + adj % 16 ^ k +
        (digit x k + digit y k + digit adj k) * 16 ^ k := by
  rw [mod_succ, mod_succ, mod_succ, Nat.add_mul, Nat.add_mul]
  omega

/-- The carry of a decimal sum into the digit `k`. -/
def decimalCarry (d k : ℕ) : ℕ := if 10 ^ k ≤ d then 1 else 0

theorem decimalSum_eq (d k : ℕ) : decimalSum d k = encode d k + decimalCarry d k * 16 ^ k := by
  rw [decimalSum, decimalCarry]
  split <;> omega

theorem decimalSum_lt (d k : ℕ) : decimalSum d k < 2 * 16 ^ k := by
  have h := encode_lt d k
  rw [decimalSum]
  split <;> omega

/-- The carry out of a decimal sum. -/
theorem le_decimalSum_iff (d k : ℕ) : 16 ^ k ≤ decimalSum d k ↔ 10 ^ k ≤ d := by
  have h := encode_lt d k
  rw [decimalSum]
  split <;> omega

theorem div_ten_pow {d k : ℕ} (h : d < 2 * 10 ^ k) : d / 10 ^ k = decimalCarry d k := by
  rw [decimalCarry]
  split
  · next hle => exact Nat.div_eq_of_lt_le (by omega) (by omega)
  · next hlt => exact Nat.div_eq_of_lt (by omega)

/-- One more digit of a decimal sum. -/
theorem decimalSum_succ {d s k : ℕ} (hd : d < 2 * 10 ^ k) (hs : s ≤ 18) :
    decimalSum (d + s * 10 ^ k) (k + 1) = encode d k +
      (s + decimalCarry d k + if 10 ≤ s + decimalCarry d k then 6 else 0) * 16 ^ k := by
  have h10 : 0 < 10 ^ k := Nat.pow_pos (by decide)
  have hlow : encode (d + s * 10 ^ k) k = encode d k := by
    rw [← encode_mod, Nat.add_mul_mod_self_right, encode_mod]
  have hq : (d + s * 10 ^ k) / 10 ^ k = s + decimalCarry d k := by
    rw [Nat.add_mul_div_right _ _ h10, div_ten_pow hd, Nat.add_comm]
  have htop : 10 ^ (k + 1) ≤ d + s * 10 ^ k ↔ 10 ≤ s + decimalCarry d k := by
    rw [← hq, Nat.le_div_iff_mul_le h10, Nat.pow_succ']
  have hc : decimalCarry d k ≤ 1 := by
    unfold decimalCarry
    split <;> omega
  rw [decimalSum, encode, hlow, hq, Nat.pow_succ']
  simp only [htop, ← Nat.pow_succ']
  generalize decimalCarry d k = b at hc ⊢
  by_cases h : 10 ≤ s + b
  · have hmod : (s + b) % 10 + 16 = s + b + 6 := by omega
    rw [if_pos h, if_pos h, ← hmod, Nat.add_mul, Nat.pow_succ', Nat.add_assoc]
  · rw [if_neg h, if_neg h, Nat.mod_eq_of_lt (by omega), Nat.add_zero, Nat.add_zero]

theorem decodes_lt {k : ℕ} (hx : IsBcd x k) (hy : IsBcd y k) (hc : c ≤ 1) :
    decode x k + decode y k + c < 2 * 10 ^ k := by
  have hdx := decode_lt hx
  have hdy := decode_lt hy
  omega

/-- **Where no digit is skipped, the corrected sum is the decimal sum.** -/
theorem corrected_eq (hx : IsBcd x n) (hy : IsBcd y n) (hc : c ≤ 1) (hadj : Corrects x y c adj n)
    (h : ∀ k < n, ¬Skips x y c k) :
    x % 16 ^ n + y % 16 ^ n + c + adj % 16 ^ n = decimalSum (decode x n + decode y n + c) n := by
  induction n with
  | zero =>
    obtain rfl | rfl : c = 0 ∨ c = 1 := by omega
    · simp only [Nat.pow_zero, Nat.mod_one]
      rfl
    · simp only [Nat.pow_zero, Nat.mod_one]
      rfl
  | succ k ih =>
    have hx' := hx.mono (Nat.le_succ k)
    have hy' := hy.mono (Nat.le_succ k)
    have hlow := ih hx' hy' hadj.mono fun j hj => h j (Nat.lt_succ_of_lt hj)
    have hskip := h k (Nat.lt_succ_self k)
    have hdx := hx k (Nat.lt_succ_self k)
    have hdy := hy k (Nat.lt_succ_self k)
    have hd : decode x (k + 1) + decode y (k + 1) + c =
        decode x k + decode y k + c + (digit x k + digit y k) * 10 ^ k := by
      rw [decode, decode, Nat.add_mul]
      omega
    have hlt := encode_lt (decode x k + decode y k + c) k
    rw [sum_succ, hlow, hd, decimalSum_succ (decodes_lt hx' hy' hc) (by omega),
      hadj k (Nat.lt_succ_self k), decimalSum_eq]
    rw [decimalSum_eq] at hlow
    -- A binary carry is a decimal one, and where the converse fails the digits are not 9.
    have hcarry : (10 ≤ digit x k + digit y k + carry x y c k) ↔
        10 ≤ digit x k + digit y k + decimalCarry (decode x k + decode y k + c) k := by
      unfold Skips at hskip
      by_cases hle : 10 ^ k ≤ decode x k + decode y k + c
      · have h1 : decimalCarry (decode x k + decode y k + c) k = 1 := if_pos hle
        rw [h1, carry]
        split <;> omega
      · have h0 : decimalCarry (decode x k + decode y k + c) k = 0 := if_neg hle
        rw [h0] at hlow ⊢
        rw [carry, if_neg (by omega)]
    simp only [hcarry, Nat.add_mul]
    omega

theorem sum_mod (x y c adj n : ℕ) : (x + y + c + adj) % 16 ^ n =
    (x % 16 ^ n + y % 16 ^ n + c + adj % 16 ^ n) % 16 ^ n := by
  simp only [Nat.add_mod, Nat.mod_mod]

/-- The first digit that is skipped becomes a 10. -/
theorem exists_digit_eq_ten (hx : IsBcd x n) (hy : IsBcd y n) (hc : c ≤ 1)
    (hadj : Corrects x y c adj n) (h : ∃ k < n, Skips x y c k) :
    ∃ k < n, digit (x + y + c + adj) k = 10 := by
  classical
  have hk := Nat.find_spec h
  have hfirst : ∀ j < Nat.find h, ¬Skips x y c j := by
    intro j hj hskip
    exact Nat.find_min h hj ⟨Nat.lt_trans hj hk.1, hskip⟩
  generalize Nat.find h = k at hk hfirst
  obtain ⟨hkn, hskip⟩ := hk
  obtain ⟨hnine, hdecimal, hbinary⟩ := hskip
  have hlow := corrected_eq (hx.mono hkn.le) (hy.mono hkn.le) hc
    (fun j hj => hadj j (Nat.lt_trans hj hkn)) hfirst
  have hd := hadj k hkn
  rw [hnine, carry, if_neg (Nat.not_le.mpr hbinary), if_neg (by decide)] at hd
  have hten : 16 ^ k + (9 + 0) * 16 ^ k = 10 * 16 ^ k := by omega
  refine ⟨k, hkn, ?_⟩
  rw [← digit_mod (Nat.lt_succ_self k), sum_mod, digit_mod (Nat.lt_succ_self k), sum_succ, hlow,
    hnine, hd, decimalSum, if_pos hdecimal, Nat.add_assoc, hten, digit_add_mul (encode_lt _ _)]

/-- **The corrected sum has the digits of the decimal sum just when no digit is skipped.** -/
theorem corrected_eq_encode_iff (hx : IsBcd x n) (hy : IsBcd y n) (hc : c ≤ 1)
    (hadj : Corrects x y c adj n) :
    (x + y + c + adj) % 16 ^ n = encode (decode x n + decode y n + c) n ↔
      ∀ k < n, ¬Skips x y c k := by
  constructor
  · intro heq k hk hskip
    obtain ⟨j, hj, hten⟩ := exists_digit_eq_ten hx hy hc hadj ⟨k, hk, hskip⟩
    rw [← digit_mod hj, heq, digit_encode hj] at hten
    omega
  · intro h
    rw [sum_mod, corrected_eq hx hy hc hadj h, decimalSum_eq, Nat.add_mul_mod_self_right,
      Nat.mod_eq_of_lt (encode_lt _ _)]

end Bcd
