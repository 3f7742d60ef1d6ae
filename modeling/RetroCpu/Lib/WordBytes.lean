import Mathlib.Tactic.Common

/-!
# The two bytes of a 16-bit word

A register is a union of a 16-bit word and its two bytes.  `lo` and `hi` read a
byte, `setLo` and `setHi` write one and keep the other, and `h ++ l` is the word
with high byte `h` and low byte `l`.
-/

namespace WordBytes

/-- `u8[0]`. -/
def lo (r : BitVec 16) : BitVec 8 := r.extractLsb' 0 8

/-- `u8[1]`. -/
def hi (r : BitVec 16) : BitVec 8 := r.extractLsb' 8 8

/-- Write the low byte. -/
def setLo (r : BitVec 16) (v : BitVec 8) : BitVec 16 := hi r ++ v

/-- Write the high byte. -/
def setHi (r : BitVec 16) (v : BitVec 8) : BitVec 16 := v ++ lo r

theorem toNat_lo (r : BitVec 16) : (lo r).toNat = r.toNat % 256 := by
  simp [lo]

theorem toNat_hi (r : BitVec 16) : (hi r).toNat = r.toNat / 256 := by
  simp only [hi, BitVec.extractLsb'_toNat, Nat.shiftRight_eq_div_pow]
  have := r.isLt
  omega

theorem toNat_append (h l : BitVec 8) : (h ++ l).toNat = h.toNat * 256 + l.toNat := by
  rw [BitVec.toNat_append, ← Nat.shiftLeft_add_eq_or_of_lt l.isLt, Nat.shiftLeft_eq]

@[simp] theorem lo_append (h l : BitVec 8) : lo (h ++ l) = l := by
  apply BitVec.eq_of_toNat_eq
  rw [toNat_lo, toNat_append]
  have := l.isLt
  omega

@[simp] theorem hi_append (h l : BitVec 8) : hi (h ++ l) = h := by
  apply BitVec.eq_of_toNat_eq
  rw [toNat_hi, toNat_append]
  have := l.isLt
  omega

@[simp] theorem hi_append_lo (r : BitVec 16) : hi r ++ lo r = r := by
  apply BitVec.eq_of_toNat_eq
  rw [toNat_append, toNat_hi, toNat_lo]
  omega

@[simp] theorem lo_setLo (r : BitVec 16) (v : BitVec 8) : lo (setLo r v) = v := lo_append _ _

@[simp] theorem hi_setLo (r : BitVec 16) (v : BitVec 8) : hi (setLo r v) = hi r := hi_append _ _

@[simp] theorem lo_setHi (r : BitVec 16) (v : BitVec 8) : lo (setHi r v) = lo r := lo_append _ _

@[simp] theorem hi_setHi (r : BitVec 16) (v : BitVec 8) : hi (setHi r v) = v := hi_append _ _

theorem ext {r r' : BitVec 16} (hh : hi r = hi r') (hl : lo r = lo r') : r = r' := by
  rw [← hi_append_lo r, hh, hl, hi_append_lo]

/-- Masking an address with `0xFFFF` keeps its low word. -/
theorem and_wordMask (x : BitVec 32) : x &&& 0xFFFF = (x.setWidth 16).setWidth 32 := by
  have h : (0xFFFF : BitVec 32).toNat = 2 ^ 16 - 1 := by decide
  apply BitVec.eq_of_toNat_eq
  rw [BitVec.toNat_and, h, Nat.and_two_pow_sub_one_eq_mod]
  simp only [BitVec.toNat_setWidth]
  omega

theorem setWidth_and_wordMask (v : BitVec 16) : v.setWidth 32 &&& 0xFFFF = v.setWidth 32 := by
  rw [and_wordMask]
  congr 1
  bv_omega

end WordBytes
