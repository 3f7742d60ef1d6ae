import Mathlib.Algebra.Group.Nat.Defs
import Mathlib.Tactic.Common

/-!
# Little-endian numbers in a list of bytes

`leBytes n x` is `x` in `n` bytes, lowest first, and `leNat` reads such a list
back.  `field data i n` is the number of `n` bytes at offset `i`, and the lemmas
on `field` find a number in a concatenation of records.
-/

/-- The lowest `n` bytes of `x`, lowest first. -/
def leBytes : ℕ → ℕ → List (BitVec 8)
  | 0, _ => []
  | n + 1, x => BitVec.ofNat 8 x :: leBytes n (x / 256)

/-- The number a list of bytes stands for. -/
def leNat : List (BitVec 8) → ℕ
  | [] => 0
  | b :: bs => b.toNat + 256 * leNat bs

@[simp] theorem length_leBytes (n x : ℕ) : (leBytes n x).length = n := by
  induction n generalizing x with
  | zero => rfl
  | succ n ih => simp [leBytes, ih]

theorem leNat_leBytes {n x : ℕ} (h : x < 256 ^ n) : leNat (leBytes n x) = x := by
  induction n generalizing x with
  | zero =>
    have : x = 0 := by simpa using h
    simp [leBytes, leNat, this]
  | succ n ih =>
    have hx : x / 256 < 256 ^ n := Nat.div_lt_of_lt_mul (by rw [Nat.pow_succ] at h; omega)
    simp only [leBytes, leNat, ih hx, BitVec.toNat_ofNat]
    omega

/-- The number in the `n` bytes at offset `i`. -/
def field (data : List (BitVec 8)) (i n : ℕ) : ℕ := leNat ((data.drop i).take n)

/-- The first record of a concatenation. -/
theorem ofNat_field_leBytes {w n : ℕ} (v : BitVec w) (h : 2 ^ w ≤ 256 ^ n)
    (rest : List (BitVec 8)) : BitVec.ofNat w (field (leBytes n v.toNat ++ rest) 0 n) = v := by
  have hv : v.toNat < 256 ^ n := Nat.lt_of_lt_of_le v.isLt h
  simp [field, leNat_leBytes hv]

/-- The later records of a concatenation. -/
theorem field_append {k i n : ℕ} {bs : List (BitVec 8)} (h : bs.length = k) (hki : k ≤ i)
    (rest : List (BitVec 8)) : field (bs ++ rest) i n = field rest (i - k) n := by
  subst h
  simp [field, List.drop_append, List.drop_eq_nil_of_le hki]
