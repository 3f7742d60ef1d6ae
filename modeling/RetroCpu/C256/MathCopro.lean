import RetroCpu.C256.Gavin
import RetroCpu.Lib.LittleEndian
import Mathlib.Algebra.Group.Nat.Defs
import Mathlib.Algebra.Group.Int.Defs
import Mathlib.Data.BitVec

/-!
# The math coprocessor

Five units share the registers `0x00` to `0x2B`, operands first and results after them.  A write
to a register of a unit computes the results anew.

* `MathUnit.Computes`: the results of a unit are those of its operands, as numbers of little-endian
  bytes.
* `MathUnit.computes_run`: a unit computes; `MathUnit.run_of_not_owns`: and leaves the registers of
  the others alone.
* `MathUnit.computes_write`: **after writes, a unit that was written computes.**

The signed units compute what the unsigned ones do, so `signedProduct_iff` and `signedQuotient_iff`
say for which operands that is the signed result.
-/

namespace RetroCpu.C256

namespace Registers

/-! ### Numbers in the registers -/

def nat (r : Registers) (i : Byte) (n : ℕ) : ℕ :=
  leNat ((List.range n).map fun k => r (i + BitVec.ofNat 8 k))

theorem nat_two (r : Registers) (i : Byte) : r.nat i 2 = (r i).toNat + 256 * (r (i + 1)).toNat := by
  simp [nat, leNat, List.range_succ]

theorem nat_four (r : Registers) (i : Byte) : r.nat i 4 = (r i).toNat + 256 * ((r (i + 1)).toNat +
    256 * ((r (i + 2)).toNat + 256 * (r (i + 3)).toNat)) := by
  simp [nat, leNat, List.range_succ]

theorem nat_congr {r r' : Registers} {i : Byte} {n : ℕ}
    (h : ∀ k < n, r (i + BitVec.ofNat 8 k) = r' (i + BitVec.ofNat 8 k)) :
    r.nat i n = r'.nat i n := by
  rw [nat, nat]
  refine congrArg leNat (List.map_congr_left fun k hk => h k (List.mem_range.mp hk))

theorem toNat_get16 (r : Registers) (i : Byte) : (r.get16 i).toNat = r.nat i 2 := by
  rw [nat_two, get16]
  have := (r i).isLt
  have := (r (i + 1)).isLt
  have h256 : (256 : Word).toNat = 256 := rfl
  simp only [BitVec.toNat_add, BitVec.toNat_mul, BitVec.toNat_setWidth, h256]
  omega

theorem set16_apply (r : Registers) (i j : Byte) (lo hi : Byte) :
    r.set16 i lo hi j = if j = i + 1 then hi else if j = i then lo else r j := by
  simp only [set16, Function.update_apply]

theorem nat_set16 (r : Registers) (i : Byte) (v : Word) :
    (r.set16 i (v.setWidth 8) ((v >>> 8).setWidth 8)).nat i 2 = v.toNat := by
  have hi : i ≠ i + 1 := by bv_omega
  have := v.isLt
  simp only [nat_two, set16_apply, if_true, if_neg hi, BitVec.toNat_setWidth,
    BitVec.toNat_ushiftRight, Nat.shiftRight_eq_div_pow]
  omega

theorem nat_set32 (r : Registers) (i : Byte) (v : BitVec 32) :
    (r.set32 i v).nat i 4 = v.toNat := by
  have h₀ : i ≠ i + 2 ∧ i ≠ i + 2 + 1 ∧ i ≠ i + 1 := by bv_omega
  have h₁ : i + 1 ≠ i + 2 ∧ i + 1 ≠ i + 2 + 1 := by bv_omega
  have h₂ : i + 2 ≠ i + 2 + 1 := by bv_omega
  have h₃ : i + 3 = i + 2 + 1 := by bv_omega
  have := v.isLt
  simp only [nat_four, set32, set16_apply, h₀, h₁, h₂, h₃, if_true, if_false,
    BitVec.toNat_setWidth, BitVec.toNat_ushiftRight, Nat.shiftRight_eq_div_pow]
  omega

theorem set16_frame (r : Registers) {i j : Byte} (lo hi : Byte) (h : 2 ≤ (j - i).toNat) :
    r.set16 i lo hi j = r j := by
  have h₀ : j ≠ i := by bv_omega
  have h₁ : j ≠ i + 1 := by bv_omega
  rw [set16_apply, if_neg h₁, if_neg h₀]

theorem nat_set16_frame (r : Registers) {i j : Byte} {n : ℕ} (lo hi : Byte)
    (h : ∀ k < n, 2 ≤ (j + BitVec.ofNat 8 k - i).toNat) : (r.set16 i lo hi).nat j n = r.nat j n :=
  nat_congr fun k hk => set16_frame r lo hi (h k hk)

theorem set32_frame (r : Registers) {i j : Byte} (v : BitVec 32) (h : 4 ≤ (j - i).toNat) :
    r.set32 i v j = r j := by
  rw [set32, set16_frame _ _ _ (by bv_omega), set16_frame _ _ _ (by bv_omega)]

/-! ### What a unit computes -/

def IsProduct (i : Byte) (r : Registers) : Prop := r.nat (i + 4) 4 = r.nat i 2 * r.nat (i + 2) 2

def IsQuotient (i : Byte) (r : Registers) : Prop :=
  r.nat (i + 4) 2 = (if r.nat (i + 2) 2 = 0 then 0 else r.nat i 2 / r.nat (i + 2) 2) ∧
    r.nat (i + 6) 2 = if r.nat (i + 2) 2 = 0 then 0 else r.nat i 2 % r.nat (i + 2) 2

def IsSum (i : Byte) (r : Registers) : Prop :=
  r.nat (i + 8) 4 = (r.nat i 4 + r.nat (i + 4) 4) % 2 ^ 32

theorem mathCoproUMul_frame (r : Registers) {i j : Byte} (h : 4 ≤ (j - (i + 4)).toNat) :
    r.mathCoproUMul i j = r j := set32_frame r _ h

theorem mathCoproUDiv_frame (r : Registers) {i j : Byte} (h : 4 ≤ (j - (i + 4)).toNat) :
    r.mathCoproUDiv i j = r j := by
  rw [mathCoproUDiv, set16_frame _ _ _ (by bv_omega), set16_frame _ _ _ (by bv_omega)]

theorem mathCoproAdd_frame (r : Registers) {i j : Byte} (h : 4 ≤ (j - (i + 8)).toNat) :
    r.mathCoproAdd i j = r j := set32_frame r _ h

/-- The signed divider is the unsigned one: the sign that `>>` brings in is above the byte. -/
theorem mathCoproSDiv_eq (i : Byte) (r : Registers) : r.mathCoproSDiv i = r.mathCoproUDiv i := by
  have h (v : Word) : (v.sshiftRight 8).setWidth 8 = (v >>> 8).setWidth 8 := by
    refine BitVec.eq_of_getLsbD_eq fun k hk => ?_
    simp only [BitVec.getLsbD_setWidth, BitVec.getLsbD_sshiftRight, BitVec.getLsbD_ushiftRight]
    simp [hk, show 8 + k < 16 by omega, show ¬16 ≤ k by omega]
  simp only [mathCoproSDiv, mathCoproUDiv, h]

theorem product_mathCoproUMul (i : Byte) (r : Registers) : IsProduct i (r.mathCoproUMul i) := by
  have hf {j : Byte} (h : 4 ≤ (j - (i + 4)).toNat) := mathCoproUMul_frame r h
  have ha : (r.mathCoproUMul i).nat i 2 = r.nat i 2 := nat_congr fun k hk => hf (by bv_omega)
  have hb : (r.mathCoproUMul i).nat (i + 2) 2 = r.nat (i + 2) 2 :=
    nat_congr fun k hk => hf (by bv_omega)
  rw [IsProduct, ha, hb, mathCoproUMul, nat_set32, BitVec.toNat_mul, BitVec.toNat_setWidth,
    BitVec.toNat_setWidth, ← toNat_get16, ← toNat_get16]
  have hprod := Nat.mul_le_mul (Nat.le_of_lt_succ (r.get16 i).isLt)
    (Nat.le_of_lt_succ (r.get16 (i + 2)).isLt)
  rw [Nat.mod_eq_of_lt (Nat.lt_trans (r.get16 i).isLt (by decide)),
    Nat.mod_eq_of_lt (Nat.lt_trans (r.get16 (i + 2)).isLt (by decide)),
    Nat.mod_eq_of_lt (Nat.lt_of_le_of_lt hprod (by decide))]

theorem quotient_mathCoproUDiv (i : Byte) (r : Registers) : IsQuotient i (r.mathCoproUDiv i) := by
  have hf {j : Byte} (h : 4 ≤ (j - (i + 4)).toNat) := mathCoproUDiv_frame r h
  have ha : (r.mathCoproUDiv i).nat i 2 = r.nat i 2 := nat_congr fun k hk => hf (by bv_omega)
  have hb : (r.mathCoproUDiv i).nat (i + 2) 2 = r.nat (i + 2) 2 :=
    nat_congr fun k hk => hf (by bv_omega)
  have hb₀ : r.get16 (i + 2) = 0 ↔ r.nat (i + 2) 2 = 0 := by
    rw [← toNat_get16]
    exact ⟨fun h => by rw [h]; rfl, fun h => BitVec.eq_of_toNat_eq h⟩
  rw [IsQuotient, ha, hb]
  constructor
  · rw [mathCoproUDiv, nat_set16_frame _ _ _ (fun k hk => by bv_omega), nat_set16]
    simp only [ne_eq, hb₀, ite_not, apply_ite BitVec.toNat, BitVec.toNat_udiv, toNat_get16]
    rfl
  · rw [mathCoproUDiv, nat_set16]
    simp only [ne_eq, hb₀, ite_not, apply_ite BitVec.toNat, BitVec.toNat_umod, toNat_get16]
    rfl

theorem sum_mathCoproAdd (r : Registers) : IsSum 0x20 (r.mathCoproAdd 0x20) := by
  have hf {j : Byte} (h : 4 ≤ (j - (0x20 + 8)).toNat) := mathCoproAdd_frame r h
  have ha : (r.mathCoproAdd 0x20).nat 0x20 4 = r.nat 0x20 4 :=
    nat_congr fun k hk => hf (by bv_omega)
  have hb : (r.mathCoproAdd 0x20).nat (0x20 + 4) 4 = r.nat (0x20 + 4) 4 :=
    nat_congr fun k hk => hf (by bv_omega)
  rw [IsSum, ha, hb, mathCoproAdd, nat_set32, nat_four, nat_four]
  simp
  omega

end Registers

/-! ### The units -/

/-- The units of the coprocessor. -/
inductive MathUnit
  | umul
  | smul
  | udiv
  | sdiv
  | add
  deriving DecidableEq

namespace MathUnit

open Registers

def base : MathUnit → ℕ
  | umul => 0x00
  | smul => 0x08
  | udiv => 0x10
  | sdiv => 0x18
  | add => 0x20

def operands : MathUnit → ℕ
  | add => 8
  | _ => 4

def Owns (u : MathUnit) (j : ℕ) : Prop := u.base ≤ j ∧ j < u.base + u.operands + 4

instance (u : MathUnit) (j : ℕ) : Decidable (u.Owns j) := inferInstanceAs (Decidable (_ ∧ _))

def Result (u : MathUnit) (j : ℕ) : Prop :=
  u.base + u.operands ≤ j ∧ j < u.base + u.operands + 4

def run : MathUnit → Registers → Registers
  | umul, r => r.mathCoproUMul 0x00
  | smul, r => r.mathCoproSMul 0x08
  | udiv, r => r.mathCoproUDiv 0x10
  | sdiv, r => r.mathCoproSDiv 0x18
  | add, r => r.mathCoproAdd 0x20

def Computes : MathUnit → Registers → Prop
  | umul => IsProduct 0x00
  | smul => IsProduct 0x08
  | udiv => IsQuotient 0x10
  | sdiv => IsQuotient 0x18
  | add => IsSum 0x20

/-- The unit that a write to `reg` starts. -/
def ofReg (reg : CpuAddr) : Option MathUnit :=
  if reg >>> 3 = 0 then some umul
  else if reg >>> 3 = 1 then some smul
  else if reg >>> 3 = 2 then some udiv
  else if reg >>> 3 = 3 then some sdiv
  else if reg >>> 3 = 4 ∨ reg >>> 3 = 5 then some add
  else none

theorem gavinIoWrite_eq (r : Registers) (reg : CpuAddr) (data : Byte) :
    r.gavinIoWrite reg data = (ofReg reg).elim (Function.update r (reg.setWidth 8) data)
      fun u => u.run (Function.update r (reg.setWidth 8) data) := by
  rw [gavinIoWrite, ofReg]
  split_ifs <;> rfl

theorem ofReg_of_owns {u : MathUnit} {reg : CpuAddr} (h : u.Owns reg.toNat) :
    ofReg reg = some u := by
  have hs : reg >>> 3 = BitVec.ofNat 32 (reg.toNat / 8) := by
    refine BitVec.eq_of_toNat_eq ?_
    have := reg.isLt
    rw [BitVec.toNat_ushiftRight, Nat.shiftRight_eq_div_pow, BitVec.toNat_ofNat]
    omega
  cases u <;> simp only [Owns, base, operands] at h
  case umul => simp [ofReg, hs, show reg.toNat / 8 = 0 by omega]
  case smul => simp [ofReg, hs, show reg.toNat / 8 = 1 by omega]
  case udiv => simp [ofReg, hs, show reg.toNat / 8 = 2 by omega]
  case sdiv => simp [ofReg, hs, show reg.toNat / 8 = 3 by omega]
  case add =>
    rcases show reg.toNat / 8 = 4 ∨ reg.toNat / 8 = 5 by omega with h | h <;> simp [ofReg, hs, h]

theorem run_frame {u : MathUnit} {j : Byte} (r : Registers) (h : ¬u.Result j.toNat) :
    u.run r j = r j := by
  cases u with
  | umul => exact mathCoproUMul_frame r (by simp [Result, base, operands] at h; bv_omega)
  | smul => exact mathCoproUMul_frame r (by simp [Result, base, operands] at h; bv_omega)
  | udiv => exact mathCoproUDiv_frame r (by simp [Result, base, operands] at h; bv_omega)
  | sdiv =>
    rw [run, mathCoproSDiv_eq]
    exact mathCoproUDiv_frame r (by simp [Result, base, operands] at h; bv_omega)
  | add => exact mathCoproAdd_frame r (by simp [Result, base, operands] at h; bv_omega)

theorem computes_run (u : MathUnit) (r : Registers) : u.Computes (u.run r) := by
  cases u with
  | umul => exact product_mathCoproUMul _ r
  | smul => exact product_mathCoproUMul _ r
  | udiv => exact quotient_mathCoproUDiv _ r
  | sdiv =>
    rw [run, mathCoproSDiv_eq]
    exact quotient_mathCoproUDiv _ r
  | add => exact sum_mathCoproAdd r

/-- Whether a unit computes is a matter of its own registers. -/
theorem computes_congr {u : MathUnit} {r r' : Registers}
    (h : ∀ j : Byte, u.Owns j.toNat → r j = r' j) (hc : u.Computes r) : u.Computes r' := by
  have hn (i : Byte) (n : ℕ) (hin : u.base ≤ i.toNat ∧ i.toNat + n ≤ u.base + u.operands + 4) :
      r.nat i n = r'.nat i n := by
    refine nat_congr fun k hk => h _ ?_
    have : u.base + u.operands + 4 ≤ 0x2C := by cases u <;> decide
    have : (i + BitVec.ofNat 8 k).toNat = i.toNat + k := by
      rw [BitVec.toNat_add, BitVec.toNat_ofNat]
      omega
    rw [Owns, this]
    omega
  cases u with
  | umul | smul =>
    rwa [Computes, IsProduct, ← hn _ 4 (by decide), ← hn _ 2 (by decide),
      ← hn (_ + 2) 2 (by decide)]
  | udiv | sdiv =>
    rwa [Computes, IsQuotient, ← hn (_ + 4) 2 (by decide), ← hn (_ + 6) 2 (by decide),
      ← hn (_ + 2) 2 (by decide), ← hn _ 2 (by decide)]
  | add =>
    rwa [Computes, IsSum, ← hn (_ + 8) 4 (by decide), ← hn _ 4 (by decide),
      ← hn (_ + 4) 4 (by decide)]

theorem not_owns_of_ne {u v : MathUnit} (huv : u ≠ v) {j : ℕ} (h : u.Owns j) : ¬v.Owns j := by
  intro hv
  simp only [Owns] at h hv
  cases u <;> cases v <;> simp only [base, operands] at h hv <;>
    first | omega | exact huv rfl

/-- **One write.**  After a write to a register of a unit the unit computes, and after another one
it does so if it did before. -/
theorem computes_gavinIoWrite {u : MathUnit} {r : Registers} {reg : CpuAddr} (hreg : reg < 0xA0)
    (data : Byte) (h : u.Owns reg.toNat ∨ u.Computes r) :
    u.Computes (r.gavinIoWrite reg data) := by
  have hto : (reg.setWidth 8).toNat = reg.toNat := by
    rw [BitVec.toNat_setWidth]
    bv_omega
  have hset (ho : ¬u.Owns reg.toNat) (hc : u.Computes r) :
      u.Computes (Function.update r (reg.setWidth 8) data) := by
    refine computes_congr (fun j hj => ?_) hc
    rw [Function.update_of_ne]
    rintro rfl
    exact ho (hto ▸ hj)
  rw [gavinIoWrite_eq]
  by_cases ho : u.Owns reg.toNat
  · rw [ofReg_of_owns ho]
    exact computes_run u _
  have hc := hset ho (h.resolve_left ho)
  cases ofReg reg with
  | none => exact hc
  | some v =>
    by_cases huv : u = v
    · subst huv
      exact computes_run u _
    · refine computes_congr (fun j hj => (run_frame _ fun hres => ?_).symm) hc
      exact not_owns_of_ne huv hj ⟨by simp only [Result] at hres; omega, hres.2⟩

end MathUnit

namespace Registers

def writes (r : Registers) (ws : List (CpuAddr × Byte)) : Registers :=
  ws.foldl (fun r w => r.gavinIoWrite w.1 w.2) r

/-- The registers with the bytes of a list of writes in them and no results. -/
def stored (r : Registers) (ws : List (CpuAddr × Byte)) : Registers :=
  ws.foldl (fun r w => Function.update r (w.1.setWidth 8) w.2) r

theorem computes_writes {u : MathUnit} {r : Registers} {ws : List (CpuAddr × Byte)}
    (hws : ∀ w ∈ ws, w.1 < 0xA0) (h : (∃ w ∈ ws, u.Owns w.1.toNat) ∨ u.Computes r) :
    u.Computes (r.writes ws) := by
  induction ws generalizing r with
  | nil => simpa [writes] using h
  | cons w ws ih =>
    refine ih (fun w hw => hws w (List.mem_cons_of_mem _ hw)) ?_
    have hw := hws w (List.mem_cons_self ..)
    rcases h with ⟨w', hw', ho⟩ | hc
    · rcases List.mem_cons.mp hw' with rfl | hw'
      · exact .inr (MathUnit.computes_gavinIoWrite hw _ (.inl ho))
      · exact .inl ⟨w', hw', ho⟩
    · exact .inr (MathUnit.computes_gavinIoWrite hw _ (.inr hc))

end Registers

/-- **The unsigned units after any writes.**  A unit that was written computes: the product, the
quotient and the remainder, the sum of the operands that are in the registers. -/
theorem gavinIoWrite_unsigned (r : Registers) (ws : List (CpuAddr × Byte))
    (hws : ∀ w ∈ ws, w.1 < 0xA0) :
    ((∃ w ∈ ws, w.1 ≤ 0x07) → (r.writes ws).IsProduct 0x00) ∧
      ((∃ w ∈ ws, 0x10 ≤ w.1 ∧ w.1 ≤ 0x17) → (r.writes ws).IsQuotient 0x10) ∧
      ((∃ w ∈ ws, 0x20 ≤ w.1 ∧ w.1 ≤ 0x2B) → (r.writes ws).IsSum 0x20) := by
  refine ⟨?_, ?_, ?_⟩
  · rintro ⟨w, hw, h⟩
    exact Registers.computes_writes (u := .umul) hws (.inl ⟨w, hw, by
      simp only [MathUnit.Owns, MathUnit.base, MathUnit.operands]; bv_omega⟩)
  · rintro ⟨w, hw, h⟩
    exact Registers.computes_writes (u := .udiv) hws (.inl ⟨w, hw, by
      simp only [MathUnit.Owns, MathUnit.base, MathUnit.operands]; bv_omega⟩)
  · rintro ⟨w, hw, h⟩
    exact Registers.computes_writes (u := .add) hws (.inl ⟨w, hw, by
      simp only [MathUnit.Owns, MathUnit.base, MathUnit.operands]; bv_omega⟩)

theorem gavinIoWrite_unsigned_three :
    let r := Registers.writes (fun _ => 0) [(0x01, 5), (0x14, 7), (0x20, 1)]
    r.IsProduct 0x00 ∧ r.IsQuotient 0x10 ∧ r.IsSum 0x20 := by
  have h := gavinIoWrite_unsigned (fun _ => 0) [(0x01, 5), (0x14, 7), (0x20, 1)] (by simp)
  exact ⟨h.1 (by simp), h.2.1 (by simp), h.2.2 (by simp)⟩

/-! ### Unsigned results read as signed ones -/

/-- A 16-bit number with the sign bit clear. -/
theorem bmod_of_lt {a : ℕ} (h : a < 0x8000) : (a : ℤ).bmod (256 ^ 2) = a := by
  rw [Int.bmod_eq_of_le] <;> omega

theorem bmod_of_le {a : ℕ} (h : 0x8000 ≤ a) (ha : a < 0x10000) :
    (a : ℤ).bmod (256 ^ 2) = a - 0x10000 := by
  rw [Int.bmod_def]
  omega

/-- Operands whose product is the signed product. -/
def MulAgrees (a b : ℕ) : Prop :=
  a < 0x8000 ∧ b < 0x8000 ∨ a = 0 ∨ b = 0 ∨ a = 0x8000 ∧ b = 0x8000

instance (a b : ℕ) : Decidable (MulAgrees a b) := inferInstanceAs (Decidable (_ ∨ _))

/-- Operands whose quotient and remainder are the signed ones. -/
def DivAgrees (a b : ℕ) : Prop :=
  b = 0 ∨ b = 1 ∨ a = b ∨ a < 0x8000 ∧ (b < 0x8000 ∨ a + b < 0x10000)

instance (a b : ℕ) : Decidable (DivAgrees a b) := inferInstanceAs (Decidable (_ ∨ _))

theorem bmod_four {p : ℕ} (hp : p < 0x100000000) :
    (p : ℤ).bmod (256 ^ 4) = if p < 0x80000000 then (p : ℤ) else p - 0x100000000 := by
  rw [Int.bmod_def]
  split <;> omega

theorem bmod_mul_iff {a b : ℕ} (ha : a < 0x10000) (hb : b < 0x10000) :
    ((a * b : ℕ) : ℤ).bmod (256 ^ 4) = (a : ℤ).bmod (256 ^ 2) * (b : ℤ).bmod (256 ^ 2) ↔
      MulAgrees a b := by
  have hab := Nat.mul_le_mul (Nat.le_of_lt_succ ha) (Nat.le_of_lt_succ hb)
  have hna : a * b ≤ a * 0x10000 := Nat.mul_le_mul_left a (Nat.le_of_lt hb)
  have hnb : a * b ≤ 0x10000 * b := Nat.mul_le_mul_right b (Nat.le_of_lt ha)
  rw [MulAgrees, bmod_four (by omega)]
  rcases Nat.lt_or_ge a 0x8000 with ha' | ha' <;> rcases Nat.lt_or_ge b 0x8000 with hb' | hb'
  · have := Nat.mul_le_mul (Nat.le_of_lt_succ ha') (Nat.le_of_lt_succ hb')
    rw [bmod_of_lt ha', bmod_of_lt hb', ← Int.natCast_mul]
    generalize a * b = p at *
    split <;> omega
  · rw [bmod_of_lt ha', bmod_of_le hb' hb, Int.mul_sub, ← Int.natCast_mul]
    generalize a * b = p at *
    split <;> omega
  · rw [bmod_of_le ha' ha, bmod_of_lt hb', Int.sub_mul, ← Int.natCast_mul]
    generalize a * b = p at *
    split <;> omega
  · rw [bmod_of_le ha' ha, bmod_of_le hb' hb, Int.sub_mul, Int.mul_sub, Int.mul_sub,
      ← Int.natCast_mul]
    by_cases h : a = 0x8000 ∧ b = 0x8000
    · obtain ⟨rfl, rfl⟩ := h
      decide
    · generalize a * b = p at *
      split <;> omega

/-- A negative dividend and a positive divisor. -/
theorem neg_div_iff {a b : ℕ} (ha : a < 0x10000) (ha' : 0x8000 ≤ a) (hb₀ : b ≠ 0)
    (hb : b < 0x8000) :
    (((a / b : ℕ) : ℤ) = -(((0x10000 - a) / b : ℕ) : ℤ) % 2 ^ 16 ∧
      ((a % b : ℕ) : ℤ) = -(((0x10000 - a) % b : ℕ) : ℤ) % 2 ^ 16) ↔ b = 1 := by
  have hda := Nat.div_add_mod a b
  have hdn := Nat.div_add_mod (0x10000 - a) b
  have hra := Nat.mod_lt a (Nat.pos_of_ne_zero hb₀)
  have hrn := Nat.mod_lt (0x10000 - a) (Nat.pos_of_ne_zero hb₀)
  have hqa := Nat.div_le_self a b
  have hqn := Nat.div_le_self (0x10000 - a) b
  generalize a / b = q, a % b = r, (0x10000 - a) / b = q', (0x10000 - a) % b = r' at *
  constructor
  · rintro ⟨hq, hr⟩
    have hr₀ : r = 0 ∧ r' = 0 := by omega
    have hq₀ : q' ≠ 0 := by
      rintro rfl
      omega
    have hsum : q + q' = 0x10000 := by omega
    have hmul : b * 0x10000 = 0x10000 := by
      rw [← hsum, Nat.mul_add]
      omega
    omega
  · rintro rfl
    omega

theorem bmod_tdiv_iff {a b : ℕ} (ha : a < 0x10000) (hb : b < 0x10000) (hb₀ : b ≠ 0) :
    (((a / b : ℕ) : ℤ) = ((a : ℤ).bmod (256 ^ 2)).tdiv ((b : ℤ).bmod (256 ^ 2)) % 2 ^ 16 ∧
      ((a % b : ℕ) : ℤ) = ((a : ℤ).bmod (256 ^ 2)).tmod ((b : ℤ).bmod (256 ^ 2)) % 2 ^ 16) ↔
      DivAgrees a b := by
  have hq : a / b < 0x10000 := Nat.lt_of_le_of_lt (Nat.div_le_self a b) ha
  have hr : a % b < 0x10000 := Nat.lt_of_le_of_lt (Nat.mod_le a b) ha
  have hneg {x : ℕ} (hx : x < 0x10000) : (x : ℤ) - 0x10000 = -((0x10000 - x : ℕ) : ℤ) := by omega
  rw [DivAgrees]
  rcases Nat.lt_or_ge a 0x8000 with ha' | ha' <;> rcases Nat.lt_or_ge b 0x8000 with hb' | hb'
  · rw [bmod_of_lt ha', bmod_of_lt hb', ← Int.ofNat_tdiv, ← Int.ofNat_tmod]
    generalize a / b = q, a % b = r at *
    omega
  · -- the quotient is 0, and the remainder the dividend
    rw [bmod_of_lt ha', bmod_of_le hb' hb, hneg hb, Int.tdiv_neg, Int.tmod_neg, ← Int.ofNat_tdiv,
      ← Int.ofNat_tmod, Nat.div_eq_of_lt (show a < b by omega),
      Nat.mod_eq_of_lt (show a < b by omega)]
    by_cases h : a < 0x10000 - b
    · rw [Nat.div_eq_of_lt h, Nat.mod_eq_of_lt h]
      omega
    · have := Nat.mod_lt a (show 0 < 0x10000 - b by omega)
      omega
  · rw [bmod_of_le ha' ha, hneg ha, bmod_of_lt hb', Int.neg_tdiv, Int.neg_tmod, ← Int.ofNat_tdiv,
      ← Int.ofNat_tmod, neg_div_iff ha ha' hb₀ hb']
    omega
  · rw [bmod_of_le ha' ha, hneg ha, bmod_of_le hb' hb, hneg hb, Int.neg_tdiv_neg, Int.neg_tmod,
      Int.tmod_neg, ← Int.ofNat_tdiv, ← Int.ofNat_tmod]
    rcases Nat.lt_trichotomy a b with hab | rfl | hab
    · have := Nat.mod_lt (0x10000 - a) (show 0 < 0x10000 - b by omega)
      rw [Nat.mod_eq_of_lt hab]
      omega
    · have := Nat.div_self (show 0 < 0x10000 - a by omega)
      simp [Nat.div_self (Nat.pos_of_ne_zero hb₀), this]
    · have h₁ : a % b = a - b := by
        rw [Nat.mod_eq_sub_mod (Nat.le_of_lt hab), Nat.mod_eq_of_lt (by omega)]
      rw [h₁, Nat.mod_eq_of_lt (show 0x10000 - a < 0x10000 - b by omega)]
      omega

namespace Registers

theorem nat_two_lt (r : Registers) (i : Byte) : r.nat i 2 < 0x10000 := by
  rw [← toNat_get16]
  exact (r.get16 i).isLt

/-- The two's complement number in the `n` registers from `i` on. -/
def int (r : Registers) (i : Byte) (n : ℕ) : ℤ := (r.nat i n : ℤ).bmod (256 ^ n)

/-- The signed product of the words at `i` and `i + 2` is at `i + 4`. -/
def IsSignedProduct (i : Byte) (r : Registers) : Prop :=
  r.int (i + 4) 4 = r.int i 2 * r.int (i + 2) 2

/-- The quotient of the signed words at `i` and `i + 2`, truncated toward zero, is at `i + 4`, and
the remainder, of the sign of the dividend, at `i + 6`. -/
def IsSignedQuotient (i : Byte) (r : Registers) : Prop :=
  (r.nat (i + 4) 2 : ℤ) =
      (if r.int (i + 2) 2 = 0 then 0 else (r.int i 2).tdiv (r.int (i + 2) 2)) % 2 ^ 16 ∧
    (r.nat (i + 6) 2 : ℤ) =
      (if r.int (i + 2) 2 = 0 then 0 else (r.int i 2).tmod (r.int (i + 2) 2)) % 2 ^ 16

theorem isSignedProduct_iff {i : Byte} {r : Registers} (h : r.IsProduct i) :
    r.IsSignedProduct i ↔ MulAgrees (r.nat i 2) (r.nat (i + 2) 2) := by
  rw [IsSignedProduct, int, h]
  exact bmod_mul_iff (nat_two_lt r _) (nat_two_lt r _)

theorem int_two_eq_zero (r : Registers) (i : Byte) : r.int i 2 = 0 ↔ r.nat i 2 = 0 := by
  have := nat_two_lt r i
  rw [int, Int.bmod_def]
  omega

theorem isSignedQuotient_iff {i : Byte} {r : Registers} (h : r.IsQuotient i) :
    r.IsSignedQuotient i ↔ DivAgrees (r.nat i 2) (r.nat (i + 2) 2) := by
  rw [IsSignedQuotient, h.1, h.2]
  simp only [int_two_eq_zero]
  by_cases hb : r.nat (i + 2) 2 = 0
  · simp only [hb, if_true, DivAgrees, true_or]
    decide
  · rw [if_neg hb, if_neg hb, if_neg hb, if_neg hb]
    exact bmod_tdiv_iff (nat_two_lt r _) (nat_two_lt r _) hb

/-- A register that is no result holds what was stored in it. -/
theorem writes_eq_stored {r r' : Registers} {j : Byte} (hj : ∀ u : MathUnit, ¬u.Result j.toNat)
    (hr : r j = r' j) (ws : List (CpuAddr × Byte)) : r.writes ws j = r'.stored ws j := by
  induction ws generalizing r r' with
  | nil => exact hr
  | cons w ws ih =>
    refine ih ?_
    have hset : Function.update r (w.1.setWidth 8) w.2 j =
        Function.update r' (w.1.setWidth 8) w.2 j := by
      rw [Function.update_apply, Function.update_apply, hr]
    show r.gavinIoWrite w.1 w.2 j = Function.update r' (w.1.setWidth 8) w.2 j
    rw [MathUnit.gavinIoWrite_eq, ← hset]
    cases MathUnit.ofReg w.1 with
    | none => rfl
    | some u => exact MathUnit.run_frame _ (hj u)

theorem nat_writes_operand (r : Registers) (ws : List (CpuAddr × Byte)) {i : Byte}
    (hi : i ∈ [0x08, 0x0A, 0x18, 0x1A]) : (r.writes ws).nat i 2 = (r.stored ws).nat i 2 := by
  refine nat_congr fun k hk => writes_eq_stored (fun u hu => ?_) rfl ws
  simp only [MathUnit.Result] at hu
  simp only [List.mem_cons, List.not_mem_nil, or_false] at hi
  rcases hi with rfl | rfl | rfl | rfl <;> cases u <;>
    simp only [MathUnit.base, MathUnit.operands] at hu <;> bv_omega

end Registers

/-- **The signed units after writes to both.**  They hold the signed results exactly when the
operands that were stored are such that these are the unsigned results. -/
theorem gavinIoWrite_signed (r : Registers) (ws : List (CpuAddr × Byte))
    (hws : ∀ w ∈ ws, w.1 < 0xA0) (hm : ∃ w ∈ ws, 0x08 ≤ w.1 ∧ w.1 ≤ 0x0F)
    (hd : ∃ w ∈ ws, 0x18 ≤ w.1 ∧ w.1 ≤ 0x1F) :
    (r.writes ws).IsSignedProduct 0x08 ∧ (r.writes ws).IsSignedQuotient 0x18 ↔
      MulAgrees ((r.stored ws).nat 0x08 2) ((r.stored ws).nat 0x0A 2) ∧
        DivAgrees ((r.stored ws).nat 0x18 2) ((r.stored ws).nat 0x1A 2) := by
  obtain ⟨w, hw, hm⟩ := hm
  obtain ⟨w', hw', hd⟩ := hd
  have hp : (r.writes ws).IsProduct 0x08 :=
    Registers.computes_writes (u := .smul) hws (.inl ⟨w, hw, by
      simp only [MathUnit.Owns, MathUnit.base, MathUnit.operands]; bv_omega⟩)
  have hq : (r.writes ws).IsQuotient 0x18 :=
    Registers.computes_writes (u := .sdiv) hws (.inl ⟨w', hw', by
      simp only [MathUnit.Owns, MathUnit.base, MathUnit.operands]; bv_omega⟩)
  rw [Registers.isSignedProduct_iff hp, Registers.isSignedQuotient_iff hq,
    Registers.nat_writes_operand r ws (by simp), Registers.nat_writes_operand r ws (by simp),
    Registers.nat_writes_operand r ws (by simp), Registers.nat_writes_operand r ws (by simp)]
  exact Iff.rfl

theorem gavinIoWrite_signed_small :
    let r := Registers.writes (fun _ => 0) [(0x08, 6), (0x0A, 7), (0x18, 7), (0x1A, 2)]
    r.IsSignedProduct 0x08 ∧ r.IsSignedQuotient 0x18 :=
  (gavinIoWrite_signed (fun _ => 0) [(0x08, 6), (0x0A, 7), (0x18, 7), (0x1A, 2)] (by simp)
    (by simp) (by simp)).mpr (by decide)

/-- `-1 * 1` is 65535, and `-1 / 2` is 32767. -/
theorem gavinIoWrite_signed_minus_one :
    let ws : List (CpuAddr × Byte) := [(0x08, 0xFF), (0x09, 0xFF), (0x0A, 1), (0x18, 0xFF),
      (0x19, 0xFF), (0x1A, 2)]
    (∀ w ∈ ws, w.1 < 0xA0) ∧ ¬(Registers.writes (fun _ => 0) ws).IsSignedProduct 0x08 ∧
      ¬(Registers.writes (fun _ => 0) ws).IsSignedQuotient 0x18 := by
  refine ⟨by simp, ?_, ?_⟩
  · unfold Registers.IsSignedProduct
    decide
  · unfold Registers.IsSignedQuotient
    decide

end RetroCpu.C256
