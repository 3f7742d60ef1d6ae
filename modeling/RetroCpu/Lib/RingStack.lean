import Mathlib.Algebra.Group.Nat.Defs
import Mathlib.Tactic.Common

/-!
# A stack in a ring of cells

The cells of a ring are numbered by `BitVec w`.  A stack grows down from any cell
and goes around: the pointer is at the free cell, and the top is the cell above it.
`Holds slot sp vs` says that the cells above `sp` hold the values `vs`, where
`slot a v` is whatever it means that cell `a` holds `v`.

A push may use the free cell as long as the ring is not full, so a stack can hold
`2 ^ w` values and no more.
-/

variable {w : ℕ} {α : Type}

/-- One cell down, one value more. -/
theorem sub_one_add_ofNat_succ (sp : BitVec w) (n : ℕ) :
    sp - 1 + BitVec.ofNat w (n + 1) = sp + BitVec.ofNat w n := by
  rw [BitVec.ofNat_add]
  grind

/-- One cell up, one value less. -/
theorem add_one_add_ofNat (sp : BitVec w) (n : ℕ) :
    sp + 1 + BitVec.ofNat w n = sp + BitVec.ofNat w (n + 1) := by
  rw [BitVec.ofNat_add]
  grind

/-- The cells above `sp` hold `vs`, the top of the stack first. -/
def Holds (slot : BitVec w → α → Prop) : BitVec w → List α → Prop
  | _, [] => True
  | sp, v :: vs => slot (sp + 1) v ∧ Holds slot (sp + 1) vs

namespace Holds

variable {slot slot' : BitVec w → α → Prop} {sp : BitVec w} {v : α} {vs : List α}

/-- What happens outside the stack does not matter. -/
theorem of_agree (h : Holds slot sp vs) (hs : ∀ i < vs.length, ∀ v,
    slot (sp + 1 + BitVec.ofNat w i) v → slot' (sp + 1 + BitVec.ofNat w i) v) :
    Holds slot' sp vs := by
  induction vs generalizing sp with
  | nil => trivial
  | cons v vs ih =>
    obtain ⟨hv, hvs⟩ := h
    have h0 : sp + 1 = sp + 1 + BitVec.ofNat w 0 := (BitVec.add_zero _).symm
    constructor
    · rw [h0] at hv ⊢
      exact hs 0 (Nat.zero_lt_succ _) v hv
    · refine ih hvs fun i hi v' => ?_
      rw [add_one_add_ofNat (sp + 1) i]
      exact hs (i + 1) (Nat.succ_lt_succ hi) v'

theorem mono (h : Holds slot sp vs) (hs : ∀ a v, slot a v → slot' a v) : Holds slot' sp vs :=
  h.of_agree fun _ _ _ => hs _ _

/-- A cell of the stack is not the free cell. -/
theorem cell_ne {i : ℕ} (hi : i + 1 < 2 ^ w) : sp + 1 + BitVec.ofNat w i ≠ sp := by
  intro h
  have h1 : (1 : BitVec w) + BitVec.ofNat w i = 0 := by
    rw [BitVec.add_assoc] at h
    simpa using h
  have h2 : (BitVec.ofNat w (i + 1)).toNat = 0 := by
    rw [BitVec.ofNat_add, BitVec.add_comm]
    exact congrArg BitVec.toNat h1
  rw [BitVec.toNat_ofNat, Nat.mod_eq_of_lt hi] at h2
  omega

/-- **A push keeps what is on the stack** while the ring is not full. -/
theorem push (h : Holds slot sp vs) (hlen : vs.length < 2 ^ w) (hv : slot' sp v)
    (hs : ∀ a v, a ≠ sp → slot a v → slot' a v) : Holds slot' (sp - 1) (v :: vs) := by
  rw [Holds, BitVec.sub_add_cancel]
  exact ⟨hv, h.of_agree fun i hi v' => hs _ v' (cell_ne (by omega))⟩

end Holds
