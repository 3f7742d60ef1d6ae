import Mathlib.Data.Nat.Notation

/-!
# State functions and graded relations

`StateFn σ α` is a function of the state that returns a value and the next
state.  Its bind is written with projections, so unfolding a `do` block leaves
no `match` behind.

`Graded R` says that a family of relations `R n` on states composes and that
the grades add up: `R m` followed by `R n` is inside `R (m + n)`.  A grade is
a budget, so `R` grows with it.  `Within R n x` says that `x` moves every state
along `R n`, and the rules below compute a grade for a `do` block from the
grades of its lines.  One walk over a program then proves a frame condition and
a cost bound together.

`Triple P x Q` is a Hoare triple, for what a program does from given states.
-/

/-- A function of a state that also returns a value. -/
def StateFn (σ α : Type) : Type := σ → α × σ

namespace StateFn

variable {σ α γ : Type}

instance : Monad (StateFn σ) where
  pure a := fun s => (a, s)
  bind x f := fun s => f (x s).1 (x s).2

/-- Read a part of the state. -/
def get (f : σ → α) : StateFn σ α := fun s => (f s, s)

/-- Replace the state. -/
def modify (g : σ → σ) : StateFn σ Unit := fun s => ((), g s)

/-- Do `x` if the condition holds. -/
def when (c : Bool) (x : StateFn σ Unit) : StateFn σ Unit := if c then x else pure ()

@[simp] theorem pure_apply (a : α) (s : σ) : (pure a : StateFn σ α) s = (a, s) := rfl

@[simp] theorem bind_apply (x : StateFn σ α) (f : α → StateFn σ γ) (s : σ) :
    (x >>= f) s = f (x s).1 (x s).2 := rfl

@[simp] theorem get_apply (f : σ → α) (s : σ) : get f s = (f s, s) := rfl

@[simp] theorem modify_apply (g : σ → σ) (s : σ) : modify g s = ((), g s) := rfl

@[simp] theorem ite_apply (c : Prop) [Decidable c] (x y : StateFn σ α) (s : σ) :
    (if c then x else y) s = if c then x s else y s := by
  split <;> rfl

@[simp] theorem when_true (x : StateFn σ Unit) : when true x = x := rfl

@[simp] theorem when_false (x : StateFn σ Unit) : when false x = pure () := rfl

/-! ### Graded relations -/

/-- A family of relations that composes, grades adding up. -/
structure Graded (R : ℕ → σ → σ → Prop) : Prop where
  refl : ∀ s, R 0 s s
  trans : ∀ {m n : ℕ} {s t u : σ}, R m s t → R n t u → R (m + n) s u
  mono : ∀ {m n : ℕ} {s t : σ}, m ≤ n → R m s t → R n s t

/-- `x` moves every state along `R n`. -/
def Within (R : ℕ → σ → σ → Prop) (n : ℕ) (x : StateFn σ α) : Prop := ∀ s, R n s (x s).2

namespace Graded

variable {R : ℕ → σ → σ → Prop} {m n : ℕ}

theorem refl_le (hR : Graded R) (s : σ) : R n s s := hR.mono (Nat.zero_le n) (hR.refl s)

theorem pure (hR : Graded R) (a : α) : Within R 0 (Pure.pure a : StateFn σ α) :=
  fun s => hR.refl s

theorem get (hR : Graded R) (f : σ → α) : Within R 0 (StateFn.get f) := fun s => hR.refl s

theorem bind (hR : Graded R) {x : StateFn σ α} {f : α → StateFn σ γ} (hx : Within R m x)
    (hf : ∀ a, Within R n (f a)) : Within R (m + n) (x >>= f) :=
  fun s => hR.trans (hx s) (hf (x s).1 (x s).2)

theorem le (hR : Graded R) {x : StateFn σ α} (h : Within R m x) (hmn : m ≤ n) : Within R n x :=
  fun s => hR.mono hmn (h s)

theorem ite (hR : Graded R) (c : Prop) [Decidable c] {x y : StateFn σ α}
    (hx : c → Within R m x) (hy : ¬c → Within R n y) :
    Within R (max m n) (if c then x else y) := by
  split
  · next h => exact hR.le (hx h) (Nat.le_max_left m n)
  · next h => exact hR.le (hy h) (Nat.le_max_right m n)

theorem when (hR : Graded R) {c : Bool} {x : StateFn σ Unit} (hx : c = true → Within R n x) :
    Within R n (StateFn.when c x) := by
  cases c
  · exact fun s => hR.refl_le s
  · exact hx rfl

end Graded

/-! ### Pre- and postconditions -/

/-- From a state with `P`, `x` gives a value and a state with `Q`. -/
def Triple (P : σ → Prop) (x : StateFn σ α) (Q : α → σ → Prop) : Prop :=
  ∀ s, P s → Q (x s).1 (x s).2

namespace Triple

variable {P P' : σ → Prop} {Q Q' : α → σ → Prop}

theorem bind {x : StateFn σ α} {f : α → StateFn σ γ} {S : γ → σ → Prop} (hx : Triple P x Q)
    (hf : ∀ a, Triple (Q a) (f a) S) : Triple P (x >>= f) S :=
  fun s hs => hf _ _ (hx s hs)

theorem pure {a : α} (h : ∀ s, P s → Q a s) : Triple P (Pure.pure a : StateFn σ α) Q := h

theorem conseq {x : StateFn σ α} (h : Triple P x Q) (hP : ∀ s, P' s → P s)
    (hQ : ∀ a s, Q a s → Q' a s) : Triple P' x Q' :=
  fun s hs => hQ _ _ (h s (hP s hs))

theorem when {c : Bool} {x : StateFn σ Unit} {Q : Unit → σ → Prop} (hc : c = true)
    (h : Triple P x Q) : Triple P (StateFn.when c x) Q := by
  rw [hc]
  exact h

theorem when_not {c : Bool} {x : StateFn σ Unit} {Q : Unit → σ → Prop} (hc : c = false)
    (h : ∀ s, P s → Q () s) : Triple P (StateFn.when c x) Q := by
  rw [hc]
  exact h

end Triple

end StateFn
