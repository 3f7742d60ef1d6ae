import Mathlib.Data.Option.Defs
import RetroCpu.Lib.Run
import RetroCpu.Lib.StateFn

/-!
# Two programs side by side

`Coupled R V x y`: from states that `R` relates, `x` and `y` give values that `V` relates, and
states that `R` relates again.  The two programs may be the same one on states that differ in
what it does not look at.

* `Coupled.bind`: one line after the other.
* `runList_rel`: **what a step keeps between two states, any admissible inputs keep**.
-/

namespace StateFn

variable {σ τ α γ α' γ' : Type} {R : σ → τ → Prop} {V : α → γ → Prop} {W : α' → γ' → Prop}

/-- `x` and `y` take related states to related values and related states. -/
def Coupled (R : σ → τ → Prop) (V : α → γ → Prop) (x : StateFn σ α) (y : StateFn τ γ) : Prop :=
  ∀ s t, R s t → V (x s).1 (y t).1 ∧ R (x s).2 (y t).2

namespace Coupled

variable {x : StateFn σ α} {y : StateFn τ γ}

theorem pure {a : α} {b : γ} (h : V a b) :
    Coupled R V (Pure.pure a : StateFn σ α) (Pure.pure b : StateFn τ γ) := by
  intro s t hst
  exact ⟨h, hst⟩

theorem bind {f : α → StateFn σ α'} {g : γ → StateFn τ γ'} (hx : Coupled R V x y)
    (hf : ∀ a b, V a b → Coupled R W (f a) (g b)) : Coupled R W (x >>= f) (y >>= g) := by
  intro s t hst
  obtain ⟨hv, hr⟩ := hx s t hst
  exact hf _ _ hv _ _ hr

/-- The first line gives the same value in both. -/
theorem seq {y : StateFn τ α} {f : α → StateFn σ α'} {g : α → StateFn τ γ'}
    (hx : Coupled R Eq x y) (hf : ∀ a, Coupled R W (f a) (g a)) :
    Coupled R W (x >>= f) (y >>= g) := by
  refine hx.bind fun a b h => ?_
  subst h
  exact hf a

theorem get {f : σ → α} {g : τ → γ} (h : ∀ s t, R s t → V (f s) (g t)) :
    Coupled R V (StateFn.get f) (StateFn.get g) := by
  intro s t hst
  exact ⟨h s t hst, hst⟩

theorem modify {f : σ → σ} {g : τ → τ} (h : ∀ s t, R s t → R (f s) (g t)) :
    Coupled R Eq (StateFn.modify f) (StateFn.modify g) := by
  intro s t hst
  exact ⟨rfl, h s t hst⟩

theorem when {c : Bool} {x : StateFn σ Unit} {y : StateFn τ Unit}
    (h : c = true → Coupled R Eq x y) : Coupled R Eq (StateFn.when c x) (StateFn.when c y) := by
  cases c with
  | false => exact pure rfl
  | true => exact h rfl

theorem ite {p : Prop} [Decidable p] {x' : StateFn σ α} {y' : StateFn τ γ}
    (ht : p → Coupled R V x y) (he : ¬p → Coupled R V x' y') :
    Coupled R V (if p then x else x') (if p then y else y') := by
  split
  · next h => exact ht h
  · next h => exact he h

end Coupled

end StateFn

section Lists

variable {σ τ ι : Type} {R : σ → τ → Prop} {f : ι → σ → Option σ} {g : ι → τ → Option τ}

/-- **Related states stay related whatever the inputs**, if they are admissible, and one of the
runs ends early just when the other does. -/
theorem runList_rel {ok : σ → ι → Prop}
    (h : ∀ i s t, R s t → ok s i → Option.Rel R (f i s) (g i t)) (is : List ι) {s : σ} {t : τ}
    (hst : R s t) (his : Admissible f ok is s) :
    Option.Rel R (runList f is s) (runList g is t) := by
  induction is generalizing s t with
  | nil => exact .some hst
  | cons i is ih =>
    obtain ⟨hok, hrest⟩ := his
    rw [runList, runList]
    have hi := h i s t hst hok
    cases hf : f i s with
    | none =>
      cases hg : g i t with
      | none => exact .none
      | some t' =>
        rw [hf, hg] at hi
        cases hi
    | some s' =>
      cases hg : g i t with
      | none =>
        rw [hf, hg] at hi
        cases hi
      | some t' =>
        rw [hf, hg] at hi
        cases hi with
        | some hi => exact ih hi (hrest s' hf)

/-- Inputs that are admissible wherever they are given. -/
theorem admissible_of_forall {ok : ι → Prop} {is : List ι} (h : ∀ i ∈ is, ok i) (s : σ) :
    Admissible f (fun _ i => ok i) is s := by
  induction is generalizing s with
  | nil => trivial
  | cons i is ih =>
    exact ⟨h i (List.mem_cons_self ..),
      fun t _ => ih (fun j hj => h j (List.mem_cons_of_mem _ hj)) t⟩

end Lists
