import Mathlib.Tactic.Common

/-!
# Outcomes

`Outcome P Q r` says that the value of `r` satisfies `P`, or that its error satisfies `Q`.
-/

namespace RetroCpu

variable {α β ε : Type}

/-- What a computation ends with. -/
def Outcome (P : α → Prop) (Q : ε → Prop) : Except ε α → Prop
  | .ok a => P a
  | .error e => Q e

namespace Outcome

variable {P P' : α → Prop} {Q Q' : ε → Prop} {R : β → Prop}

theorem mono {r : Except ε α} (h : Outcome P Q r) (hP : ∀ a, P a → P' a) (hQ : ∀ e, Q e → Q' e) :
    Outcome P' Q' r := by
  cases r with
  | ok a => exact hP a h
  | error e => exact hQ e h

theorem and {r : Except ε α} (h : Outcome P Q r) (h' : Outcome P' Q' r) :
    Outcome (fun a => P a ∧ P' a) (fun e => Q e ∧ Q' e) r := by
  cases r with
  | ok a => exact ⟨h, h'⟩
  | error e => exact ⟨h, h'⟩

theorem bind {r : Except ε α} {f : α → Except ε β} (h : Outcome P Q r)
    (hf : ∀ a, P a → Outcome R Q (f a)) : Outcome R Q (r >>= f) := by
  cases r with
  | ok a => exact hf a h
  | error e => exact h

/-- A loop over a list keeps what each of its rounds keeps. -/
theorem foldlM {f : β → α → Except ε β} {l : List α} (hf : ∀ b, R b → ∀ a ∈ l, Outcome R Q (f b a))
    {b : β} (hb : R b) : Outcome R Q (l.foldlM f b) := by
  induction l generalizing b with
  | nil => exact hb
  | cons a l ih =>
    rw [List.foldlM_cons]
    exact (hf b hb a List.mem_cons_self).bind fun b' hb' =>
      ih (fun b'' hb'' a' ha' => hf b'' hb'' a' (List.mem_cons_of_mem a ha')) hb'

/-- A computation of which no value can be has an error. -/
theorem exists_error {r : Except ε α} (h : Outcome P Q r) (hP : ∀ a, ¬P a) :
    ∃ e, r = .error e ∧ Q e := by
  cases r with
  | ok a => exact absurd h (hP a)
  | error e => exact ⟨e, rfl, h⟩

end Outcome

end RetroCpu
