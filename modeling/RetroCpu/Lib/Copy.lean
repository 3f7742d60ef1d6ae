import Mathlib.Logic.Function.Basic
import Mathlib.Data.Nat.Notation

/-!
# A copy of one cell after the other

`copied src dst n f` is the memory `f` after `n` cells have been copied in order, the
`i`-th from `src i` to `dst i`.  The ranges may overlap: a cell is read as the copies
before it have left it.

`copyLog` lists the writes of the copy, and `store` replays such a list.  Both
`copied_succ_left` and `copyLog_succ` take the first copy off, which is what a loop
that copies and then goes on with the rest needs.
-/

namespace Copy

variable {α β : Type*} [DecidableEq α] (src dst : ℕ → α) (f : α → β)

/-- The memory after `n` copies. -/
def copied : ℕ → α → β
  | 0 => f
  | n + 1 => Function.update (copied n) (dst n) (copied n (src n))

/-- The writes of `n` copies, in order. -/
def copyLog (n : ℕ) : List (α × β) :=
  (List.range n).map fun i => (dst i, copied src dst f i (src i))

/-- The memory after the writes of a list. -/
def store (f : α → β) : List (α × β) → α → β
  | [] => f
  | w :: ws => store (Function.update f w.1 w.2) ws

/-! ### The first copy -/

theorem copied_succ_left (n : ℕ) :
    copied src dst f (n + 1) =
      copied (fun i => src (i + 1)) (fun i => dst (i + 1))
        (Function.update f (dst 0) (f (src 0))) n := by
  induction n with
  | zero => rfl
  | succ n ih => rw [copied, ih, copied]

theorem copyLog_succ (n : ℕ) :
    copyLog src dst f (n + 1) = (dst 0, f (src 0)) ::
      copyLog (fun i => src (i + 1)) (fun i => dst (i + 1))
        (Function.update f (dst 0) (f (src 0))) n := by
  rw [copyLog, List.range_succ_eq_map, List.map_cons, List.map_map, copyLog]
  simp only [Function.comp_def, copied_succ_left]
  rfl

/-- Replaying the writes of a copy copies. -/
theorem store_copyLog (n : ℕ) : store f (copyLog src dst f n) = copied src dst f n := by
  induction n generalizing src dst f with
  | zero => rfl
  | succ n ih => rw [copyLog_succ, store, ih, copied_succ_left]

/-! ### What a copy depends on and what it changes -/

variable {src dst f}

theorem mem_copyLog {n : ℕ} {w : α × β} (h : w ∈ copyLog src dst f n) : ∃ i < n, w.1 = dst i := by
  obtain ⟨i, hi, rfl⟩ := List.mem_map.mp h
  exact ⟨i, List.mem_range.mp hi, rfl⟩

/-- A cell that is not copied to stays. -/
theorem copied_of_ne {n : ℕ} {a : α} (h : ∀ i < n, a ≠ dst i) : copied src dst f n a = f a := by
  induction n with
  | zero => rfl
  | succ n ih =>
    rw [copied, Function.update_of_ne (h n (Nat.lt_succ_self n))]
    exact ih fun i hi => h i (Nat.lt_succ_of_lt hi)

/-- A cell after the writes depends on no other cell before them. -/
theorem store_congr {g : α → β} {a : α} (ws : List (α × β)) (h : f a = g a) :
    store f ws a = store g ws a := by
  induction ws generalizing f g with
  | nil => exact h
  | cons w ws ih =>
    refine ih ?_
    by_cases ha : a = w.1
    · rw [ha, Function.update_self, Function.update_self]
    · rw [Function.update_of_ne ha, Function.update_of_ne ha, h]

/-- A copy inside `S` depends on the cells of `S` only. -/
theorem copied_congr {S : α → Prop} {g : α → β} (h : ∀ a, S a → f a = g a) {n : ℕ}
    (hsrc : ∀ i < n, S (src i)) {a : α} (ha : S a) :
    copied src dst f n a = copied src dst g n a := by
  induction n generalizing a with
  | zero => exact h a ha
  | succ n ih =>
    have hrest : ∀ i < n, S (src i) := fun i hi => hsrc i (Nat.lt_succ_of_lt hi)
    rw [copied, copied, ih hrest (hsrc n (Nat.lt_succ_self n))]
    by_cases hd : a = dst n
    · rw [hd, Function.update_self, Function.update_self]
    · rw [Function.update_of_ne hd, Function.update_of_ne hd]
      exact ih hrest ha

theorem copyLog_congr {S : α → Prop} {g : α → β} (h : ∀ a, S a → f a = g a) {n : ℕ}
    (hsrc : ∀ i < n, S (src i)) : copyLog src dst f n = copyLog src dst g n := by
  refine List.map_congr_left fun i hi => ?_
  have hi' : i < n := List.mem_range.mp hi
  rw [copied_congr h (fun j hj => hsrc j (Nat.lt_trans hj hi')) (hsrc i hi')]

end Copy
