import Mathlib.Tactic.Common

/-!
# Sets of numbers as bits

A set of numbers is the number that has their bits, so that membership is a single test of a
bit.  `marks` is the set of a list, `apart` says that two lists have no number in common, and
`fresh` that the chosen entries of a list repeat no earlier one; both are decided in one pass.
-/

namespace BitSet

/-- `seen` with `k`. -/
def mark (seen k : Nat) : Nat := seen ||| 1 <<< k

/-- The set of a list. -/
def marks (l : List Nat) : Nat := l.foldl mark 0

/-- The lists have no number in common. -/
def apart (l l' : List Nat) : Bool := marks l &&& marks l' == 0

/-- No chosen number is in `seen` or earlier in the list. -/
def fresh : List (Nat × Bool) → Nat → Bool
  | [], _ => true
  | (k, chosen) :: l, seen => !(chosen && seen.testBit k) && fresh l (mark seen k)

theorem testBit_mark (seen k n : Nat) :
    (mark seen k).testBit n = (seen.testBit n || decide (k = n)) := by
  simp [mark, Nat.testBit_or, Nat.one_shiftLeft, Nat.testBit_two_pow]

theorem testBit_foldl_mark (l : List Nat) (seen n : Nat) :
    (l.foldl mark seen).testBit n = true ↔ seen.testBit n = true ∨ n ∈ l := by
  induction l generalizing seen with
  | nil => simp
  | cons k l ih =>
    rw [List.foldl_cons, ih, testBit_mark, Bool.or_eq_true, decide_eq_true_eq, List.mem_cons,
      or_assoc, eq_comm (a := k)]

theorem testBit_marks (l : List Nat) (n : Nat) : (marks l).testBit n = true ↔ n ∈ l := by
  rw [marks, testBit_foldl_mark, Nat.zero_testBit]
  simp

theorem ne_of_apart {l l' : List Nat} (h : apart l l') {n n' : Nat} (hn : n ∈ l)
    (hn' : n' ∈ l') : n ≠ n' := by
  rintro rfl
  have hzero : marks l &&& marks l' = 0 := beq_iff_eq.mp h
  have hbit : (marks l &&& marks l').testBit n = true := by
    rw [Nat.testBit_and, (testBit_marks l n).mpr hn, (testBit_marks l' n).mpr hn']
    rfl
  rw [hzero, Nat.zero_testBit] at hbit
  cases hbit

/-- **A chosen number is not among the earlier ones.** -/
theorem ne_of_fresh {l l' : List (Nat × Bool)} {k seen : Nat}
    (h : fresh (l ++ (k, true) :: l') seen) :
    seen.testBit k = false ∧ ∀ e ∈ l, e.1 ≠ k := by
  induction l generalizing seen with
  | nil =>
    rw [List.nil_append, fresh, Bool.and_eq_true, Bool.true_and, Bool.not_eq_true'] at h
    exact ⟨h.1, nofun⟩
  | cons e l ih =>
    rw [List.cons_append, fresh, Bool.and_eq_true] at h
    obtain ⟨hk, hl⟩ := ih h.2
    rw [testBit_mark, Bool.or_eq_false_iff, decide_eq_false_iff_not] at hk
    refine ⟨hk.1, fun e' he' => ?_⟩
    rcases List.mem_cons.mp he' with rfl | he'
    · exact hk.2
    · exact hl e' he'

end BitSet
