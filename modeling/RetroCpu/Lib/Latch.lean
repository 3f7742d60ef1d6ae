import RetroCpu.Lib.StateFn

/-!
# Latches

A source raises a latch of one bit, and a sink finds it raised, does its work and clears it.  The
bit does not count, so a second raise before the sink looks is lost, unless the source leaves
enough time between two.

* `Latch.graded_elapses`: what the source does over a time adds up.
* `Latch.Counted`: each raise has been taken once, but for the one that the latch holds.
-/

/-- A latch: how often it has been raised, whether it is, and a time in which it is not raised
again. -/
structure Latch where
  raised : ℕ
  line : Bool
  distance : ℕ

namespace Latch

/-- What the source does in `k` ticks.  Two raises are `period` ticks apart at least. -/
structure Elapses (period k : ℕ) (s s' : Latch) : Prop where
  distance : s.distance ≤ s'.distance + k
  raised : k < period → s'.raised = s.raised ∧ s'.line = s.line ∨
    s'.raised = s.raised + 1 ∧ s'.line = true ∧ s.distance < k ∧ period ≤ s'.distance + k

/-- The sink clears the latch. -/
def clear (s : Latch) : Latch := { s with line := false }

variable {period : ℕ}

theorem graded_elapses : StateFn.Graded (Elapses period) where
  refl s := ⟨Nat.le_refl _, fun _ => Or.inl ⟨rfl, rfl⟩⟩
  trans {j k s t u} h h' := by
    have hd := h.distance
    have hd' := h'.distance
    refine ⟨by omega, fun hlt => ?_⟩
    rcases h.raised (by omega) with ⟨hr, hl⟩ | ⟨hr, hl, hnear, hfar⟩
    · rcases h'.raised (by omega) with ⟨hr', hl'⟩ | ⟨hr', hl', hnear', hfar'⟩
      · exact Or.inl ⟨hr'.trans hr, hl'.trans hl⟩
      · exact Or.inr ⟨by omega, hl', by omega, by omega⟩
    · rcases h'.raised (by omega) with ⟨hr', hl'⟩ | ⟨hr', -, hnear', -⟩
      · exact Or.inr ⟨by omega, hl'.trans hl, by omega, by omega⟩
      · omega
  mono {j k s t} hjk h := by
    have hd := h.distance
    refine ⟨by omega, fun hlt => ?_⟩
    rcases h.raised (by omega) with hsame | ⟨hr, hl, hnear, hfar⟩
    · exact Or.inl hsame
    · exact Or.inr ⟨hr, hl, by omega, by omega⟩

/-- One tick, from a distance that a raise sets back to the period. -/
theorem elapses_raise {s s' : Latch} (hr : s'.raised = s.raised + 1) (hl : s'.line = true)
    (hd : s.distance = 0) (hd' : period ≤ s'.distance + 1) : Elapses period 1 s s' :=
  ⟨by omega, fun _ => Or.inr ⟨hr, hl, by omega, hd'⟩⟩

theorem elapses_of_same {s s' : Latch} {k : ℕ} (hr : s'.raised = s.raised) (hl : s'.line = s.line)
    (hd : s.distance ≤ s'.distance + k) : Elapses period k s s' :=
  ⟨hd, fun _ => Or.inl ⟨hr, hl⟩⟩

/-! ### Counting -/

/-- The sink has taken each raise but the one that the latch holds, and that one is `age` ticks
old at most. -/
structure Counted (period taken age : ℕ) (s : Latch) : Prop where
  raised : s.raised = taken + s.line.toNat
  young : s.line = true → period ≤ s.distance + age

variable {taken age k : ℕ} {s s' : Latch}

/-- **Time passes.**  What the latch holds must not be too old. -/
theorem Counted.elapses (h : Counted period taken age s) (he : Elapses period k s s')
    (hage : age + k < period) : Counted period taken (age + k) s' := by
  have hd := he.distance
  have hc := h.raised
  rcases he.raised (by omega) with ⟨hr, hl⟩ | ⟨hr, hl, hnear, hfar⟩
  · refine ⟨by rw [hr, hl, hc], fun hline => ?_⟩
    have hy := h.young (hl ▸ hline)
    omega
  · have hdown : s.line = false := by
      cases hline : s.line with
      | false => rfl
      | true =>
        have hy := h.young hline
        omega
    refine ⟨?_, fun _ => by omega⟩
    rw [hdown] at hc
    rw [hr, hc, hl]
    rfl

/-- **The sink takes the raise.** -/
theorem Counted.clear (h : Counted period taken age s) (hl : s.line = true) :
    Counted period (taken + 1) 0 s.clear := by
  have hc := h.raised
  rw [hl] at hc
  exact ⟨hc, nofun⟩

/-- An empty latch has nothing that could be old. -/
theorem Counted.empty (h : Counted period taken age s) (hl : s.line = false) :
    Counted period taken 0 s := ⟨h.raised, fun hline => absurd (hl.symm.trans hline) nofun⟩

theorem Counted.mono {age' : ℕ} (h : Counted period taken age s) (hle : age ≤ age') :
    Counted period taken age' s :=
  ⟨h.raised, fun hline => Nat.le_trans (h.young hline) (Nat.add_le_add_left hle _)⟩

end Latch
