import Mathlib.Logic.Function.Basic
import RetroCpu.Lib.Run

/-!
# Threads that share data and take locks

A thread is a program: at a place, and given what it is asked to do, it takes a step that
may change the shared data and may acquire or release a lock.  `holds` says which locks a
thread has at a place.

The same threads run in two ways.  `step` is any interleaving of the steps and does not look
at the locks; `lockStep` keeps the owner of each lock and makes a thread wait for a lock that
has one.  `run_forget` takes a run of the second kind to one of the first, and `Owned` says
that owners are known from the places.
-/

namespace RetroCpu

/-- What a step does with the locks. -/
inductive LockOp (ℓ : Type)
  | skip
  | acquire (l : ℓ)
  | release (l : ℓ)

namespace LockOp

variable {τ ℓ : Type} [DecidableEq ℓ]

/-- From the locks `h` to the locks `h'`.  A lock is not taken twice. -/
def Moves (h h' : ℓ → Bool) : LockOp ℓ → Prop
  | skip => h' = h
  | acquire l => h l = false ∧ h' = Function.update h l true
  | release l => h l = true ∧ h' = Function.update h l false

/-- The owners after a step of thread `i`, if the lock can be had. -/
def grant [DecidableEq τ] (i : τ) (owner : ℓ → Option τ) : LockOp ℓ → Option (ℓ → Option τ)
  | skip => some owner
  | acquire l => if owner l = none then some (Function.update owner l (some i)) else none
  | release l => some (Function.update owner l none)

end LockOp

/-- Threads `i : τ` over the data `δ` with the locks `ℓ`. -/
structure Threads (τ δ ℓ : Type) [DecidableEq ℓ] where
  Pc : τ → Type
  Input : τ → Type
  next : ∀ i, Input i → Pc i → δ → Option (LockOp ℓ × Pc i × δ)
  holds : ∀ i, Pc i → ℓ → Bool
  moves : ∀ {i a p d op p' d'}, next i a p d = some (op, p', d') →
    op.Moves (holds i p) (holds i p')

namespace Threads

variable {τ δ ℓ : Type} [DecidableEq τ] [DecidableEq ℓ] (T : Threads τ δ ℓ)

structure State where
  pc : ∀ i, T.Pc i
  data : δ

structure Locked extends T.State where
  owner : ℓ → Option τ

/-- A thread and what it is asked to do. -/
abbrev Move : Type := Σ i, T.Input i

/-- A step of one thread. -/
def step : T.Move → T.State → Option T.State
  | ⟨i, a⟩, s =>
    match T.next i a (s.pc i) s.data with
    | none => none
    | some (_, p, d) => some ⟨Function.update s.pc i p, d⟩

/-- A step of one thread that has to have the lock it asks for. -/
def lockStep : T.Move → T.Locked → Option T.Locked
  | ⟨i, a⟩, s =>
    match T.next i a (s.pc i) s.data with
    | none => none
    | some (op, p, d) =>
      match op.grant i s.owner with
      | none => none
      | some owner => some ⟨⟨Function.update s.pc i p, d⟩, owner⟩

/-- The next step of `i` takes the lock `l`. -/
def Waits (s : T.State) (i : τ) (l : ℓ) : Prop :=
  ∃ a p d, T.next i a (s.pc i) s.data = some (.acquire l, p, d)

/-- `i` has `l` and waits for `m`, and `j` has `m` and waits for `l`. -/
def Deadlock (s : T.Locked) (i j : τ) (l m : ℓ) : Prop :=
  s.owner l = some i ∧ T.Waits s.toState i m ∧ s.owner m = some j ∧ T.Waits s.toState j l

/-- Each lock is owned by the thread that is where it is held. -/
def Owned (s : T.Locked) : Prop := ∀ l i, s.owner l = some i ↔ T.holds i (s.pc i) l = true

variable {T}

theorem step_some {i : τ} {a : T.Input i} {s t : T.State} (h : T.step ⟨i, a⟩ s = some t) :
    ∃ op p d, T.next i a (s.pc i) s.data = some (op, p, d) ∧
      t = ⟨Function.update s.pc i p, d⟩ := by
  simp only [step] at h
  cases hn : T.next i a (s.pc i) s.data with
  | none =>
    rw [hn] at h
    cases h
  | some r =>
    rw [hn] at h
    cases h
    exact ⟨r.1, r.2.1, r.2.2, rfl, rfl⟩

theorem lockStep_some {i : τ} {a : T.Input i} {s t : T.Locked}
    (h : T.lockStep ⟨i, a⟩ s = some t) :
    ∃ op p d owner, T.next i a (s.pc i) s.data = some (op, p, d) ∧
      op.grant i s.owner = some owner ∧ t = ⟨⟨Function.update s.pc i p, d⟩, owner⟩ := by
  simp only [lockStep] at h
  cases hn : T.next i a (s.pc i) s.data with
  | none =>
    rw [hn] at h
    cases h
  | some r =>
    rw [hn] at h
    simp only at h
    cases hg : r.1.grant i s.owner with
    | none =>
      rw [hg] at h
      cases h
    | some owner =>
      rw [hg] at h
      cases h
      exact ⟨r.1, r.2.1, r.2.2, owner, rfl, hg, rfl⟩

theorem step_of_next {i : τ} {a : T.Input i} {s : T.State} {op : LockOp ℓ} {p : T.Pc i} {d : δ}
    (h : T.next i a (s.pc i) s.data = some (op, p, d)) :
    T.step ⟨i, a⟩ s = some ⟨Function.update s.pc i p, d⟩ := by
  simp only [step, h]

theorem lockStep_of_next {i : τ} {a : T.Input i} {s : T.Locked} {op : LockOp ℓ} {p : T.Pc i}
    {d : δ} {owner : ℓ → Option τ} (h : T.next i a (s.pc i) s.data = some (op, p, d))
    (hg : op.grant i s.owner = some owner) :
    T.lockStep ⟨i, a⟩ s = some ⟨⟨Function.update s.pc i p, d⟩, owner⟩ := by
  simp only [lockStep, h, hg]

/-- Locks only keep steps from being taken. -/
theorem step_of_lockStep {m : T.Move} {s t : T.Locked} (h : T.lockStep m s = some t) :
    T.step m s.toState = some t.toState := by
  obtain ⟨i, a⟩ := m
  obtain ⟨op, p, d, owner, hn, -, rfl⟩ := lockStep_some h
  exact step_of_next hn

theorem owned_lockStep {m : T.Move} {s t : T.Locked} (h : T.Owned s)
    (hs : T.lockStep m s = some t) : T.Owned t := by
  obtain ⟨i, a⟩ := m
  obtain ⟨op, p, d, owner, hn, hg, rfl⟩ := lockStep_some hs
  have hmove := T.moves hn
  intro l j
  show owner l = some j ↔ T.holds j (Function.update s.pc i p j) l = true
  by_cases hji : j = i
  · subst hji
    rw [Function.update_self]
    cases op with
    | skip =>
      cases hg
      rw [show T.holds j p = T.holds j (s.pc j) from hmove]
      exact h l j
    | acquire l' =>
      obtain ⟨-, hp⟩ := hmove
      rw [hp]
      simp only [LockOp.grant] at hg
      split at hg
      · cases hg
        by_cases hl : l = l'
        · rw [hl, Function.update_self, Function.update_self]
          simp
        · rw [Function.update_of_ne hl, Function.update_of_ne hl]
          exact h l j
      · cases hg
    | release l' =>
      obtain ⟨-, hp⟩ := hmove
      rw [hp]
      cases hg
      by_cases hl : l = l'
      · rw [hl, Function.update_self, Function.update_self]
        simp
      · rw [Function.update_of_ne hl, Function.update_of_ne hl]
        exact h l j
  · rw [Function.update_of_ne hji]
    cases op with
    | skip =>
      cases hg
      exact h l j
    | acquire l' =>
      simp only [LockOp.grant] at hg
      split at hg
      · next hfree =>
        cases hg
        by_cases hl : l = l'
        · subst hl
          rw [Function.update_self, ← h l j, hfree]
          simp [Ne.symm hji]
        · rw [Function.update_of_ne hl]
          exact h l j
      · cases hg
    | release l' =>
      cases hg
      by_cases hl : l = l'
      · -- the lock that is given back was held by `i`
        subst hl
        have hi := (h l i).mpr hmove.1
        rw [Function.update_self, ← h l j, hi]
        simp [Ne.symm hji]
      · rw [Function.update_of_ne hl]
        exact h l j

theorem owned_run {ok : T.Locked → T.Move → Prop} {s t : T.Locked} (hs : T.Owned s)
    (h : Run T.lockStep ok s t) : T.Owned t :=
  h.invariant hs fun _ _ _ ht _ hm => owned_lockStep ht hm

end Threads

end RetroCpu
