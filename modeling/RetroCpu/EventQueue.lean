import Mathlib.Data.List.Basic
import Mathlib.Data.List.Perm.Basic
import Mathlib.Tactic.Common

/-!
# The event queue

`EventQueue` keeps its entries in a binary heap of the standard library, ordered
by time.  `StdHeap` is what the library promises: `push_heap` and `pop_heap` keep
the entries and put one of least time at the front.

The queue is shared with the run loop through a pointer: `*cycle` is the bound up
to which the CPU may run before it looks at the queue again.  `Bounded` is what
that bound is for, and the three places that move it, `Start`, `Schedule` and
`Expire`, establish it.
-/

namespace RetroCpu

/-- `EventQueue::Entry`. -/
structure Entry (ε : Type) where
  t : BitVec 64
  f : ε
  deriving DecidableEq

/-- `std::push_heap` and `std::pop_heap` with `std::greater<uint64_t>`, on vectors in heap order. -/
structure StdHeap (ε : Type) where
  IsHeap : List (Entry ε) → Prop
  pushHeap : List (Entry ε) → List (Entry ε)
  popHeap : List (Entry ε) → List (Entry ε)
  front_le : ∀ {x l}, IsHeap (x :: l) → ∀ e ∈ l, x.t ≤ e.t
  push_perm : ∀ {l}, IsHeap l → ∀ e, (pushHeap (l ++ [e])).Perm (l ++ [e])
  isHeap_push : ∀ {l}, IsHeap l → ∀ e, IsHeap (pushHeap (l ++ [e]))
  pop_perm : ∀ {x l}, IsHeap (x :: l) → (popHeap (x :: l)).dropLast.Perm l
  isHeap_pop : ∀ {x l}, IsHeap (x :: l) → IsHeap (popHeap (x :: l)).dropLast

/-- `EventQueue`, with the value its `cycle` points to. -/
structure EventQueue (ε : Type) where
  entries : List (Entry ε)
  stop : BitVec 64
  cycle : BitVec 64

namespace EventQueue

variable {ε : Type}

/-- `std::min(stop, t)`. -/
def minStop (stop t : BitVec 64) : BitVec 64 := if t < stop then t else stop

/-- Set `*cycle` to the time of the front entry or to `stop`. -/
def refresh (q : EventQueue ε) : EventQueue ε :=
  { q with cycle := match q.entries.head? with
    | none => q.stop
    | some e => minStop q.stop e.t }

/-- `Start`. -/
def start (q : EventQueue ε) (eventCycle stopCycle : BitVec 64) : EventQueue ε :=
  { q with
    stop := stopCycle
    cycle := match q.entries.head? with
      | none => eventCycle
      | some e => minStop stopCycle e.t }

variable (H : StdHeap ε)

/-- `ScheduleNoLock`, and `Schedule` but for the lock. -/
def scheduleNoLock (q : EventQueue ε) (e : Entry ε) : EventQueue ε :=
  refresh { q with entries := H.pushHeap (q.entries ++ [e]) }

/-- The calls of `ScheduleNoLock` that an instruction or an event makes, in order. -/
def scheduleAll (q : EventQueue ε) (es : List (Entry ε)) : EventQueue ε :=
  es.foldl (scheduleNoLock H) q

/-- One round of the loop in `Expire(t)`: the event to call and the queue without it. -/
def popDue (q : EventQueue ε) (t : BitVec 64) : Option (ε × EventQueue ε) :=
  match q.entries with
  | [] => none
  | e :: _ =>
    if e.t ≤ t then some (e.f, { q with entries := (H.popHeap q.entries).dropLast }) else none

/-! ### The bound -/

/-- The CPU may run up to `*cycle` without passing an entry or `stop`. -/
structure Bounded (q : EventQueue ε) : Prop where
  stop : q.cycle ≤ q.stop
  entries : ∀ e ∈ q.entries, q.cycle ≤ e.t

theorem minStop_le (stop t : BitVec 64) : minStop stop t ≤ stop ∧ minStop stop t ≤ t := by
  rw [minStop]
  split
  · next h => exact ⟨BitVec.le_of_lt h, BitVec.le_refl t⟩
  · next h => exact ⟨BitVec.le_refl stop, BitVec.not_lt.mp h⟩

theorem lt_minStop {c stop t : BitVec 64} (hs : c < stop) (ht : c < t) : c < minStop stop t := by
  rw [minStop]
  split
  · exact ht
  · exact hs

variable {H} {q : EventQueue ε}

theorem head_le (hq : H.IsHeap q.entries) {x : Entry ε} (hx : q.entries.head? = some x) :
    ∀ e ∈ q.entries, x.t ≤ e.t := by
  obtain ⟨l, hl⟩ := List.head?_eq_some_iff.mp hx
  rw [hl] at hq ⊢
  intro e he
  rcases List.mem_cons.mp he with rfl | he
  · exact BitVec.le_refl _
  · exact H.front_le hq e he

theorem bounded_refresh (hq : H.IsHeap q.entries) : q.refresh.Bounded := by
  cases hx : q.entries.head? with
  | none =>
    have hl : q.entries = [] := List.head?_eq_none_iff.mp hx
    constructor
    · simp [refresh, hx]
    · simp [refresh, hl]
  | some x =>
    obtain ⟨hs, ht⟩ := minStop_le q.stop x.t
    constructor
    · simp only [refresh, hx]
      exact hs
    · intro e he
      simp only [refresh, hx]
      exact BitVec.le_trans ht (head_le hq hx e he)

/-- `Start` with `stop` in `*cycle` sets the bound. -/
theorem start_eq_refresh (q : EventQueue ε) (stop : BitVec 64) :
    q.start stop stop = refresh { q with stop := stop } := by
  simp only [start, refresh]

theorem bounded_start (hq : H.IsHeap q.entries) (stop : BitVec 64) :
    (q.start stop stop).Bounded := by
  rw [start_eq_refresh]
  exact bounded_refresh hq

/-- The bound is above a time that is before `stop` and before every entry. -/
theorem lt_cycle_refresh {c : BitVec 64} (hs : c < q.stop) (he : ∀ e ∈ q.entries, c < e.t) :
    c < q.refresh.cycle := by
  cases hx : q.entries.head? with
  | none =>
    simp only [refresh, hx]
    exact hs
  | some x =>
    simp only [refresh, hx]
    exact lt_minStop hs (he x (List.mem_of_mem_head? hx))

theorem lt_cycle_start {c stop : BitVec 64} (hs : c < stop) (he : ∀ e ∈ q.entries, c < e.t) :
    c < (q.start stop stop).cycle := by
  rw [start_eq_refresh]
  exact lt_cycle_refresh hs he

theorem isHeap_scheduleNoLock (hq : H.IsHeap q.entries) (e : Entry ε) :
    H.IsHeap (q.scheduleNoLock H e).entries := H.isHeap_push hq e

@[simp] theorem stop_scheduleNoLock (q : EventQueue ε) (e : Entry ε) :
    (q.scheduleNoLock H e).stop = q.stop := rfl

theorem bounded_scheduleNoLock (hq : H.IsHeap q.entries) (e : Entry ε) :
    (q.scheduleNoLock H e).Bounded := bounded_refresh (H.isHeap_push hq e)

@[simp] theorem scheduleAll_cons (q : EventQueue ε) (e : Entry ε) (es : List (Entry ε)) :
    q.scheduleAll H (e :: es) = (q.scheduleNoLock H e).scheduleAll H es := rfl

theorem isHeap_scheduleAll (hq : H.IsHeap q.entries) (es : List (Entry ε)) :
    H.IsHeap (q.scheduleAll H es).entries := by
  induction es generalizing q with
  | nil => exact hq
  | cons e es ih => exact ih (isHeap_scheduleNoLock hq e)

theorem stop_scheduleAll (q : EventQueue ε) (es : List (Entry ε)) :
    (q.scheduleAll H es).stop = q.stop := by
  induction es generalizing q with
  | nil => rfl
  | cons e es ih => exact (ih _).trans (stop_scheduleNoLock q e)

theorem bounded_scheduleAll (hq : H.IsHeap q.entries) (hb : q.Bounded) (es : List (Entry ε)) :
    (q.scheduleAll H es).Bounded := by
  induction es generalizing q with
  | nil => exact hb
  | cons e es ih => exact ih (isHeap_scheduleNoLock hq e) (bounded_scheduleNoLock hq e)

/-! ### `Expire` -/

theorem popDue_some {t : BitVec 64} {f : ε} {q' : EventQueue ε} (hq : H.IsHeap q.entries)
    (h : q.popDue H t = some (f, q')) : ∃ x l, q.entries = x :: l ∧ x.t ≤ t ∧ x.f = f ∧
      H.IsHeap q'.entries ∧ q'.entries.Perm l ∧ q'.stop = q.stop := by
  rw [popDue] at h
  split at h
  · cases h
  · next x l hl =>
    split at h
    · next ht =>
      cases h
      rw [hl] at hq
      refine ⟨x, l, hl, ht, rfl, ?_, ?_, rfl⟩
      · rw [hl]
        exact H.isHeap_pop hq
      · rw [hl]
        exact H.pop_perm hq
    · cases h

theorem isHeap_popDue {t : BitVec 64} {f : ε} {q' : EventQueue ε} (hq : H.IsHeap q.entries)
    (h : q.popDue H t = some (f, q')) : H.IsHeap q'.entries ∧ q'.stop = q.stop := by
  obtain ⟨-, -, -, -, -, hheap, -, hs⟩ := popDue_some hq h
  exact ⟨hheap, hs⟩

/-- When `Expire` ends its loop no entry is due. -/
theorem popDue_none {t : BitVec 64} (hq : H.IsHeap q.entries) (h : q.popDue H t = none) :
    ∀ e ∈ q.entries, t < e.t := by
  rw [popDue] at h
  split at h
  · next hl =>
    rw [hl]
    exact fun e he => absurd he List.not_mem_nil
  · next x l hl =>
    split at h
    · cases h
    · next ht =>
      intro e he
      have hx := head_le hq (x := x) (by rw [hl]; rfl) e he
      have ht := BitVec.not_le.mp ht
      bv_omega

/-! ### Due entries -/

/-- How many entries `Expire(t)` still has to call. -/
def due (q : EventQueue ε) (t : BitVec 64) : ℕ := q.entries.countP (·.t ≤ t)

theorem due_popDue {t : BitVec 64} {f : ε} {q' : EventQueue ε} (hq : H.IsHeap q.entries)
    (h : q.popDue H t = some (f, q')) : q'.due t + 1 = q.due t := by
  obtain ⟨x, l, hl, ht, -, -, hp, -⟩ := popDue_some hq h
  rw [due, due, hl, hp.countP_eq, List.countP_cons_of_pos (by simpa using ht)]

/-- Events of a later time do not become due. -/
theorem due_scheduleAll {t : BitVec 64} (hq : H.IsHeap q.entries) {es : List (Entry ε)}
    (hes : ∀ e ∈ es, t < e.t) : (q.scheduleAll H es).due t = q.due t := by
  induction es generalizing q with
  | nil => rfl
  | cons e es ih =>
    have he : ¬e.t ≤ t := BitVec.not_le.mpr (hes e (List.mem_cons_self ..))
    have h1 : (q.scheduleNoLock H e).due t = q.due t := by
      have hp : (q.scheduleNoLock H e).entries.Perm (q.entries ++ [e]) := H.push_perm hq e
      rw [due, hp.countP_eq, List.countP_append, List.countP_cons_of_neg (by simpa using he)]
      rfl
    rw [scheduleAll_cons, ih (isHeap_scheduleNoLock hq e)
      fun e' he' => hes e' (List.mem_cons_of_mem _ he'), h1]

end EventQueue

/-! ### A heap -/

def minFront {ε : Type} : List (Entry ε) → List (Entry ε)
  | [] => []
  | x :: l =>
    match minFront l with
    | [] => [x]
    | y :: l' => if y.t < x.t then y :: x :: l' else x :: y :: l'

theorem minFront_perm {ε : Type} (l : List (Entry ε)) : (minFront l).Perm l := by
  induction l with
  | nil => exact .nil
  | cons x l ih =>
    rw [minFront]
    split
    · next h =>
      rw [h] at ih
      rw [List.nil_perm.mp ih]
    · next y l' h =>
      rw [h] at ih
      split
      · exact (List.Perm.swap x y l').trans (ih.cons x)
      · exact ih.cons x

def FrontLeast {ε : Type} (l : List (Entry ε)) : Prop :=
  ∀ x ∈ l.head?, ∀ e ∈ l, x.t ≤ e.t

theorem frontLeast_minFront {ε : Type} (l : List (Entry ε)) : FrontLeast (minFront l) := by
  induction l with
  | nil => exact nofun
  | cons x l ih =>
    rw [minFront]
    split
    · intro y hy e he
      cases hy
      rw [List.mem_singleton.mp he]
      exact BitVec.le_refl _
    · next y l' h =>
      rw [h] at ih
      have hy : ∀ e ∈ l', y.t ≤ e.t := fun e he => ih y rfl e (List.mem_cons_of_mem _ he)
      split
      · next hlt =>
        intro z hz e he
        cases hz
        rcases List.mem_cons.mp he with rfl | he
        · exact BitVec.le_refl _
        · rcases List.mem_cons.mp he with rfl | he
          · exact BitVec.le_of_lt hlt
          · exact hy e he
      · next hlt =>
        have hle : x.t ≤ y.t := BitVec.not_lt.mp hlt
        intro z hz e he
        cases hz
        rcases List.mem_cons.mp he with rfl | he
        · exact BitVec.le_refl _
        · rcases List.mem_cons.mp he with rfl | he
          · exact hle
          · exact BitVec.le_trans hle (hy e he)

/-- The heap operations that look for the least entry each time. -/
def StdHeap.select (ε : Type) : StdHeap ε where
  IsHeap := FrontLeast
  pushHeap := minFront
  popHeap
    | [] => []
    | x :: l => minFront l ++ [x]
  front_le h e he := h _ rfl e (List.mem_cons_of_mem _ he)
  push_perm _ _ := minFront_perm _
  isHeap_push _ _ := frontLeast_minFront _
  pop_perm _ := by
    rw [List.dropLast_concat]
    exact minFront_perm _
  isHeap_pop _ := by
    rw [List.dropLast_concat]
    exact frontLeast_minFront _

end RetroCpu
