import Mathlib.Logic.Function.Iterate

/-!
# Runs of a partial step function

`step : ι → σ → Option σ` takes an input and a state; where it gives `none` there
is no next state.  `Run step ok s t` says that `t` is reached from `s` by steps
whose inputs satisfy `ok` in the state they are given in.

`Run.invariant` is the induction: what the steps keep, a run keeps.
-/

/-- `t` is reached from `s` by admissible steps. -/
inductive Run {σ ι : Type} (step : ι → σ → Option σ) (ok : σ → ι → Prop) (s : σ) : σ → Prop
  | refl : Run step ok s s
  | tail {t u : σ} (i : ι) (prior : Run step ok s t) (hok : ok t i) (h : step i t = some u) :
      Run step ok s u

/-- The state after a list of inputs. -/
def runList {σ ι : Type} (step : ι → σ → Option σ) : List ι → σ → Option σ
  | [], s => some s
  | i :: is, s => (step i s).bind (runList step is)

namespace Run

variable {σ ι : Type} {step : ι → σ → Option σ} {ok : σ → ι → Prop}

/-- **A property that holds at the start and that every admissible step keeps holds at the
end.** -/
theorem invariant {P : σ → Prop} {s t : σ} (hs : P s)
    (hstep : ∀ i t u, P t → ok t i → step i t = some u → P u) (h : Run step ok s t) : P t := by
  induction h with
  | refl => exact hs
  | tail i _ hok h ih => exact hstep i _ _ ih hok h

theorem trans {s t u : σ} (h : Run step ok s t) (h' : Run step ok t u) : Run step ok s u := by
  induction h' with
  | refl => exact h
  | tail i _ hok hi ih => exact .tail i ih hok hi

theorem mono {ok' : σ → ι → Prop} (hok : ∀ s i, ok s i → ok' s i) {s t : σ}
    (h : Run step ok s t) : Run step ok' s t := by
  induction h with
  | refl => exact .refl
  | tail i _ hi h ih => exact .tail i ih (hok _ _ hi) h

theorem of_runList {is : List ι} {s t : σ} (hok : ∀ i ∈ is, ∀ s, ok s i)
    (h : runList step is s = some t) : Run step ok s t := by
  induction is generalizing s with
  | nil =>
    cases h
    exact .refl
  | cons i is ih =>
    obtain ⟨u, hu, ht⟩ := Option.bind_eq_some_iff.mp h
    have hi : Run step ok s u := .tail i .refl (hok i (List.mem_cons_self ..) s) hu
    exact hi.trans (ih (fun j hj => hok j (List.mem_cons_of_mem _ hj)) ht)

/-- A list of inputs that are admissible where they are given. -/
theorem of_checked (ok : σ → ι → Bool) {is : List ι} {s t : σ}
    (h : runList (fun i s => if ok s i then step i s else none) is s = some t) :
    Run step (fun s i => ok s i = true) s t := by
  induction is generalizing s with
  | nil =>
    cases h
    exact .refl
  | cons i is ih =>
    obtain ⟨u, hu, ht⟩ := Option.bind_eq_some_iff.mp h
    simp only at hu
    split at hu
    · next hok => exact (Run.tail i .refl hok hu).trans (ih ht)
    · cases hu

/-- **Runs that end.**  If from each state that is not final an admissible step goes down a
well-founded relation, some run ends in a final state. -/
theorem reaches {r : σ → σ → Prop} (hr : WellFounded r) {I final : σ → Prop}
    (hI : ∀ s, I s → final s ∨ ∃ i t, ok s i ∧ step i s = some t ∧ I t ∧ r t s) {s : σ}
    (hs : I s) : ∃ t, Run step ok s t ∧ I t ∧ final t := by
  induction s using hr.induction with
  | h s ih =>
    rcases hI s hs with hf | ⟨i, t, hok, hi, ht, hrt⟩
    · exact ⟨s, .refl, hs, hf⟩
    · obtain ⟨u, hu, hIu, hfu⟩ := ih t hrt ht
      exact ⟨u, (Run.tail i .refl hok hi).trans hu, hIu, hfu⟩

end Run

/-! ### Steps that change nothing -/

/-- Every input of the list is admissible in the state it is given in. -/
def Admissible {σ ι : Type} (step : ι → σ → Option σ) (ok : σ → ι → Prop) : List ι → σ → Prop
  | [], _ => True
  | i :: is, s => ok s i ∧ ∀ t, step i s = some t → Admissible step ok is t

/-- **Inputs that change nothing can be left out.**  `f` gives the input of the other step
function, or `none` for one that is left out. -/
theorem runList_filterMap {σ ι κ : Type} {step : ι → σ → Option σ} {step' : κ → σ → Option σ}
    {ok : σ → ι → Prop} {f : ι → Option κ} {P : σ → Prop}
    (hP : ∀ i s t, P s → ok s i → step i s = some t → P t)
    (hkept : ∀ i s k, f i = some k → step i s = step' k s)
    (hleft : ∀ i s, P s → ok s i → f i = none → step i s = some s) (is : List ι) {s : σ}
    (hs : P s) (h : Admissible step ok is s) :
    runList step is s = runList step' (is.filterMap f) s := by
  induction is generalizing s with
  | nil => rfl
  | cons i is ih =>
    obtain ⟨hok, hrest⟩ := h
    cases hf : f i with
    | none =>
      have hi := hleft i s hs hok hf
      rw [List.filterMap_cons_none hf, runList, hi]
      exact ih hs (hrest s hi)
    | some k =>
      have hi := hkept i s k hf
      rw [List.filterMap_cons_some hf, runList, runList, ← hi]
      cases ht : step i s with
      | none => rfl
      | some t => exact ih (hP i s t hs hok ht) (hrest t ht)

/-- **What the last write to a place leaves there.**  `f` says what a step writes to the
place that `get` reads, in the states that satisfy `P`. -/
theorem foldl_eq_getLastD_of {σ ω β : Type} {P : σ → Prop} (get : σ → β) {step : σ → ω → σ}
    {f : ω → Option β} (hP : ∀ s w, P s → P (step s w))
    (hstep : ∀ s w, P s → get (step s w) = (f w).getD (get s)) (ws : List ω) {s : σ} (hs : P s) :
    get (ws.foldl step s) = (ws.filterMap f).getLastD (get s) := by
  induction ws generalizing s with
  | nil => rfl
  | cons w ws ih =>
    rw [List.foldl_cons, ih (hP s w hs), hstep s w hs]
    cases hw : f w with
    | none => rw [List.filterMap_cons_none hw, Option.getD_none]
    | some v => rw [List.filterMap_cons_some hw, Option.getD_some, List.getLastD_cons]

theorem foldl_eq_getLastD {σ ω β : Type} (get : σ → β) {step : σ → ω → σ} {f : ω → Option β}
    (hstep : ∀ s w, get (step s w) = (f w).getD (get s)) (ws : List ω) (s : σ) :
    get (ws.foldl step s) = (ws.filterMap f).getLastD (get s) :=
  foldl_eq_getLastD_of (P := fun _ => True) get (fun _ _ _ => trivial)
    (fun s w _ => hstep s w) ws trivial

/-! ### Two step functions side by side -/

/-- The state after `n` steps. -/
def stepN {σ : Type} (step : σ → Option σ) : Nat → σ → Option σ
  | 0, s => some s
  | n + 1, s => (step s).bind (stepN step n)

/-- What a step keeps, any number of steps keep. -/
theorem stepN_invariant {σ : Type} {P : σ → Prop} {f : σ → Option σ}
    (h : ∀ s s', P s → f s = some s' → P s') (n : Nat) {s s' : σ} (hs : P s)
    (hn : stepN f n s = some s') : P s' := by
  induction n generalizing s with
  | zero =>
    cases hn
    exact hs
  | succ n ih =>
    obtain ⟨u, hu, hn⟩ := Option.bind_eq_some_iff.mp hn
    exact ih (h s u hs hu) hn

theorem stepN_succ {σ : Type} (f : σ → Option σ) (n : Nat) (s : σ) :
    stepN f (n + 1) s = (stepN f n s).bind f := by
  induction n generalizing s with
  | zero => exact Option.bind_fun_some (f s)
  | succ n ih =>
    rw [stepN, stepN, Option.bind_assoc]
    congr 1
    funext s'
    exact ih s'

/-- A run is cut where one likes. -/
theorem stepN_add {σ : Type} (f : σ → Option σ) (m n : Nat) (s : σ) :
    stepN f (m + n) s = (stepN f m s).bind (stepN f n) := by
  induction n with
  | zero => exact (Option.bind_fun_some _).symm
  | succ n ih =>
    rw [← Nat.add_assoc, stepN_succ, ih, Option.bind_assoc]
    congr 1
    funext s'
    exact (stepN_succ f n s').symm

/-- **Lockstep.**  If `proj` takes one step function to another where `P` holds, it takes their
runs to one another. -/
theorem stepN_map {σ τ : Type} {f : σ → Option σ} {g : τ → Option τ} {proj : τ → σ}
    {P : τ → Prop} (hP : ∀ t t', P t → g t = some t' → P t')
    (h : ∀ t, P t → f (proj t) = (g t).map proj) (n : Nat) {t : τ} (ht : P t) :
    stepN f n (proj t) = (stepN g n t).map proj := by
  induction n generalizing t with
  | zero => rfl
  | succ n ih =>
    rw [stepN, stepN, h t ht]
    cases hg : g t with
    | none => rfl
    | some t' => exact ih (hP t t' ht hg)

/-! ### Loops with a guard -/

section Until

variable {σ : Type}

/-- `while(!done) step`, or `none` when `fuel` rounds are not enough. -/
def runUntil (done : σ → Prop) [DecidablePred done] (step : σ → σ) : Nat → σ → Option σ
  | 0, _ => none
  | fuel + 1, s => if done s then some s else runUntil done step fuel (step s)

/-- The loop ends in `t`. -/
def EndsIn (done : σ → Prop) [DecidablePred done] (step : σ → σ) (s t : σ) : Prop :=
  ∃ fuel, runUntil done step fuel s = some t

variable {done done' : σ → Prop} [DecidablePred done] [DecidablePred done'] {step : σ → σ}
  {s t : σ}

theorem endsIn_of_done (h : done s) : EndsIn done step s s := ⟨1, if_pos h⟩

theorem EndsIn.head (h : ¬done s) (ht : EndsIn done step (step s) t) : EndsIn done step s t := by
  obtain ⟨fuel, hfuel⟩ := ht
  exact ⟨fuel + 1, (if_neg h).trans hfuel⟩

/-- What each round keeps holds when the loop ends. -/
theorem EndsIn.invariant {P : σ → Prop} (hstep : ∀ s, P s → ¬done s → P (step s)) (hs : P s)
    (h : EndsIn done step s t) : P t ∧ done t := by
  obtain ⟨fuel, hfuel⟩ := h
  induction fuel generalizing s with
  | zero => cases hfuel
  | succ fuel ih =>
    rw [runUntil] at hfuel
    by_cases hdone : done s
    · rw [if_pos hdone] at hfuel
      cases hfuel
      exact ⟨hs, hdone⟩
    · rw [if_neg hdone] at hfuel
      exact ih (hstep s hs hdone) hfuel

/-- A loop that gets closer to its end in each round ends within as many rounds. -/
theorem exists_runUntil {P : σ → Prop} (μ : σ → Nat)
    (hstep : ∀ s, P s → ¬done s → P (step s) ∧ μ (step s) < μ s) {fuel : Nat} (hs : P s)
    (hfuel : μ s < fuel) : ∃ t, runUntil done step fuel s = some t := by
  induction fuel generalizing s with
  | zero => exact absurd hfuel (Nat.not_lt_zero _)
  | succ fuel ih =>
    rw [runUntil]
    by_cases hdone : done s
    · exact ⟨s, if_pos hdone⟩
    · obtain ⟨hP, hlt⟩ := hstep s hs hdone
      rw [if_neg hdone]
      exact ih hP (Nat.lt_of_lt_of_le hlt (Nat.le_of_lt_succ hfuel))

/-- A loop ends if it is done after some number of rounds. -/
theorem exists_endsIn_iff : (∃ t, EndsIn done step s t) ↔ ∃ k, done (step^[k] s) := by
  constructor
  · rintro ⟨t, fuel, hfuel⟩
    induction fuel generalizing s with
    | zero => cases hfuel
    | succ fuel ih =>
      rw [runUntil] at hfuel
      by_cases hdone : done s
      · exact ⟨0, hdone⟩
      · rw [if_neg hdone] at hfuel
        obtain ⟨k, hk⟩ := ih hfuel
        exact ⟨k + 1, hk⟩
  · rintro ⟨k, hk⟩
    induction k generalizing s with
    | zero => exact ⟨s, endsIn_of_done hk⟩
    | succ k ih =>
      by_cases hdone : done s
      · exact ⟨s, endsIn_of_done hdone⟩
      · obtain ⟨t, ht⟩ := ih hk
        exact ⟨t, ht.head hdone⟩

theorem EndsIn.isDone (h : EndsIn done step s t) : done t :=
  (h.invariant (P := fun _ => True) (fun _ _ _ => trivial) trivial).2

/-- **A stop on the way does not matter.**  Where the end of the second loop is past the end of
the first, the two loops one after the other do what the second does alone. -/
theorem endsIn_endsIn_iff (h : ∀ s, done' s → done s) :
    (∃ u, EndsIn done step s u ∧ EndsIn done' step u t) ↔ EndsIn done' step s t := by
  constructor
  · rintro ⟨u, ⟨fuel, hfuel⟩, hu⟩
    induction fuel generalizing s with
    | zero => cases hfuel
    | succ fuel ih =>
      rw [runUntil] at hfuel
      by_cases hdone : done s
      · rw [if_pos hdone] at hfuel
        cases hfuel
        exact hu
      · rw [if_neg hdone] at hfuel
        exact (ih hfuel).head fun hdone' => hdone (h s hdone')
  · rintro ⟨fuel, hfuel⟩
    induction fuel generalizing s with
    | zero => cases hfuel
    | succ fuel ih =>
      by_cases hdone : done s
      · exact ⟨s, endsIn_of_done hdone, fuel + 1, hfuel⟩
      · rw [runUntil, if_neg fun hdone' => hdone (h s hdone')] at hfuel
        obtain ⟨u, hu, ht⟩ := ih hfuel
        exact ⟨u, hu.head hdone, ht⟩

end Until
