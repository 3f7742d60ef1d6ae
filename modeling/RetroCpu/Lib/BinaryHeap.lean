import Mathlib.Data.List.FinRange
import Mathlib.Data.List.OfFn
import Mathlib.GroupTheory.Perm.Basic
import Mathlib.Order.Basic
import Mathlib.Tactic.Common

/-!
# Binary heaps in an array

The children of the entry at `i` are at `2 * i + 1` and `2 * i + 2`, and no entry has a
greater key than its children.  An operation looks at the keys only, so it is given as the
permutation of the places that it makes: the new array is the old one after it.

Putting an entry in is `siftUp` from the end.  Taking the first entry out brings the hole
down to a leaf, always to the child with the smaller key, puts the last entry there and
sifts it up.  Of two children with one key the hole goes to the right one.
-/

namespace RetroCpu.BinaryHeap

variable {κ α β : Type} [LinearOrder κ] {n : ℕ}

def parent (i : Fin n) : Fin n := ⟨(i - 1) / 2, by omega⟩

theorem parent_le (i : Fin n) : (parent i).val ≤ i.val := by
  simp only [parent]
  omega

theorem parent_lt {i : Fin n} (hi : i.val ≠ 0) : (parent i).val < i.val := by
  simp only [parent]
  omega

theorem parent_lt_of_ne {i j : Fin n} (h : parent j = i) (hj : j ≠ i) : i.val < j.val := by
  have hle : i.val ≤ j.val := h ▸ parent_le j
  have hne : j.val ≠ i.val := fun hv => hj (Fin.ext hv)
  omega

/-- No key is greater than the keys below it. -/
def Ordered (k : Fin n → κ) : Prop := ∀ i, k (parent i) ≤ k i

/-! ### Up -/

/-- The entry at `i` goes up while its key is smaller than its parent's, at most `fuel` times. -/
def siftUp (k : Fin n → κ) : ℕ → Fin n → Equiv.Perm (Fin n)
  | 0, _ => 1
  | fuel + 1, i =>
    if k i < k (parent i) then
      Equiv.swap i (parent i) * siftUp (k ∘ Equiv.swap i (parent i)) fuel (parent i)
    else 1

/-- In order but for the entry at `i`, which may be too far down. -/
structure UpOrdered (k : Fin n → κ) (i : Fin n) : Prop where
  except : ∀ j, j ≠ i → k (parent j) ≤ k j
  across : ∀ j, parent j = i → j ≠ i → k (parent i) ≤ k j

theorem UpOrdered.move {k : Fin n → κ} {i : Fin n} (h : UpOrdered k i)
    (hi : k i < k (parent i)) :
    UpOrdered (k ∘ Equiv.swap i (parent i)) (parent i) := by
  have hne : parent i ≠ i := fun he => absurd hi (by rw [he]; exact lt_irrefl _)
  have hpp : parent (parent i) ≠ i := by
    intro he
    have h1 := parent_le (parent i)
    have h2 := parent_lt_of_ne (i := parent i) (j := i) rfl (Ne.symm hne)
    rw [he] at h1
    omega
  -- what the old parent's key is below
  have hp : ∀ j, parent j = parent i → j ≠ parent i → k i ≤ k j := by
    intro j hj hjp
    by_cases hji : j = i
    · rw [hji]
    · exact hi.le.trans (hj ▸ h.except j hji)
  constructor
  · intro j hj
    by_cases hji : j = i
    · subst hji
      simpa using hi.le
    · rw [Function.comp_apply, Function.comp_apply, Equiv.swap_apply_of_ne_of_ne hji hj]
      by_cases hpi : parent j = i
      · rw [hpi, Equiv.swap_apply_left]
        exact h.across j hpi hji
      · by_cases hpj : parent j = parent i
        · rw [hpj, Equiv.swap_apply_right]
          exact hp j hpj hj
        · rw [Equiv.swap_apply_of_ne_of_ne hpi hpj]
          exact h.except j hji
  · intro j hj hjp
    have htop : k (Equiv.swap i (parent i) (parent (parent i))) ≤ k (parent i) := by
      by_cases hroot : parent (parent i) = parent i
      · rw [hroot, Equiv.swap_apply_right]
        exact hi.le
      · rw [Equiv.swap_apply_of_ne_of_ne hpp hroot]
        exact h.except _ hne
    refine le_trans htop ?_
    by_cases hji : j = i
    · rw [hji, Function.comp_apply, Equiv.swap_apply_left]
    · rw [Function.comp_apply, Equiv.swap_apply_of_ne_of_ne hji hjp, ← hj]
      exact h.except j hji

theorem UpOrdered.finish {k : Fin n → κ} {i : Fin n} (h : UpOrdered k i)
    (hi : k (parent i) ≤ k i) : Ordered k := by
  intro j
  by_cases hj : j = i
  · rw [hj]
    exact hi
  · exact h.except j hj

/-- **Sifting up puts the array in order.** -/
theorem UpOrdered.siftUp {k : Fin n → κ} {i : Fin n} (h : UpOrdered k i) (fuel : ℕ)
    (hf : i.val ≤ fuel) : Ordered (k ∘ siftUp k fuel i) := by
  induction fuel generalizing k i with
  | zero =>
    have hi : parent i = i := Fin.ext (by simp only [parent]; omega)
    exact h.finish (by rw [hi])
  | succ fuel ih =>
    rw [BinaryHeap.siftUp]
    split
    · next hlt =>
      have hi : i.val ≠ 0 := by
        intro h0
        have he : parent i = i := Fin.ext (by simp only [parent]; omega)
        rw [he] at hlt
        exact lt_irrefl _ hlt
      have hp := parent_lt hi
      exact ih (h.move hlt) (by omega)
    · next hlt => exact h.finish (not_lt.mp hlt)

/-! ### Down -/

/-- The child that takes the place of a hole at `i`. -/
def child (k : Fin n → κ) (i : Fin n) : Option (Fin n) :=
  if h : 2 * i.val + 2 < n then
    some (if k ⟨2 * i.val + 1, by omega⟩ < k ⟨2 * i.val + 2, h⟩ then ⟨2 * i.val + 1, by omega⟩
      else ⟨2 * i.val + 2, h⟩)
  else if h : 2 * i.val + 1 < n then some ⟨2 * i.val + 1, h⟩
  else none

/-- A hole at `i` goes down to a leaf, in at most `fuel` steps. -/
def descend (k : Fin n → κ) : ℕ → Fin n → Equiv.Perm (Fin n) × Fin n
  | 0, i => (1, i)
  | fuel + 1, i =>
    match child k i with
    | none => (1, i)
    | some c =>
      let r := descend (k ∘ Equiv.swap i c) fuel c
      (Equiv.swap i c * r.1, r.2)

theorem child_none {k : Fin n → κ} {i : Fin n} (h : child k i = none) {j : Fin n}
    (hj : parent j = i) : j = i := by
  rw [child] at h
  split at h
  · cases h
  · split at h
    · cases h
    · next h1 h2 =>
      have hv := congrArg Fin.val hj
      simp only [parent] at hv
      exact Fin.ext (by omega)

theorem child_some {k : Fin n → κ} {i c : Fin n} (h : child k i = some c) :
    parent c = i ∧ i.val < c.val ∧ ∀ j, parent j = i → j ≠ i → k c ≤ k j := by
  have hj : ∀ j : Fin n, parent j = i → j ≠ i → j.val = 2 * i.val + 1 ∨ j.val = 2 * i.val + 2 := by
    intro j hj hji
    have hv := congrArg Fin.val hj
    have hne : j.val ≠ i.val := fun he => hji (Fin.ext he)
    simp only [parent] at hv
    omega
  rw [child] at h
  split at h
  · next h2 =>
    split at h
    · next hlt =>
      cases h
      refine ⟨Fin.ext (by simp only [parent]; omega), by simp only; omega, fun j hp hji => ?_⟩
      rcases hj j hp hji with hv | hv
      · exact le_of_eq (congrArg k (Fin.ext hv.symm))
      · exact hlt.le.trans (le_of_eq (congrArg k (Fin.ext hv.symm)))
    · next hlt =>
      cases h
      refine ⟨Fin.ext (by simp only [parent]; omega), by simp only; omega, fun j hp hji => ?_⟩
      rcases hj j hp hji with hv | hv
      · exact (not_lt.mp hlt).trans (le_of_eq (congrArg k (Fin.ext hv.symm)))
      · exact le_of_eq (congrArg k (Fin.ext hv.symm))
  · next h2 =>
    split at h
    · cases h
      refine ⟨Fin.ext (by simp only [parent]; omega), by simp only; omega, fun j hp hji => ?_⟩
      rcases hj j hp hji with hv | hv
      · exact le_of_eq (congrArg k (Fin.ext hv.symm))
      · omega
    · cases h

/-- In order but for the entry at `i`, which may be anything. -/
structure Apart (k : Fin n → κ) (i : Fin n) : Prop where
  except : ∀ j, j ≠ i → parent j ≠ i → k (parent j) ≤ k j
  across : ∀ j, parent j = i → j ≠ i → parent i ≠ i → k (parent i) ≤ k j

theorem Apart.move {k : Fin n → κ} {i c : Fin n} (h : Apart k i) (hc : child k i = some c) :
    Apart (k ∘ Equiv.swap i c) c := by
  obtain ⟨hpc, hic, hmin⟩ := child_some hc
  have hci : c ≠ i := fun he => by rw [he] at hic; exact lt_irrefl _ hic
  have hpi : parent i ≠ c := by
    intro he
    have hle := parent_le i
    rw [he] at hle
    omega
  constructor
  · intro j hjc hpj
    by_cases hji : j = i
    · subst hji
      by_cases hroot : parent j = j
      · rw [hroot]
      · rw [Function.comp_apply, Function.comp_apply, Equiv.swap_apply_left,
          Equiv.swap_apply_of_ne_of_ne hroot hpi]
        exact h.across c hpc hci hroot
    · rw [Function.comp_apply, Function.comp_apply, Equiv.swap_apply_of_ne_of_ne hji hjc]
      by_cases hpji : parent j = i
      · rw [hpji, Equiv.swap_apply_left]
        exact hmin j hpji hji
      · rw [Equiv.swap_apply_of_ne_of_ne hpji hpj]
        exact h.except j hji hpji
  · intro j hpj hjc _
    have hcj := parent_lt_of_ne hpj hjc
    have hji : j ≠ i := fun he => by rw [he] at hcj; omega
    rw [hpc, Function.comp_apply, Function.comp_apply, Equiv.swap_apply_left,
      Equiv.swap_apply_of_ne_of_ne hji hjc, ← hpj]
    exact h.except j hji (by rw [hpj]; exact hci)

theorem Apart.upOrdered {k : Fin n → κ} {i : Fin n} (h : Apart k i)
    (hi : ∀ j, parent j = i → j = i) : UpOrdered k i where
  except j hj := h.except j hj fun hp => hj (hi j hp)
  across j hp hj := absurd (hi j hp) hj

theorem Apart.descend {k : Fin n → κ} {i : Fin n} (h : Apart k i) (fuel : ℕ)
    (hf : n ≤ fuel + i.val) :
    UpOrdered (k ∘ (descend k fuel i).1) (descend k fuel i).2 := by
  induction fuel generalizing k i with
  | zero => exact absurd i.isLt (by omega)
  | succ fuel ih =>
    rw [BinaryHeap.descend]
    cases hc : child k i with
    | none => exact h.upOrdered fun j hj => child_none hc hj
    | some c =>
      have hic := (child_some hc).2.1
      exact ih (h.move hc) (by omega)

/-! ### The operations -/

/-- The places after an entry has come in at the end. -/
def push : {n : ℕ} → (Fin n → κ) → Equiv.Perm (Fin n)
  | 0, _ => 1
  | n + 1, k => siftUp k n (Fin.last n)

/-- The places after the first entry has become the hole. -/
def pull : {n : ℕ} → (Fin n → κ) → Equiv.Perm (Fin n)
  | 0, _ => 1
  | n + 1, k =>
    let r := descend k (n + 1) 0
    r.1 * siftUp (k ∘ r.1) (n + 1) r.2

theorem ordered_push {k : Fin (n + 1) → κ} (hk : ∀ j, j ≠ Fin.last n → k (parent j) ≤ k j) :
    Ordered (k ∘ push k) := by
  refine UpOrdered.siftUp ⟨hk, fun j hp hj => absurd (parent_lt_of_ne hp hj) ?_⟩ n le_rfl
  have := j.isLt
  simp only [Fin.val_last]
  omega

theorem ordered_pull {k : Fin (n + 1) → κ}
    (hk : ∀ j, j ≠ 0 → parent j ≠ 0 → k (parent j) ≤ k j) : Ordered (k ∘ pull k) := by
  have h0 : Apart k 0 := ⟨hk, fun _ _ _ hroot => absurd (Fin.ext (by simp [parent])) hroot⟩
  have h := h0.descend (n + 1) (by omega)
  exact h.siftUp (n + 1) (by omega)

/-! ### Lists -/

/-- A list with its entries at the places of `σ`. -/
def arrange (σ : {n : ℕ} → (Fin n → κ) → Equiv.Perm (Fin n)) (key : α → κ) (l : List α) : List α :=
  List.ofFn (l.get ∘ σ (key ∘ l.get))

theorem exists_ofFn (l : List α) : ∃ n, ∃ f : Fin n → α, l = List.ofFn f :=
  ⟨_, l.get, (List.ofFn_get l).symm⟩

section Arrange

omit [LinearOrder κ]

variable (σ : {n : ℕ} → (Fin n → κ) → Equiv.Perm (Fin n)) (key : α → κ)

theorem arrange_ofFn (f : Fin n → α) :
    arrange σ key (List.ofFn f) = List.ofFn (f ∘ σ (key ∘ f)) := by
  have h := congrArg (fun s : Σ n, Fin n → α => List.ofFn (s.2 ∘ σ (key ∘ s.2)))
    (List.equivSigmaTuple.right_inv (⟨n, f⟩ : Σ n, Fin n → α))
  exact h

theorem arrange_perm (l : List α) : (arrange σ key l).Perm l := by
  have h := Equiv.Perm.ofFn_comp_perm (σ (key ∘ l.get)) l.get
  rwa [List.ofFn_get] at h

/-- The places depend on the keys only. -/
theorem arrange_map {key' : β → κ} (g : α → β) (hg : ∀ a, key' (g a) = key a) (l : List α) :
    arrange σ key' (l.map g) = (arrange σ key l).map g := by
  obtain ⟨n, f, rfl⟩ := exists_ofFn l
  have hk : key' ∘ g ∘ f = key ∘ f := funext fun i => hg (f i)
  rw [List.map_ofFn, arrange_ofFn, arrange_ofFn, List.map_ofFn, hk]
  rfl

end Arrange

/-- No entry has a greater key than those below it. -/
def Heap (key : α → κ) (l : List α) : Prop :=
  ∀ i (h : i < l.length), key (l.get ⟨(i - 1) / 2, by omega⟩) ≤ key l[i]

theorem heap_nil (key : α → κ) : Heap key [] := fun _ h => absurd h (Nat.not_lt_zero _)

theorem heap_ofFn {key : α → κ} {f : Fin n → α} :
    Heap key (List.ofFn f) ↔ Ordered (key ∘ f) := by
  constructor
  · intro h i
    have hi := h i (by rw [List.length_ofFn]; exact i.isLt)
    simp only [List.get_eq_getElem, List.getElem_ofFn] at hi
    exact hi
  · intro h i hi
    simp only [List.get_eq_getElem, List.getElem_ofFn]
    exact h ⟨i, by rwa [List.length_ofFn] at hi⟩

/-- **The first entry has the least key.** -/
theorem Heap.head_le {key : α → κ} {x : α} {l : List α} (h : Heap key (x :: l)) {y : α}
    (hy : y ∈ l) : key x ≤ key y := by
  have hi : ∀ i (hi : i < (x :: l).length), key x ≤ key ((x :: l)[i]) := by
    intro i
    induction i using Nat.strongRecOn with
    | ind i ih =>
      intro hi
      rcases Nat.eq_zero_or_pos i with rfl | hpos
      · exact le_rfl
      · exact (ih ((i - 1) / 2) (by omega) (by omega)).trans (h i hi)
  obtain ⟨i, hl, rfl⟩ := List.mem_iff_getElem.mp (List.mem_cons_of_mem x hy)
  exact hi i hl

/-- Put the last entry in its place. -/
def pushHeap (key : α → κ) (l : List α) : List α := arrange push key l

/-- Bring the first entry to the end and put the others in order. -/
def popHeap (key : α → κ) : List α → List α
  | [] => []
  | x :: l =>
    match l.getLast? with
    | none => [x]
    | some y => arrange pull key (y :: l.dropLast) ++ [x]

theorem pushHeap_perm (key : α → κ) (l : List α) : (pushHeap key l).Perm l :=
  arrange_perm push key l

theorem Heap.push {key : α → κ} {l : List α} (h : Heap key l) (x : α) :
    Heap key (pushHeap key (l ++ [x])) := by
  obtain ⟨n, f, hf⟩ := exists_ofFn (l ++ [x])
  have hn := congrArg List.length hf
  rw [List.length_append, List.length_singleton, List.length_ofFn] at hn
  subst hn
  have hget : ∀ i (hi : i < l.length), f ⟨i, by omega⟩ = l[i] := by
    intro i hi
    have h : (l ++ [x]).get ⟨i, by simp; omega⟩ = l[i] := List.getElem_append_left hi
    rw [← h]
    simp only [List.get_eq_getElem, hf, List.getElem_ofFn]
  rw [pushHeap, hf, arrange_ofFn, heap_ofFn]
  show Ordered ((key ∘ f) ∘ BinaryHeap.push (key ∘ f))
  refine ordered_push fun j hj => ?_
  have hj' : j.val < l.length := by
    have hne : j.val ≠ l.length := fun he => hj (Fin.ext he)
    omega
  have hp := parent_le j
  rw [Function.comp_apply, Function.comp_apply, hget j.val hj', parent, hget _ (by omega)]
  exact h j.val hj'

theorem popHeap_concat (key : α → κ) (x : α) (l : List α) (y : α) :
    popHeap key (x :: (l ++ [y])) = arrange pull key (y :: l) ++ [x] := by
  rw [popHeap, List.getLast?_concat, List.dropLast_concat]

theorem popHeap_perm (key : α → κ) (x : α) (l : List α) :
    (popHeap key (x :: l)).dropLast.Perm l := by
  rcases List.eq_nil_or_concat' l with rfl | ⟨l, y, rfl⟩
  · exact .nil
  · rw [popHeap_concat, List.dropLast_concat]
    exact (arrange_perm pull key (y :: l)).trans (List.perm_append_singleton y l).symm

theorem Heap.pop {key : α → κ} {x : α} {l : List α} (h : Heap key (x :: l)) :
    Heap key (popHeap key (x :: l)).dropLast := by
  rcases List.eq_nil_or_concat' l with rfl | ⟨l, y, rfl⟩
  · exact heap_nil key
  · obtain ⟨n, f, hf⟩ := exists_ofFn (y :: l)
    have hn := congrArg List.length hf
    rw [List.length_cons, List.length_ofFn] at hn
    subst hn
    -- but for the hole the places hold what they held
    have hget : ∀ i (hi : i < l.length + 1), i ≠ 0 →
        f ⟨i, hi⟩ = (x :: (l ++ [y])).get ⟨i, by simp; omega⟩ := by
      intro i hi hi0
      obtain ⟨i, rfl⟩ := Nat.exists_eq_succ_of_ne_zero hi0
      have hil : i < l.length := by omega
      have hfi : f ⟨i + 1, hi⟩ = (y :: l).get ⟨i + 1, by simpa using hil⟩ := by
        simp only [List.get_eq_getElem, hf, List.getElem_ofFn]
      rw [hfi]
      exact (List.getElem_append_left hil).symm
    rw [popHeap_concat, List.dropLast_concat, hf, arrange_ofFn, heap_ofFn]
    show Ordered ((key ∘ f) ∘ BinaryHeap.pull (key ∘ f))
    refine ordered_pull fun j hj hp => ?_
    have hj0 : j.val ≠ 0 := fun he => hj (Fin.ext he)
    have hp0 : (j.val - 1) / 2 ≠ 0 := fun he => hp (Fin.ext he)
    rw [Function.comp_apply, Function.comp_apply, hget j.val j.isLt hj0, parent,
      hget _ (by omega) hp0]
    exact h j.val _

/-- What the operations do with the entries does not depend on what they hold besides keys. -/
theorem pushHeap_map {key : α → κ} {key' : β → κ} (g : α → β) (hg : ∀ a, key' (g a) = key a)
    (l : List α) : pushHeap key' (l.map g) = (pushHeap key l).map g :=
  arrange_map push key g hg l

theorem popHeap_map {key : α → κ} {key' : β → κ} (g : α → β) (hg : ∀ a, key' (g a) = key a)
    (l : List α) : popHeap key' (l.map g) = (popHeap key l).map g := by
  cases l with
  | nil => rfl
  | cons x l =>
    rcases List.eq_nil_or_concat' l with rfl | ⟨l, y, rfl⟩
    · rfl
    · rw [popHeap_concat, List.map_cons, List.map_append, List.map_singleton, popHeap_concat,
        ← List.map_cons, arrange_map pull key g hg, List.map_append, List.map_singleton]

end RetroCpu.BinaryHeap
