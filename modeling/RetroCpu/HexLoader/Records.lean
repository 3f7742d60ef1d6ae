import RetroCpu.HexLoader.Loader

/-!
# Where the loader stops reading a record

`decode` reads a text of digit pairs.  The loop over the pairs of a record goes on while
the bytes it has got are `Partial`: fewer than the first one of them asks for.

`exists_stop` says at which text the loop stops, and `readPairs_append` what it has done until
then, so that the two together give every outcome of the loop.
-/

namespace RetroCpu.HexLoader

def decode : List Byte → Option (List Byte)
  | [] => some []
  | [_] => none
  | c₀ :: c₁ :: l =>
    match fromhex c₀, fromhex c₁, decode l with
    | some hi, some lo, some bs => some ((lo ||| (hi <<< 4)) :: bs)
    | _, _, _ => none

/-- The bytes of a whole record: five more than the first one says. -/
def Whole (bs : List Byte) : Prop := bs.length = (bs.headD 0).toNat + 5

/-- Fewer bytes than that. -/
def Partial (bs : List Byte) : Prop := bs.length < (bs.headD 0).toNat + 5

instance (bs : List Byte) : Decidable (Whole bs) := inferInstanceAs (Decidable (_ = _))

instance (bs : List Byte) : Decidable (Partial bs) := inferInstanceAs (Decidable (_ < _))

def overlay (data : Nat → Byte) (bs : List Byte) : Nat → Byte := fun i => (bs[i]?).getD (data i)

def taken (data : Nat → Byte) (bs : List Byte) : Pairs := ⟨bs.length, bs.sum, overlay data bs⟩

theorem overlay_of_lt {data : Nat → Byte} {bs : List Byte} {i : Nat} (hi : i < bs.length) :
    overlay data bs i = bs.get ⟨i, hi⟩ := by
  rw [overlay, List.getElem?_eq_getElem hi]
  rfl

theorem overlay_zero (data : Nat → Byte) {bs : List Byte} (h : bs ≠ []) :
    overlay data bs 0 = bs.headD 0 := by
  cases bs with
  | nil => exact absurd rfl h
  | cons b bs => rfl

theorem push_taken (data : Nat → Byte) (bs : List Byte) (b : Byte) :
    (taken data bs).push b = taken data (bs ++ [b]) := by
  have hdata : Function.update (overlay data bs) bs.length b = overlay data (bs ++ [b]) := by
    funext i
    rcases Nat.lt_trichotomy i bs.length with h | h | h
    · rw [Function.update_of_ne (by omega), overlay, overlay, List.getElem?_append_left h]
    · rw [h, Function.update_self, overlay, List.getElem?_concat_length]
      rfl
    · rw [Function.update_of_ne (by omega), overlay, overlay, List.getElem?_eq_none (by omega),
        List.getElem?_eq_none (by rw [List.length_append, List.length_singleton]; omega)]
  rw [taken, taken, Pairs.push, hdata, List.length_append, List.sum_append, List.sum_singleton]
  rfl

theorem more_taken (data : Nat → Byte) (bs : List Byte) :
    (taken data bs).more = true ↔ Partial bs := by
  rw [Pairs.more, taken, decide_eq_true_iff]
  cases bs with
  | nil => exact iff_of_true (by simp) (by decide)
  | cons b bs => exact Iff.rfl

/-! ### Whole records and parts of them -/

theorem Partial.nil : Partial [] := by decide

theorem Whole.ne_nil {bs : List Byte} (h : Whole bs) : bs ≠ [] := by
  rintro rfl
  exact absurd h (by decide)

/-- The start of a record is a part of it. -/
theorem Whole.partial_take {bs : List Byte} (h : Whole bs) {k : Nat} (hk : k < bs.length) :
    Partial (bs.take k) := by
  cases k with
  | zero => exact Partial.nil
  | succ k =>
    cases bs with
    | nil => exact absurd rfl h.ne_nil
    | cons b bs =>
      have h' : (b :: bs).length = b.toNat + 5 := h
      show ((b :: bs).take (k + 1)).length < b.toNat + 5
      rw [List.length_take]
      omega

theorem Partial.take {bs : List Byte} (h : Partial bs) (k : Nat) : Partial (bs.take k) := by
  cases k with
  | zero => exact Partial.nil
  | succ k =>
    cases bs with
    | nil => exact Partial.nil
    | cons b bs =>
      have h' : (b :: bs).length < b.toNat + 5 := h
      show ((b :: bs).take (k + 1)).length < b.toNat + 5
      rw [List.length_take]
      omega

/-- One byte more makes a part of a record a longer part or the whole. -/
theorem Partial.concat {bs : List Byte} (h : Partial bs) (b : Byte) :
    Partial (bs ++ [b]) ∨ Whole (bs ++ [b]) := by
  cases bs with
  | nil =>
    left
    show 1 < b.toNat + 5
    omega
  | cons c bs =>
    have h' : (c :: bs).length < c.toNat + 5 := h
    have hl : (c :: bs ++ [b]).length = (c :: bs).length + 1 := by simp
    rcases Nat.lt_or_ge ((c :: bs).length + 1) (c.toNat + 5) with hlt | hge
    · left
      show (c :: bs ++ [b]).length < c.toNat + 5
      omega
    · right
      show (c :: bs ++ [b]).length = c.toNat + 5
      omega

theorem not_partial_of_whole {bs : List Byte} (h : Whole bs) : ¬Partial bs := by
  intro h'
  rw [Partial, ← h] at h'
  exact Nat.lt_irrefl _ h'

/-! ### Texts of digit pairs -/

theorem decode_cons {c₀ c₁ : Byte} {l bs : List Byte} (h : decode (c₀ :: c₁ :: l) = some bs) :
    ∃ hi lo bs', fromhex c₀ = some hi ∧ fromhex c₁ = some lo ∧ decode l = some bs' ∧
      bs = (lo ||| (hi <<< 4)) :: bs' := by
  rw [decode] at h
  split at h
  · next hi lo bs' h₀ h₁ hl => exact ⟨hi, lo, bs', h₀, h₁, hl, (Option.some.inj h).symm⟩
  · cases h

theorem decode_cons_eq {c₀ c₁ hi lo : Byte} {l bs : List Byte} (h₀ : fromhex c₀ = some hi)
    (h₁ : fromhex c₁ = some lo) (hl : decode l = some bs) :
    decode (c₀ :: c₁ :: l) = some ((lo ||| (hi <<< 4)) :: bs) := by
  rw [decode, h₀, h₁, hl]

/-- Induction over a text, two digits at a time. -/
@[elab_as_elim]
theorem decode_induction {P : ∀ text bs : List Byte, decode text = some bs → Prop}
    (nil : P [] [] rfl)
    (pair : ∀ c₀ c₁ hi lo l bs (h₀ : fromhex c₀ = some hi) (h₁ : fromhex c₁ = some lo)
      (hl : decode l = some bs), P l bs hl → P (c₀ :: c₁ :: l) _ (decode_cons_eq h₀ h₁ hl)) :
    ∀ (text bs : List Byte) (h : decode text = some bs), P text bs h
  | [], bs, h => by
    cases h
    exact nil
  | [_], bs, h => by cases h
  | c₀ :: c₁ :: l, bs, h => by
    obtain ⟨hi, lo, bs', h₀, h₁, hl, rfl⟩ := decode_cons h
    exact pair c₀ c₁ hi lo l bs' h₀ h₁ hl (decode_induction nil pair l bs' hl)

theorem length_of_decode {text bs : List Byte} (h : decode text = some bs) :
    text.length = 2 * bs.length := by
  induction text, bs, h using decode_induction with
  | nil => rfl
  | pair c₀ c₁ hi lo l bs h₀ h₁ hl ih =>
    rw [List.length_cons, List.length_cons, List.length_cons, ih]
    omega

/-! ### Where the loop stops -/

/-- The loop stops with the bytes `bs` before the text `rest`. -/
inductive Stop : List Byte → List Byte → Prop
  | whole {bs rest : List Byte} (h : Whole bs) : Stop bs rest
  | cut {bs : List Byte} (h : Partial bs) : Stop bs []
  | digit {bs : List Byte} {c hi : Byte} (h : Partial bs) (hc : fromhex c = some hi) : Stop bs [c]
  | first {bs rest : List Byte} {c : Byte} (h : Partial bs) (hc : fromhex c = none) :
      Stop bs (c :: rest)
  | second {bs rest : List Byte} {c₀ c₁ hi : Byte} (h : Partial bs) (hc : fromhex c₀ = some hi)
      (hc' : fromhex c₁ = none) : Stop bs (c₀ :: c₁ :: rest)

/-- The induction behind `exists_stop`, from the bytes that are already there. -/
theorem exists_stop_from : ∀ (l bs : List Byte), Partial bs ∨ Whole bs →
    ∃ text bs' rest, l = text ++ rest ∧ decode text = some bs' ∧ Stop (bs ++ bs') rest
  | [], bs, h => by
    refine ⟨[], [], [], rfl, rfl, ?_⟩
    rw [List.append_nil]
    exact h.elim Stop.cut Stop.whole
  | [c], bs, h => by
    refine ⟨[], [], [c], rfl, rfl, ?_⟩
    rw [List.append_nil]
    rcases h with h | h
    · cases hc : fromhex c with
      | none => exact .first h hc
      | some hi => exact .digit h hc
    · exact .whole h
  | c₀ :: c₁ :: l, bs, h => by
    rcases h with h | h
    · cases hc₀ : fromhex c₀ with
      | none => exact ⟨[], [], _, rfl, rfl, by rw [List.append_nil]; exact .first h hc₀⟩
      | some hi =>
        cases hc₁ : fromhex c₁ with
        | none => exact ⟨[], [], _, rfl, rfl, by rw [List.append_nil]; exact .second h hc₀ hc₁⟩
        | some lo =>
          obtain ⟨text, bs', rest, hl, ht, hs⟩ :=
            exists_stop_from l (bs ++ [lo ||| (hi <<< 4)]) (h.concat _)
          refine ⟨c₀ :: c₁ :: text, (lo ||| (hi <<< 4)) :: bs', rest, ?_,
            decode_cons_eq hc₀ hc₁ ht, ?_⟩
          · rw [hl]
            rfl
          · rw [List.append_cons]
            exact hs
    · exact ⟨[], [], _, rfl, rfl, by rw [List.append_nil]; exact .whole h⟩

/-- **Every input has a place at which the loop over the pairs of a record stops.** -/
theorem exists_stop (l : List Byte) :
    ∃ text bs rest, l = text ++ rest ∧ decode text = some bs ∧ Stop bs rest :=
  exists_stop_from l [] (.inl Partial.nil)

/-! ### What the loop has done there -/

def ReadsInside (n : Nat) (evs : List Event) : Prop := ∀ e ∈ evs, ∃ i < n, e = .read i

theorem ReadsInside.append {n : Nat} {evs evs' : List Event} (h : ReadsInside n evs)
    (h' : ReadsInside n evs') : ReadsInside n (evs ++ evs') :=
  fun e he => (List.mem_append.mp he).elim (h e) (h' e)

theorem readsInside_nil (n : Nat) : ReadsInside n [] := fun _ he => absurd he List.not_mem_nil

theorem readsInside_decodePair {n p : Nat} (hp : p + 1 < n) (c₀ c₁ : Byte) :
    ReadsInside n (decodePair p c₀ c₁).2 := by
  have h : ∀ e ∈ (decodePair p c₀ c₁).2, e = .read p ∨ e = .read (p + 1) := by
    rw [decodePair]
    cases fromhex c₀ with
    | none => simp
    | some hi => cases fromhex c₁ <;> simp
  intro e he
  rcases h e he with rfl | rfl
  · exact ⟨p, by omega, rfl⟩
  · exact ⟨p + 1, hp, rfl⟩

section

variable (n : Nat) (beyond : Byte) (data : Nat → Byte)

/-- Pairs of digits are read into the buffer as long as the record is partial. -/
theorem readPairs_append {text bs' : List Byte} (ht : decode text = some bs') (rest : List Byte)
    (hn : text.length + rest.length ≤ n) : ∀ bs : List Byte,
    (∀ k < bs'.length, Partial (bs ++ bs'.take k)) →
    ∃ evs, ReadsInside n evs ∧ readPairs n beyond (text ++ rest) (taken data bs) =
      ((readPairs n beyond rest (taken data (bs ++ bs'))).1,
        evs ++ (readPairs n beyond rest (taken data (bs ++ bs'))).2) := by
  induction text, bs', ht using decode_induction with
  | nil =>
    intro bs _
    refine ⟨[], readsInside_nil n, ?_⟩
    rw [List.append_nil]
    rfl
  | pair c₀ c₁ hi lo l bs' h₀ h₁ hl ih =>
    intro bs hpart
    have hmore : (taken data bs).more = true := by
      have h0 := hpart 0 (Nat.succ_pos _)
      rw [List.take_zero, List.append_nil] at h0
      exact (more_taken data bs).mpr h0
    have hlen : (l ++ rest).length + 2 ≤ n := by
      rw [List.length_append]
      simp only [List.length_cons] at hn
      omega
    obtain ⟨evs, hevs, heq⟩ := ih (by simp only [List.length_cons] at hn; omega)
      (bs ++ [lo ||| (hi <<< 4)]) fun k hk => by
        have h := hpart (k + 1) (Nat.succ_lt_succ hk)
        rw [List.take_succ_cons, List.append_cons] at h
        exact h
    have hpair : decodePair (n - ((l ++ rest).length + 2)) c₀ c₁ =
        (some (lo ||| (hi <<< 4)), (decodePair (n - ((l ++ rest).length + 2)) c₀ c₁).2) := by
      rw [decodePair, h₀, h₁]
    refine ⟨(decodePair (n - ((l ++ rest).length + 2)) c₀ c₁).2 ++ evs,
      (readsInside_decodePair (by omega) c₀ c₁).append hevs, ?_⟩
    rw [List.cons_append, List.cons_append, readPairs, if_pos hmore, hpair]
    simp only [push_taken]
    rw [heq, List.append_assoc bs, List.append_assoc]
    rfl

/-- What the loop over the pairs of a record gives where it stops. -/
theorem readPairs_eq {text bs : List Byte} (ht : decode text = some bs) {rest : List Byte}
    (hn : text.length + rest.length ≤ n) (hs : Stop bs rest) :
    ∃ evs, ReadsInside n evs ∧ readPairs n beyond (text ++ rest) ⟨0, 0, data⟩ =
      ((readPairs n beyond rest (taken data bs)).1,
        evs ++ (readPairs n beyond rest (taken data bs)).2) := by
  refine readPairs_append n beyond data ht rest hn [] fun k hk => ?_
  rw [List.nil_append]
  cases hs with
  | whole h => exact h.partial_take hk
  | cut h | digit h _ | first h _ | second h _ _ => exact h.take k

theorem readPairs_whole {bs : List Byte} (h : Whole bs) :
    ∀ rest, readPairs n beyond rest (taken data bs) = (some (taken data bs, rest), [])
  | [] => rfl
  | [c] => by
    rw [readPairs, if_neg fun hm => not_partial_of_whole h ((more_taken data bs).mp hm)]
  | c₀ :: c₁ :: rest => by
    rw [readPairs, if_neg fun hm => not_partial_of_whole h ((more_taken data bs).mp hm)]

theorem readPairs_digit {bs : List Byte} (h : Partial bs) {c hi : Byte}
    (hc : fromhex c = some hi) : readPairs n beyond [c] (taken data bs) =
      ((fromhex beyond).map fun lo => (taken data (bs ++ [lo ||| (hi <<< 4)]), []),
        [.read (n - 1), .read (n - 1 + 1)]) := by
  rw [readPairs, if_pos ((more_taken data bs).mpr h), decodePair, hc]
  cases fromhex beyond with
  | none => rfl
  | some lo =>
    simp only [push_taken]
    rfl

theorem readPairs_first {bs : List Byte} (h : Partial bs) {c : Byte} (hc : fromhex c = none) :
    ∀ rest, ∃ p ≤ n - (rest.length + 1), readPairs n beyond (c :: rest) (taken data bs) =
      (none, [.read p])
  | [] => ⟨n - 1, Nat.le_refl _, by
    rw [readPairs, if_pos ((more_taken data bs).mpr h), decodePair, hc]
    rfl⟩
  | c₁ :: rest => ⟨n - (rest.length + 2), Nat.le_refl _, by
    rw [readPairs, if_pos ((more_taken data bs).mpr h), decodePair, hc]⟩

theorem readPairs_second {bs : List Byte} (h : Partial bs) {c₀ c₁ hi : Byte}
    (hc : fromhex c₀ = some hi) (hc' : fromhex c₁ = none) (rest : List Byte) :
    readPairs n beyond (c₀ :: c₁ :: rest) (taken data bs) =
      (none, [.read (n - (rest.length + 2)), .read (n - (rest.length + 2) + 1)]) := by
  rw [readPairs, if_pos ((more_taken data bs).mpr h), decodePair, hc, hc']

end

end RetroCpu.HexLoader
