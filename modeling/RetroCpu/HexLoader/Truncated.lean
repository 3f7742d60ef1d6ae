import RetroCpu.HexLoader.Safety

/-!
# Records that are cut off

`Complete` says that the record of an event is in the input as a whole.  A call that returns
`true` has taken only such records (`AllComplete`), unless the input ends in a record and the
loader accepts what it has got (`CutOff`): the bytes that were there have the sum 0, and with
the bytes that the buffer held behind them they make a record with an effect.
`allComplete_iff` is both directions.
-/

namespace RetroCpu.HexLoader

open Loader

/-- The record with its first digit at `first` is in the input: a colon is before it, it has as
many pairs as its length asks for, they spell the buffer `d` as far as the record goes, and
their sum is 0. -/
structure Complete (hex : List Byte) (first pairs : Nat) (d : Nat → Byte) : Prop where
  colon : hex[first - 1]? = some colon
  whole : pairs = (d 0).toNat + 5
  inside : first + 2 * pairs ≤ hex.length
  bytes : decode ((hex.drop first).take (2 * pairs)) = some ((List.range pairs).map d)
  sum : ((List.range pairs).map d).sum = 0

/-- If the loader returns `true`, every record it has acted on is in the input. -/
def AllComplete (memsize : Nat) (hex : List Byte) (beyond : Byte) (mem data : Nat → Byte) : Prop :=
  ∀ s, writeHexToMem memsize hex beyond mem data = some (true, s) →
    ∀ first pairs d, .record first pairs d ∈ s.trace → Complete hex first pairs d

/-- A text at the end of the input that is only a part of a record, and the bytes the loader
gets from it. -/
inductive Part (beyond : Byte) : List Byte → List Byte → Prop
  | pairs {text bs : List Byte} (ht : decode text = some bs) (hp : Partial bs) :
      Part beyond text bs
  | digit {text bs : List Byte} {c hi lo : Byte} (ht : decode text = some bs) (hp : Partial bs)
      (hc : fromhex c = some hi) (hb : fromhex beyond = some lo) :
      Part beyond (text ++ [c]) (bs ++ [lo ||| (hi <<< 4)])

/-- The loader accepts a record with the buffer `d` at the base `base`. -/
def Accepts (memsize : Nat) (base : BitVec 32) (d : Nat → Byte) : Prop :=
  d 3 = 1 ∨ ∃ base', Acts memsize base d base'

/-- The input ends in a record, and the loader accepts what is there of it with what the buffer
holds behind it. -/
def CutOff (memsize : Nat) (beyond : Byte) (data : Nat → Byte) (hex : List Byte) : Prop :=
  ∃ t base d text bs, Scanned memsize data t base d ∧ Part beyond text bs ∧ bs.sum = 0 ∧
    Accepts memsize base (overlay d bs) ∧ hex = t ++ colon :: text

variable {memsize n : Nat} {beyond : Byte}

/-! ### The buffer of a record -/

theorem map_overlay (d : Nat → Byte) (bs : List Byte) :
    (List.range bs.length).map (overlay d bs) = bs := by
  apply List.ext_getElem
  · rw [List.length_map, List.length_range]
  · intro i hi hi'
    rw [List.getElem_map, List.getElem_range, overlay_of_lt hi']
    rfl

theorem complete_of_whole {t text bs rest hex : List Byte}
    (hhex : hex = t ++ colon :: (text ++ rest)) (ht : decode text = some bs) (hw : Whole bs)
    (hsum : bs.sum = 0) (d : Nat → Byte) :
    Complete hex (hex.length - (text ++ rest).length) bs.length (overlay d bs) := by
  have hfirst : hex.length - (text ++ rest).length = t.length + 1 := by
    rw [hhex]
    simp only [List.length_append, List.length_cons]
    omega
  have hlen := length_of_decode ht
  have hdrop : hex.drop (t.length + 1) = text ++ rest := by
    rw [hhex, List.append_cons, List.drop_left' (by rw [List.length_append]; rfl)]
  rw [hfirst]
  refine ⟨?_, ?_, ?_, ?_, ?_⟩
  · rw [hhex, Nat.add_sub_cancel, List.getElem?_append_right (Nat.le_refl _), Nat.sub_self]
    rfl
  · rw [overlay_zero d hw.ne_nil]
    exact hw
  · rw [hhex]
    simp only [List.length_append, List.length_cons]
    omega
  · rw [hdrop, List.take_left' hlen, map_overlay, ht]
  · rw [map_overlay, hsum]

/-- A part of a record is not a record of the input. -/
theorem not_complete_of_part {t text bs hex : List Byte} (hhex : hex = t ++ colon :: text)
    (hpart : Part beyond text bs) (d : Nat → Byte) :
    ¬Complete hex (hex.length - text.length) bs.length (overlay d bs) := by
  intro h
  cases hpart with
  | pairs ht hp =>
    have hmore := (more_taken d bs).mpr hp
    rw [Pairs.more, decide_eq_true_iff] at hmore
    have hwhole : bs.length = (overlay d bs 0).toNat + 5 := h.whole
    have hlt : bs.length < (overlay d bs 0).toNat + 5 := hmore
    omega
  | @digit text bs c hi lo ht hp hc hb =>
    have hlen := length_of_decode ht
    have hinside := h.inside
    simp only [hhex, List.length_append, List.length_cons, List.length_nil] at hinside
    omega

/-! ### What the loader accepts -/

theorem accepts_of_act {s : Loader} (h : (act memsize s).1 ≠ some false) :
    Accepts memsize s.addrbase s.data := by
  cases hr : act memsize s with
  | mk r s' =>
    cases r with
    | none => exact .inr ⟨_, acts_of_act hr⟩
    | some v =>
      rw [hr] at h
      cases v with
      | false => exact absurd rfl h
      | true =>
        left
        rw [act] at hr
        split at hr
        · split at hr <;> cases hr
        · split at hr
          · next h1 => exact h1
          · split at hr
            · split at hr <;> cases hr
            · cases hr

/-- A record that does not make the loader return `false`. -/
theorem accepts_of_finish {s : Loader} {first : Nat} {d : Nat → Byte} {bs left : List Byte}
    (h : (finish memsize s first (taken d bs) left).1 ≠ some false) :
    bs.sum = 0 ∧ Accepts memsize s.addrbase (overlay d bs) := by
  by_cases hsum : bs.sum = 0
  · rw [finish_of_sum hsum] at h
    exact ⟨hsum, accepts_of_act h⟩
  · rw [finish, if_pos (show (taken d bs).sum ≠ 0 from hsum)] at h
    exact absurd rfl h

theorem act_of_accepts {s : Loader} (h : Accepts memsize s.addrbase s.data) :
    (act memsize s).1 = none ∨ (act memsize s).1 = some true := by
  rcases h with h1 | ⟨base', ha⟩
  · right
    rw [act, h1, if_neg (by decide), if_pos rfl]
  · left
    obtain ⟨s', hact, -⟩ := act_of_acts s ha
    rw [hact]

/-! ### A call that has taken a part of a record -/

/-- The round of a part of a record. -/
theorem body_part {text bs : List Byte} (hpart : Part beyond text bs) (memsize : Nat) (s : Loader)
    (hn : text.length < n) :
    ∃ evs, (∀ e ∈ evs, ∃ i, e = .read i) ∧ body memsize n beyond colon text s =
      finish memsize { s with trace := s.trace ++ evs } (n - text.length)
        (taken s.data bs) [] := by
  cases hpart with
  | pairs ht hp =>
    obtain ⟨evs, hevs, heq⟩ := body_cut memsize beyond ht s hp hn
    refine ⟨evs, fun e he => ?_, heq⟩
    obtain ⟨i, -, rfl⟩ := hevs e he
    exact ⟨i, rfl⟩
  | digit ht hp hc hb =>
    obtain ⟨evs, hevs, -, heq⟩ := body_digit memsize beyond ht s hp hc hn
    rw [hb] at heq
    exact ⟨evs, hevs, heq⟩

theorem not_allComplete_of_cutOff {data : Nat → Byte} {hex : List Byte}
    (h : CutOff memsize beyond data hex) (mem : Nat → Byte) :
    ¬AllComplete memsize hex beyond mem data := by
  intro hall
  obtain ⟨t, base, d, text, bs, hscan, hpart, hsum, haccepts, hhex⟩ := h
  obtain ⟨s, hrun, hl, rfl, rfl⟩ := run_of_scanned beyond mem hscan rfl _ hhex
  have hn : text.length < hex.length := by
    rw [hhex, List.length_append, List.length_cons]
    omega
  obtain ⟨evs, -, hbody⟩ := body_part hpart memsize s hn
  rw [finish_of_sum hsum] at hbody
  generalize hs₁ : ({ s with
      left := [], data := overlay s.data bs
      trace := s.trace ++ evs ++
        [.record (hex.length - text.length) bs.length (overlay s.data bs)] } : Loader) = s₁ at hbody
  obtain ⟨hleft, -, evs', htrace, -⟩ := act_frame memsize s₁
  have hin : .record (hex.length - text.length) bs.length (overlay s.data bs) ∈
      (act memsize s₁).2.trace := by
    rw [htrace, ← hs₁]
    exact List.mem_append_left _ (List.mem_append_right _ (List.mem_singleton.mpr rfl))
  have hleft : (act memsize s₁).2.left = [] := by rw [hleft, ← hs₁]
  have haccepts₁ : Accepts memsize s₁.addrbase s₁.data := by
    rw [← hs₁]
    exact haccepts
  have hfinal : writeHexToMem memsize hex beyond mem data = some (true, (act memsize s₁).2) := by
    rcases act_of_accepts haccepts₁ with hnone | htrue
    · have hb : body memsize hex.length beyond colon text s = (none, (act memsize s₁).2) :=
        hbody.trans (Prod.ext hnone rfl)
      exact writeHexToMem_of_end (hrun.tail () trivial (round_eq hl hb)) hleft
    · exact writeHexToMem_of_return hrun hl (hbody.trans (Prod.ext htrue rfl))
  exact not_complete_of_part hhex hpart _ (hall _ hfinal _ _ _ hin)

/-! ### Every other call -/

section

variable {data : Nat → Byte} {hex : List Byte} (hcut : ¬CutOff memsize beyond data hex)

include hcut

/-- The records of a round that does not return `false`. -/
theorem complete_body {t left : List Byte} {c : Byte} {s s' : Loader} {r : Option Bool}
    (hscan : Scanned memsize data t s.addrbase s.data) (hhex : hex = t ++ c :: left)
    (hb : body memsize hex.length beyond c left s = (r, s')) (hr : r ≠ some false)
    {first pairs : Nat} {d : Nat → Byte} (he : .record first pairs d ∈ s'.trace) :
    .record first pairs d ∈ s.trace ∨ Complete hex first pairs d := by
  have hn : left.length < hex.length := by
    rw [hhex, List.length_append, List.length_cons]
    omega
  by_cases hc : c = colon
  · subst hc
    have hcolon := colon_body memsize beyond s hn
    rw [hb] at hcolon
    generalize hr' : (r, s') = r' at hcolon
    cases hcolon with
    | @whole text bs rest evs hl ht hw hevs =>
      subst hl
      obtain ⟨evs', htrace, hevs'⟩ := finish_trace memsize { s with trace := s.trace ++ evs }
        (hex.length - (text ++ rest).length) (taken s.data bs) rest
      rw [← hr'] at htrace
      rw [htrace] at he
      rcases List.mem_append.mp he with he | he
      · rcases List.mem_append.mp he with he | he
        · exact .inl he
        · obtain ⟨i, -, he⟩ := hevs _ he
          cases he
      · rcases hevs' _ he with ⟨he, hsum⟩ | ⟨-, -, -, k, -, he⟩
        · cases he
          exact .inr (complete_of_whole hhex ht hw hsum s.data)
        · cases he
    | @cut bs evs ht hp _ =>
      have hfinish := congrArg (fun r => r.1) hr'
      obtain ⟨hsum, haccepts⟩ := accepts_of_finish (by rw [← hfinish]; exact hr)
      exact absurd ⟨t, _, _, _, _, hscan, .pairs ht hp, hsum, haccepts, hhex⟩ hcut
    | @digit text bs c hi _ hl ht hp hc hbody =>
      subst hl
      obtain ⟨evs, -, -, heq⟩ := body_digit memsize beyond ht s hp hc hn
      rw [hb] at heq
      cases hbeyond : fromhex beyond with
      | none =>
        rw [hbeyond] at heq
        cases heq
        exact absurd rfl hr
      | some lo =>
        rw [hbeyond] at heq
        have hfinish := congrArg (fun r => r.1) heq
        obtain ⟨hsum, haccepts⟩ := accepts_of_finish (by rw [← hfinish]; exact hr)
        exact absurd ⟨t, _, _, _, _, hscan, .digit ht hp hc hbeyond, hsum, haccepts, hhex⟩ hcut
    | bad _ =>
      cases hr'
      exact absurd rfl hr
  · by_cases hsp : isspace c = true
    · rw [body_space memsize hex.length beyond hsp] at hb
      cases hb
      rcases List.mem_append.mp he with he | he
      · exact .inl he
      · cases List.mem_singleton.mp he
    · rw [body_other hc (by simpa using hsp)] at hb
      cases hb
      exact absurd rfl hr

theorem complete_of_run {mem : Nat → Byte} {s : Loader}
    (h : Run (round memsize hex.length beyond) (fun _ _ => True) (start hex mem data) s)
    {first pairs : Nat} {d : Nat → Byte} (he : .record first pairs d ∈ s.trace) :
    Complete hex first pairs d := by
  induction h with
  | refl => exact absurd he List.not_mem_nil
  | @tail s s' i hrun _ hstep ih =>
    obtain ⟨c, left, hl, hb⟩ := body_of_round hstep
    obtain ⟨t, hscan, hhex⟩ | hnil := scanned_of_run rfl hrun
    · rw [hl] at hhex
      exact (complete_body hcut hscan hhex hb (by simp) he).elim ih id
    · rw [hnil] at hl
      cases hl

end

/-- **When the loader takes whole records only.**  If a call returns `true`, each record it has
acted on was in the input with all its pairs and the sum 0, and none of its bytes is left over
from an earlier record; this holds if and only if the input is not one that ends in a record of
which the loader accepts what is there. -/
theorem allComplete_iff (memsize : Nat) (hex : List Byte) (beyond : Byte) (mem data : Nat → Byte) :
    AllComplete memsize hex beyond mem data ↔ ¬CutOff memsize beyond data hex := by
  constructor
  · intro hall hcut
    exact not_allComplete_of_cutOff hcut mem hall
  · intro hcut s' hr first pairs d he
    obtain ⟨s, hrun, ⟨hl, -, rfl⟩ | ⟨c, left, hl, hb⟩⟩ := exists_last hr
    · exact complete_of_run hcut hrun he
    · obtain ⟨t, hscan, hhex⟩ | hnil := scanned_of_run rfl hrun
      · rw [hl] at hhex
        exact (complete_body hcut hscan hhex hb (by simp) he).elim (complete_of_run hcut hrun) id
      · rw [hnil] at hl
        cases hl

/-- An empty data record and the first byte of another one: the rest of the buffer is still
that of the first. -/
theorem not_allComplete_cut :
    ¬AllComplete 0x400000
      [0x3A, 0x30, 0x30, 0x30, 0x30, 0x30, 0x30, 0x30, 0x30, 0x30, 0x30, 0x3A, 0x30, 0x30]
      0 (fun _ => 0) (fun _ => 0) := by
  have hscan := @Scanned.record 0x400000 (fun _ => 0) []
    [0x30, 0x30, 0x30, 0x30, 0x30, 0x30, 0x30, 0x30, 0x30, 0x30] [0, 0, 0, 0, 0] 0 0 _
    .start rfl (by decide) (by decide) (.inl ⟨rfl, by decide, rfl⟩)
  exact not_allComplete_of_cutOff ⟨_, _, _, [0x30, 0x30], [0], hscan, .pairs rfl (by decide),
    by decide, .inr ⟨0, .inl ⟨rfl, by decide, rfl⟩⟩, rfl⟩ _

end RetroCpu.HexLoader
