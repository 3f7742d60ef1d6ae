import RetroCpu.Wdc65816.Assembler
import Mathlib.Tactic.IntervalCases

/-!
# Operands in a line of assembly

A `Numeral` is a way to write a number that `SkipNumber` reads, and a format is read as a
list of `Piece`s, so that `fill` can write numerals into it.

`tryMatch_fill` is what the choice between the formats rests on: a format matches the line
made from a format only if it is the same one, and then the number that is left is the
last one that was written.
-/

namespace RetroCpu

/-! ### Numerals -/

/-- Base 10, or base 16 after `$` or `0x`. -/
inductive Base
  | dec
  | dollar
  | zeroX
  deriving DecidableEq

namespace Base

def hex : Base → Bool
  | dec => false
  | dollar | zeroX => true

def start : Base → CString
  | dec => []
  | dollar => ['$']
  | zeroX => ['0', 'x']

end Base

/-- A number as it is written in a line. -/
structure Numeral where
  base : Base
  digits : List Char
  ne_nil : digits ≠ []
  isDigit : ∀ c ∈ digits, (CString.digit base.hex c).isSome

namespace Numeral

def text (n : Numeral) : CString := n.base.start ++ n.digits

def value (n : Numeral) : Nat :=
  n.digits.foldl
    (fun v c => (if n.base.hex then 16 else 10) * v + ((CString.digit n.base.hex c).getD 0).toNat) 0

end Numeral

namespace CString

theorem digit_eq_none {c : Char} (h : digit true c = none) (hex : Bool) : digit hex c = none := by
  cases hex with
  | true => exact h
  | false =>
    unfold digit at h ⊢
    split at h
    · cases h
    · next h0 => simp [h0]

/-- The loop of `SkipNumber` takes the digits that are there. -/
theorem skipDigits_append {hex : Bool} {ds : List Char} (hds : ∀ c ∈ ds, (digit hex c).isSome)
    {tail : CString} (htail : digit hex tail.peek = none) (number : BitVec 32) {ok : Bool}
    (hok : ok = true ∨ ds ≠ []) :
    skipDigits hex (ds ++ tail) number ok =
      some (ds.foldl (fun v c => v * (if hex then 16 else 10) + (digit hex c).getD 0) number,
        tail) := by
  induction ds generalizing number ok with
  | nil =>
    obtain rfl : ok = true := hok.resolve_right fun h => h rfl
    cases tail with
    | nil => rfl
    | cons c tail =>
      have hc : digit hex c = none := htail
      simp [skipDigits, hc]
  | cons c ds ih =>
    obtain ⟨d, hd⟩ := Option.isSome_iff_exists.mp (hds c (List.mem_cons_self ..))
    simp only [List.cons_append, skipDigits, hd, List.foldl_cons, Option.getD_some]
    exact ih (fun c' hc' => hds c' (List.mem_cons_of_mem _ hc')) _ (Or.inl rfl)

/-- In base 10 there is nothing before the digits. -/
theorem skipNumber_dec {c : Char} {p : CString} (hc : c ≠ '$') (hp : c = '0' → p.peek ≠ 'x') :
    skipNumber (c :: p) = skipDigits false (c :: p) 0 false := by
  rw [skipNumber.eq_def]
  split
  · next heq =>
    cases heq
    exact absurd rfl hc
  · next heq =>
    cases heq
    exact absurd rfl (hp rfl)
  · rfl

end CString

namespace Numeral

theorem ofNat_value (n : Numeral) :
    BitVec.ofNat 32 n.value = n.digits.foldl
      (fun v c => v * (if n.base.hex then 16 else 10) + (CString.digit n.base.hex c).getD 0) 0 := by
  have h : ∀ (ds : List Char) (v : Nat),
      BitVec.ofNat 32 (ds.foldl (fun v c => (if n.base.hex then 16 else 10) * v +
        ((CString.digit n.base.hex c).getD 0).toNat) v) =
      ds.foldl (fun v c => v * (if n.base.hex then 16 else 10) +
        (CString.digit n.base.hex c).getD 0) (BitVec.ofNat 32 v) := by
    intro ds
    induction ds with
    | nil => exact fun _ => rfl
    | cons c ds ih =>
      intro v
      rw [List.foldl_cons, List.foldl_cons, ih, BitVec.ofNat_add, BitVec.ofNat_mul,
        BitVec.ofNat_toNat, BitVec.setWidth_eq, BitVec.mul_comm]
      cases n.base.hex <;> rfl
  exact h n.digits 0

/-- **`SkipNumber` reads a numeral**, if no digit and no `x` follows. -/
theorem skipNumber_text (n : Numeral) {tail : CString}
    (hdigit : CString.digit true tail.peek = none) (hx : tail.peek ≠ 'x') :
    CString.skipNumber (n.text ++ tail) = some (BitVec.ofNat 32 n.value, tail) := by
  rw [ofNat_value]
  obtain ⟨base, digits, hne, hds⟩ := n
  have htail := CString.digit_eq_none hdigit
  cases base with
  | dollar => exact CString.skipDigits_append hds (htail _) 0 (Or.inr hne)
  | zeroX => exact CString.skipDigits_append hds (htail _) 0 (Or.inr hne)
  | dec =>
    rw [← CString.skipDigits_append hds (htail _) 0 (Or.inr hne)]
    cases digits with
    | nil => exact absurd rfl hne
    | cons c ds =>
      have hc := hds c (List.mem_cons_self ..)
      refine CString.skipNumber_dec ?_ fun _ => ?_
      · rintro rfl
        cases hc
      · cases ds with
        | nil => exact hx
        | cons c' ds =>
          have hc' := hds c' (List.mem_cons_of_mem _ (List.mem_cons_self ..))
          show c' ≠ 'x'
          rintro rfl
          cases hc'

/-- **Every number can be written in each base.** -/
theorem exists_value (base : Base) (v : Nat) : ∃ n : Numeral, n.base = base ∧ n.value = v := by
  have hdigit : ∀ hex : Bool, ∀ d < (if hex then 16 else 10),
      CString.digit hex (Nat.digitChar d) = some (BitVec.ofNat 32 d) := by decide
  have hd := hdigit base.hex
  have hr : 2 ≤ (if base.hex then 16 else 10) := by split <;> decide
  have hr' : (if base.hex then 16 else 10) ≤ 16 := by split <;> decide
  induction v using Nat.strongRecOn with
  | ind v ih =>
    generalize hradix : (if base.hex then 16 else 10) = r at hd hr hr'
    have hlt : v % r < r := Nat.mod_lt v (by omega)
    have hlast := hd _ hlt
    have hval : (BitVec.ofNat 32 (v % r)).toNat = v % r := by
      rw [BitVec.toNat_ofNat, Nat.mod_eq_of_lt (by omega)]
    by_cases hv : v < r
    · refine ⟨⟨base, [Nat.digitChar (v % r)], List.cons_ne_nil _ _, ?_⟩, rfl, ?_⟩
      · intro c hc
        rw [List.mem_singleton.mp hc, hlast]
        rfl
      · simp only [value, List.foldl_cons, List.foldl_nil, hlast, Option.getD_some, hval,
          Nat.mul_zero, Nat.zero_add]
        exact Nat.mod_eq_of_lt hv
    · obtain ⟨n, rfl, hn⟩ := ih (v / r) (Nat.div_lt_self (by omega) hr)
      refine ⟨⟨n.base, n.digits ++ [Nat.digitChar (v % r)], by simp, ?_⟩, rfl, ?_⟩
      · intro c hc
        rcases List.mem_append.mp hc with hc | hc
        · exact n.isDigit c hc
        · rw [List.mem_singleton.mp hc, hlast]
          rfl
      · rw [value, hradix] at hn
        simp only [value, List.foldl_append, List.foldl_cons, List.foldl_nil, hradix, hn,
          hlast, Option.getD_some, hval]
        exact Nat.div_add_mod v r

end Numeral

/-! ### Formats -/

/-- A part of a format: a character, or a number. -/
inductive Piece
  | lit (c : Char)
  | num
  deriving DecidableEq

namespace Piece

/-- The pieces of a format. -/
def parse : CString → List Piece
  | '%' :: 'X' :: f => num :: parse f
  | c :: f => lit c :: parse f
  | [] => []

/-- The format of a list of pieces. -/
def unparse : List Piece → CString
  | [] => []
  | lit c :: ps => c :: unparse ps
  | num :: ps => '%' :: 'X' :: unparse ps

theorem unparse_parse (f : CString) : unparse (parse f) = f := by
  fun_induction parse f with
  | case1 f ih => rw [unparse, ih]
  | case2 c f _ ih => rw [unparse, ih]
  | case3 => rfl

/-- The format with numerals for its numbers. -/
def fill : List Piece → List Numeral → CString
  | [], _ => []
  | lit c :: ps, ns => c :: fill ps ns
  | num :: ps, n :: ns => n.text ++ fill ps ns
  | num :: ps, [] => fill ps []

def count (ps : List Piece) : Nat := ps.countP (· = num)

/-- A character that `TryMatch` compares and that is not the first of a numeral. -/
def plain (c : Char) : Bool :=
  !CString.isspace c && c ≠ '%' && c.toUpper = c && c ≠ Char.ofNat 0 && c ≠ '$' &&
    (CString.digit false c).isNone

def stops (c : Char) : Bool := (CString.digit true c).isNone && c ≠ 'x'

/-- The characters are plain and none continues a numeral. -/
def wellFormed : List Piece → Bool
  | [] => true
  | lit c :: ps => plain c && wellFormed ps
  | [num] => true
  | num :: lit c :: ps => stops c && wellFormed (lit c :: ps)
  | num :: num :: _ => false

end Piece

theorem AddrKind.wellFormed_kFormat (kind : AddrKind) :
    Piece.wellFormed (Piece.parse kind.kFormat) := by
  cases kind <;> rfl

theorem JmpAddr.wellFormed_kFormat (addr : JmpAddr) :
    Piece.wellFormed (Piece.parse addr.kFormat) := by
  cases addr <;> rfl

theorem Op.wellFormed_kParamFormat (o : Op) :
    Piece.wellFormed (Piece.parse o.kParamFormat) := by
  cases o <;> first
    | exact AddrKind.wellFormed_kFormat _
    | exact JmpAddr.wellFormed_kFormat _
    | rfl

/-! ### One format against the line of another -/

def lastNumber (ns : List Numeral) (v : BitVec 32) : BitVec 32 :=
  ns.foldl (fun _ n => BitVec.ofNat 32 n.value) v

/-- The first character of a numeral. -/
theorem Numeral.text_head (n : Numeral) :
    ∃ c p, n.text = c :: p ∧ (c = '$' ∨ (CString.digit false c).isSome) := by
  obtain ⟨base, digits, hne, hds⟩ := n
  cases base with
  | dollar => exact ⟨'$', digits, rfl, Or.inl rfl⟩
  | zeroX => exact ⟨'0', 'x' :: digits, rfl, Or.inr rfl⟩
  | dec =>
    cases digits with
    | nil => exact absurd rfl hne
    | cons c ds => exact ⟨c, ds, rfl, Or.inr (hds c (List.mem_cons_self ..))⟩

theorem digit_bounds {c : Char} (h : (CString.digit false c).isSome) :
    48 ≤ c.toNat ∧ c.toNat ≤ 57 := by
  unfold CString.digit at h
  split at h
  · next hc => exact hc
  · simp at h

structure Plain (c : Char) : Prop where
  isspace : CString.isspace c = false
  ne_percent : c ≠ '%'
  toUpper : c.toUpper = c
  ne_nul : c ≠ Char.ofNat 0
  ne_dollar : c ≠ '$'
  digit : CString.digit false c = none

theorem plain_iff {c : Char} (h : Piece.plain c) : Plain c := by
  simp only [Piece.plain, Bool.and_eq_true, Bool.not_eq_true', decide_eq_true_eq,
    Option.isNone_iff_eq_none] at h
  obtain ⟨⟨⟨⟨⟨hspace, hpercent⟩, hupper⟩, hnul⟩, hdollar⟩, hdigit⟩ := h
  exact ⟨hspace, hpercent, hupper, hnul, hdollar, hdigit⟩

theorem head_ne {c : Char} (hc : c = '$' ∨ (CString.digit false c).isSome) :
    CString.isspace c = false ∧ ∀ d, Plain d → c.toUpper ≠ d := by
  rcases hc with rfl | hc
  · exact ⟨rfl, fun d hd h => hd.ne_dollar h.symm⟩
  · have hne : ∀ d, Plain d → c ≠ d := by
      rintro d hd rfl
      rw [hd.digit] at hc
      cases hc
    obtain ⟨hlo, hhi⟩ := digit_bounds hc
    have hof : c = Char.ofNat c.toNat := (Char.ofNat_toNat c).symm
    generalize c.toNat = k at hlo hhi hof
    subst hof
    interval_cases k <;> exact ⟨rfl, hne⟩

namespace CString

theorem skipWhitespace_cons {c : Char} (h : isspace c = false) (p : CString) :
    skipWhitespace (c :: p) = c :: p :=
  List.dropWhile_cons_of_neg (by rw [h]; exact Bool.false_ne_true)

theorem tryMatch_lit {c : Char} (hc : Plain c) (p : CString) (v : BitVec 32)
    (format : CString) :
    p.tryMatch v (c :: format) =
      if p.skipWhitespace.peek.toUpper = c then CString.tryMatch p.skipWhitespace.tail v format
      else none := by
  rw [tryMatch.eq_def]
  simp only [hc.isspace, hc.ne_percent, hc.toUpper, if_false, Bool.false_eq_true]

theorem tryMatch_num (p : CString) (v : BitVec 32) (format : CString) :
    p.tryMatch v ('%' :: 'X' :: format) =
      p.skipWhitespace.skipNumber.bind fun r => r.2.tryMatch r.1 format := by
  rw [tryMatch.eq_def]
  simp only [show isspace '%' = false from rfl, Bool.false_eq_true, if_false, if_true]
  cases p.skipWhitespace.skipNumber <;> rfl

end CString

theorem isspace_bounds {c : Char} (h : CString.isspace c) :
    c.toNat = 32 ∨ 9 ≤ c.toNat ∧ c.toNat ≤ 13 := by
  rw [CString.isspace, Bool.or_eq_true, Bool.and_eq_true, decide_eq_true_eq, decide_eq_true_eq,
    decide_eq_true_eq] at h
  rcases h with rfl | h
  · exact .inl rfl
  · exact .inr h

/-- Whitespace ends a numeral and a token. -/
theorem stops_of_isspace {c : Char} (h : CString.isspace c) :
    Piece.stops c ∧ CString.isToken c = false := by
  have hof : c = Char.ofNat c.toNat := (Char.ofNat_toNat c).symm
  rcases isspace_bounds h with hc | ⟨hlo, hhi⟩
  · rw [hof, hc]
    decide
  · generalize c.toNat = k at hlo hhi hof
    subst hof
    interval_cases k <;> decide

/-- Whitespace to the end of the text. -/
structure CString.Trailing (rest : CString) : Prop where
  isspace : CString.isspace rest.peek
  skip : rest.skipWhitespace = []

open Piece in
theorem wellFormed_of_num {ps : List Piece} (h : wellFormed (num :: ps)) : wellFormed ps := by
  cases ps with
  | nil => rfl
  | cons p ps =>
    cases p with
    | lit c =>
      rw [wellFormed, Bool.and_eq_true] at h
      exact h.2
    | num => cases h

open Piece in
theorem stops_of_wellFormed {ps : List Piece} (h : wellFormed (num :: ps)) (ns : List Numeral)
    {rest : CString} (hrest : rest.Trailing) : stops (CString.peek (fill ps ns ++ rest)) := by
  cases ps with
  | nil => exact (stops_of_isspace hrest.isspace).1
  | cons p ps =>
    cases p with
    | lit c =>
      rw [wellFormed, Bool.and_eq_true] at h
      exact h.1
    | num => cases h

open Piece in
/-- **A format matches the line of a format only if it is the same.** -/
theorem tryMatch_fill {ps qs : List Piece} (hps : wellFormed ps) (hqs : wellFormed qs)
    {ns : List Numeral} (hn : ns.length = count qs) {rest : CString} (hrest : rest.Trailing)
    (v : BitVec 32) : CString.tryMatch (fill qs ns ++ rest) v (unparse ps) =
      if ps = qs then some (lastNumber ns v, rest) else none := by
  induction qs generalizing ps ns v with
  | nil =>
    obtain rfl : ns = [] := List.eq_nil_of_length_eq_zero hn
    rw [fill, List.nil_append]
    cases ps with
    | nil =>
      rw [unparse, CString.tryMatch, if_pos hrest.isspace]
      rfl
    | cons p ps =>
      rw [if_neg (List.cons_ne_nil p ps)]
      cases p with
      | lit c =>
        rw [wellFormed, Bool.and_eq_true] at hps
        have hc := plain_iff hps.1
        rw [unparse, CString.tryMatch_lit hc, hrest.skip]
        exact if_neg fun h => hc.ne_nul h.symm
      | num =>
        rw [unparse, CString.tryMatch_num, hrest.skip]
        rfl
  | cons q qs ih =>
    cases q with
    | lit d =>
      rw [wellFormed, Bool.and_eq_true] at hqs
      have hd := plain_iff hqs.1
      have hcount : ns.length = count qs := hn
      have hskip := CString.skipWhitespace_cons hd.isspace (fill qs ns ++ rest)
      rw [fill, List.cons_append]
      cases ps with
      | nil =>
        rw [if_neg (List.cons_ne_nil _ _).symm, unparse, CString.tryMatch]
        exact if_neg (ne_true_of_eq_false hd.isspace)
      | cons p ps =>
        cases p with
        | lit c =>
          rw [wellFormed, Bool.and_eq_true] at hps
          rw [unparse, CString.tryMatch_lit (plain_iff hps.1), hskip]
          show (if d.toUpper = c then CString.tryMatch (fill qs ns ++ rest) v (unparse ps)
            else none) = _
          rw [hd.toUpper, ih hps.2 hqs.2 hcount]
          by_cases hcd : d = c
          · subst hcd
            simp
          · have hne : ¬ lit c :: ps = lit d :: qs := by
              intro h
              cases h
              exact hcd rfl
            rw [if_neg hcd, if_neg hne]
        | num =>
          have hnone : CString.skipNumber (d :: (fill qs ns ++ rest)) = none := by
            rw [CString.skipNumber_dec hd.ne_dollar, CString.skipDigits, hd.digit]
            · rfl
            · rintro rfl
              cases hd.digit
          rw [unparse, CString.tryMatch_num, hskip, hnone]
          rfl
    | num =>
      have hqs' := wellFormed_of_num hqs
      have hstops := stops_of_wellFormed hqs ns.tail hrest
      cases ns with
      | nil => simp [count] at hn
      | cons n ns =>
        have hcount : ns.length = count qs := by simpa [count] using hn
        rw [List.tail_cons, stops, Bool.and_eq_true, Option.isNone_iff_eq_none,
          decide_eq_true_eq] at hstops
        have hread := n.skipNumber_text hstops.1 hstops.2
        obtain ⟨c, p, htext, hc⟩ := n.text_head
        obtain ⟨hspace, hupper⟩ := head_ne hc
        have hskip : CString.skipWhitespace (n.text ++ (fill qs ns ++ rest)) =
            n.text ++ (fill qs ns ++ rest) := by
          rw [htext]
          exact CString.skipWhitespace_cons hspace _
        rw [fill, List.append_assoc]
        cases ps with
        | nil =>
          rw [if_neg (List.cons_ne_nil _ _).symm, unparse, CString.tryMatch, htext]
          exact if_neg (ne_true_of_eq_false hspace)
        | cons q ps =>
          cases q with
          | lit d =>
            rw [wellFormed, Bool.and_eq_true] at hps
            have hd := plain_iff hps.1
            rw [unparse, CString.tryMatch_lit hd, hskip, htext]
            exact if_neg (hupper d hd)
          | num =>
            have hps' := wellFormed_of_num hps
            rw [unparse, CString.tryMatch_num, hskip, hread, Option.bind_some, ih hps' hqs' hcount]
            simp [lastNumber]

end RetroCpu
