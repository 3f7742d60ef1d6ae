import RetroCpu.Wdc65816.AssemblyLine

/-!
# A line in a text

What the assembler makes of a line does not depend on the lines behind it, if the line is an
instruction.  `TryMatch` skips newlines as it skips blanks, so a format may well be compared with
the start of the next line; but then it goes on with a comma (`Piece.Continues`), and no line
begins with one.

* `tryMatch_before`: a format against the text of a line and what follows it.
* `iterate_before`: **an instruction is assembled in a text as it is alone.**
-/

namespace RetroCpu

/-! ### Formats that continue others -/

namespace Piece

/-- Where `ps` begins with `bs` it goes on with a comma. -/
def continues : List Piece → List Piece → Bool
  | [], [] => true
  | [], c :: _ => c = lit ','
  | _ :: _, [] => true
  | b :: bs, c :: ps => b ≠ c || continues bs ps

theorem continues_cons {b : Piece} {bs ps : List Piece} (h : continues (b :: bs) (b :: ps)) :
    continues bs ps := by
  rw [continues, Bool.or_eq_true] at h
  rcases h with h | h
  · simp at h
  · exact h

end Piece

def paramFormats : List CString :=
  ["", "A", "#%X", "%X", "%X,X", "%X,Y", "(%X)", "(%X,X)", "(%X),Y", "[%X]", "[%X],Y", "%X,S",
    "(%X,S),Y", "%X,%X"].map String.toList

theorem AddrKind.kFormat_mem (kind : AddrKind) : kind.kFormat ∈ paramFormats := by
  refine List.contains_iff_mem.mp ?_
  cases kind <;> rfl

theorem JmpAddr.kFormat_mem (addr : JmpAddr) : addr.kFormat ∈ paramFormats := by
  refine List.contains_iff_mem.mp ?_
  cases addr <;> rfl

theorem Op.kParamFormat_mem (o : Op) : o.kParamFormat ∈ paramFormats := by
  cases o with
  | jmp addr _ _ => exact addr.kFormat_mem
  | tsb m | trb m | bit m | bitImm m | alu _ m | asl m | lsr m | ror m | rol m | incMem m
  | decMem m | load m _ _ | store m _ _ | stz m | adc m | sbc m | cmp m | cpx m | cpy m
  | lax m | sax m => exact AddrKind.kFormat_mem m.kind
  | _ => exact List.contains_iff_mem.mp rfl

theorem Op.continues_kParamFormat {mode : Mode} {o o' : Op} (ho : o ∈ Op.ofMode mode)
    (ho' : o' ∈ Op.ofMode mode) (h : o'.kMnemonic = o.kMnemonic) :
    Piece.continues (Piece.parse o.kParamFormat) (Piece.parse o'.kParamFormat) := by
  have hall : ∀ f ∈ paramFormats, ∀ f' ∈ paramFormats, f'.isEmpty = f.isEmpty →
      Piece.continues (Piece.parse f) (Piece.parse f') := by decide
  exact hall _ o.kParamFormat_mem _ o'.kParamFormat_mem (Op.implied_eq ho ho' h)

namespace CString

@[simp] theorem peek_cons (c : Char) (p : CString) : peek (c :: p) = c := rfl

/-! ### Numbers -/

/-- The digits of a number end with the line. -/
theorem skipDigits_before (hex : Bool) (p : CString) (number : BitVec 32) (ok : Bool) :
    (∀ rest, skipDigits hex (p ++ '\n' :: rest) number ok = none) ∨
      ∃ v p', p' <:+ p ∧
        ∀ rest, skipDigits hex (p ++ '\n' :: rest) number ok = some (v, p' ++ '\n' :: rest) := by
  have hend : digit hex '\n' = none := by cases hex <;> rfl
  induction p generalizing number ok with
  | nil =>
    cases ok with
    | false =>
      refine .inl fun rest => ?_
      simp [skipDigits, hend]
    | true =>
      refine .inr ⟨number, [], List.suffix_rfl, fun rest => ?_⟩
      simp [skipDigits, hend]
  | cons c p ih =>
    cases hd : digit hex c with
    | some d =>
      rcases ih (number * (if hex then 16 else 10) + d) true with h | ⟨v, p', hp', h⟩
      · refine .inl fun rest => ?_
        rw [List.cons_append, skipDigits, hd]
        exact h rest
      · refine .inr ⟨v, p', hp'.trans (List.suffix_cons c p), fun rest => ?_⟩
        rw [List.cons_append, skipDigits, hd]
        exact h rest
    | none =>
      cases ok with
      | false =>
        refine .inl fun rest => ?_
        simp [skipDigits, hd]
      | true =>
        refine .inr ⟨number, c :: p, List.suffix_rfl, fun rest => ?_⟩
        simp [skipDigits, hd]

theorem skipNumber_before (p : CString) :
    (∀ rest, skipNumber (p ++ '\n' :: rest) = none) ∨
      ∃ v p', p' <:+ p ∧ ∀ rest, skipNumber (p ++ '\n' :: rest) = some (v, p' ++ '\n' :: rest) := by
  have hdec (h : ∀ rest, skipNumber (p ++ '\n' :: rest) =
      skipDigits false (p ++ '\n' :: rest) 0 false) :
      (∀ rest, skipNumber (p ++ '\n' :: rest) = none) ∨ ∃ v p', p' <:+ p ∧
        ∀ rest, skipNumber (p ++ '\n' :: rest) = some (v, p' ++ '\n' :: rest) := by
    simp only [h]
    exact skipDigits_before false p 0 false
  have hhex {q : CString} (hq : q <:+ p) (h : ∀ rest, skipNumber (p ++ '\n' :: rest) =
      skipDigits true (q ++ '\n' :: rest) 0 false) :
      (∀ rest, skipNumber (p ++ '\n' :: rest) = none) ∨ ∃ v p', p' <:+ p ∧
        ∀ rest, skipNumber (p ++ '\n' :: rest) = some (v, p' ++ '\n' :: rest) := by
    simp only [h]
    rcases skipDigits_before true q 0 false with h | ⟨v, p', hp', h⟩
    · exact .inl h
    · exact .inr ⟨v, p', hp'.trans hq, h⟩
  cases p with
  | nil => exact hdec fun _ => rfl
  | cons c p =>
    by_cases hdollar : c = '$'
    · subst hdollar
      exact hhex (List.suffix_cons _ p) fun _ => rfl
    · by_cases hzero : c = '0' ∧ p.head? = some 'x'
      · obtain ⟨rfl, hx⟩ := hzero
        obtain ⟨p, rfl⟩ := List.head?_eq_some_iff.mp hx
        exact hhex ((List.suffix_cons _ p).trans (List.suffix_cons _ _)) fun _ => rfl
      · refine hdec fun rest => skipNumber_dec hdollar fun hc => ?_
        cases p with
        | nil => exact (by decide : ('\n' : Char) ≠ 'x')
        | cons c' p => exact fun hx => hzero ⟨hc, congrArg some hx⟩

theorem getToken_before (p rest : CString) :
    getToken (p ++ '\n' :: rest) = ((getToken p).1, (getToken p).2 ++ '\n' :: rest) := by
  induction p with
  | nil => rfl
  | cons c p ih =>
    unfold getToken at ih ⊢
    obtain ⟨hname, hrest⟩ := Prod.mk.inj ih
    by_cases hc : isToken c
    · rw [List.cons_append, List.takeWhile_cons_of_pos hc, List.takeWhile_cons_of_pos hc,
        List.dropWhile_cons_of_pos hc, List.dropWhile_cons_of_pos hc, List.map_cons, List.map_cons,
        hname, hrest]
    · rw [List.cons_append, List.takeWhile_cons_of_neg hc, List.takeWhile_cons_of_neg hc,
        List.dropWhile_cons_of_neg hc, List.dropWhile_cons_of_neg hc]
      rfl

/-! ### Formats -/

/-- Nothing is left to assemble: there is whitespace, and perhaps a comment. -/
def Blank (p : CString) : Prop := p.skipWhitespace = [] ∨ p.skipWhitespace.peek = ';'

theorem Blank.newline {p : CString} (h : Blank p) : Blank (p ++ ['\n']) := by
  rw [Blank, skipWhitespace, List.dropWhile_append]
  rcases h with hnil | hcomment
  · rw [skipWhitespace] at hnil
    rw [hnil]
    exact .inl rfl
  · rw [skipWhitespace] at hcomment
    cases hcons : p.dropWhile isspace with
    | nil =>
      rw [hcons] at hcomment
      exact absurd hcomment (by decide)
    | cons c q =>
      rw [hcons] at hcomment
      exact .inr hcomment

/-- The text does not go on with a comma. -/
def Follows (rest : CString) : Prop := rest.skipWhitespace.peek.toUpper ≠ ','

theorem follows_nil : Follows [] := (by decide : (Char.ofNat 0).toUpper ≠ ',')

theorem skipWhitespace_before (p : CString) :
    (p.skipWhitespace = [] ∧
        ∀ rest, skipWhitespace (p ++ '\n' :: rest) = skipWhitespace rest) ∨
      ∃ c p', isspace c = false ∧ p' <:+ p ∧ p.skipWhitespace = c :: p' ∧
        ∀ rest, skipWhitespace (p ++ '\n' :: rest) = c :: (p' ++ '\n' :: rest) := by
  induction p with
  | nil => exact .inl ⟨rfl, fun rest => List.dropWhile_cons_of_pos rfl⟩
  | cons c p ih =>
    cases hc : isspace c with
    | false =>
      exact .inr ⟨c, p, hc, List.suffix_cons c p, skipWhitespace_cons hc p,
        fun rest => skipWhitespace_cons hc _⟩
    | true =>
      have hskip (q : CString) : skipWhitespace (c :: q) = q.skipWhitespace :=
        List.dropWhile_cons_of_pos hc
      rcases ih with ⟨hnil, h⟩ | ⟨c', p', hc', hp', hcons, h⟩
      · exact .inl ⟨(hskip p).trans hnil, fun rest => (hskip _).trans (h rest)⟩
      · exact .inr ⟨c', p', hc', hp'.trans (List.suffix_cons c p), (hskip p).trans hcons,
          fun rest => (hskip _).trans (h rest)⟩

/-- Behind whitespace a format that goes on does not match. -/
theorem blank_before {p : CString} (h : Blank (p ++ ['\n'])) {c : Char} {p' : CString}
    (hskip : ∀ rest, skipWhitespace (p ++ '\n' :: rest) = c :: (p' ++ '\n' :: rest)) : c = ';' := by
  rw [Blank, hskip []] at h
  rcases h with h | h
  · cases h
  · exact h

/-- A character of a format does not begin a number. -/
theorem skipNumber_plain {d : Char} (hd : Plain d.toUpper) (p : CString) :
    skipNumber (d :: p) = none := by
  have hhead : ¬(d = '$' ∨ (digit false d).isSome) := fun h => (head_ne h).2 _ hd rfl
  rw [not_or, Bool.not_eq_true, Option.isSome_eq_false_iff, Option.isNone_iff_eq_none] at hhead
  obtain ⟨hdollar, hdigit⟩ := hhead
  rw [skipNumber_dec hdollar, skipDigits, hdigit]
  · rfl
  · rintro rfl
    cases hdigit

inductive Reads (p : CString) (v : BitVec 32) (r : BitVec 32 × CString) : List Piece → Prop
  | nil (h : r = (v, p ++ ['\n'])) : Reads p v r []
  | lit {c d : Char} {p' : CString} {bs : List Piece} (hc : Plain c) (hd : d.toUpper = c)
    (hskip : ∀ rest, skipWhitespace (p ++ '\n' :: rest) = d :: (p' ++ '\n' :: rest))
    (h : tryMatch (p' ++ ['\n']) v (Piece.unparse bs) = some r) : Reads p v r (.lit c :: bs)
  | num {d : Char} {p' p'' : CString} {v' : BitVec 32} {bs : List Piece}
    (hskip : ∀ rest, skipWhitespace (p ++ '\n' :: rest) = d :: (p' ++ '\n' :: rest))
    (hnumber : ∀ rest, skipNumber (d :: (p' ++ '\n' :: rest)) = some (v', p'' ++ '\n' :: rest))
    (h : tryMatch (p'' ++ ['\n']) v' (Piece.unparse bs) = some r) : Reads p v r (.num :: bs)

theorem reads_of_tryMatch {bs : List Piece} (hbs : Piece.wellFormed bs) {p : CString}
    {v : BitVec 32} {r : BitVec 32 × CString}
    (h : tryMatch (p ++ ['\n']) v (Piece.unparse bs) = some r) : Reads p v r bs := by
  cases bs with
  | nil =>
    rw [Piece.unparse, tryMatch] at h
    split at h
    · exact .nil (Option.some.inj h).symm
    · cases h
  | cons b bs =>
    cases b with
    | lit c =>
      rw [Piece.wellFormed, Bool.and_eq_true] at hbs
      have hc := plain_iff hbs.1
      rw [Piece.unparse, tryMatch_lit hc] at h
      rcases skipWhitespace_before p with ⟨-, hskip⟩ | ⟨d, p', -, -, -, hskip⟩
      · rw [hskip []] at h
        rw [if_neg fun hpeek => hc.ne_nul hpeek.symm] at h
        cases h
      · rw [hskip []] at h
        split at h
        · next hd => exact .lit hc hd hskip h
        · cases h
    | num =>
      rw [Piece.unparse, tryMatch_num] at h
      rcases skipWhitespace_before p with ⟨-, hskip⟩ | ⟨d, p', -, -, -, hskip⟩
      · rw [hskip []] at h
        cases h
      · rw [hskip []] at h
        rcases skipNumber_before (d :: p') with hnone | ⟨v', p'', -, hsome⟩
        · rw [← List.cons_append, hnone] at h
          cases h
        · rw [← List.cons_append, hsome] at h
          exact .num hskip hsome h

open Piece in
/-- **A format against a line in a text.**  If the line is matched to its end by `bs`, then `ps`
matches what it matches of the line alone. -/
theorem tryMatch_before {ps bs : List Piece} (hps : wellFormed ps) (hbs : wellFormed bs)
    (hcont : continues bs ps) {p q rest : CString} {v w : BitVec 32}
    (hbest : tryMatch (p ++ ['\n']) v (unparse bs) = some (w, q)) (hblank : Blank q)
    (hrest : Follows rest) :
    tryMatch (p ++ '\n' :: rest) v (unparse ps) =
      (tryMatch (p ++ ['\n']) v (unparse ps)).map fun r => (r.1, r.2 ++ rest) := by
  induction ps generalizing p bs v with
  | nil =>
    have hpeek : (p ++ '\n' :: rest).peek = (p ++ ['\n']).peek := by cases p <;> rfl
    rw [unparse, tryMatch, tryMatch, hpeek]
    split
    · simp
    · rfl
  | cons x ps ih =>
    have hreads := reads_of_tryMatch hbs hbest
    cases x with
    | lit c =>
      have hps' : plain c ∧ wellFormed ps := by rwa [wellFormed, Bool.and_eq_true] at hps
      have hc := plain_iff hps'.1
      rw [unparse, tryMatch_lit hc, tryMatch_lit hc]
      cases hreads with
      | nil h =>
        obtain ⟨-, rfl⟩ := Prod.mk.inj h
        obtain rfl : c = ',' := by simpa [continues] using hcont
        rcases skipWhitespace_before p with ⟨-, hskip⟩ | ⟨d, p', -, -, -, hskip⟩
        · rw [hskip, hskip [], if_neg hrest, if_neg (by decide)]
          rfl
        · obtain rfl := blank_before hblank hskip
          rw [hskip, hskip []]
          rfl
      | @lit b d p' bs hb hd hskip h =>
        rw [hskip, hskip [], peek_cons, peek_cons, List.tail_cons, List.tail_cons]
        by_cases hbc : b = c
        · subst hbc
          rw [if_pos hd, if_pos hd]
          rw [wellFormed, Bool.and_eq_true] at hbs
          exact ih hps'.2 hbs.2 (continues_cons hcont) h
        · have hne : d.toUpper ≠ c := fun hdc => hbc (hd.symm.trans hdc)
          rw [if_neg hne, if_neg hne]
          rfl
      | @num d p' p'' v' bs hskip hnumber h =>
        have hne : d.toUpper ≠ c := by
          intro hdc
          have hnone := skipNumber_plain (d := d) (hdc ▸ hc) (p' ++ ['\n'])
          rw [hnumber] at hnone
          cases hnone
        rw [hskip, hskip [], peek_cons, peek_cons, if_neg hne, if_neg hne]
        rfl
    | num =>
      rw [unparse, tryMatch_num, tryMatch_num]
      cases hreads with
      | nil h => simp [continues] at hcont
      | @lit b d p' bs hb hd hskip h =>
        have hplain : Plain d.toUpper := hd ▸ hb
        rw [hskip, hskip [], skipNumber_plain hplain, skipNumber_plain hplain]
        rfl
      | @num d p' p'' v' bs hskip hnumber h =>
        have hps' := wellFormed_of_num hps
        have hbs' := wellFormed_of_num hbs
        rw [hskip, hskip [], hnumber, hnumber []]
        exact ih hps' hbs' (continues_cons hcont) h

end CString

namespace Assembling

open CString

/-! ### The choice in a text -/

/-- The choice depends on the numbers that the formats read. -/
theorem choose_congr {p p' : CString} {l : List Instruction}
    (h : ∀ e ∈ l, (p'.tryMatch 0 e.format).map Prod.fst = (p.tryMatch 0 e.format).map Prod.fst) :
    choose p' l = choose p l := by
  have hfilter : l.filter (fun e => (p'.tryMatch 0 e.format).isSome) =
      l.filter fun e => (p.tryMatch 0 e.format).isSome := by
    refine List.filter_congr fun e he => ?_
    rw [← Option.isSome_map (f := Prod.fst), h e he, Option.isSome_map]
  rw [choose, choose, hfilter]
  refine List.foldl_ext _ _ _ fun best e he => ?_
  unfold better
  rw [h e (List.mem_of_mem_filter he)]

/-- The number that the format of `e` reads fits its operand bytes. -/
def Fits (p : CString) (e : Instruction) : Prop :=
  ¬tooLarge (((p.tryMatch 0 e.format).map Prod.fst).getD 0) e.bytes

/-- `b` comes of the instructions `l` and the instruction `best` before them: it is one that
fits, and there is no shorter one. -/
structure Best (p : CString) (best : Option Instruction) (l : List Instruction) (b : Instruction) :
    Prop where
  mem : best = some b ∨ b ∈ l ∧ Fits p b
  least : ∀ e ∈ l, Fits p e → b.bytes ≤ e.bytes
  least_best : ∀ e, best = some e → b.bytes ≤ e.bytes

/-- What the loop over the candidates comes to. -/
theorem foldl_better_spec (p : CString) (l : List Instruction) (best : Option Instruction) :
    (∃ b, l.foldl (better p) best = some b ∧ Best p best l b) ∨
      l.foldl (better p) best = none ∧ best = none ∧ ∀ e ∈ l, ¬Fits p e := by
  induction l generalizing best with
  | nil =>
    cases best with
    | none => exact .inr ⟨rfl, rfl, fun e he => nomatch he⟩
    | some b =>
      refine .inl ⟨b, rfl, .inl rfl, fun e he => (nomatch he), fun e he => ?_⟩
      cases he
      exact Nat.le_refl _
  | cons e l ih =>
    rw [List.foldl_cons]
    by_cases hfits : Fits p e
    · -- the better of `best` and `e` is `b'`
      obtain ⟨b', hb', hmem, hle, hlebest⟩ : ∃ b', better p best e = some b' ∧
          (best = some b' ∨ b' = e) ∧ b'.bytes ≤ e.bytes ∧
            ∀ c, best = some c → b'.bytes ≤ c.bytes := by
        cases best with
        | none => exact ⟨e, if_neg hfits, .inr rfl, Nat.le_refl _, fun c hc => nomatch hc⟩
        | some c =>
          have hbetter : better p (some c) e = if e.bytes < c.bytes then some e else some c :=
            if_neg hfits
          rw [hbetter]
          split
          · next hlt => exact ⟨e, rfl, .inr rfl, Nat.le_refl _, fun c' hc' => by cases hc'; omega⟩
          · next hlt => exact ⟨c, rfl, .inl rfl, by omega, fun c' hc' => by cases hc'; omega⟩
      rw [hb']
      rcases ih (some b') with ⟨b, hb, hbest⟩ | ⟨-, hnone, -⟩
      · have hlow := hbest.least_best b' rfl
        refine .inl ⟨b, hb, ?_, fun c hc hcfits => ?_, fun c hc => ?_⟩
        · rcases hbest.mem with hsome | ⟨hbl, hbfits⟩
          · cases hsome
            rcases hmem with hmem | rfl
            · exact .inl hmem
            · exact .inr ⟨List.mem_cons_self, hfits⟩
          · exact .inr ⟨List.mem_cons_of_mem e hbl, hbfits⟩
        · rcases List.mem_cons.mp hc with rfl | hc
          · omega
          · exact hbest.least c hc hcfits
        · exact Nat.le_trans hlow (hlebest c hc)
      · cases hnone
    · have hskip : better p best e = best := by
        unfold better
        exact if_pos (not_not.mp hfits)
      rw [hskip]
      rcases ih best with ⟨b, hb, hbest⟩ | ⟨hnil, hnone, hall⟩
      · refine .inl ⟨b, hb, ?_, fun c hc hcfits => ?_, hbest.least_best⟩
        · exact hbest.mem.imp_right fun h => ⟨List.mem_cons_of_mem e h.1, h.2⟩
        · rcases List.mem_cons.mp hc with rfl | hc
          · exact absurd hcfits hfits
          · exact hbest.least c hc hcfits
      · refine .inr ⟨hnil, hnone, fun c hc => ?_⟩
        rcases List.mem_cons.mp hc with rfl | hc
        · exact hfits
        · exact hall c hc

/-- **The choice.**  It is a shortest of the instructions whose formats match and that hold the
number; if there is none, no instruction whose format matches holds it. -/
theorem choose_spec (p : CString) (l : List Instruction) :
    (∃ b ∈ l, choose p l = some b ∧ (p.tryMatch 0 b.format).isSome ∧ Fits p b ∧
      ∀ e ∈ l, (p.tryMatch 0 e.format).isSome → Fits p e → b.bytes ≤ e.bytes) ∨
    choose p l = none ∧ ∀ e ∈ l, (p.tryMatch 0 e.format).isSome → ¬Fits p e := by
  rcases foldl_better_spec p (l.filter fun e => (p.tryMatch 0 e.format).isSome) none with
    ⟨b, hb, hbest⟩ | ⟨hnone, -, hall⟩
  · obtain ⟨hmem, hfits⟩ := hbest.mem.resolve_left fun h => nomatch h
    obtain ⟨hbl, hmatch⟩ := List.mem_filter.mp hmem
    exact .inl ⟨b, hbl, hb, hmatch, hfits, fun e he hmatches =>
      hbest.least e (List.mem_filter.mpr ⟨he, hmatches⟩)⟩
  · exact .inr ⟨hnone, fun e he hmatches => hall e (List.mem_filter.mpr ⟨he, hmatches⟩)⟩

theorem mem_of_choose {p : CString} {l : List Instruction} {b : Instruction}
    (h : choose p l = some b) : b ∈ l ∧ (p.tryMatch 0 b.format).isSome := by
  rcases choose_spec p l with ⟨b', hmem, hb', hmatch, -⟩ | ⟨hnone, -⟩
  · rw [hb'] at h
    cases h
    exact ⟨hmem, hmatch⟩
  · rw [hnone] at h
    cases h

variable {mode : Mode} {mnemonic p q rest : CString} {best : Instruction} {v : BitVec 32}

theorem choose_before
    (hbest : choose (p ++ ['\n']) (instructionsByMnemonic mode mnemonic) = some best)
    (hmatch : (p ++ ['\n']).tryMatch 0 best.format = some (v, q)) (hblank : Blank q)
    (hrest : Follows rest) :
    choose (p ++ '\n' :: rest) (instructionsByMnemonic mode mnemonic) = some best ∧
      (p ++ '\n' :: rest).tryMatch 0 best.format = some (v, q ++ rest) := by
  obtain ⟨hmem, -⟩ := mem_of_choose hbest
  obtain ⟨o, ho, hm, -, hformat⟩ := Op.mem_group hmem
  rw [hformat, ← Piece.unparse_parse o.kParamFormat] at hmatch
  have hall : ∀ e ∈ instructionsByMnemonic mode mnemonic,
      (p ++ '\n' :: rest).tryMatch 0 e.format =
        ((p ++ ['\n']).tryMatch 0 e.format).map fun r => (r.1, r.2 ++ rest) := by
    intro e he
    obtain ⟨o', ho', hm', -, hformat'⟩ := Op.mem_group he
    have hcont := Op.continues_kParamFormat ho ho' (hm'.trans hm.symm)
    rw [hformat', ← Piece.unparse_parse o'.kParamFormat]
    exact tryMatch_before o'.wellFormed_kParamFormat o.wellFormed_kParamFormat hcont hmatch hblank
      hrest
  constructor
  · rw [← hbest]
    refine choose_congr fun e he => ?_
    rw [hall e he, Option.map_map]
    rfl
  · rw [hall best hmem, hformat, ← Piece.unparse_parse o.kParamFormat, hmatch]
    rfl

/-! ### An instruction -/

theorem instruction_of_choose {token q : CString} {a : Assembling} {best : Instruction}
    {v : BitVec 32} (hbest : choose a.p (instructionsByMnemonic a.currentMode token) = some best)
    (hmatch : a.p.tryMatch 0 best.format = some (v, q)) :
    instruction token a =
      (let a' := { a with
        p := q, bytes := a.bytes ++ best.opcode :: (emit (best.bytes - 1) v).1 }
      if 0 < (emit (best.bytes - 1) v).2 then
        .returns false { a' with error := "Constant too large" }
      else .continues a') := by
  unfold instruction
  cases hl : instructionsByMnemonic a.currentMode token with
  | nil =>
    rw [hl] at hbest
    cases hbest
  | cons e es =>
    rw [hl] at hbest
    dsimp only
    rw [hbest]
    dsimp only
    rw [hmatch, Option.getD_some, List.append_assoc]
    rfl

/-- When an iteration over an instruction goes on, and with what. -/
theorem instruction_eq_continues {token : CString} {a a' : Assembling} :
    instruction token a = .continues a' ↔ ∃ best v q,
      choose a.p (instructionsByMnemonic a.currentMode token) = some best ∧
      a.p.tryMatch 0 best.format = some (v, q) ∧ (emit (best.bytes - 1) v).2 = 0 ∧
      a' = { a with
        p := q, bytes := a.bytes ++ best.opcode :: (emit (best.bytes - 1) v).1 } := by
  have hpos (v : BitVec 32) : ¬0 < v ↔ v = 0 := by
    rw [BitVec.not_lt]
    exact BitVec.le_zero_iff
  constructor
  · intro h
    cases hbest : choose a.p (instructionsByMnemonic a.currentMode token) with
    | none =>
      unfold instruction at h
      cases hl : instructionsByMnemonic a.currentMode token with
      | nil =>
        rw [hl] at h
        cases h
      | cons e es =>
        rw [hl] at h hbest
        dsimp only at h
        rw [hbest] at h
        cases h
    | some best =>
      obtain ⟨⟨v, q⟩, hmatch⟩ := Option.isSome_iff_exists.mp (mem_of_choose hbest).2
      rw [instruction_of_choose hbest hmatch] at h
      dsimp only at h
      split at h
      · cases h
      · next hz =>
        cases h
        exact ⟨best, v, q, rfl, hmatch, (hpos _).mp hz, rfl⟩
  · rintro ⟨best, v, q, hbest, hmatch, hz, rfl⟩
    rw [instruction_of_choose hbest hmatch]
    exact if_neg ((hpos _).mpr hz)

/-! ### An iteration in a text -/

theorem peek_skipWhitespace_of_nul {p : CString} (h : p.peek = Char.ofNat 0) :
    p.skipWhitespace = p := by
  cases p with
  | nil => rfl
  | cons c p =>
    obtain rfl : c = Char.ofNat 0 := h
    exact skipWhitespace_cons rfl p

theorem iterate_of_isToken {a : Assembling} (h : isToken a.p.skipWhitespace.peek) :
    a.iterate = token { a with p := a.p.skipWhitespace } := by
  have hnul : a.p.peek ≠ Char.ofNat 0 := by
    intro hpeek
    rw [peek_skipWhitespace_of_nul hpeek, hpeek] at h
    exact absurd h (by decide)
  have hsemicolon : a.p.skipWhitespace.peek ≠ ';' := by
    intro hpeek
    rw [hpeek] at h
    exact absurd h (by decide)
  rw [iterate, if_neg hnul]
  exact if_neg hsemicolon

/-- The first character of a token. -/
theorem peek_getToken {p : CString} (h : isToken p.peek) :
    CString.peek p.getToken.1 = p.peek.toUpper := by
  cases p with
  | nil => exact absurd h (by decide)
  | cons c p =>
    have hc : isToken c := h
    rw [getToken, List.takeWhile_cons_of_pos hc]
    rfl

/-- What is known of a letter of either case. -/
theorem letter_of_isAlpha {c : Char} (h : c.isAlpha) :
    isToken c ∧ c.toUpper.isAlpha ∧ c.toUpper ≠ '.' ∧ c.toUpper ≠ ',' := by
  have hb : (65 ≤ c.toNat ∧ c.toNat ≤ 90) ∨ (97 ≤ c.toNat ∧ c.toNat ≤ 122) := by
    have hcase : (c.isUpper || c.isLower) = true := h
    rcases (Bool.or_eq_true _ _).mp hcase with h | h
    · have hupper : c.isUpper = decide (65 ≤ c.toNat ∧ c.toNat ≤ 90) := rfl
      rw [hupper] at h
      exact .inl (of_decide_eq_true h)
    · have hlower := (Bool.and_eq_true _ _).mp h
      exact .inr ⟨of_decide_eq_true hlower.1, of_decide_eq_true hlower.2⟩
  have hof : c = Char.ofNat c.toNat := (Char.ofNat_toNat c).symm
  generalize c.toNat = k at hb hof
  subst hof
  have hall : ∀ k < 123, (65 ≤ k ∧ k ≤ 90) ∨ (97 ≤ k ∧ k ≤ 122) →
      isToken (Char.ofNat k) ∧ (Char.ofNat k).toUpper.isAlpha ∧ (Char.ofNat k).toUpper ≠ '.' ∧
        (Char.ofNat k).toUpper ≠ ',' := by decide
  exact hall k (by omega) hb

theorem iterate_of_isAlpha {a : Assembling} (h : a.p.skipWhitespace.peek.isAlpha) :
    a.iterate = instruction a.p.skipWhitespace.getToken.1
      { a with p := a.p.skipWhitespace.getToken.2 } := by
  obtain ⟨htoken, hupper, hperiod, -⟩ := letter_of_isAlpha h
  rw [iterate_of_isToken htoken, token]
  dsimp only
  rw [peek_getToken htoken, if_neg hperiod, if_pos hupper]

theorem iterate_of_period {a : Assembling} (h : a.p.skipWhitespace.peek = '.') :
    a.iterate = directive a.p.skipWhitespace.getToken.1
      { a with p := a.p.skipWhitespace.getToken.2 } := by
  have htoken : isToken a.p.skipWhitespace.peek := by
    rw [h]
    rfl
  rw [iterate_of_isToken htoken, token]
  dsimp only
  rw [peek_getToken htoken, h, if_pos (by decide)]

/-- A line that is one instruction of a mode: alone it is assembled to the bytes `code`, and
nothing else is on it. -/
structure InstructionLine (mode : Mode) (l : CString) (code : List Byte) : Prop where
  newline : '\n' ∉ l
  nul : Char.ofNat 0 ∉ l
  letter : l.skipWhitespace.peek.isAlpha
  alone : ∃ a', iterate ⟨false, false, mode, l ++ ['\n'], "", []⟩ = .continues a' ∧
    a'.bytes = code ∧ Blank a'.p

theorem skipWhitespace_of_isToken {l : CString} (h : isToken l.skipWhitespace.peek)
    (rest : CString) :
    skipWhitespace (l ++ '\n' :: rest) = l.skipWhitespace ++ '\n' :: rest := by
  rcases skipWhitespace_before l with ⟨hnil, -⟩ | ⟨c, p', -, -, hcons, hskip⟩
  · rw [hnil] at h
    exact absurd h (by decide)
  · rw [hskip, hcons]
    rfl

theorem peek_of_isToken {l : CString} (h : isToken l.skipWhitespace.peek) (rest : CString) :
    (skipWhitespace (l ++ '\n' :: rest)).peek = l.skipWhitespace.peek := by
  rw [skipWhitespace_of_isToken h]
  cases hcons : l.skipWhitespace with
  | nil =>
    rw [hcons] at h
    exact absurd h (by decide)
  | cons c p => rfl

/-- **An instruction is assembled in a text as it is alone.** -/
theorem iterate_before {mode : Mode} {l : CString} {code : List Byte}
    (h : InstructionLine mode l code) {a : Assembling} (hmode : a.currentMode = mode)
    {rest : CString} (hp : a.p = l ++ '\n' :: rest) (hrest : Follows rest) :
    ∃ q, a.iterate = .continues { a with p := q ++ rest, bytes := a.bytes ++ code } ∧ Blank q ∧
      q <:+ l ++ ['\n'] := by
  obtain ⟨a', halone, rfl, hblank⟩ := h.alone
  have htoken := (letter_of_isAlpha h.letter).1
  have hskip := skipWhitespace_of_isToken htoken
  have hletter (rest : CString) : (skipWhitespace (l ++ '\n' :: rest)).peek.isAlpha := by
    rw [peek_of_isToken htoken]
    exact h.letter
  rw [iterate_of_isAlpha (hletter []), hskip [], getToken_before,
    instruction_eq_continues] at halone
  obtain ⟨best, v, q, hbest, hmatch, hz, rfl⟩ := halone
  dsimp only at hbest hmatch hblank
  obtain ⟨hbest', hmatch'⟩ := choose_before hbest hmatch hblank hrest
  refine ⟨q, ?_, hblank, ?_⟩
  · rw [iterate_of_isAlpha (by rw [hp]; exact hletter rest), hp, hskip rest, getToken_before,
      instruction_eq_continues]
    refine ⟨best, v, q ++ rest, ?_, hmatch', hz, rfl⟩
    rw [hmode]
    exact hbest'
  · have hoperand : l.skipWhitespace.getToken.2 <:+ l :=
      (List.dropWhile_suffix _).trans (skipWhitespace_suffix l)
    obtain ⟨l', hl'⟩ := hoperand
    refine (tryMatch_suffix hmatch).trans ⟨l', ?_⟩
    rw [← List.append_assoc, hl']

/-! ### What comes of a text -/

/-- `Assemble` returns `r`. -/
def Yields (a : Assembling) (r : Bool × Assembling) : Prop := ∃ n, assemble n a = some r

variable {a a' : Assembling} {r : Bool × Assembling}

theorem returns_iff_yields : a.Returns ↔ ∃ r, a.Yields r := exists_comm

theorem yields_of_continues (h : a.iterate = .continues a') : a.Yields r ↔ a'.Yields r := by
  constructor
  · rintro ⟨n, hn⟩
    cases n with
    | zero => cases hn
    | succ n =>
      rw [assemble, h] at hn
      exact ⟨n, hn⟩
  · rintro ⟨n, hn⟩
    refine ⟨n + 1, ?_⟩
    rw [assemble, h]
    exact hn

theorem yields_of_returns {ok : Bool} (h : a.iterate = .returns ok a') :
    a.Yields r ↔ r = (ok, a') := by
  constructor
  · rintro ⟨n, hn⟩
    cases n with
    | zero => cases hn
    | succ n =>
      rw [assemble, h] at hn
      exact (Option.some.inj hn).symm
  · rintro rfl
    refine ⟨1, ?_⟩
    rw [assemble, h]

theorem yields_congr (h : a.iterate = a'.iterate) : a.Yields r ↔ a'.Yields r := by
  have hn (n : ℕ) : assemble (n + 1) a = assemble (n + 1) a' := by rw [assemble, assemble, h]
  constructor
  · rintro ⟨n, ha⟩
    cases n with
    | zero => cases ha
    | succ n => exact ⟨n + 1, (hn n).symm.trans ha⟩
  · rintro ⟨n, ha⟩
    cases n with
    | zero => cases ha
    | succ n => exact ⟨n + 1, (hn n).trans ha⟩

/-- Whitespace means nothing. -/
theorem yields_skipWhitespace : a.Yields r ↔ Yields { a with p := a.p.skipWhitespace } r := by
  obtain ⟨longA, longXy, mode, p, error, bytes⟩ := a
  by_cases hnul : p.peek = Char.ofNat 0
  · rw [peek_skipWhitespace_of_nul hnul]
  · by_cases hend : p.skipWhitespace.peek = Char.ofNat 0
    · refine yields_of_continues ?_
      rw [iterate, if_neg hnul]
      dsimp only
      cases hcons : p.skipWhitespace with
      | nil => rfl
      | cons c q =>
        rw [hcons] at hend
        obtain rfl : c = Char.ofNat 0 := hend
        rfl
    · refine yields_congr ?_
      have hidem : p.skipWhitespace.skipWhitespace = p.skipWhitespace := by
        rcases skipWhitespace_before p with ⟨hnil, -⟩ | ⟨c, p', hc, -, hcons, -⟩
        · rw [hnil]
          rfl
        · rw [hcons, skipWhitespace_cons hc]
      rw [iterate, iterate, if_neg hnul, if_neg hend]
      dsimp only
      rw [hidem]

theorem yields_comment (h : a.p.peek = ';') :
    a.Yields r ↔ Yields { a with p := a.p.skipToEndOfLine } r := by
  have hnul : a.p.peek ≠ Char.ofNat 0 := by
    rw [h]
    decide
  have hskip : a.p.skipWhitespace = a.p := by
    cases hp : a.p with
    | nil => rfl
    | cons c p =>
      rw [hp] at h
      obtain rfl : c = ';' := h
      exact skipWhitespace_cons rfl p
  refine yields_of_continues ?_
  rw [iterate, if_neg hnul, hskip]
  exact if_pos h

/-- The rest of a line, with a comment perhaps. -/
theorem yields_blank {l q : CString} (rest : CString) (hnewline : '\n' ∉ l)
    (hnul : Char.ofNat 0 ∉ l) (hq : q <:+ l ++ ['\n']) (hblank : Blank q) :
    Yields { a with p := q ++ rest } r ↔ Yields { a with p := rest } r := by
  have hrest := yields_skipWhitespace (a := { a with p := rest }) (r := r)
  rw [hrest, yields_skipWhitespace]
  dsimp only
  rw [skipWhitespace, List.dropWhile_append]
  rcases hblank with hnil | hcomment
  · rw [skipWhitespace] at hnil
    rw [hnil]
    rfl
  · cases hcons : q.skipWhitespace with
    | nil =>
      rw [hcons] at hcomment
      exact absurd hcomment (by decide)
    | cons c q' =>
      rw [hcons] at hcomment
      obtain rfl : c = ';' := hcomment
      rw [skipWhitespace] at hcons
      have hsuffix : ';' :: q' <:+ l ++ ['\n'] := (hcons ▸ List.dropWhile_suffix _).trans hq
      obtain hnil | ⟨t, ht, htl⟩ := List.suffix_concat_iff.mp hsuffix
      · cases hnil
      · have hline : ∀ c ∈ t, (c ≠ Char.ofNat 0 && c ≠ '\n') = true := by
          intro c hc
          have hmem := htl.subset hc
          have hne : c ≠ Char.ofNat 0 := fun h => hnul (h ▸ hmem)
          have hne' : c ≠ '\n' := fun h => hnewline (h ▸ hmem)
          simp [hne, hne']
        have htext : t ++ ['\n'] ++ rest = t ++ '\n' :: rest := by simp
        have hskip : skipToEndOfLine (t ++ '\n' :: rest) = '\n' :: rest := by
          rw [skipToEndOfLine, List.dropWhile_append_of_pos hline]
          rfl
        have hpeek : CString.peek (t ++ '\n' :: rest) = ';' := by
          rw [← htext, ← ht]
          rfl
        rw [hcons, if_neg (by simp), ht, htext, yields_comment hpeek]
        dsimp only
        rw [hskip, yields_skipWhitespace]
        rfl

/-- An instruction at the start of a text. -/
theorem yields_instruction {mode : Mode} {l : CString} {code : List Byte}
    (h : InstructionLine mode l code) (hmode : a.currentMode = mode) {rest : CString}
    (hp : a.p = l ++ '\n' :: rest) (hrest : Follows rest) :
    a.Yields r ↔ Yields { a with p := rest, bytes := a.bytes ++ code } r := by
  obtain ⟨q, hiterate, hblank, hq⟩ := iterate_before h hmode hp hrest
  rw [yields_of_continues hiterate]
  exact yields_blank (a := { a with bytes := a.bytes ++ code }) rest h.newline h.nul hq hblank

/-! ### The lines of the instructions -/

theorem fill_ne {ps : List Piece} (hps : Piece.wellFormed ps) (ns : List Numeral) :
    ∀ c ∈ Piece.fill ps ns, c ≠ '\n' ∧ c ≠ Char.ofNat 0 := by
  have hdigit {hex : Bool} {c : Char} (h : (digit hex c).isSome) :
      c ≠ '\n' ∧ c ≠ Char.ofNat 0 := by
    constructor <;>
    · rintro rfl
      cases hex <;> cases h
  have htext (n : Numeral) : ∀ c ∈ n.text, c ≠ '\n' ∧ c ≠ Char.ofNat 0 := by
    intro c hc
    rcases List.mem_append.mp hc with hc | hc
    · have hall : n.base.start.all (fun c => c ≠ '\n' ∧ c ≠ Char.ofNat 0) = true := by
        cases n.base <;> rfl
      exact of_decide_eq_true (List.all_eq_true.mp hall c hc)
    · exact hdigit (n.isDigit c hc)
  induction ps generalizing ns with
  | nil => exact fun c hc => nomatch hc
  | cons x ps ih =>
    intro c hc
    cases x with
    | lit d =>
      rw [Piece.wellFormed, Bool.and_eq_true] at hps
      rw [Piece.fill] at hc
      rcases List.mem_cons.mp hc with rfl | hc
      · have hplain := plain_iff hps.1
        refine ⟨?_, hplain.ne_nul⟩
        rintro rfl
        cases hplain.isspace
      · exact ih hps.2 ns c hc
    | num =>
      have hps' := wellFormed_of_num hps
      cases ns with
      | nil => exact ih hps' [] c hc
      | cons n ns =>
        rcases List.mem_append.mp hc with hc | hc
        · exact htext n c hc
        · exact ih hps' ns c hc

/-- The line made from the strings of an instruction is a line of one instruction. -/
theorem instructionLine_line {mode : Mode} {o o' : Op} {ns : List Numeral}
    (ho : o ∈ Op.ofMode mode) (h : o.Takes ns)
    (hfind : (Op.ofMode mode).find? o.answers = some o') :
    ∃ opcode, (execOps mode).at opcode = some o' ∧
      InstructionLine mode
        (o.kMnemonic ++ ' ' :: Piece.fill (Piece.parse o.kParamFormat) ns)
        (opcode :: leBytes (o.shortest - 1) (lastNumber ns 0).toNat) := by
  have hupper := (Op.textOk ho).isUpper
  have hne (c : Char)
      (hc : c ∈ o.kMnemonic ++ ' ' :: Piece.fill (Piece.parse o.kParamFormat) ns) :
      c ≠ '\n' ∧ c ≠ Char.ofNat 0 := by
    rcases List.mem_append.mp hc with hc | hc
    · have hletter := letter_of_isUpper (hupper c hc)
      refine ⟨?_, hletter.ne_nul⟩
      rintro rfl
      cases hletter.isspace
    · rcases List.mem_cons.mp hc with rfl | hc
      · decide
      · exact fill_ne o.wellFormed_kParamFormat ns c hc
  have hline : o.line ns =
      o.kMnemonic ++ ' ' :: Piece.fill (Piece.parse o.kParamFormat) ns ++ ['\n'] := by
    rw [Op.line, List.append_assoc]
    rfl
  obtain ⟨opcode, hat, hi⟩ := instruction_tail
    (a := ⟨false, false, mode, o.tail ns, "", []⟩) ho h hfind rfl rfl
  have hblank : Blank o.rest := by
    rw [Op.rest]
    split <;> exact .inl rfl
  have halone := iterate_line (a := ⟨false, false, mode, o.line ns, "", []⟩) ho rfl
  rw [hi, hline] at halone
  refine ⟨opcode, hat, fun hc => (hne _ hc).1 rfl, fun hc => (hne _ hc).2 rfl, ?_, _, halone, rfl,
    hblank⟩
  · obtain ⟨c, m, hm⟩ := List.exists_cons_of_ne_nil (Op.textOk ho).kMnemonic_ne_nil
    have hc : Letter c := letter_of_isUpper (hupper c (by rw [hm]; exact List.mem_cons_self))
    rw [hm, List.cons_append, skipWhitespace_cons hc.isspace]
    exact hc.isAlpha

end Assembling

end RetroCpu
