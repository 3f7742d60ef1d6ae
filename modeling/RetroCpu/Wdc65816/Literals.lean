import RetroCpu.Wdc65816.SourceText

/-!
# Literals as operands

A line with one decimal or hexadecimal literal for an operand, of any length.

* `LiteralLine`: the line, with its blanks and the format that the operand is written in.
* `Exact`: the line is refused, or assembled to the shortest instruction with the literal's value.
* `LiteralHeld`: the literals for which that is so.
* `exact_iff`: **the operand of a line is exact if and only if the literal is held.**
-/

namespace RetroCpu

/-- A line of one instruction with one literal.  `format` is how the operand is written.  Blanks may
be left out where the operand cannot be taken for a part of the mnemonic. -/
structure LiteralLine where
  pad : CString
  name : CString
  blanks : CString
  format : CString
  literal : Numeral
  trail : CString
  isspace_pad : ∀ c ∈ pad, CString.isspace c
  isToken_name : ∀ c ∈ name, CString.isToken c
  isAlpha_name : (CString.peek name).isAlpha
  isToken_operand : blanks = [] →
    CString.isToken (CString.peek (Piece.fill (Piece.parse format) [literal])) = false
  isspace_blanks : ∀ c ∈ blanks, CString.isspace c
  format_mem : format ∈ paramFormats
  count_format : Piece.count (Piece.parse format) = 1
  isspace_trail : ∀ c ∈ trail, CString.isspace c

namespace LiteralLine

def token (l : LiteralLine) : CString := l.name.map Char.toUpper

def rest (l : LiteralLine) : CString := l.trail ++ ['\n']

def operand (l : LiteralLine) : CString :=
  Piece.fill (Piece.parse l.format) [l.literal] ++ l.rest

def tail (l : LiteralLine) : CString := l.blanks ++ l.operand

def text (l : LiteralLine) : CString := l.pad ++ (l.name ++ l.tail)

/-- The value that `SkipNumber` gives. -/
def number (l : LiteralLine) : BitVec 32 := BitVec.ofNat 32 l.literal.value

end LiteralLine

namespace Assembling

/-- The bytes are those of an instruction with the operand `n`, and no instruction whose format
matches holds `n` in fewer. -/
def EncodesLiteral (group : List Instruction) (p : CString) (n : ℕ) (code : List Byte) : Prop :=
  ∃ e ∈ group, (p.tryMatch 0 e.format).isSome ∧ ∃ operands, code = e.opcode :: operands ∧
    operands.length = e.bytes - 1 ∧ leNat operands = n ∧
    ∀ e' ∈ group, (p.tryMatch 0 e'.format).isSome → n < 256 ^ (e'.bytes - 1) → e.bytes ≤ e'.bytes

/-- `Assemble` refuses the line, or gives bytes for it that hold the literal. -/
def Exact (a : Assembling) (l : LiteralLine) : Prop :=
  (∃ a', Yields { a with p := l.text } (false, a')) ∨
    ∃ a' code, Yields { a with p := l.text } (true, a') ∧ a'.bytes = a.bytes ++ code ∧
      EncodesLiteral (instructionsByMnemonic a.currentMode l.token) l.tail l.literal.value code

/-- The literals that are held.  A mnemonic without operands is refused where no blank follows, and
holds the zero alone where one does, if `GetToken` takes it; any other holds what 32 bits hold,
and the numbers that are refused as what 32 bits leave of them. -/
def LiteralHeld (group : List Instruction) (l : LiteralLine) : Prop :=
  group = [] ∨
    (∃ e ∈ group, e.format = []) ∧ (l.blanks = [] ∨
      l.format = "%X".toList ∧ l.literal.base ≠ .dollar ∧ l.literal.value = 0) ∨
    (∀ e ∈ group, e.format ≠ []) ∧ (l.literal.value < 2 ^ 32 ∨
      ∀ e ∈ group, e.format = l.format → 256 ^ (e.bytes - 1) ≤ l.literal.value % 2 ^ 32)

open CString

variable {l : LiteralLine} {a : Assembling} {mode : Mode} {r : Bool × Assembling}

/-! ### The line -/

theorem trailing_rest (l : LiteralLine) : l.rest.Trailing := by
  have hall : ∀ c ∈ l.rest, isspace c := by
    intro c hc
    rcases List.mem_append.mp hc with hc | hc
    · exact l.isspace_trail c hc
    · rw [List.mem_singleton.mp hc]
      rfl
  constructor
  · rw [LiteralLine.rest] at hall ⊢
    cases htrail : l.trail with
    | nil => rfl
    | cons c trail => exact l.isspace_trail c (by rw [htrail]; exact List.mem_cons_self)
  · rw [← List.append_nil l.rest]
    exact skipWhitespace_append hall []

theorem getToken_append {name q : CString} (hname : ∀ c ∈ name, isToken c)
    (hq : isToken q.peek = false) : getToken (name ++ q) = (name.map Char.toUpper, q) := by
  rw [getToken, List.takeWhile_append_of_pos hname, List.dropWhile_append_of_pos hname]
  cases q with
  | nil => rw [List.takeWhile_nil, List.append_nil, List.dropWhile_nil]
  | cons c q =>
    have hc : ¬isToken c = true := Bool.not_eq_true _ ▸ hq
    rw [List.takeWhile_cons_of_neg hc, List.append_nil, List.dropWhile_cons_of_neg hc]

theorem isspace_of_isToken {c : Char} (h : isToken c) : isspace c = false := by
  cases hspace : isspace c with
  | false => rfl
  | true =>
    rw [(stops_of_isspace hspace).2] at h
    cases h

theorem isToken_tail (l : LiteralLine) : isToken l.tail.peek = false := by
  rw [LiteralLine.tail]
  cases hb : l.blanks with
  | nil =>
    have hoperand := l.isToken_operand hb
    rw [List.nil_append, LiteralLine.operand]
    cases hfill : Piece.fill (Piece.parse l.format) [l.literal] with
    | nil => exact (stops_of_isspace (trailing_rest l).isspace).2
    | cons c p =>
      rw [hfill] at hoperand
      exact hoperand
  | cons c blanks =>
    exact (stops_of_isspace (l.isspace_blanks c (by rw [hb]; exact List.mem_cons_self))).2

theorem iterate_literalLine (l : LiteralLine) (a : Assembling) :
    iterate { a with p := l.text } = instruction l.token { a with p := l.tail } := by
  obtain ⟨c, name, hname⟩ : ∃ c name, l.name = c :: name := by
    refine List.exists_cons_of_ne_nil fun hnil => ?_
    have halpha := l.isAlpha_name
    rw [hnil] at halpha
    exact absurd halpha (by decide)
  have hc := l.isToken_name c (by rw [hname]; exact List.mem_cons_self)
  have hskip : l.text.skipWhitespace = l.name ++ l.tail := by
    rw [LiteralLine.text, skipWhitespace_append l.isspace_pad, hname]
    exact skipWhitespace_cons (isspace_of_isToken hc) _
  have hpeek : l.text.skipWhitespace.peek.isAlpha := by
    have halpha := l.isAlpha_name
    rw [hname] at halpha
    rw [hskip, hname]
    exact halpha
  have htoken : getToken (l.name ++ l.tail) = (l.token, l.tail) :=
    getToken_append l.isToken_name (isToken_tail l)
  rw [iterate_of_isAlpha (a := { a with p := l.text }) hpeek, hskip, htoken]

/-! ### The formats that match -/

theorem wellFormed_format (l : LiteralLine) : Piece.wellFormed (Piece.parse l.format) := by
  have hall : ∀ f ∈ paramFormats, Piece.wellFormed (Piece.parse f) := by decide
  exact hall l.format l.format_mem

/-- The formats with one operand. -/
theorem format_cases (l : LiteralLine) : l.format = "%X".toList ∨
    (∃ c ps, Piece.parse l.format = .lit c :: ps ∧ (c = '#' ∨ c = '(' ∨ c = '[')) ∨
    ∃ ps, Piece.parse l.format = .num :: .lit ',' :: ps := by
  have hall : ∀ f ∈ paramFormats, Piece.count (Piece.parse f) = 1 → f = "%X".toList ∨
      ((Piece.parse f).head? = some (.lit '#') ∨ (Piece.parse f).head? = some (.lit '(') ∨
        (Piece.parse f).head? = some (.lit '[')) ∨
      (Piece.parse f).head? = some .num ∧ (Piece.parse f).tail.head? = some (.lit ',') := by decide
  rcases hall l.format l.format_mem l.count_format with h | h | ⟨hnum, hcomma⟩
  · exact .inl h
  · right
    left
    rcases h with h | h | h
    · obtain ⟨ps, hps⟩ := List.head?_eq_some_iff.mp h
      exact ⟨_, ps, hps, .inl rfl⟩
    · obtain ⟨ps, hps⟩ := List.head?_eq_some_iff.mp h
      exact ⟨_, ps, hps, .inr (.inl rfl)⟩
    · obtain ⟨ps, hps⟩ := List.head?_eq_some_iff.mp h
      exact ⟨_, ps, hps, .inr (.inr rfl)⟩
  · obtain ⟨ps, hps⟩ := List.head?_eq_some_iff.mp hnum
    rw [hps, List.tail_cons] at hcomma
    obtain ⟨ps', rfl⟩ := List.head?_eq_some_iff.mp hcomma
    exact .inr (.inr ⟨ps', hps⟩)

theorem isspace_text (n : Numeral) (q : CString) : isspace (peek (n.text ++ q)) = false := by
  obtain ⟨c, p, htext, hc⟩ := n.text_head
  rw [htext]
  rcases hc with rfl | hc
  · rfl
  · have hb := digit_bounds hc
    have hall : ∀ k < 58, 48 ≤ k → isspace (Char.ofNat k) = false := by decide
    rw [List.cons_append, peek_cons, ← Char.ofNat_toNat c]
    exact hall c.toNat (by omega) hb.1

theorem isspace_operand (l : LiteralLine) : isspace l.operand.peek = false := by
  rw [LiteralLine.operand]
  rcases format_cases l with hformat | ⟨c, ps, hparse, hc⟩ | ⟨ps, hparse⟩
  · have hplain : Piece.parse "%X".toList = [.num] := rfl
    rw [hformat, hplain, Piece.fill, List.append_assoc]
    exact isspace_text l.literal _
  · rw [hparse]
    rcases hc with rfl | rfl | rfl <;> rfl
  · rw [hparse, Piece.fill, List.append_assoc]
    exact isspace_text l.literal _

/-- The format of an instruction without operands asks for a blank. -/
theorem tryMatch_implied (l : LiteralLine) :
    l.tail.tryMatch 0 [] = if l.blanks = [] then none else some (0, l.tail) := by
  rw [LiteralLine.tail, tryMatch]
  cases hb : l.blanks with
  | nil =>
    rw [if_pos rfl, List.nil_append, if_neg]
    rw [isspace_operand l]
    exact Bool.false_ne_true
  | cons c blanks =>
    rw [if_neg (List.cons_ne_nil c blanks)]
    exact if_pos (l.isspace_blanks c (by rw [hb]; exact List.mem_cons_self))

/-- A format with an operand matches the line only if the operand is written in it. -/
theorem tryMatch_operand {e : Instruction} (he : e ∈ instructionsByMnemonic mode l.token)
    (hne : e.format ≠ []) :
    l.tail.tryMatch 0 e.format = if e.format = l.format then some (l.number, l.rest) else none := by
  obtain ⟨o, -, -, -, hformat⟩ := Op.mem_group he
  have hwf := o.wellFormed_kParamFormat
  rw [← hformat] at hwf
  have hparse : Piece.parse e.format = Piece.parse l.format ↔ e.format = l.format := by
    constructor
    · intro heq
      rw [← Piece.unparse_parse e.format, heq, Piece.unparse_parse]
    · exact congrArg _
  have hcount : [l.literal].length = Piece.count (Piece.parse l.format) := l.count_format.symm
  have hfill := tryMatch_fill hwf (wellFormed_format l) hcount (trailing_rest l) 0
  rw [Piece.unparse_parse] at hfill
  rw [LiteralLine.tail, tryMatch_blanks hne hwf l.isspace_blanks]
  refine hfill.trans ?_
  simp only [hparse]
  rfl

theorem bytes_of_mem {e : Instruction} (he : e ∈ instructionsByMnemonic mode l.token) :
    1 ≤ e.bytes ∧ e.bytes ≤ 4 ∧ (e.format = l.format → 2 ≤ e.bytes) := by
  obtain ⟨o, ho, -, hbytes, hformat⟩ := Op.mem_group he
  have htext := Op.textOk ho
  rw [hbytes, hformat]
  refine ⟨htext.one_le_kBytes, htext.kBytes_le_four, fun hf => Op.two_le_kBytes ?_⟩
  rw [Op.operands, hf, l.count_format]

/-- The instructions of a mnemonic all have an operand or all have none. -/
theorem format_eq_nil {token : CString} {e e' : Instruction}
    (he : e ∈ instructionsByMnemonic mode token) (he' : e' ∈ instructionsByMnemonic mode token)
    (h : e.format = []) : e'.format = [] := by
  obtain ⟨o, ho, hm, -, hf⟩ := Op.mem_group he
  obtain ⟨o', ho', hm', -, hf'⟩ := Op.mem_group he'
  have himplied := Op.implied_eq ho ho' (hm'.trans hm.symm)
  rw [hf', ← Op.implied_iff, himplied, Op.implied_iff, ← hf, h]

/-- Whether an instruction holds the number. -/
theorem fits_iff {e : Instruction} (he : e ∈ instructionsByMnemonic mode l.token)
    (hne : e.format ≠ []) (hf : e.format = l.format) :
    Fits l.tail e ↔ l.number.toNat < 256 ^ (e.bytes - 1) := by
  obtain ⟨hone, hfour, htwo⟩ := bytes_of_mem he
  have htwo' := htwo hf
  rw [Fits, tryMatch_operand he hne, if_pos hf, Option.map_some, Option.getD_some,
    Op.tooLarge_iff hone hfour, not_and, Nat.not_le]
  exact ⟨fun h => h (by omega), fun h _ => h⟩

/-! ### The end of the line -/

theorem yields_end {p : CString} (h : p.skipWhitespace = []) :
    Yields { a with p := p } r ↔ r = (true, { a with p := [] }) := by
  rw [yields_skipWhitespace]
  dsimp only
  rw [h]
  exact yields_of_returns rfl

theorem instruction_of_choose_none (token : CString)
    (h : choose a.p (instructionsByMnemonic a.currentMode token) = none) :
    ∃ a', instruction token a = .returns false a' := by
  unfold instruction
  cases hl : instructionsByMnemonic a.currentMode token with
  | nil => exact ⟨_, rfl⟩
  | cons e es =>
    rw [hl] at h
    dsimp only
    rw [h]
    exact ⟨_, rfl⟩

/-- An instruction that is chosen for the line: its bytes, and where the assembler goes on. -/
theorem yields_chosen {b : Instruction} {v : BitVec 32} {q : CString}
    (hchoose : choose l.tail (instructionsByMnemonic a.currentMode l.token) = some b)
    (hmatch : l.tail.tryMatch 0 b.format = some (v, q)) (hv : v.toNat < 256 ^ (b.bytes - 1)) :
    Yields { a with p := l.text } r ↔ Yields { a with
      p := q, bytes := a.bytes ++ b.opcode :: leBytes (b.bytes - 1) v.toNat } r := by
  have hzero : v >>> (8 * (b.bytes - 1)) = 0 := by
    apply BitVec.eq_of_toNat_eq
    rw [BitVec.toNat_ushiftRight, Nat.shiftRight_eq_div_pow, Nat.pow_mul]
    exact Nat.div_eq_of_lt hv
  refine yields_of_continues ?_
  rw [iterate_literalLine, instruction_eq_continues]
  exact ⟨b, v, q, hchoose, hmatch, by rw [emit_eq, hzero], by rw [emit_eq]⟩

/-! ### Mnemonics with operands -/

theorem exact_iff_of_operands
    (hne : ∀ e ∈ instructionsByMnemonic a.currentMode l.token, e.format ≠ []) :
    Exact a l ↔ l.literal.value < 2 ^ 32 ∨
      ∀ e ∈ instructionsByMnemonic a.currentMode l.token, e.format = l.format →
        256 ^ (e.bytes - 1) ≤ l.literal.value % 2 ^ 32 := by
  have hnumber : l.number.toNat = l.literal.value % 2 ^ 32 := BitVec.toNat_ofNat ..
  have hmatches {e : Instruction} (he : e ∈ instructionsByMnemonic a.currentMode l.token) :
      (l.tail.tryMatch 0 e.format).isSome ↔ e.format = l.format := by
    rw [tryMatch_operand he (hne e he)]
    split
    · next h => simp [h]
    · next h => simp [h]
  rcases choose_spec l.tail (instructionsByMnemonic a.currentMode l.token) with
    ⟨b, hb, hchoose, hmatch, hfits, hleast⟩ | ⟨hchoose, hall⟩
  · have hformat := (hmatches hb).mp hmatch
    have hlt := (fits_iff hb (hne b hb) hformat).mp hfits
    have hread := tryMatch_operand hb (hne b hb)
    rw [if_pos hformat] at hread
    have hyields (r : Bool × Assembling) := (yields_chosen (r := r) hchoose hread hlt).trans
      (yields_end (a := { a with
        bytes := a.bytes ++ b.opcode :: leBytes (b.bytes - 1) l.number.toNat })
        (trailing_rest l).skip)
    have hvalue : leNat (leBytes (b.bytes - 1) l.number.toNat) = l.literal.value % 2 ^ 32 := by
      rw [leNat_leBytes hlt, hnumber]
    constructor
    · rintro (⟨a', h⟩ | ⟨a', code, h, hbytes, e, -, -, operands, rfl, -, hoperands, -⟩)
      · cases (hyields _).mp h
      · cases (hyields _).mp h
        obtain ⟨-, rfl⟩ := List.cons.inj (List.append_cancel_left hbytes)
        rw [hvalue] at hoperands
        exact .inl (hoperands ▸ Nat.mod_lt _ (by decide))
    · rintro (hsmall | hall)
      · have hmod : l.literal.value % 2 ^ 32 = l.literal.value := Nat.mod_eq_of_lt hsmall
        refine .inr ⟨_, _, (hyields _).mpr rfl, rfl, b, hb, hmatch, _, rfl, length_leBytes _ _,
          hvalue.trans hmod, fun e he hm hholds => hleast e he hm ?_⟩
        rw [fits_iff he (hne e he) ((hmatches he).mp hm), hnumber, hmod]
        exact hholds
      · rw [hnumber] at hlt
        exact absurd (hall b hb hformat) (Nat.not_le.mpr hlt)
  · obtain ⟨a', hreturns⟩ :=
      instruction_of_choose_none (a := { a with p := l.tail }) l.token hchoose
    rw [← iterate_literalLine] at hreturns
    refine iff_of_true (.inl ⟨a', (yields_of_returns hreturns).mpr rfl⟩) (.inr fun e he hf => ?_)
    have hfits := hall e he ((hmatches he).mpr hf)
    rwa [fits_iff he (hne e he) hf, Nat.not_lt, hnumber] at hfits

/-! ### Mnemonics without operands -/

/-- At a character that `GetToken` does not take the assembler stays. -/
theorem not_yields {c : Char} (hpeek : a.p.peek = c)
    (hc : c = '#' ∨ c = '(' ∨ c = '[' ∨ c = ',' ∨ c = '$') : ¬a.Yields r := by
  rintro ⟨n, hn⟩
  refine not_returns_of_not_consumable (a := a) ?_ ⟨n, r, hn⟩
  rw [Consumable, hpeek]
  rcases hc with rfl | rfl | rfl | rfl | rfl <;> decide

theorem isToken_of_digit {hex : Bool} {c : Char} (h : (digit hex c).isSome) : isToken c := by
  have hall : ∀ k < 103, (48 ≤ k ∧ k ≤ 57) ∨ (65 ≤ k ∧ k ≤ 70) ∨ (97 ≤ k ∧ k ≤ 102) →
      isToken (Char.ofNat k) := by decide
  have hb : (48 ≤ c.toNat ∧ c.toNat ≤ 57) ∨ (65 ≤ c.toNat ∧ c.toNat ≤ 70) ∨
      (97 ≤ c.toNat ∧ c.toNat ≤ 102) := by
    unfold digit at h
    split at h
    · next h0 => exact .inl h0
    · split at h
      · next h1 => exact .inr (.inl h1.2)
      · split at h
        · next h2 => exact .inr (.inr h2.2)
        · cases h
  rw [← Char.ofNat_toNat c]
  exact hall c.toNat (by omega) hb

/-- A number where a mnemonic may stand is taken for a token and means nothing. -/
theorem yields_numeral {n : Numeral} (hbase : n.base ≠ .dollar) {q : CString}
    (hq : isToken q.peek = false) :
    Yields { a with p := n.text ++ q } r ↔ Yields { a with p := q } r := by
  obtain ⟨c, p, htext, hc⟩ := n.text_head
  have htoken : ∀ c ∈ n.text, isToken c := by
    intro c hc
    rcases List.mem_append.mp hc with hc | hc
    · have hall : ∀ base : Base, base ≠ .dollar → base.start.all isToken = true := by
        rintro (_ | _ | _) <;> decide
      exact List.all_eq_true.mp (hall n.base hbase) c hc
    · exact isToken_of_digit (n.isDigit c hc)
  have hctoken : isToken c := htoken c (by rw [htext]; exact List.mem_cons_self)
  have hdigit : 48 ≤ c.toNat ∧ c.toNat ≤ 57 := by
    rcases hc with rfl | hc
    · exact absurd hctoken (by decide)
    · exact digit_bounds hc
  have hfirst : c.toUpper ≠ '.' ∧ c.toUpper.isAlpha = false := by
    have hall : ∀ k < 58, 48 ≤ k → (Char.ofNat k).toUpper ≠ '.' ∧
        (Char.ofNat k).toUpper.isAlpha = false := by decide
    rw [← Char.ofNat_toNat c]
    exact hall c.toNat (by omega) hdigit.1
  have hskip : skipWhitespace (n.text ++ q) = n.text ++ q := by
    rw [htext]
    exact skipWhitespace_cons (isspace_of_isToken hctoken) _
  have hpeek : peek (n.text ++ q) = c := by rw [htext, List.cons_append, peek_cons]
  have hpeek' : isToken (peek (skipWhitespace (n.text ++ q))) := by rwa [hskip, hpeek]
  have hget := getToken_append htoken hq
  have hname := peek_getToken hpeek'
  rw [hskip, hpeek, hget] at hname
  refine yields_of_continues ?_
  rw [iterate_of_isToken (a := { a with p := n.text ++ q }) hpeek', token]
  dsimp only
  rw [hskip, hget]
  dsimp only
  rw [hname, if_neg hfirst.1, hfirst.2, if_neg Bool.false_ne_true]

theorem peek_dollar {n : Numeral} (hbase : n.base = .dollar) (q : CString) :
    peek (n.text ++ q) = '$' := by
  rw [Numeral.text, hbase]
  rfl

/-- The operand of a mnemonic without operands is left for the next iteration, which takes the
plain number and nothing else. -/
theorem yields_left (l : LiteralLine) : Yields { a with p := l.operand } r ↔
    l.format = "%X".toList ∧ l.literal.base ≠ .dollar ∧ r = (true, { a with p := [] }) := by
  have hplain : Piece.parse "%X".toList = [.num] := rfl
  have hrest := (stops_of_isspace (trailing_rest l).isspace).2
  have hstuck {c : Char} (hpeek : l.operand.peek = c)
      (hc : c = '#' ∨ c = '(' ∨ c = '[' ∨ c = ',' ∨ c = '$')
      (hnot : ¬(l.format = "%X".toList ∧ l.literal.base ≠ .dollar)) :
      Yields { a with p := l.operand } r ↔
        l.format = "%X".toList ∧ l.literal.base ≠ .dollar ∧ r = (true, { a with p := [] }) :=
    iff_of_false (not_yields (a := { a with p := l.operand }) hpeek hc)
      fun h => hnot ⟨h.1, h.2.1⟩
  rcases format_cases l with hformat | ⟨c, ps, hparse, hc⟩ | ⟨ps, hparse⟩
  · have hoperand : l.operand = l.literal.text ++ l.rest := by
      rw [LiteralLine.operand, hformat, hplain, Piece.fill, Piece.fill, List.append_nil]
    by_cases hbase : l.literal.base = .dollar
    · refine hstuck ?_ (.inr (.inr (.inr (.inr rfl)))) fun h => h.2 hbase
      rw [hoperand, peek_dollar hbase]
    · rw [hoperand, yields_numeral hbase hrest, yields_end (trailing_rest l).skip]
      exact ⟨fun h => ⟨hformat, hbase, h⟩, fun h => h.2.2⟩
  · have hpeek : l.operand.peek = c := by
      rw [LiteralLine.operand, hparse]
      rfl
    refine hstuck hpeek ?_ fun h => ?_
    · rcases hc with h | h | h
      · exact .inl h
      · exact .inr (.inl h)
      · exact .inr (.inr (.inl h))
    · rw [h.1, hplain] at hparse
      cases hparse
  · have hoperand : l.operand = l.literal.text ++ ',' :: (Piece.fill ps [] ++ l.rest) := by
      rw [LiteralLine.operand, hparse, Piece.fill, Piece.fill, List.append_assoc]
      rfl
    have hnot : ¬(l.format = "%X".toList ∧ l.literal.base ≠ .dollar) := by
      rintro ⟨h, -⟩
      rw [h, hplain] at hparse
      cases hparse
    by_cases hbase : l.literal.base = .dollar
    · refine hstuck ?_ (.inr (.inr (.inr (.inr rfl)))) hnot
      rw [hoperand, peek_dollar hbase]
    · rw [hoperand, yields_numeral hbase rfl]
      exact iff_of_false (not_yields (c := ',') rfl (.inr (.inr (.inr (.inl rfl)))))
        fun h => hnot ⟨h.1, h.2.1⟩

theorem exact_iff_of_implied (hblanks : l.blanks ≠ [])
    (hex : ∃ e ∈ instructionsByMnemonic a.currentMode l.token, e.format = []) :
    Exact a l ↔ l.format = "%X".toList ∧ l.literal.base ≠ .dollar ∧ l.literal.value = 0 := by
  obtain ⟨e₀, he₀, hformat₀⟩ := hex
  have hread {e : Instruction} (he : e ∈ instructionsByMnemonic a.currentMode l.token) :
      l.tail.tryMatch 0 e.format = some (0, l.tail) := by
    rw [format_eq_nil he₀ he hformat₀, tryMatch_implied, if_neg hblanks]
  have hfits {e : Instruction} (he : e ∈ instructionsByMnemonic a.currentMode l.token) :
      Fits l.tail e := by
    obtain ⟨hone, hfour, -⟩ := bytes_of_mem he
    rw [Fits, hread he, Option.map_some, Option.getD_some, Op.tooLarge_iff hone hfour]
    rintro ⟨-, hle⟩
    exact absurd hle (Nat.not_le.mpr (Nat.pow_pos (by decide)))
  rcases choose_spec l.tail (instructionsByMnemonic a.currentMode l.token) with
    ⟨b, hb, hchoose, hmatch, -, hleast⟩ | ⟨-, hall⟩
  · have hyields (r : Bool × Assembling) : Yields { a with p := l.text } r ↔
        l.format = "%X".toList ∧ l.literal.base ≠ .dollar ∧ r = (true, { a with
          p := [], bytes := a.bytes ++ b.opcode :: leBytes (b.bytes - 1) 0 }) := by
      have hskip : l.tail.skipWhitespace = l.operand.skipWhitespace :=
        skipWhitespace_append l.isspace_blanks l.operand
      rw [yields_chosen hchoose (hread hb) (Nat.pow_pos (by decide)), yields_skipWhitespace]
      dsimp only
      rw [hskip]
      exact yields_skipWhitespace.symm.trans
        (yields_left (a := { a with bytes := a.bytes ++ b.opcode :: leBytes (b.bytes - 1) 0 }) l)
    have hvalue : leNat (leBytes (b.bytes - 1) 0) = 0 := leNat_leBytes (Nat.pow_pos (by decide))
    constructor
    · rintro (⟨a', h⟩ | ⟨a', code, h, hbytes, e, -, -, operands, rfl, -, hoperands, -⟩)
      · obtain ⟨-, -, hr⟩ := (hyields _).mp h
        cases hr
      · obtain ⟨hplain, hbase, hr⟩ := (hyields _).mp h
        cases hr
        obtain ⟨-, rfl⟩ := List.cons.inj (List.append_cancel_left hbytes)
        exact ⟨hplain, hbase, hoperands.symm.trans hvalue⟩
    · rintro ⟨hplain, hbase, hzero⟩
      exact .inr ⟨_, _, (hyields _).mpr ⟨hplain, hbase, rfl⟩, rfl, b, hb, hmatch, _, rfl,
        length_leBytes _ _, hvalue.trans hzero.symm,
        fun e he hm _ => hleast e he hm (hfits he)⟩
  · refine absurd (hfits he₀) (hall e₀ he₀ ?_)
    rw [hread he₀]
    rfl

/-- Where no blank follows the mnemonic, an instruction without operands is refused. -/
theorem exact_of_no_blanks (hblanks : l.blanks = [])
    (hex : ∃ e ∈ instructionsByMnemonic a.currentMode l.token, e.format = []) : Exact a l := by
  obtain ⟨e₀, he₀, hformat₀⟩ := hex
  have hnone {e : Instruction} (he : e ∈ instructionsByMnemonic a.currentMode l.token) :
      l.tail.tryMatch 0 e.format = none := by
    rw [format_eq_nil he₀ he hformat₀, tryMatch_implied, if_pos hblanks]
  have hchoose : choose l.tail (instructionsByMnemonic a.currentMode l.token) = none := by
    rcases choose_spec l.tail (instructionsByMnemonic a.currentMode l.token) with
      ⟨b, hb, -, hmatch, -⟩ | ⟨hchoose, -⟩
    · rw [hnone hb] at hmatch
      cases hmatch
    · exact hchoose
  obtain ⟨a', hreturns⟩ :=
    instruction_of_choose_none (a := { a with p := l.tail }) l.token hchoose
  rw [← iterate_literalLine] at hreturns
  exact .inl ⟨a', (yields_of_returns hreturns).mpr rfl⟩

/-- **Which operands are exact.**  The line of one literal is refused or assembled to the shortest
instruction with the literal's value if and only if the literal is held. -/
theorem exact_iff (l : LiteralLine) (a : Assembling) :
    Exact a l ↔ LiteralHeld (instructionsByMnemonic a.currentMode l.token) l := by
  by_cases hex : ∃ e ∈ instructionsByMnemonic a.currentMode l.token, e.format = []
  · by_cases hblanks : l.blanks = []
    · exact iff_of_true (exact_of_no_blanks hblanks hex) (.inr (.inl ⟨hex, .inl hblanks⟩))
    · rw [exact_iff_of_implied hblanks hex]
      obtain ⟨e, he, hformat⟩ := hex
      constructor
      · exact fun h => .inr (.inl ⟨⟨e, he, hformat⟩, .inr h⟩)
      · rintro (hnil | ⟨-, h⟩ | ⟨hne, -⟩)
        · rw [hnil] at he
          cases he
        · exact h.resolve_left hblanks
        · exact absurd hformat (hne e he)
  · have hne : ∀ e ∈ instructionsByMnemonic a.currentMode l.token, e.format ≠ [] :=
      fun e he hformat => hex ⟨e, he, hformat⟩
    rw [exact_iff_of_operands hne]
    constructor
    · exact fun h => .inr (.inr ⟨hne, h⟩)
    · rintro (hnil | ⟨h, -⟩ | ⟨-, h⟩)
      · refine .inr fun e he => ?_
        rw [hnil] at he
        cases he
      · exact absurd h hex
      · exact h

def dollar100000010 : Numeral :=
  ⟨.dollar, "100000010".toList, by decide, List.all_eq_true.mp rfl⟩

def ldaOverflow : LiteralLine where
  pad := []
  name := "LDA".toList
  blanks := [' ']
  format := "%X".toList
  literal := dollar100000010
  trail := []
  isspace_pad := nofun
  isToken_name := List.all_eq_true.mp rfl
  isAlpha_name := by decide
  isToken_operand := by decide
  isspace_blanks := List.all_eq_true.mp rfl
  format_mem := by decide
  count_format := by decide
  isspace_trail := nofun

/-- `LDA $100000010` is assembled to `LDA $10`. -/
theorem not_exact_ldaOverflow :
    (assemble 3 ⟨false, false, .emulation, ldaOverflow.text, "", []⟩).map
      (fun r => (r.1, r.2.bytes)) = some (true, [0xA5, 0x10]) ∧
    ¬Exact ⟨false, false, .emulation, [], "", []⟩ ldaOverflow := by
  have hdirect : ⟨0xA5, 2, "%X".toList⟩ ∈ instructionsByMnemonic .emulation ldaOverflow.token :=
    List.mem_filterMap.mpr ⟨0xA5, List.mem_range.mpr (by decide), rfl⟩
  have hne : ∀ e ∈ instructionsByMnemonic .emulation ldaOverflow.token, e.format ≠ [] :=
    fun e he h => List.cons_ne_nil _ _ (format_eq_nil he hdirect h)
  have hvalue : ldaOverflow.literal.value = 0x100000010 := by decide +kernel
  refine ⟨by decide +kernel, fun h => ?_⟩
  rw [exact_iff_of_operands (a := ⟨false, false, .emulation, [], "", []⟩) hne, hvalue] at h
  rcases h with hsmall | hall
  · exact absurd hsmall (by decide)
  · exact absurd (hall _ hdirect rfl) (by decide)

end Assembling

end RetroCpu
