import RetroCpu.Wdc65816.SourceText

/-!
# The directives of the assembler

A source text is a list of lines, each an instruction or a directive.  `Selection` is what the
directives select; `Assembles` says what bytes such a text should give.

* `immediate_bytes`: how long an immediate is.
* `yields_text_iff`: **a text is assembled as it should unless a width directive is in it.**
* `returns_text_iff`: for which texts the assembler returns.
-/

namespace RetroCpu

/-! ### What the directives select -/

inductive Directive
  | m6502
  | nes
  | m65816
  | longa (on : Bool)
  | longi (on : Bool)

inductive Target
  | m6502
  | nes
  | m65816
  deriving DecidableEq

structure Selection where
  target : Target
  longA : Bool
  longI : Bool

def Selection.mode (s : Selection) : Mode :=
  match s.target with
  | .m6502 => .emulation
  | .nes => .native6502
  | .m65816 => .ofWidths s.longA s.longI

def Selection.select (s : Selection) : Directive → Selection
  | .m6502 => { s with target := .m6502 }
  | .nes => { s with target := .nes }
  | .m65816 => { s with target := .m65816 }
  | .longa on => { s with longA := on }
  | .longi on => { s with longI := on }

namespace Directive

def keyword : Directive → CString
  | m6502 => ".6502".toList
  | nes => ".NES".toList
  | m65816 => ".65816".toList
  | longa _ => ".LONGA".toList
  | longi _ => ".LONGI".toList

def isWidth : Directive → Bool
  | longa _ | longi _ => true
  | _ => false

/-- What stands behind the keyword: `ON` or `OFF` behind spaces, or nothing. -/
def Operand : Directive → CString → Prop
  | longa on, p | longi on, p =>
    CString.isspace p.peek ∧
      p.skipWhitespace.getToken.1 = (if on then "ON" else "OFF").toList ∧
      CString.Blank p.skipWhitespace.getToken.2
  | _, p => CString.Blank p

end Directive

structure DirectiveLine (d : Directive) (l : CString) : Prop where
  newline : '\n' ∉ l
  nul : Char.ofNat 0 ∉ l
  period : l.skipWhitespace.peek = '.'
  keyword : l.skipWhitespace.getToken.1 = d.keyword
  operand : d.Operand l.skipWhitespace.getToken.2

/-! ### The width of an immediate -/

def accumulatorMnemonics : List CString :=
  ["ORA", "AND", "EOR", "ADC", "BIT", "LDA", "CMP", "SBC"].map String.toList

def indexMnemonics : List CString := ["LDX", "LDY", "CPX", "CPY"].map String.toList

theorem immediates_ofMode (s : Selection) : ∀ o ∈ Op.ofMode s.mode, o.kParamFormat = "#%X".toList →
    (o.kMnemonic ∈ accumulatorMnemonics →
      (o.kBytes = 3 ↔ s.target = .m65816 ∧ s.longA = true)) ∧
    (o.kMnemonic ∈ indexMnemonics → (o.kBytes = 3 ↔ s.target = .m65816 ∧ s.longI = true)) := by
  obtain ⟨target, longA, longI⟩ := s
  cases target <;> cases longA <;> cases longI <;> decide +kernel

/-- **An accumulator or index immediate has two bytes where its width is on.** -/
theorem immediate_bytes (s : Selection) {mnemonic : CString} {e : Instruction}
    (he : e ∈ instructionsByMnemonic s.mode mnemonic) (hformat : e.format = "#%X".toList) :
    (mnemonic ∈ accumulatorMnemonics → (e.bytes = 3 ↔ s.target = .m65816 ∧ s.longA = true)) ∧
      (mnemonic ∈ indexMnemonics → (e.bytes = 3 ↔ s.target = .m65816 ∧ s.longI = true)) := by
  obtain ⟨o, ho, rfl, hbytes, hf⟩ := Op.mem_group he
  rw [hbytes]
  exact immediates_ofMode s o ho (hf.symm.trans hformat)

/-! ### The text -/

inductive SourceLine
  | instruction (text : CString)
  | directive (d : Directive) (text : CString)

namespace SourceLine

def text : SourceLine → CString
  | instruction text => text
  | directive _ text => text

def isWidth : SourceLine → Bool
  | instruction _ => false
  | directive d _ => d.isWidth

end SourceLine

def sourceText (lines : List SourceLine) : CString := lines.flatMap fun line => line.text ++ ['\n']

theorem sourceText_cons (line : SourceLine) (lines : List SourceLine) (rest : CString) :
    sourceText (line :: lines) ++ rest = line.text ++ '\n' :: (sourceText lines ++ rest) := by
  simp [sourceText]

def Selection.after (s : Selection) : List SourceLine → Selection
  | [] => s
  | .instruction _ :: lines => s.after lines
  | .directive d _ :: lines => (s.select d).after lines

namespace Assembling

open CString

/-- The bytes that the lines should give: each instruction those that it has in the table which is
selected there. -/
inductive Assembles : Selection → List SourceLine → List Byte → Prop
  | nil {s : Selection} : Assembles s [] []
  | instruction {s : Selection} {l : CString} {lines : List SourceLine} {code codes : List Byte}
    (h : InstructionLine s.mode l code) (hlines : Assembles s lines codes) :
    Assembles s (.instruction l :: lines) (code ++ codes)
  | directive {s : Selection} {d : Directive} {l : CString} {lines : List SourceLine}
    {codes : List Byte} (h : DirectiveLine d l) (hlines : Assembles (s.select d) lines codes) :
    Assembles s (.directive d l :: lines) codes

structure Selects (a : Assembling) (s : Selection) : Prop where
  longA : a.longA = s.longA
  longXy : a.longXy = s.longI
  currentMode : a.currentMode = s.mode

/-- No line begins with a comma. -/
theorem follows_sourceText {s : Selection} {lines : List SourceLine} {code : List Byte}
    (h : Assembles s lines code) {rest : CString} (hrest : Follows rest) :
    Follows (sourceText lines ++ rest) := by
  have hfirst {l : CString} (htoken : isToken l.skipWhitespace.peek)
      (hl : l.skipWhitespace.peek.toUpper ≠ ',') (rest : CString) :
      Follows (l ++ '\n' :: rest) := by
    rwa [Follows, peek_of_isToken htoken]
  cases h with
  | nil => exact hrest
  | @instruction _ l lines _ _ h _ =>
    obtain ⟨htoken, -, -, hcomma⟩ := letter_of_isAlpha h.letter
    rw [sourceText_cons]
    exact hfirst htoken hcomma _
  | @directive _ d l lines _ h _ =>
    rw [sourceText_cons]
    exact hfirst (l := l) (by rw [h.period]; rfl) (by rw [h.period]; decide) _

/-! ### A directive at the start of a text -/

variable {a : Assembling} {d : Directive} {l rest : CString} {r : Bool × Assembling}

theorem iterate_directive (h : DirectiveLine d l) (hp : a.p = l ++ '\n' :: rest) :
    a.iterate = directive d.keyword
      { a with p := l.skipWhitespace.getToken.2 ++ '\n' :: rest } := by
  have htoken : isToken l.skipWhitespace.peek := by
    rw [h.period]
    rfl
  have hskip : a.p.skipWhitespace = l.skipWhitespace ++ '\n' :: rest := by
    rw [hp, skipWhitespace_of_isToken htoken]
  have hperiod : a.p.skipWhitespace.peek = '.' := by rw [hp, peek_of_isToken htoken, h.period]
  rw [iterate_of_period hperiod, hskip, getToken_before, h.keyword]

/-- **A mode directive does what it says.** -/
theorem yields_modeDirective (h : DirectiveLine d l) (hd : d.isWidth = false)
    (hp : a.p = l ++ '\n' :: rest) {s : Selection} (hs : a.Selects s) :
    a.Yields r ↔ Yields { a with currentMode := (s.select d).mode, p := rest } r := by
  have hiterate : a.iterate = .continues { a with
      currentMode := (s.select d).mode
      p := l.skipWhitespace.getToken.2 ++ '\n' :: rest } := by
    rw [iterate_directive h hp]
    cases d with
    | m6502 => rfl
    | nes => rfl
    | m65816 =>
      rw [Selection.mode, Selection.select, ← hs.longA, ← hs.longXy]
      rfl
    | longa on => cases hd
    | longi on => cases hd
  have hblank : Blank l.skipWhitespace.getToken.2 := by
    have hoperand := h.operand
    cases d with
    | m6502 | nes | m65816 => exact hoperand
    | longa on | longi on => cases hd
  have hsuffix : l.skipWhitespace.getToken.2 ++ ['\n'] <:+ l ++ ['\n'] := by
    obtain ⟨l', hl'⟩ := (List.dropWhile_suffix isToken).trans (skipWhitespace_suffix l)
    refine ⟨l', ?_⟩
    rw [← List.append_assoc]
    exact congrArg (· ++ ['\n']) hl'
  have hrest := yields_blank (a := { a with currentMode := (s.select d).mode }) (r := r) rest
    h.newline h.nul hsuffix hblank.newline
  rw [List.append_assoc] at hrest
  rw [yields_of_continues hiterate]
  exact hrest

theorem widthDirective_of_space (name : String) (set : Bool → Assembling → Assembling)
    (h : isspace a.p.peek) : ∃ a', widthDirective name set name.toList a = .error a' := by
  have hempty : a.p.getToken = ([], a.p) := by
    cases hp : a.p with
    | nil => rfl
    | cons c p =>
      rw [hp] at h
      have hc : ¬isToken c = true := Bool.not_eq_true _ ▸ (stops_of_isspace h).2
      rw [getToken, List.takeWhile_cons_of_neg hc, List.dropWhile_cons_of_neg hc]
      rfl
  refine ⟨{ a with error := name ++ " directive expected ON or OFF not " ++ String.ofList [] }, ?_⟩
  rw [widthDirective, if_pos rfl, hempty]
  rfl

/-- **A width directive is refused.**  The token behind the keyword is taken at the space. -/
theorem iterate_widthDirective (h : DirectiveLine d l) (hd : d.isWidth = true)
    (hp : a.p = l ++ '\n' :: rest) : ∃ a', a.iterate = .returns false a' := by
  have hspace {p : CString} (h : isspace p.peek) : isspace (CString.peek (p ++ '\n' :: rest)) := by
    cases p with
    | nil => rfl
    | cons c p => exact h
  have hoperand := h.operand
  rw [iterate_directive h hp]
  generalize ha : ({ a with p := l.skipWhitespace.getToken.2 ++ '\n' :: rest } : Assembling) = b
  have hb : b.p = l.skipWhitespace.getToken.2 ++ '\n' :: rest := by rw [← ha]
  cases d with
  | m6502 | nes | m65816 => cases hd
  | longa on =>
    obtain ⟨a', herror⟩ := widthDirective_of_space (a := b) ".LONGA"
      (fun on a => { a with longA := on }) (by rw [hb]; exact hspace hoperand.1)
    have hlongi : longiDirective ".LONGA".toList b = .ok (".LONGA".toList, b) := rfl
    have hlonga : longaDirective ".LONGA".toList b = .error a' := herror
    have hkeyword : (Directive.longa on).keyword = ".LONGA".toList := rfl
    refine ⟨a', ?_⟩
    unfold directive
    rw [hkeyword, hlongi]
    dsimp only
    rw [hlonga]
  | longi on =>
    obtain ⟨a', herror⟩ := widthDirective_of_space (a := b) ".LONGI"
      (fun on a => { a with longXy := on }) (by rw [hb]; exact hspace hoperand.1)
    have hlongi : longiDirective ".LONGI".toList b = .error a' := herror
    have hkeyword : (Directive.longi on).keyword = ".LONGI".toList := rfl
    refine ⟨a', ?_⟩
    unfold directive
    rw [hkeyword, hlongi]

/-! ### A whole text -/

/-- The lines are assembled to what the selected tables give and the assembler goes on behind
them, or one is a width directive and the text is refused. -/
theorem yields_lines {s : Selection} {lines : List SourceLine} {code : List Byte}
    (hlines : Assembles s lines code) {a : Assembling} (hs : a.Selects s) {rest : CString}
    (hrest : Follows rest) (hp : a.p = sourceText lines ++ rest) :
    (∀ line ∈ lines, line.isWidth = false) ∧ (∀ r, a.Yields r ↔ Yields { a with
      currentMode := (s.after lines).mode, p := rest, bytes := a.bytes ++ code } r) ∨
    (∃ line ∈ lines, line.isWidth = true) ∧ ∃ a', ∀ r, a.Yields r ↔ r = (false, a') := by
  induction hlines generalizing a with
  | @nil s =>
    obtain ⟨longA, longXy, mode, p, error, bytes⟩ := a
    obtain rfl : mode = s.mode := hs.currentMode
    obtain rfl : p = rest := hp
    refine .inl ⟨fun line hline => absurd hline List.not_mem_nil, fun r => ?_⟩
    rw [List.append_nil, Selection.after]
  | @instruction s l lines code codes h hlines ih =>
    rw [sourceText_cons] at hp
    have hyields (r : Bool × Assembling) :=
      yields_instruction (r := r) h hs.currentMode hp (follows_sourceText hlines hrest)
    rcases ih (a := { a with p := sourceText lines ++ rest, bytes := a.bytes ++ code })
      ⟨hs.longA, hs.longXy, hs.currentMode⟩ rfl with ⟨hwidth, hgo⟩ | ⟨⟨line, hmem, hline⟩, a', ha'⟩
    · refine .inl ⟨List.forall_mem_cons.mpr ⟨rfl, hwidth⟩, fun r => (hyields r).trans ?_⟩
      rw [hgo r, List.append_assoc, Selection.after]
    · exact .inr ⟨⟨line, List.mem_cons_of_mem _ hmem, hline⟩, a',
        fun r => (hyields r).trans (ha' r)⟩
  | @directive s d l lines codes h hlines ih =>
    rw [sourceText_cons] at hp
    cases hd : d.isWidth with
    | false =>
      have hselects : Selects
          { a with currentMode := (s.select d).mode, p := sourceText lines ++ rest }
          (s.select d) := by
        cases d with
        | m6502 | nes | m65816 => exact ⟨hs.longA, hs.longXy, rfl⟩
        | longa on | longi on => cases hd
      have hyields (r : Bool × Assembling) := yields_modeDirective (r := r) h hd hp hs
      rcases ih hselects rfl with ⟨hwidth, hgo⟩ | ⟨⟨line, hmem, hline⟩, a', ha'⟩
      · refine .inl ⟨List.forall_mem_cons.mpr ⟨hd, hwidth⟩, fun r => (hyields r).trans ?_⟩
        rw [hgo r, Selection.after]
      · exact .inr ⟨⟨line, List.mem_cons_of_mem _ hmem, hline⟩, a',
          fun r => (hyields r).trans (ha' r)⟩
    | true =>
      obtain ⟨a', hreturns⟩ := iterate_widthDirective h hd hp
      exact .inr ⟨⟨_, List.mem_cons_self, hd⟩, a', fun r => yields_of_returns hreturns⟩

/-- **The assembler with directives.**  A text of instructions and directives is assembled to what
the selected tables give if and only if no width directive is in it. -/
theorem yields_text_iff {s : Selection} {lines : List SourceLine} {code : List Byte}
    (hlines : Assembles s lines code) {a : Assembling} (hs : a.Selects s)
    (hp : a.p = sourceText lines) :
    (∃ a', a.Yields (true, a') ∧ a'.bytes = a.bytes ++ code) ↔
      ∀ line ∈ lines, line.isWidth = false := by
  rcases yields_lines hlines hs follows_nil (by rw [hp, List.append_nil]) with
    ⟨hwidth, hgo⟩ | ⟨⟨line, hmem, hline⟩, a', ha'⟩
  · exact iff_of_true ⟨_, (hgo _).mpr ((yields_of_returns rfl).mpr rfl), rfl⟩ hwidth
  · refine iff_of_false ?_ fun hall => ?_
    · rintro ⟨b, hb, -⟩
      cases (ha' _).mp hb
    · rw [hall line hmem] at hline
      cases hline

/-! ### When the assembler returns for a text -/

/-- A text returns if it is refused for a width directive, or if what is behind its lines does. -/
theorem returns_text_iff {s : Selection} {lines : List SourceLine} {code : List Byte}
    (hlines : Assembles s lines code) {a : Assembling} (hs : a.Selects s) {rest : CString}
    (hrest : Follows rest) (hp : a.p = sourceText lines ++ rest) :
    a.Returns ↔ (∃ line ∈ lines, line.isWidth = true) ∨ Returns { a with
      currentMode := (s.after lines).mode, p := rest, bytes := a.bytes ++ code } := by
  rcases yields_lines hlines hs hrest hp with ⟨hwidth, hgo⟩ | ⟨hwidth, a', ha'⟩
  · have hnone : ¬∃ line ∈ lines, line.isWidth = true := by
      rintro ⟨line, hmem, hline⟩
      rw [hwidth line hmem] at hline
      cases hline
    rw [returns_iff_yields, returns_iff_yields]
    simp only [hgo, hnone, false_or]
  · exact iff_of_true (returns_iff_yields.mpr ⟨_, (ha' _).mpr rfl⟩) (.inl hwidth)

/-- **A text of instructions and directives** returns, in any mode. -/
theorem returns_sourceText {s : Selection} {lines : List SourceLine} {code : List Byte}
    (hlines : Assembles s lines code) {a : Assembling} (hs : a.Selects s)
    (hp : a.p = sourceText lines) : a.Returns := by
  refine (returns_text_iff hlines hs follows_nil ?_).mpr (.inr ?_)
  · rw [hp, List.append_nil]
  · exact returns_iff_yields.mpr ⟨_, (yields_of_returns rfl).mpr rfl⟩

/-- **Punctuation behind the lines.**  Where neither a token nor a comment begins, the assembler
returns only if a width directive before it was refused. -/
theorem returns_punctuation_iff {s : Selection} {lines : List SourceLine} {code : List Byte}
    (hlines : Assembles s lines code) {a : Assembling} (hs : a.Selects s) {rest : CString}
    (hrest : Follows rest) (hp : a.p = sourceText lines ++ rest)
    (hstuck : ¬Consumable { a with p := rest.skipWhitespace }) :
    a.Returns ↔ ∃ line ∈ lines, line.isWidth = true := by
  rw [returns_text_iff hlines hs hrest hp, or_iff_left]
  intro hreturns
  obtain ⟨r, hyields⟩ := returns_iff_yields.mp hreturns
  have hskip : Returns { a with
      currentMode := (s.after lines).mode, p := rest.skipWhitespace, bytes := a.bytes ++ code } :=
    returns_iff_yields.mpr ⟨r, yields_skipWhitespace.mp hyields⟩
  refine absurd hskip (not_returns_of_not_consumable ?_)
  exact hstuck

/-- **The assembler with directives.**  A text of instructions and directives is assembled to what
the selected tables give if and only if no width directive is in it; in these tables an immediate
has two bytes where its width is on. -/
theorem directives_iff {s : Selection} {lines : List SourceLine} {code : List Byte}
    (hlines : Assembles s lines code) {a : Assembling} (hs : a.Selects s)
    (hp : a.p = sourceText lines) :
    ((∃ a', a.Yields (true, a') ∧ a'.bytes = a.bytes ++ code) ↔
      ∀ line ∈ lines, line.isWidth = false) ∧
    ∀ (s : Selection) (mnemonic : CString), ∀ e ∈ instructionsByMnemonic s.mode mnemonic,
      e.format = "#%X".toList →
      (mnemonic ∈ accumulatorMnemonics → (e.bytes = 3 ↔ s.target = .m65816 ∧ s.longA = true)) ∧
      (mnemonic ∈ indexMnemonics → (e.bytes = 3 ↔ s.target = .m65816 ∧ s.longI = true)) :=
  ⟨yields_text_iff hlines hs hp, fun s _ _ he hformat => immediate_bytes s he hformat⟩

def reset : Selection := ⟨.m6502, false, false⟩

/-- `.65816` and a load of one byte. -/
theorem directives_iff_lda : ∃ code a',
    Yields ⟨false, false, .emulation, ".65816\nLDA #$10\n".toList, "", []⟩ (true, a') ∧
      a'.bytes = code ∧ code.length = 2 := by
  have ho : Op.lda (addrImm .u8 .u8 .u8) ∈ Op.ofMode (.ofWidths false false) := by decide +kernel
  have hfind : (Op.ofMode (.ofWidths false false)).find? (Op.lda (addrImm .u8 .u8 .u8)).answers =
      some (Op.lda (addrImm .u8 .u8 .u8)) := by decide +kernel
  have htakes : (Op.lda (addrImm .u8 .u8 .u8)).Takes [dollar10] :=
    ⟨by decide, by decide +kernel, by decide +kernel⟩
  obtain ⟨opcode, -, hline⟩ := instructionLine_line ho htakes hfind
  have hdirective : DirectiveLine .m65816 ".65816".toList :=
    ⟨by decide, by decide, by decide, by decide, .inl rfl⟩
  have hlines : Assembles reset [.directive .m65816 ".65816".toList,
      .instruction "LDA #$10".toList] _ := .directive hdirective (.instruction hline .nil)
  obtain ⟨a', hyields, hbytes⟩ := (directives_iff hlines
    (a := ⟨false, false, .emulation, ".65816\nLDA #$10\n".toList, "", []⟩) ⟨rfl, rfl, rfl⟩
    rfl).1.mpr (by decide)
  exact ⟨_, a', hyields, hbytes, rfl⟩

/-- `.LONGA ON` is refused. -/
theorem longa_refused : DirectiveLine (.longa true) ".LONGA ON".toList ∧
    Assembles reset [.directive (.longa true) ".LONGA ON".toList] [] ∧
    Selects ⟨false, false, .emulation, ".LONGA ON\n".toList, "", []⟩ reset ∧
    ¬∃ a', Yields ⟨false, false, .emulation, ".LONGA ON\n".toList, "", []⟩ (true, a') := by
  have hline : DirectiveLine (.longa true) ".LONGA ON".toList :=
    ⟨by decide, by decide, by decide, by decide, by decide, by decide, .inl rfl⟩
  refine ⟨hline, .directive hline .nil, ⟨rfl, rfl, rfl⟩, ?_⟩
  rintro ⟨a', hyields⟩
  obtain ⟨b, hreturns⟩ := iterate_widthDirective (a := ⟨false, false, .emulation,
    ".LONGA ON\n".toList, "", []⟩) hline rfl (show _ = ".LONGA ON".toList ++ '\n' :: [] from rfl)
  cases (yields_of_returns hreturns).mp hyields

end Assembling

end RetroCpu
