import RetroCpu.Wdc65816.Mnemonics
import RetroCpu.Bus
import RetroCpu.Lib.Run
import Mathlib.Tactic.Common
import Mathlib.Tactic.ByContra

/-!
# The assembler

`WDC65816Assembler::Assemble` reads a text line by line.  A `const char *` is the list of
the characters from it on, and what is behind the end of the list is the terminating NUL.
The character classes are those of the C locale.

`iterate` is one iteration of the main loop.  It has an outcome for every text, but the loop
need not end: `advances_iff` says which characters an iteration leaves where they are, and
`assemble_returns_iff` what follows for the loop.
-/

namespace RetroCpu

namespace CString

/-- `*p`. -/
def peek (p : CString) : Char := p.headD (Char.ofNat 0)

/-- `isspace`. -/
def isspace (c : Char) : Bool := c = ' ' || 9 ≤ c.toNat && c.toNat ≤ 13

/-- `SkipWhitespace`. -/
def skipWhitespace (p : CString) : CString := p.dropWhile isspace

/-- `SkipToEndOfLine`. -/
def skipToEndOfLine (p : CString) : CString := p.dropWhile fun c => c ≠ Char.ofNat 0 && c ≠ '\n'

/-- The characters `GetToken` takes. -/
def isToken (c : Char) : Bool := c.isAlphanum || c = '.'

/-- `GetToken`, on an empty `out`. -/
def getToken (p : CString) : CString × CString :=
  ((p.takeWhile isToken).map Char.toUpper, p.dropWhile isToken)

/-- What a character adds to a number, in base 10 or 16. -/
def digit (hex : Bool) (c : Char) : Option (BitVec 32) :=
  if '0' ≤ c ∧ c ≤ '9' then some (BitVec.ofNat 32 (c.toNat - 48))
  else if hex ∧ 'A' ≤ c ∧ c ≤ 'F' then some (BitVec.ofNat 32 (10 + c.toNat - 65))
  else if hex ∧ 'a' ≤ c ∧ c ≤ 'f' then some (BitVec.ofNat 32 (10 + c.toNat - 97))
  else none

/-- The loop of `SkipNumber`, with `ok`. -/
def skipDigits (hex : Bool) : CString → BitVec 32 → Bool → Option (BitVec 32 × CString)
  | [], number, ok => if ok then some (number, []) else none
  | c :: p, number, ok =>
    match digit hex c with
    | some d => skipDigits hex p (number * (if hex then 16 else 10) + d) true
    | none => if ok then some (number, c :: p) else none

/-- `SkipNumber`, on `number = 0`.  `none` is `false`. -/
def skipNumber : CString → Option (BitVec 32 × CString)
  | '$' :: p => skipDigits true p 0 false
  | '0' :: 'x' :: p => skipDigits true p 0 false
  | p => skipDigits false p 0 false

/-- `TryMatch`, with the value of `*number`.  `none` is `false`. -/
def tryMatch (input : CString) (number : BitVec 32) : CString → Option (BitVec 32 × CString)
  | [] => if isspace input.peek then some (number, input) else none
  | c :: format =>
    if isspace c then tryMatch input number format
    else
      let input := input.skipWhitespace
      if c = '%' then
        match format with
        | 'X' :: format =>
          match input.skipNumber with
          | some (v, input) => tryMatch input v format
          | none => none
        | _ => none
      else if input.peek.toUpper = c.toUpper then tryMatch input.tail number format
      else none

end CString

/-- `WDC65816Assembler::Instruction`. -/
structure Instruction where
  opcode : Byte
  bytes : Nat
  format : CString
  deriving DecidableEq

/-- `instructions_for_mode[mode].instructions_by_mnemonic[mnemonic]`, in the order in which the
constructor adds them.  Where the map has no entry the list is empty. -/
def instructionsByMnemonic (mode : Mode) (mnemonic : CString) : List Instruction :=
  (List.range 256).filterMap fun j =>
    match (execOps mode).getD j none with
    | some o =>
      if o.kMnemonic = mnemonic then some ⟨BitVec.ofNat 8 j, o.kBytes, o.kParamFormat⟩ else none
    | none => none

/-- The members of `WDC65816Assembler` that change, and the arguments of `Assemble`. -/
structure Assembling where
  longA : Bool
  longXy : Bool
  currentMode : Mode
  p : CString
  error : String
  bytes : List Byte

namespace Assembling

inductive Outcome
  | returns (ok : Bool) (a : Assembling)
  | continues (a : Assembling)

/-- `current_mode = (long_a ? 1 : 0) + (long_xy ? 2 : 0)`. -/
def setNative (a : Assembling) : Assembling :=
  { a with currentMode := .ofWidths a.longA a.longXy }

/-- The same unless a 6502 is assembled for. -/
def updateMode (a : Assembling) : Assembling :=
  if a.currentMode ≠ .emulation ∧ a.currentMode ≠ .native6502 then a.setNative else a

/-- The width directives.  `set` stores the flag. -/
def widthDirective (name : String) (set : Bool → Assembling → Assembling) (token : CString)
    (a : Assembling) : Except Assembling (CString × Assembling) :=
  if token = name.toList then
    let (token, p) := a.p.getToken
    let a := { a with p := p }
    if token = "ON".toList then .ok (token, (set true a).updateMode)
    else if token = "OFF".toList then .ok (token, (set false a).updateMode)
    else
      .error { a with
        error := name ++ " directive expected ON or OFF not " ++ String.ofList token }
  else .ok (token, a)

def longiDirective : CString → Assembling → Except Assembling (CString × Assembling) :=
  widthDirective ".LONGI" fun on a => { a with longXy := on }

def longaDirective : CString → Assembling → Except Assembling (CString × Assembling) :=
  widthDirective ".LONGA" fun on a => { a with longA := on }

/-- The directives that set the mode. -/
def modeDirective (token : CString) (a : Assembling) : Assembling :=
  let a := if token = ".6502".toList then { a with currentMode := .emulation } else a
  let a := if token = ".NES".toList then { a with currentMode := .native6502 } else a
  if token = ".65816".toList then a.setNative else a

/-- A token that begins with a period. -/
def directive (token : CString) (a : Assembling) : Outcome :=
  match longiDirective token a with
  | .error a => .returns false a
  | .ok (token, a) =>
    match longaDirective token a with
    | .error a => .returns false a
    | .ok (token, a) => .continues (modeDirective token a)

/-- One round of the loop over the candidates. -/
def better (p : CString) (best : Option Instruction) (candidate : Instruction) :
    Option Instruction :=
  let arg := ((p.tryMatch 0 candidate.format).map (·.1)).getD 0
  if 1 < candidate.bytes ∧ (1 : BitVec 32) <<< (8 * (candidate.bytes - 1)) ≤ arg then best
  else
    match best with
    | none => some candidate
    | some b => if candidate.bytes < b.bytes then some candidate else best

/-- `best`. -/
def choose (p : CString) (instructions : List Instruction) : Option Instruction :=
  let candidates := instructions.filter fun e => (p.tryMatch 0 e.format).isSome
  candidates.foldl (better p) none

/-- The bytes of a number, lowest first, and what is left of it. -/
def emit : Nat → BitVec 32 → List Byte × BitVec 32
  | 0, v => ([], v)
  | n + 1, v =>
    let (bytes, v') := emit n (v >>> 8)
    (v.setWidth 8 :: bytes, v')

/-- A token that begins with a letter. -/
def instruction (token : CString) (a : Assembling) : Outcome :=
  match instructionsByMnemonic a.currentMode token with
  | [] => .returns false { a with error := "Unexpected token " ++ String.ofList token }
  | e :: es =>
    match choose a.p (e :: es) with
    | none =>
      .returns false { a with
        error := "Unknown instruction format for " ++ String.ofList token }
    | some best =>
      let a := { a with bytes := a.bytes ++ [best.opcode] }
      let (v, p) := (a.p.tryMatch 0 best.format).getD (0, a.p)
      let (operand, v) := emit (best.bytes - 1) v
      let a := { a with p := p, bytes := a.bytes ++ operand }
      if 0 < v then .returns false { a with error := "Constant too large" } else .continues a

/-- An iteration after the whitespace and the comment. -/
def token (a : Assembling) : Outcome :=
  let (token, p) := a.p.getToken
  let a := { a with p := p }
  let first := CString.peek token
  if first = '.' then directive token a
  else if first.isAlpha then instruction token a
  else .continues a

/-- One iteration of the main loop of `Assemble`. -/
def iterate (a : Assembling) : Outcome :=
  if a.p.peek = Char.ofNat 0 then .returns true a
  else
    let a := { a with p := a.p.skipWhitespace }
    if a.p.peek = ';' then .continues { a with p := a.p.skipToEndOfLine } else a.token

/-- What `Assemble` returns, if it returns within `n` iterations. -/
def assemble : Nat → Assembling → Option (Bool × Assembling)
  | 0, _ => none
  | n + 1, a =>
    match a.iterate with
    | .returns ok a => some (ok, a)
    | .continues a => assemble n a

/-! ### The pointer only moves forward -/

end Assembling

namespace CString

theorem skipDigits_suffix {hex : Bool} {p q : CString} {number v : BitVec 32} {ok : Bool}
    (h : skipDigits hex p number ok = some (v, q)) : q <:+ p := by
  induction p generalizing number ok with
  | nil =>
    rw [skipDigits] at h
    split at h
    · cases h
      exact List.suffix_rfl
    · cases h
  | cons c p ih =>
    rw [skipDigits] at h
    split at h
    · exact (ih h).trans (List.suffix_cons c p)
    · split at h
      · cases h
        exact List.suffix_rfl
      · cases h

theorem skipNumber_suffix {p q : CString} {v : BitVec 32} (h : p.skipNumber = some (v, q)) :
    q <:+ p := by
  rw [skipNumber.eq_def] at h
  split at h
  · exact (skipDigits_suffix h).trans (List.suffix_cons ..)
  · exact (skipDigits_suffix h).trans ((List.suffix_cons ..).trans (List.suffix_cons ..))
  · exact skipDigits_suffix h

theorem skipWhitespace_suffix (p : CString) : p.skipWhitespace <:+ p := List.dropWhile_suffix _

theorem tryMatch_suffix {p q format : CString} {number v : BitVec 32}
    (h : p.tryMatch number format = some (v, q)) : q <:+ p := by
  fun_induction tryMatch p number format with
  | case1 =>
    cases h
    exact List.suffix_rfl
  | case2 => cases h
  | case3 input number c format hc ih => exact ih h
  | case4 input number p' format v' p'' hn hc ih =>
    exact ((ih h).trans (skipNumber_suffix hn)).trans (skipWhitespace_suffix input)
  | case5 => cases h
  | case6 => cases h
  | case7 input number c format hc p' hne heq ih =>
    exact ((ih h).trans (List.tail_suffix _)).trans (skipWhitespace_suffix input)
  | case8 => cases h

end CString

namespace Assembling

/-- The outcome of an iteration that goes on leaves `p` at `q` or behind. -/
def Outcome.Within (q : CString) : Outcome → Prop
  | .returns _ _ => True
  | .continues a => a.p <:+ q

theorem widthDirective_suffix {name : String} {token token' : CString}
    {set : Bool → Assembling → Assembling} {a a' : Assembling}
    (h : widthDirective name set token a = .ok (token', a'))
    (hset : ∀ on a, (set on a).p = a.p) : a'.p <:+ a.p := by
  have hmode : ∀ a : Assembling, a.updateMode.p = a.p := by
    intro a
    unfold updateMode
    split <;> rfl
  have hp : (a.p.getToken).2 <:+ a.p := List.dropWhile_suffix _
  simp only [widthDirective] at h
  split at h
  · split at h
    · cases h
      rw [hmode, hset]
      exact hp
    · split at h
      · cases h
        rw [hmode, hset]
        exact hp
      · cases h
  · cases h
    exact List.suffix_rfl

theorem within_directive (token : CString) (a : Assembling) :
    (directive token a).Within a.p := by
  unfold directive
  cases hi : longiDirective token a with
  | error => exact trivial
  | ok r =>
    obtain ⟨token₁, a₁⟩ := r
    have h₁ : a₁.p <:+ a.p := widthDirective_suffix hi fun _ _ => rfl
    dsimp only
    cases ha : longaDirective token₁ a₁ with
    | error => exact trivial
    | ok r =>
      obtain ⟨token₂, a₂⟩ := r
      have h₂ : a₂.p <:+ a₁.p := widthDirective_suffix ha fun _ _ => rfl
      have hmode : (modeDirective token₂ a₂).p = a₂.p := by
        simp only [modeDirective, setNative]
        split <;> split <;> split <;> rfl
      show (modeDirective token₂ a₂).p <:+ a.p
      rw [hmode]
      exact h₂.trans h₁

theorem within_instruction (token : CString) (a : Assembling) :
    (instruction token a).Within a.p := by
  unfold instruction
  cases instructionsByMnemonic a.currentMode token with
  | nil => exact trivial
  | cons e es =>
    dsimp only
    cases choose a.p (e :: es) with
    | none => exact trivial
    | some best =>
      dsimp only
      cases hm : a.p.tryMatch 0 best.format with
      | none =>
        dsimp only [Option.getD]
        split
        · exact trivial
        · exact List.suffix_rfl
      | some r =>
        obtain ⟨v, p⟩ := r
        dsimp only [Option.getD]
        split
        · exact trivial
        · exact CString.tryMatch_suffix hm

theorem within_token (a : Assembling) : a.token.Within a.p.getToken.2 := by
  simp only [token]
  split
  · exact within_directive _ _
  · split
    · exact within_instruction _ _
    · exact List.suffix_rfl

theorem Outcome.Within.mono {q q' : CString} (h : q <:+ q') {o : Outcome} (ho : o.Within q) :
    o.Within q' := by
  cases o with
  | returns => exact trivial
  | continues a => exact List.IsSuffix.trans ho h

/-! ### Progress -/

def Advances (a : Assembling) : Prop :=
  ∀ a', a.iterate = .continues a' → a'.p <:+ a.p ∧ a'.p.length < a.p.length

/-- An iteration begins at the end of the text or at a character that it consumes. -/
def Consumable (a : Assembling) : Prop :=
  a.p.peek = Char.ofNat 0 ∨ CString.isspace a.p.peek ∨ a.p.peek = ';' ∨ CString.isToken a.p.peek

theorem iterate_within {a : Assembling} (h : a.Consumable) {c : Char} {p : CString}
    (hp : a.p = c :: p) : a.iterate.Within p := by
  have hpeek : a.p.peek = c := by
    rw [hp]
    rfl
  rw [Consumable, hpeek] at h
  unfold iterate
  rw [hpeek]
  split
  · exact trivial
  · next hnul =>
    dsimp only
    by_cases hspace : CString.isspace c
    · have hskip : a.p.skipWhitespace = CString.skipWhitespace p := by
        rw [CString.skipWhitespace, hp, List.dropWhile_cons_of_pos hspace]
        rfl
      rw [hskip]
      split
      · exact (List.dropWhile_suffix _).trans (CString.skipWhitespace_suffix p)
      · refine Outcome.Within.mono ?_ (within_token _)
        exact (List.dropWhile_suffix _).trans (CString.skipWhitespace_suffix p)
    · have hskip : a.p.skipWhitespace = c :: p := by
        rw [CString.skipWhitespace, hp, List.dropWhile_cons_of_neg hspace]
      rw [hskip]
      split
      · next hsemi =>
        obtain rfl : c = ';' := hsemi
        show CString.skipToEndOfLine (';' :: p) <:+ p
        rw [CString.skipToEndOfLine, List.dropWhile_cons_of_pos (by decide)]
        exact List.dropWhile_suffix _
      · next hsemi =>
        have htoken : CString.isToken c := by
          rcases h with h | h | h | h
          · exact absurd h hnul
          · exact absurd h hspace
          · exact absurd h hsemi
          · exact h
        refine Outcome.Within.mono ?_ (within_token _)
        show (c :: p).dropWhile CString.isToken <:+ p
        rw [List.dropWhile_cons_of_pos htoken]
        exact List.dropWhile_suffix _

/-- An iteration at any other character changes nothing. -/
theorem iterate_of_not_consumable {a : Assembling} (h : ¬ a.Consumable) :
    a.iterate = .continues a := by
  obtain ⟨longA, longXy, mode, p, error, bytes⟩ := a
  simp only [Consumable, not_or] at h
  obtain ⟨hnul, hspace, hsemi, htoken⟩ := h
  cases p with
  | nil => exact absurd rfl hnul
  | cons c p =>
    have hskip : CString.skipWhitespace (c :: p) = c :: p :=
      List.dropWhile_cons_of_neg hspace
    have hget : CString.getToken (c :: p) = ([], c :: p) := by
      change ¬ CString.isToken c = true at htoken
      rw [CString.getToken, List.takeWhile_cons_of_neg htoken,
        List.dropWhile_cons_of_neg htoken]
      rfl
    simp only [iterate, if_neg hnul, hskip, if_neg hsemi, token, hget]
    rfl

theorem advances_iff (a : Assembling) : a.Advances ↔ a.Consumable := by
  constructor
  · intro h
    by_contra hc
    obtain ⟨-, hlt⟩ := h a (iterate_of_not_consumable hc)
    exact Nat.lt_irrefl _ hlt
  · intro h a' ha'
    cases hp : a.p with
    | nil =>
      have hend : a.iterate = .returns true a := by
        rw [iterate, hp]
        rfl
      rw [hend] at ha'
      cases ha'
    | cons c p =>
      have hwithin := iterate_within h hp
      rw [ha'] at hwithin
      have hsuffix : a'.p <:+ p := hwithin
      exact ⟨hsuffix.trans (List.suffix_cons c p), Nat.lt_succ_of_le hsuffix.length_le⟩

/-! ### Termination -/

def step (_ : Unit) (a : Assembling) : Option Assembling :=
  match a.iterate with
  | .returns _ _ => none
  | .continues a => some a

abbrev Reaches (a a' : Assembling) : Prop := Run step (fun _ _ => True) a a'

/-- `Assemble` returns `true` or `false`. -/
def Returns (a : Assembling) : Prop := ∃ n r, assemble n a = some r

theorem returns_of_continues {a a' : Assembling} (h : a.iterate = .continues a')
    (ha' : a'.Returns) : a.Returns := by
  obtain ⟨n, r, hn⟩ := ha'
  refine ⟨n + 1, r, ?_⟩
  rw [assemble, h]
  exact hn

/-- At a character that is not consumed the loop stays for ever. -/
theorem not_returns_of_not_consumable {a : Assembling} (h : ¬ a.Consumable) : ¬ a.Returns := by
  rintro ⟨n, r, hn⟩
  induction n with
  | zero => cases hn
  | succ n ih =>
    rw [assemble, iterate_of_not_consumable h] at hn
    exact ih hn

theorem returns_of_reaches {a a' : Assembling} (h : a.Reaches a') (ha : a.Returns) :
    a'.Returns := by
  refine Run.invariant (P := Returns) ha (fun _ b b' hb _ hs => ?_) h
  obtain ⟨n, r, hn⟩ := hb
  cases n with
  | zero => cases hn
  | succ n =>
    rw [assemble] at hn
    rw [step] at hs
    cases hi : b.iterate with
    | returns ok c =>
      rw [hi] at hs
      cases hs
    | continues c =>
      rw [hi] at hn hs
      cases hs
      exact ⟨n, r, hn⟩

/-- **When the assembler returns.**  `Assemble` returns if and only if each iteration of its
main loop begins at a character that it consumes, and these are the iterations that move the
pointer or return. -/
theorem assemble_returns_iff (a : Assembling) :
    (a.Returns ↔ ∀ a', a.Reaches a' → a'.Consumable) ∧
      ∀ a', a.Reaches a' → (a'.Advances ↔ a'.Consumable) := by
  refine ⟨⟨fun h a' ha' => ?_, fun h => ?_⟩, fun a' _ => advances_iff a'⟩
  · by_contra hc
    exact not_returns_of_not_consumable hc (returns_of_reaches ha' h)
  · induction hn : a.p.length using Nat.strongRecOn generalizing a with
    | ind n ih =>
      cases hi : a.iterate with
      | returns ok a' =>
        refine ⟨1, (ok, a'), ?_⟩
        rw [assemble, hi]
      | continues a' =>
        obtain ⟨-, hlt⟩ := (advances_iff a).mpr (h a .refl) a' hi
        have hstep : step () a = some a' := by rw [step, hi]
        have hreach : ∀ b, a'.Reaches b → a.Reaches b :=
          fun b hb => Run.trans (.tail () .refl trivial hstep) hb
        rw [hn] at hlt
        exact returns_of_continues hi (ih _ hlt a' (fun b hb => h b (hreach b hb)) rfl)

def plus : Assembling := ⟨false, false, .emulation, ['+'], "", []⟩

theorem not_returns_plus : ¬ plus.Returns ∧ ¬ plus.Advances := by
  have h : ¬ plus.Consumable := by
    simp only [Consumable]
    decide
  exact ⟨not_returns_of_not_consumable h, fun ha => h ((advances_iff plus).mp ha)⟩

end Assembling

end RetroCpu
