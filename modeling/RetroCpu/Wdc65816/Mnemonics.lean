import RetroCpu.Wdc65816.Tables
import RetroCpu.Lib.BitSet
import Mathlib.Tactic.ByContra

/-!
# What the instructions are called

`Op.kMnemonic` and `Op.kParamFormat` are the two strings of each operation template, as they
stand in the source.  Four of them are the strings of another instruction: `OpRol` calls
itself `ROR`, `BvsImpl` calls itself `BCS`, `PlyImpl` calls itself `PHY`, and the two-byte
`NOP` of the 6502 has the format of an instruction without operand, like the one-byte one.
-/

namespace RetroCpu

/-- The characters from a `const char *` on, up to the terminating NUL. -/
abbrev CString := List Char

/-- `kFormat`. -/
def AddrKind.kFormat : AddrKind → CString
  | a => "A".toList
  | imm _ => "#%X".toList
  | abs | absLong | direct _ => "%X".toList
  | absX _ | absLongX | directX _ => "%X,X".toList
  | absY _ | directY _ => "%X,Y".toList
  | directIndirect => "(%X)".toList
  | directIndirectX _ => "(%X,X)".toList
  | directIndirectY _ _ => "(%X),Y".toList
  | directIndirectLong => "[%X]".toList
  | directIndirectLongY => "[%X],Y".toList
  | stack => "%X,S".toList
  | stackY => "(%X,S),Y".toList

/-- `kFormat` of the addressing of `OpJmp`. -/
def JmpAddr.kFormat : JmpAddr → CString
  | abs | absLong => "%X".toList
  | ind _ _ => "(%X)".toList
  | indAbsX => "(%X,X)".toList

/-- `kMnemonic` of `OrImpl`, `AndImpl`, `XorImpl`. -/
def AluImpl.kMnemonic : AluImpl → CString
  | or => "ORA".toList
  | and => "AND".toList
  | xor => "EOR".toList

/-- `kMnemonic` of the `Impl` argument of `CondBranch`. -/
def BranchImpl.kMnemonic : BranchImpl → CString
  | bcc => "BCC".toList
  | bcs => "BCS".toList
  | beq => "BEQ".toList
  | bmi => "BMI".toList
  | bne => "BNE".toList
  | bpl => "BPL".toList
  | bra => "BRA".toList
  | bvc => "BVC".toList
  | bvs => "BCS".toList

namespace Op

/-- `kMnemonic` of the `Impl` arguments of `OpPush`. -/
def pushMnemonic : Reg → CString
  | .a => "PHA".toList
  | .d => "PHD".toList
  | .x => "PHX".toList
  | .y => "PHY".toList
  | .sp => []

/-- `kMnemonic` of the `Impl` arguments of `OpPop`. -/
def popMnemonic : Reg → CString
  | .a => "PLA".toList
  | .d => "PLD".toList
  | .x => "PLX".toList
  | .y => "PHY".toList
  | .sp => []

/-- `kMnemonic` of the `Impl` arguments of `IncDecReg`. -/
def incDecMnemonic : Reg → Int → CString
  | .x, 1 => "INX".toList
  | .y, 1 => "INY".toList
  | .a, 1 => "INA".toList
  | .x, -1 => "DEX".toList
  | .y, -1 => "DEY".toList
  | .a, -1 => "DEA".toList
  | _, _ => []

/-- `kMnemonic` of the `Impl` arguments of `OpLoad`. -/
def loadMnemonic : Reg → CString
  | .a => "LDA".toList
  | .x => "LDX".toList
  | .y => "LDY".toList
  | _ => []

/-- `kMnemonic` of the `Impl` arguments of `OpStore`. -/
def storeMnemonic : Reg → CString
  | .a => "STA".toList
  | .x => "STX".toList
  | .y => "STY".toList
  | _ => []

/-- `kMnemonic` of the `Impl` arguments of `MoveReg`, from the source to the destination. -/
def moveMnemonic : Reg → Reg → CString
  | .a, .x => "TAX".toList
  | .a, .y => "TAY".toList
  | .sp, .x => "TSX".toList
  | .x, .a => "TXA".toList
  | .x, .y => "TXY".toList
  | .y, .a => "TYA".toList
  | .y, .x => "TYX".toList
  | .a, .d => "TCD".toList
  | .d, .a => "TDC".toList
  | .sp, .a => "TSC".toList
  | _, _ => []

/-- `kMnemonic`.  The empty string stands where the source has no instance. -/
def kMnemonic : Op → CString
  | tsb _ => "TSB".toList
  | trb _ => "TRB".toList
  | bit _ | bitImm _ => "BIT".toList
  | alu impl _ => impl.kMnemonic
  | asl _ => "ASL".toList
  | lsr _ => "LSR".toList
  | ror _ | rol _ => "ROR".toList
  | clc => "CLC".toList
  | sec => "SEC".toList
  | cli => "CLI".toList
  | sei => "SEI".toList
  | cld => "CLD".toList
  | sed => "SED".toList
  | clv => "CLV".toList
  | rep => "REP".toList
  | sep => "SEP".toList
  | push kReg _ => pushMnemonic kReg
  | pop kReg _ => popMnemonic kReg
  | php => "PHP".toList
  | plp => "PLP".toList
  | phk => "PHK".toList
  | phb => "PHB".toList
  | plb => "PLB".toList
  | jmp _ pushPc _ => if pushPc then "JSR".toList else "JMP".toList
  | rts isLong => if isLong then "RTL".toList else "RTS".toList
  | rti => "RTI".toList
  | branch impl => impl.kMnemonic
  | brl => "BRL".toList
  | incMem _ => "INC".toList
  | decMem _ => "DEC".toList
  | incDecReg _ kReg delta => incDecMnemonic kReg delta
  | load _ kReg _ => loadMnemonic kReg
  | store _ kReg _ => storeMnemonic kReg
  | stz _ => "STZ".toList
  | adc _ => "ADC".toList
  | sbc _ => "SBC".toList
  | cmp _ => "CMP".toList
  | cpx _ => "CPX".toList
  | cpy _ => "CPY".toList
  | txs _ => "TXS".toList
  | tcs _ => "TCS".toList
  | moveReg _ source dest => moveMnemonic source dest
  | mvn => "MVN".toList
  | mvp => "MVP".toList
  | xba => "XBA".toList
  | xce => "XCE".toList
  | nop _ _ => "NOP".toList
  | wdm => "WDM".toList
  | pea => "PEA".toList
  | pei => "PEI".toList
  | per => "PER".toList
  | wai => "WAI".toList
  | stp => "STP".toList
  | brk => "BRK".toList
  | cop => "COP".toList
  | alr => "ALR".toList
  | anc => "ANC".toList
  | lax _ => "LAX".toList
  | sax _ => "SAX".toList

/-- `kParamFormat`. -/
def kParamFormat : Op → CString
  | tsb m | trb m | bit m | bitImm m | alu _ m | asl m | lsr m | ror m | rol m
  | incMem m | decMem m | load m _ _ | store m _ _ | stz m | adc m | sbc m | cmp m | cpx m
  | cpy m | lax m | sax m => m.kind.kFormat
  | jmp addr _ _ => addr.kFormat
  | rep | sep | pea => "#%X".toList
  | branch _ | brl | pei | per => "%X".toList
  | mvn | mvp => "%X,%X".toList
  | clc | sec | cli | sei | cld | sed | clv | push _ _ | pop _ _ | php | plp | phk | phb | plb
  | rts _ | rti | incDecReg _ _ _ | txs _ | tcs _ | moveReg _ _ _ | xba | xce | nop _ _ | wdm
  | wai | stp | brk | cop | alr | anc => []

/-! ### Which instruction a text names -/

def ofMode (mode : Mode) : List Op := (execOps mode).filterMap id

/-- The length of the shortest instruction with the mnemonic and the format of `o`. -/
def shortest : Op → Nat
  | nop _ _ => 1
  | o => o.kBytes

/-- `o'` can be taken for `o`. -/
def answers (o o' : Op) : Bool :=
  o'.kMnemonic = o.kMnemonic && o'.kParamFormat = o.kParamFormat && o'.kBytes == o.shortest

/-- The instructions whose text another instruction answers to first. -/
def shadowed : Op → Bool
  | ror _ => true
  | branch .bcs => true
  | pop .y _ => true
  | nop _ 2 => true
  | _ => false

def isNop : Op → Bool
  | nop _ _ => true
  | _ => false

/-- A number that depends on the characters only. -/
def textHash (s : CString) : Nat := s.foldl (fun n c => (32 * n + c.toNat % 32) % 65521) 0

/-- A number that depends on the text and the length only. -/
def key (o : Op) : Nat :=
  (7919 * textHash o.kMnemonic + 31 * textHash o.kParamFormat + o.kBytes) % 65521

/-- The numbers of the mnemonics of the instructions with `p`. -/
def mnemonicKeys (mode : Mode) (p : Op → Bool) : List Nat :=
  ((ofMode mode).filter p).map fun o => textHash o.kMnemonic

def implied (o : Op) : Bool := o.kParamFormat.isEmpty

/-- One that has an operand byte all the same. -/
def padded (o : Op) : Bool := o.implied && o.shortest == 2

/-- What is needed of the texts of a mode, in a form that is decided in one pass. -/
def textsOk (mode : Mode) : Bool :=
  BitSet.fresh ((ofMode mode).map fun o => (o.key, !(o.shadowed || o.isNop))) 0 &&
  BitSet.apart (mnemonicKeys mode implied) (mnemonicKeys mode fun o => !o.implied) &&
  BitSet.apart (mnemonicKeys mode padded) (mnemonicKeys mode fun o => o.implied && o.kBytes == 1) &&
  (ofMode mode).all fun o =>
    !o.kMnemonic.isEmpty && o.kMnemonic.all Char.isUpper &&
    decide (1 ≤ o.kBytes) && decide (o.kBytes ≤ 4) &&
    (!o.implied || decide (o.shortest ≤ 2)) &&
    (!(o.shadowed || o.isNop) ||
      match (ofMode mode).find? o.answers with
      | some o' => decide (o' = o) == !o.shadowed
      | none => false)

theorem textsOk_mode (mode : Mode) : textsOk mode = true := by
  cases mode <;> decide +kernel

variable {mode : Mode} {o o' : Op}

theorem mem_ofMode {opcode : BitVec 8} (h : (execOps mode).at opcode = some o) :
    o ∈ ofMode mode := by
  rw [InstructionSet.at, List.getD_eq_getElem?_getD] at h
  cases hrow : (execOps mode)[opcode.toNat]? with
  | none =>
    rw [hrow] at h
    cases h
  | some e =>
    rw [hrow, Option.getD_some] at h
    exact List.mem_filterMap.mpr ⟨e, List.mem_of_getElem? hrow, h⟩

theorem mem_mnemonicKeys {p : Op → Bool} (ho : o ∈ ofMode mode) (hp : p o) :
    textHash o.kMnemonic ∈ mnemonicKeys mode p :=
  List.mem_map.mpr ⟨o, List.mem_filter.mpr ⟨ho, hp⟩, rfl⟩

/-- What `textsOk` says of one instruction. -/
structure TextOk (mode : Mode) (o : Op) : Prop where
  kMnemonic_ne_nil : o.kMnemonic ≠ []
  isUpper : ∀ c ∈ o.kMnemonic, c.isUpper
  one_le_kBytes : 1 ≤ o.kBytes
  kBytes_le_four : o.kBytes ≤ 4
  shortest_le : o.implied → o.shortest ≤ 2
  find : o.shadowed ∨ o.isNop →
    ∃ o', (ofMode mode).find? o.answers = some o' ∧ (o' = o ↔ o.shadowed = false)

theorem textOk (ho : o ∈ ofMode mode) : TextOk mode o := by
  have h := textsOk_mode mode
  simp only [textsOk, Bool.and_eq_true] at h
  have hall := List.all_eq_true.mp h.2 o ho
  simp only [Bool.and_eq_true, Bool.or_eq_true, Bool.not_eq_true', List.isEmpty_eq_false_iff,
    List.all_eq_true, decide_eq_true_eq] at hall
  obtain ⟨⟨⟨⟨⟨hne, hupper⟩, hbytes⟩, hfour⟩, hshort⟩, hfind⟩ := hall
  refine ⟨hne, hupper, hbytes, hfour, fun himp => ?_, fun hs => ?_⟩
  · rcases hshort with hf | hle
    · rw [himp] at hf
      cases hf
    · exact hle
  · rcases hfind with hf | hfind
    · simp only [Bool.or_eq_false_iff] at hf
      rcases hs with hs | hs
      · rw [hf.1] at hs
        cases hs
      · rw [hf.2] at hs
        cases hs
    · cases hres : (ofMode mode).find? o.answers with
      | none =>
        rw [hres] at hfind
        cases hfind
      | some o' =>
        rw [hres] at hfind
        refine ⟨o', rfl, ?_⟩
        have heq := beq_iff_eq.mp hfind
        cases hs : o.shadowed with
        | true => simpa [hs] using heq
        | false => simpa [hs] using heq

/-- Instructions with one mnemonic all have an operand or all have none. -/
theorem implied_eq (ho : o ∈ ofMode mode) (ho' : o' ∈ ofMode mode)
    (h : o'.kMnemonic = o.kMnemonic) : o'.implied = o.implied := by
  have hok := textsOk_mode mode
  simp only [textsOk, Bool.and_eq_true] at hok
  have hapart := hok.1.1.2
  cases hi : o.implied with
  | true =>
    cases hi' : o'.implied with
    | true => rfl
    | false =>
      refine absurd (congrArg textHash h.symm)
        (BitSet.ne_of_apart hapart (mem_mnemonicKeys ho hi) ?_)
      exact mem_mnemonicKeys ho' (by rw [hi']; rfl)
  | false =>
    cases hi' : o'.implied with
    | true =>
      refine absurd (congrArg textHash h) (BitSet.ne_of_apart hapart (mem_mnemonicKeys ho' hi') ?_)
      exact mem_mnemonicKeys ho (by rw [hi]; rfl)
    | false => rfl

/-- No instruction without operand that has the mnemonic of `o` is shorter than `shortest`. -/
theorem shortest_le_kBytes (ho : o ∈ ofMode mode) (ho' : o' ∈ ofMode mode)
    (h : o'.kMnemonic = o.kMnemonic) (hi : o.implied) : o.shortest ≤ o'.kBytes := by
  have hok := textsOk_mode mode
  simp only [textsOk, Bool.and_eq_true] at hok
  have hapart := hok.1.2
  have hi' : o'.implied := by rw [implied_eq ho ho' h, hi]
  have hone := (textOk ho').one_le_kBytes
  have htwo := (textOk ho).shortest_le hi
  by_contra hlt
  have hs : o.shortest = 2 := by omega
  have hb : o'.kBytes = 1 := by omega
  refine BitSet.ne_of_apart hapart (mem_mnemonicKeys ho ?_) (mem_mnemonicKeys ho' ?_)
    (congrArg textHash h.symm)
  · simp [padded, hi, hs]
  · simp [hi', hb]

/-- **The first instruction that answers to a text.**  It is the one that has the text, unless
that one is shadowed. -/
theorem find_answers (ho : o ∈ ofMode mode) :
    ∃ o', (ofMode mode).find? o.answers = some o' ∧ (o' = o ↔ o.shadowed = false) := by
  by_cases hs : o.shadowed ∨ o.isNop
  · exact (textOk ho).find hs
  · have hsh : o.shadowed = false := by
      cases h : o.shadowed with
      | true => exact absurd (Or.inl h) hs
      | false => rfl
    have hnop : o.isNop = false := by
      cases h : o.isNop with
      | true => exact absurd (Or.inr h) hs
      | false => rfl
    refine ⟨o, ?_, fun _ => hsh, fun _ => rfl⟩
    have hok := textsOk_mode mode
    simp only [textsOk, Bool.and_eq_true] at hok
    have hfresh := hok.1.1.1
    obtain ⟨l, l', hl⟩ := List.append_of_mem ho
    have hkey : ∀ o' ∈ l, o'.key ≠ o.key := by
      rw [hl, List.map_append, List.map_cons, hsh, hnop] at hfresh
      intro o' ho'
      exact (BitSet.ne_of_fresh hfresh).2 (o'.key, _) (List.mem_map.mpr ⟨o', ho', rfl⟩)
    have hshort : o.shortest = o.kBytes := by
      cases o <;> first | rfl | cases hnop
    have hself : o.answers o := by simp [answers, hshort]
    have hl0 : l.find? o.answers = none := by
      rw [List.find?_eq_none]
      intro o' ho' ha
      simp only [answers, hshort, Bool.and_eq_true, decide_eq_true_eq, beq_iff_eq] at ha
      refine hkey o' ho' ?_
      rw [key, key, ha.1.1, ha.1.2, ha.2]
    rw [hl, List.find?_append, hl0, Option.none_or, List.find?_cons_of_pos hself]

end Op

end RetroCpu
