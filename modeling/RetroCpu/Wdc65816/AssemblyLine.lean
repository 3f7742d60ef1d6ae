import RetroCpu.Wdc65816.Operand
import RetroCpu.Lib.LittleEndian
import Mathlib.Data.List.Basic

/-!
# The assembler against the opcode tables

The mnemonic and the format of an instruction make a line, and `Assemble` should give the
instruction back.  Where it does not, another instruction has the same text and comes first
(`Op.shadowed`), or there are two operands, of which `TryMatch` keeps the second.

`inverts_iff` says that this is all.
-/

namespace RetroCpu

namespace Op

def operands (o : Op) : Nat := Piece.count (Piece.parse o.kParamFormat)

/-- The operand bytes for each. -/
def width (o : Op) : Nat := (o.kBytes - 1) / o.operands

def line (o : Op) (ns : List Numeral) : CString :=
  o.kMnemonic ++ ' ' :: (Piece.fill (Piece.parse o.kParamFormat) ns ++ ['\n'])

/-- Operands that fit the operand bytes and need all of them. -/
structure Takes (o : Op) (ns : List Numeral) : Prop where
  length : ns.length = o.operands
  fits : ∀ n ∈ ns, n.value < 256 ^ o.width
  needs : ∀ n ∈ ns, 1 < o.width → 256 ^ (o.width - 1) ≤ n.value

/-- The operand bytes of the instruction, lowest first, one operand after the other. -/
def Encodes (o : Op) (ns : List Numeral) (bs : List Byte) : Prop :=
  bs.length = o.kBytes - 1 ∧ (ns ≠ [] → bs = ns.flatMap fun n => leBytes o.width n.value)

end Op

/-- The operand bytes a format leaves room for. -/
theorem AddrKind.count_kFormat (kind : AddrKind) :
    Piece.count (Piece.parse kind.kFormat) = 0 ∧ kind.bytes = 0 ∨
      Piece.count (Piece.parse kind.kFormat) = 1 ∧ 1 ≤ kind.bytes ∧ kind.bytes ≤ 3 := by
  cases kind with
  | a => exact Or.inl ⟨rfl, rfl⟩
  | imm effectiveSize => cases effectiveSize <;> exact Or.inr ⟨rfl, by decide, by decide⟩
  | _ => exact Or.inr ⟨rfl, by simp [bytes], by simp [bytes]⟩

namespace Op

inductive Shape (o : Op) : Prop
  | none (h : o.operands = 0) (hb : o.implied ∨ o.kBytes = 1)
  | one (h : o.operands = 1) (hlo : 2 ≤ o.kBytes) (hhi : o.kBytes ≤ 4) (hs : o.shortest = o.kBytes)
  | two (h : o.operands = 2) (hb : o.kBytes = 3) (hs : o.shortest = o.kBytes)

theorem shape_of_mode {o : Op} {m : AddrMode} (hf : o.kParamFormat = m.kind.kFormat)
    (hb : o.kBytes = 1 + m.kind.bytes) (hs : o.shortest = o.kBytes) : o.Shape := by
  rcases m.kind.count_kFormat with ⟨hc, hk⟩ | ⟨hc, hlo, hhi⟩
  · exact .none (by rw [operands, hf, hc]) (Or.inr (by rw [hb, hk]))
  · exact .one (by rw [operands, hf, hc]) (by omega) (by omega) hs

theorem shape (o : Op) : o.Shape := by
  cases o with
  | jmp addr _ isLongJump =>
    cases addr <;> cases isLongJump <;> exact .one rfl (by simp [kBytes]) (by simp [kBytes]) rfl
  | rep | sep | pea | branch _ | brl | pei | per =>
    exact .one rfl (by simp [kBytes]) (by simp [kBytes]) rfl
  | mvn | mvp => exact .two rfl rfl rfl
  | tsb m | trb m | bit m | bitImm m | alu _ m | asl m | lsr m | ror m | rol m | incMem m
  | decMem m | load m _ _ | store m _ _ | stz m | adc m | sbc m | cmp m | cpx m | cpy m
  | lax m | sax m => exact shape_of_mode rfl rfl rfl
  | _ => exact .none rfl (Or.inl rfl)

end Op

/-! ### The formats that match -/

theorem CString.skipWhitespace_append {blanks : CString} (h : ∀ c ∈ blanks, isspace c)
    (p : CString) : skipWhitespace (blanks ++ p) = p.skipWhitespace :=
  List.dropWhile_append_of_pos h

/-- Whitespace before the operand is skipped. -/
theorem CString.tryMatch_blanks {f : CString} (hf : f ≠ [])
    (hw : Piece.wellFormed (Piece.parse f)) {blanks : CString} (hblanks : ∀ c ∈ blanks, isspace c)
    (p : CString) (v : BitVec 32) :
    CString.tryMatch (blanks ++ p) v f = CString.tryMatch p v f := by
  have hskip := skipWhitespace_append hblanks p
  rw [← Piece.unparse_parse f]
  cases hps : Piece.parse f with
  | nil =>
    have hnil := Piece.unparse_parse f
    rw [hps] at hnil
    exact absurd hnil.symm hf
  | cons q ps =>
    cases q with
    | lit c =>
      rw [hps, Piece.wellFormed, Bool.and_eq_true] at hw
      have hc := plain_iff hw.1
      rw [Piece.unparse, CString.tryMatch_lit hc, CString.tryMatch_lit hc, hskip]
    | num => rw [Piece.unparse, CString.tryMatch_num, CString.tryMatch_num, hskip]

namespace Op

variable {mode : Mode} {o o' : Op} {ns : List Numeral}

def tail (o : Op) (ns : List Numeral) : CString :=
  ' ' :: (Piece.fill (Piece.parse o.kParamFormat) ns ++ ['\n'])

def rest (o : Op) : CString := if o.implied then [' ', '\n'] else ['\n']

theorem implied_iff (o : Op) : o.implied = true ↔ o.kParamFormat = [] := List.isEmpty_iff

theorem tryMatch_tail (ho : o ∈ ofMode mode) (ho' : o' ∈ ofMode mode)
    (h : o'.kMnemonic = o.kMnemonic) (hn : ns.length = o.operands) :
    CString.tryMatch (o.tail ns) 0 o'.kParamFormat =
      if o'.kParamFormat = o.kParamFormat then some (lastNumber ns 0, o.rest) else none := by
  have himp := implied_eq ho ho' h
  cases hi : o.implied with
  | true =>
    have hf := (implied_iff o).mp hi
    have hf' := (implied_iff o').mp (by rw [himp, hi])
    obtain rfl : ns = [] := by
      refine List.eq_nil_of_length_eq_zero ?_
      rw [hn, operands, hf]
      rfl
    rw [tail, rest, hf, hf', hi]
    rfl
  | false =>
    have hne : o'.kParamFormat ≠ [] := by
      rw [ne_eq, ← implied_iff, himp, hi]
      exact Bool.false_ne_true
    have hparse : Piece.parse o'.kParamFormat = Piece.parse o.kParamFormat ↔
        o'.kParamFormat = o.kParamFormat := by
      constructor
      · intro heq
        rw [← Piece.unparse_parse o'.kParamFormat, heq, Piece.unparse_parse]
      · exact congrArg _
    have hfill := tryMatch_fill o'.wellFormed_kParamFormat o.wellFormed_kParamFormat hn
      (show CString.Trailing ['\n'] from ⟨rfl, rfl⟩) 0
    rw [Piece.unparse_parse] at hfill
    have hspace : ∀ c ∈ [' '], CString.isspace c := List.all_eq_true.mp rfl
    have hblanks := CString.tryMatch_blanks hne o'.wellFormed_kParamFormat hspace
    rw [tail, ← List.singleton_append, hblanks, hfill, rest, hi]
    simp only [hparse]
    rfl

end Op

/-! ### The choice -/

namespace Assembling

def tooLarge (v : BitVec 32) (b : Nat) : Prop := 1 < b ∧ (1 : BitVec 32) <<< (8 * (b - 1)) ≤ v

structure Candidates (p : CString) (v : BitVec 32) (k : Nat) (l : List Instruction) : Prop where
  arg : ∀ e ∈ l, ((p.tryMatch 0 e.format).map (·.1)).getD 0 = v
  fits : ∀ e ∈ l, ¬ tooLarge v e.bytes ↔ k ≤ e.bytes

variable {p : CString} {v : BitVec 32} {k : Nat} {l : List Instruction}

theorem Candidates.tail {e : Instruction} (h : Candidates p v k (e :: l)) : Candidates p v k l :=
  ⟨fun e' he' => h.arg e' (List.mem_cons_of_mem _ he'),
    fun e' he' => h.fits e' (List.mem_cons_of_mem _ he')⟩

theorem Candidates.better {e : Instruction} (h : Candidates p v k (e :: l))
    (best : Option Instruction) :
    Assembling.better p best e = if e.bytes < k then best else
      match best with
      | none => some e
      | some b => if e.bytes < b.bytes then some e else best := by
  have he := List.mem_cons_self (a := e) (l := l)
  have hfits := h.fits e he
  unfold Assembling.better
  rw [h.arg e he]
  by_cases hlt : e.bytes < k
  · have hlarge : tooLarge v e.bytes := by
      by_contra hn
      exact absurd (hfits.mp hn) (Nat.not_le.mpr hlt)
    rw [if_pos hlt]
    exact if_pos hlarge
  · rw [if_neg hlt]
    exact if_neg (hfits.mpr (Nat.not_lt.mp hlt))

/-- Nothing is better than an instruction of the least length that fits. -/
theorem foldl_better_of_eq (h : Candidates p v k l) {b : Instruction} (hb : b.bytes = k) :
    l.foldl (better p) (some b) = some b := by
  induction l with
  | nil => rfl
  | cons e l ih =>
    rw [List.foldl_cons, h.better]
    split
    · exact ih h.tail
    · next hlt =>
      have hnlt : ¬ e.bytes < b.bytes := by rw [hb]; exact hlt
      simp only [if_neg hnlt]
      exact ih h.tail

/-- The loop finds the first of them. -/
theorem foldl_better (h : Candidates p v k l) {best : Option Instruction}
    (hbest : ∀ b, best = some b → k < b.bytes) (hex : ∃ e ∈ l, e.bytes = k) :
    l.foldl (better p) best = l.find? (·.bytes == k) := by
  induction l generalizing best with
  | nil =>
    obtain ⟨e, he, -⟩ := hex
    cases he
  | cons e l ih =>
    rw [List.foldl_cons, h.better]
    by_cases hk : e.bytes = k
    · rw [if_neg (Nat.not_lt.mpr (Nat.le_of_eq hk.symm)), List.find?_cons_of_pos (by simp [hk])]
      cases best with
      | none => exact foldl_better_of_eq h.tail hk
      | some b =>
        have hlt : e.bytes < b.bytes := by
          rw [hk]
          exact hbest b rfl
        simp only [if_pos hlt]
        exact foldl_better_of_eq h.tail hk
    · rw [List.find?_cons_of_neg (by simp [hk])]
      have hex' : ∃ e ∈ l, e.bytes = k := by
        obtain ⟨e', he', hk'⟩ := hex
        rcases List.mem_cons.mp he' with rfl | he'
        · exact absurd hk' hk
        · exact ⟨e', he', hk'⟩
      refine ih h.tail (fun b hb => ?_) hex'
      split at hb
      · exact hbest b hb
      · next hlt =>
        have hgt : k < e.bytes := by omega
        cases best with
        | none =>
          cases hb
          exact hgt
        | some b' =>
          dsimp only at hb
          split at hb
          · cases hb
            exact hgt
          · cases hb
            exact hbest b rfl

end Assembling

namespace Op

variable {mode : Mode} {o o' : Op} {ns : List Numeral}

theorem Takes.width_le (h : o.operands = 1) (hb : o.kBytes ≤ 4) : 256 ^ o.width ≤ 256 ^ 3 := by
  rw [width, h, Nat.div_one]
  exact Nat.pow_le_pow_right (by decide) (by omega)

theorem lastNumber_singleton {n : Numeral} (h : o.Takes [n]) :
    (lastNumber [n] 0).toNat = n.value := by
  have hfit := h.fits n (List.mem_singleton_self n)
  rcases o.shape with ⟨ho, -⟩ | ⟨ho, -, hhi, -⟩ | ⟨ho, -, -⟩
  · exact absurd (h.length.trans ho) (by simp)
  · have hle := Takes.width_le ho hhi
    show (BitVec.ofNat 32 n.value).toNat = n.value
    rw [BitVec.toNat_ofNat, Nat.mod_eq_of_lt]
    omega
  · exact absurd (h.length.trans ho) (by simp)

theorem lastNumber_pair {n n' : Numeral} (h : o.Takes [n, n']) :
    (lastNumber [n, n'] 0).toNat = n'.value := by
  have hfit := h.fits n' (by simp)
  rcases o.shape with ⟨ho, -⟩ | ⟨ho, -, -⟩ | ⟨ho, hb, -⟩
  · exact absurd (h.length.trans ho) (by simp)
  · exact absurd (h.length.trans ho) (by simp)
  · rw [width, ho, hb] at hfit
    show (BitVec.ofNat 32 n'.value).toNat = n'.value
    rw [BitVec.toNat_ofNat, Nat.mod_eq_of_lt]
    omega

/-- What is left of the operands. -/
theorem lastNumber_bounds (h : o.Takes ns) :
    (lastNumber ns 0).toNat < 256 ^ (o.shortest - 1) ∧
      (2 < o.shortest → o.operands = 1 → 256 ^ (o.shortest - 2) ≤ (lastNumber ns 0).toNat) := by
  rcases o.shape with ⟨ho, -⟩ | ⟨ho, hlo, hhi, hs⟩ | ⟨ho, hb, hs⟩
  · obtain rfl : ns = [] := List.eq_nil_of_length_eq_zero (h.length.trans ho)
    refine ⟨Nat.pow_pos (by decide), fun _ h1 => ?_⟩
    rw [ho] at h1
    cases h1
  · obtain ⟨n, rfl⟩ := List.length_eq_one_iff.mp (h.length.trans ho)
    have hw : o.width = o.kBytes - 1 := by rw [width, ho, Nat.div_one]
    have hfit := h.fits n (List.mem_singleton_self n)
    have hneed := h.needs n (List.mem_singleton_self n)
    rw [lastNumber_singleton h, hs]
    rw [hw] at hfit hneed
    exact ⟨hfit, fun h2 _ => hneed (by omega)⟩
  · obtain ⟨n, n', rfl⟩ := List.length_eq_two.mp (h.length.trans ho)
    have hfit := h.fits n' (by simp)
    rw [width, ho, hb] at hfit
    rw [lastNumber_pair h, hs, hb]
    refine ⟨by omega, fun _ h1 => ?_⟩
    rw [ho] at h1
    cases h1

theorem tooLarge_iff {v : BitVec 32} {b : Nat} (h1 : 1 ≤ b) (h4 : b ≤ 4) :
    Assembling.tooLarge v b ↔ 1 < b ∧ 256 ^ (b - 1) ≤ v.toNat := by
  rw [Assembling.tooLarge, BitVec.le_def, BitVec.toNat_shiftLeft]
  interval_cases b <;> simp

theorem shortest_le_one (h : o.kBytes = 1) : o.shortest ≤ 1 := by
  cases o <;> first | exact Nat.le_of_eq h | exact Nat.le_refl 1

theorem two_le_kBytes (h : 1 ≤ o.operands) : 2 ≤ o.kBytes := by
  rcases o.shape with ⟨hz, -⟩ | ⟨-, hlo, -⟩ | ⟨-, h3, -⟩ <;> omega

theorem mem_group {e : Instruction} {mnemonic : CString}
    (he : e ∈ instructionsByMnemonic mode mnemonic) :
    ∃ o' ∈ ofMode mode, o'.kMnemonic = mnemonic ∧ e.bytes = o'.kBytes ∧
      e.format = o'.kParamFormat := by
  obtain ⟨j, hj, he⟩ := List.mem_filterMap.mp he
  cases hrow : (execOps mode).getD j none with
  | none =>
    rw [hrow] at he
    cases he
  | some o' =>
    simp only [hrow] at he
    split at he
    · next hm =>
      cases he
      have hget : (execOps mode)[j]? = some (some o') := by
        rw [List.getD_eq_getElem?_getD] at hrow
        cases hq : (execOps mode)[j]? with
        | none =>
          rw [hq] at hrow
          cases hrow
        | some q =>
          rw [hq, Option.getD_some] at hrow
          rw [hrow]
      exact ⟨o', List.mem_filterMap.mpr ⟨some o', List.mem_of_getElem? hget, rfl⟩, hm, rfl, rfl⟩
    · cases he

def group (mode : Mode) (o : Op) : List Instruction :=
  (instructionsByMnemonic mode o.kMnemonic).filter fun e => e.format = o.kParamFormat

theorem candidates (ho : o ∈ ofMode mode) (h : o.Takes ns) :
    Assembling.Candidates (o.tail ns) (lastNumber ns 0) o.shortest (group mode o) := by
  have hof : ∀ e ∈ group mode o, ∃ o' ∈ ofMode mode, o'.kMnemonic = o.kMnemonic ∧
      e.bytes = o'.kBytes ∧ e.format = o'.kParamFormat ∧ o'.kParamFormat = o.kParamFormat := by
    intro e he
    obtain ⟨he, hf⟩ := List.mem_filter.mp he
    obtain ⟨o', ho', hm, hb, hf'⟩ := mem_group he
    exact ⟨o', ho', hm, hb, hf', hf' ▸ of_decide_eq_true hf⟩
  constructor
  · intro e he
    obtain ⟨o', ho', hm, -, hf', hf⟩ := hof e he
    rw [hf', tryMatch_tail ho ho' hm h.length, if_pos hf]
    rfl
  · intro e he
    obtain ⟨o', ho', hm, hb, -, hf⟩ := hof e he
    obtain ⟨hlt, hge⟩ := lastNumber_bounds h
    have hops : o'.operands = o.operands := by rw [operands, operands, hf]
    have h1 := (textOk ho').one_le_kBytes
    have h4 := (textOk ho').kBytes_le_four
    rw [hb, tooLarge_iff h1 h4]
    have hup : o.shortest ≤ o'.kBytes →
        ¬ (1 < o'.kBytes ∧ 256 ^ (o'.kBytes - 1) ≤ (lastNumber ns 0).toNat) := by
      rintro hle ⟨-, hge'⟩
      have hpow : 256 ^ (o.shortest - 1) ≤ 256 ^ (o'.kBytes - 1) :=
        Nat.pow_le_pow_right (by decide) (by omega)
      omega
    refine ⟨fun hn => ?_, hup⟩
    rcases o.shape with ⟨hz, hs⟩ | ⟨hone, hlo, hhi, hs⟩ | ⟨htwo, h3, hs⟩
    · rcases hs with hs | hs
      · exact shortest_le_kBytes ho ho' hm hs
      · exact Nat.le_trans (shortest_le_one hs) h1
    · by_contra hgt
      refine hn ⟨two_le_kBytes (by omega), ?_⟩
      have hpow : 256 ^ (o'.kBytes - 1) ≤ 256 ^ (o.shortest - 2) :=
        Nat.pow_le_pow_right (by decide) (by omega)
      have h2 := two_le_kBytes (o := o') (by omega)
      exact Nat.le_trans hpow (hge (by omega) hone)
    · rcases o'.shape with ⟨hz, -⟩ | ⟨hone, -⟩ | ⟨-, h3', -⟩
      · omega
      · omega
      · omega

theorem length_execOps (mode : Mode) : (execOps mode).length = 256 := by
  cases mode <;> decide +kernel

theorem ofMode_eq (mode : Mode) :
    ofMode mode = (List.range 256).filterMap fun j => (execOps mode).getD j none := by
  have hrow : execOps mode = (List.range 256).map fun j => (execOps mode).getD j none := by
    refine List.ext_getElem (by rw [length_execOps, List.length_map, List.length_range]) ?_
    intro j hj _
    rw [List.getElem_map, List.getElem_range, List.getD_eq_getElem?_getD,
      List.getElem?_eq_getElem hj, Option.getD_some]
  rw [ofMode, hrow, List.filterMap_map, ← hrow]
  rfl

/-- The entry of an opcode under `mnemonic`. -/
theorem instructionsByMnemonic_eq (mode : Mode) (mnemonic : CString) :
    instructionsByMnemonic mode mnemonic = (List.range 256).filterMap fun j =>
      ((execOps mode).getD j none).bind fun o =>
        if o.kMnemonic = mnemonic then some ⟨BitVec.ofNat 8 j, o.kBytes, o.kParamFormat⟩
        else none := by
  rw [instructionsByMnemonic]
  congr 1
  funext j
  cases (execOps mode).getD j none with
  | none => rfl
  | some o => rfl

/-- The instruction of the first opcode with the text of `o`. -/
theorem find_group (h : (ofMode mode).find? o.answers = some o') :
    ∃ opcode, (execOps mode).at opcode = some o' ∧
      (group mode o).find? (·.bytes == o.shortest) =
        some ⟨opcode, o'.kBytes, o'.kParamFormat⟩ := by
  rw [ofMode_eq, List.find?_filterMap] at h
  obtain ⟨j, hj, hrow⟩ := Option.bind_eq_some_iff.mp h
  have hlt : j < 256 := List.mem_range.mp (List.mem_of_find?_eq_some hj)
  have hans := List.find?_some hj
  rw [hrow, Option.any_some] at hans
  have hm : o'.kMnemonic = o.kMnemonic := by
    simp only [answers, Bool.and_eq_true, decide_eq_true_eq] at hans
    exact hans.1.1
  refine ⟨BitVec.ofNat 8 j, ?_, ?_⟩
  · rw [InstructionSet.at, BitVec.toNat_ofNat, Nat.mod_eq_of_lt hlt]
    exact hrow
  · rw [group, List.find?_filter, instructionsByMnemonic_eq, List.find?_filterMap]
    have hpred : ∀ j, Option.any (fun e : Instruction =>
        decide (decide (e.format = o.kParamFormat) = true ∧ (e.bytes == o.shortest) = true))
        (((execOps mode).getD j none).bind fun o' =>
          if o'.kMnemonic = o.kMnemonic then
            some ⟨BitVec.ofNat 8 j, o'.kBytes, o'.kParamFormat⟩
          else none) =
        Option.any o.answers ((execOps mode).getD j none) := by
      intro j
      cases (execOps mode).getD j none with
      | none => rfl
      | some o' =>
        rw [Option.bind_some]
        by_cases hm : o'.kMnemonic = o.kMnemonic
        · rw [if_pos hm]
          simp [answers, hm, Bool.beq_eq_decide_eq]
        · rw [if_neg hm]
          simp [answers, hm]
    refine Option.bind_eq_some_iff.mpr ⟨j, ?_, ?_⟩
    · rw [← hj]
      congr 1
      funext j
      exact hpred j
    · rw [hrow, Option.bind_some, if_pos hm]

end Op

/-! ### The run -/

namespace Assembling

/-- `emit` gives the lowest bytes. -/
theorem emit_eq (n : Nat) (v : BitVec 32) : emit n v = (leBytes n v.toNat, v >>> (8 * n)) := by
  induction n generalizing v with
  | zero => rfl
  | succ n ih =>
    have hv : (v >>> 8).toNat = v.toNat / 256 := by
      rw [BitVec.toNat_ushiftRight, Nat.shiftRight_eq_div_pow]
    have hlow : v.setWidth 8 = BitVec.ofNat 8 v.toNat := by
      apply BitVec.eq_of_toNat_eq
      simp
    rw [emit, ih, leBytes, hv, hlow, ← BitVec.shiftRight_add, Nat.mul_add, Nat.mul_one,
      Nat.add_comm 8]

variable {mode : Mode} {o o' : Op} {ns : List Numeral}

/-- The candidates are the instructions with the text. -/
theorem choose_tail (ho : o ∈ Op.ofMode mode) (h : o.Takes ns) {e : Instruction}
    (he : (o.group mode).find? (·.bytes == o.shortest) = some e) :
    choose (o.tail ns) (instructionsByMnemonic mode o.kMnemonic) = some e := by
  have hfilter : (instructionsByMnemonic mode o.kMnemonic).filter
      (fun e => ((o.tail ns).tryMatch 0 e.format).isSome) = o.group mode := by
    refine List.filter_congr fun e he => ?_
    obtain ⟨o', ho', hm, -, hf⟩ := Op.mem_group he
    rw [hf, Op.tryMatch_tail ho ho' hm h.length]
    split
    · next hf' => simp [hf']
    · next hf' => simp [hf']
  have hmem := List.mem_of_find?_eq_some he
  have hbytes := List.find?_some he
  rw [choose, hfilter, foldl_better (Op.candidates ho h) (fun _ hb => by cases hb)
    ⟨e, hmem, beq_iff_eq.mp hbytes⟩, he]

theorem instruction_tail (ho : o ∈ Op.ofMode mode) (h : o.Takes ns)
    (hfind : (Op.ofMode mode).find? o.answers = some o') {a : Assembling}
    (hmode : a.currentMode = mode) (hp : a.p = o.tail ns) :
    ∃ opcode, (execOps mode).at opcode = some o' ∧
      instruction o.kMnemonic a = .continues { a with
        p := o.rest
        bytes := a.bytes ++ opcode :: leBytes (o.shortest - 1) (lastNumber ns 0).toNat } := by
  obtain ⟨opcode, hat, hbest⟩ := Op.find_group hfind
  refine ⟨opcode, hat, ?_⟩
  have hans := List.find?_some hfind
  simp only [Op.answers, Bool.and_eq_true, decide_eq_true_eq, beq_iff_eq] at hans
  obtain ⟨⟨hm, hf⟩, hb⟩ := hans
  have hchoose := choose_tail ho h hbest
  have ho' : o' ∈ Op.ofMode mode := Op.mem_ofMode hat
  have hmatch := Op.tryMatch_tail ho ho' hm h.length
  rw [if_pos hf] at hmatch
  have hzero : lastNumber ns 0 >>> (8 * (o.shortest - 1)) = 0 := by
    apply BitVec.eq_of_toNat_eq
    have hlt := (Op.lastNumber_bounds h).1
    rw [BitVec.toNat_ushiftRight, Nat.shiftRight_eq_div_pow, Nat.pow_mul]
    exact Nat.div_eq_of_lt hlt
  unfold instruction
  rw [hmode, hp]
  cases hl : instructionsByMnemonic mode o.kMnemonic with
  | nil =>
    rw [hl] at hchoose
    cases hchoose
  | cons e es =>
    rw [hl] at hchoose
    simp only [hchoose, hmatch, Option.getD_some, emit_eq, hb, hzero]
    rw [if_neg (by decide)]
    simp

structure Letter (c : Char) : Prop where
  isspace : CString.isspace c = false
  isToken : CString.isToken c = true
  toUpper : c.toUpper = c
  isAlpha : c.isAlpha = true
  ne_nul : c ≠ Char.ofNat 0
  ne_semicolon : c ≠ ';'
  ne_period : c ≠ '.'

theorem letter_of_isUpper {c : Char} (h : c.isUpper) : Letter c := by
  have hb : 65 ≤ c.toNat ∧ c.toNat ≤ 90 := by
    have hupper : c.isUpper = decide (65 ≤ c.toNat ∧ c.toNat ≤ 90) := rfl
    rw [hupper] at h
    exact of_decide_eq_true h
  obtain ⟨hlo, hhi⟩ := hb
  have hof : c = Char.ofNat c.toNat := (Char.ofNat_toNat c).symm
  generalize c.toNat = k at hlo hhi hof
  subst hof
  interval_cases k <;> exact ⟨rfl, rfl, rfl, rfl, by decide, by decide, by decide⟩

theorem getToken_line (ho : o ∈ Op.ofMode mode) (ns : List Numeral) :
    (o.line ns).getToken = (o.kMnemonic, o.tail ns) := by
  have hletter : ∀ c ∈ o.kMnemonic, Letter c :=
    fun c hc => letter_of_isUpper ((Op.textOk ho).isUpper c hc)
  have htake : (o.line ns).takeWhile CString.isToken = o.kMnemonic := by
    rw [Op.line, List.takeWhile_append_of_pos fun c hc => (hletter c hc).isToken]
    exact List.append_nil _
  have hdrop : (o.line ns).dropWhile CString.isToken = o.tail ns := by
    rw [Op.line, List.dropWhile_append_of_pos fun c hc => (hletter c hc).isToken]
    rfl
  have hupper : o.kMnemonic.map Char.toUpper = o.kMnemonic :=
    (List.map_congr_left (g := id) fun c hc => (hletter c hc).toUpper).trans (List.map_id _)
  rw [CString.getToken, htake, hdrop, hupper]

theorem iterate_line (ho : o ∈ Op.ofMode mode) {a : Assembling} (hp : a.p = o.line ns) :
    a.iterate = instruction o.kMnemonic { a with p := o.tail ns } := by
  obtain ⟨longA, longXy, m, p, error, bytes⟩ := a
  obtain rfl : p = o.line ns := hp
  have htoken := getToken_line ho ns
  obtain ⟨c, m', hm⟩ := List.exists_cons_of_ne_nil (Op.textOk ho).kMnemonic_ne_nil
  have hc : Letter c := letter_of_isUpper ((Op.textOk ho).isUpper c (by simp [hm]))
  have hline : o.line ns = c :: (m' ++ o.tail ns) := by
    rw [Op.line, hm]
    rfl
  have hskip : (o.line ns).skipWhitespace = o.line ns := by
    rw [hline]
    exact CString.skipWhitespace_cons hc.isspace _
  have hpeek : (o.line ns).peek = c := by
    rw [hline]
    rfl
  have hfirst : CString.peek o.kMnemonic = c := by
    rw [hm]
    rfl
  simp only [iterate, hpeek, if_neg hc.ne_nul, hskip, if_neg hc.ne_semicolon, token, htoken,
    hfirst, if_neg hc.ne_period, hc.isAlpha, if_true]

/-- Nothing is left to assemble. -/
theorem assemble_rest {a : Assembling} (hp : a.p = o.rest) :
    assemble 2 a = some (true, { a with p := [] }) := by
  obtain ⟨longA, longXy, m, p, error, bytes⟩ := a
  obtain rfl : p = o.rest := hp
  unfold Op.rest
  split <;> rfl

/-- **What the line of an instruction is assembled to**: the first instruction with its text,
and the number that `TryMatch` kept. -/
theorem assemble_line (ho : o ∈ Op.ofMode mode) (h : o.Takes ns)
    (hfind : (Op.ofMode mode).find? o.answers = some o') {a : Assembling}
    (hmode : a.currentMode = mode) (hp : a.p = o.line ns) :
    ∃ opcode, (execOps mode).at opcode = some o' ∧
      assemble 3 a = some (true, { a with
        p := []
        bytes := a.bytes ++ opcode :: leBytes (o.shortest - 1) (lastNumber ns 0).toNat }) := by
  obtain ⟨opcode, hat, hi⟩ :=
    instruction_tail (a := { a with p := o.tail ns }) ho h hfind hmode rfl
  refine ⟨opcode, hat, ?_⟩
  rw [assemble, iterate_line ho hp, hi]
  exact assemble_rest rfl

/-- `Assemble` returns one thing. -/
theorem assemble_unique {n n' : Nat} {a : Assembling} {r r' : Bool × Assembling}
    (h : assemble n a = some r) (h' : assemble n' a = some r') : r = r' := by
  induction n generalizing n' a with
  | zero => cases h
  | succ n ih =>
    cases n' with
    | zero => cases h'
    | succ n' =>
      rw [assemble] at h h'
      cases hi : a.iterate with
      | returns ok b =>
        rw [hi] at h h'
        exact Option.some.inj (h.symm.trans h')
      | continues b =>
        rw [hi] at h h'
        exact ih h h'

/-- The assembler gives an instruction back.  Its line, with the operands `ns`, is assembled to
an opcode with the same handler and to bytes that encode the operands. -/
def Inverts (mode : Mode) (o : Op) (ns : List Numeral) : Prop :=
  ∀ a : Assembling, a.currentMode = mode → a.p = o.line ns →
    ∃ n a' opcode operands, assemble n a = some (true, a') ∧
      a'.bytes = a.bytes ++ opcode :: operands ∧ (execOps mode).at opcode = some o ∧
      o.Encodes ns operands

theorem encodes_iff (h : o.Takes ns) (hs : o.shortest = o.kBytes) :
    o.Encodes ns (leBytes (o.shortest - 1) (lastNumber ns 0).toNat) ↔
      (ns.length = 2 → ∀ n ∈ ns, n.value = 0) := by
  have hlen : (leBytes (o.shortest - 1) (lastNumber ns 0).toNat).length = o.kBytes - 1 := by
    rw [length_leBytes, hs]
  rw [Op.Encodes, and_iff_right hlen]
  rcases o.shape with ⟨hz, -⟩ | ⟨hone, hlo, hhi, -⟩ | ⟨htwo, h3, -⟩
  · obtain rfl : ns = [] := List.eq_nil_of_length_eq_zero (h.length.trans hz)
    exact ⟨fun _ h2 => (nomatch h2), fun _ hne => absurd rfl hne⟩
  · obtain ⟨n, rfl⟩ := List.length_eq_one_iff.mp (h.length.trans hone)
    refine ⟨fun _ h2 => (nomatch h2), fun _ _ => ?_⟩
    have hw : o.width = o.kBytes - 1 := by rw [Op.width, hone, Nat.div_one]
    rw [Op.lastNumber_singleton h, List.flatMap_singleton, hw, hs]
  · obtain ⟨n, n', rfl⟩ := List.length_eq_two.mp (h.length.trans htwo)
    have hw : o.width = 1 := by rw [Op.width, htwo, h3]
    have hn := h.fits n (by simp)
    have hn' := h.fits n' (by simp)
    rw [hw, Nat.pow_one] at hn hn'
    rw [Op.lastNumber_pair h, hs, h3, hw]
    constructor
    · intro heq _
      obtain ⟨h1, h2⟩ : BitVec.ofNat 8 n'.value = BitVec.ofNat 8 n.value ∧
          BitVec.ofNat 8 (n'.value / 256) = BitVec.ofNat 8 n'.value := by
        simpa [leBytes] using heq (List.cons_ne_nil _ _)
      have h1' := congrArg BitVec.toNat h1
      have h2' := congrArg BitVec.toNat h2
      rw [Nat.div_eq_of_lt hn', BitVec.toNat_ofNat, BitVec.toNat_ofNat, Nat.mod_eq_of_lt hn'] at h2'
      rw [BitVec.toNat_ofNat, BitVec.toNat_ofNat, Nat.mod_eq_of_lt hn, Nat.mod_eq_of_lt hn'] at h1'
      have hz' : n'.value = 0 := h2'.symm
      have hz : n.value = 0 := h1'.symm.trans hz'
      simp [hz, hz']
    · intro hz _
      have hzero := hz rfl
      rw [List.flatMap_cons, List.flatMap_singleton, hzero n (by simp), hzero n' (by simp)]
      rfl

/-- **Which instructions the assembler gives back.**  All but those whose text another one
answers to first, and those with two operands only if both are zero. -/
theorem inverts_iff {opcode : Byte} (hop : (execOps mode).at opcode = some o)
    (h : o.Takes ns) :
    Inverts mode o ns ↔
      o.shadowed = false ∧ (ns.length = 2 → ∀ n ∈ ns, n.value = 0) := by
  have ho := Op.mem_ofMode hop
  obtain ⟨o', hfind, hsame⟩ := Op.find_answers ho
  have hans := List.find?_some hfind
  simp only [Op.answers, Bool.and_eq_true, decide_eq_true_eq, beq_iff_eq] at hans
  have hlen : o' = o → o.shortest = o.kBytes := by
    rintro rfl
    exact hans.2.symm
  constructor
  · intro hinv
    obtain ⟨n, a', opcode', operands, hn, hbytes, hat', henc⟩ :=
      hinv ⟨false, false, mode, o.line ns, "", []⟩ rfl rfl
    obtain ⟨opcode, hat, h3⟩ :=
      assemble_line (a := ⟨false, false, mode, o.line ns, "", []⟩) ho h hfind rfl rfl
    obtain ⟨-, rfl⟩ := Prod.mk.inj (assemble_unique hn h3)
    obtain ⟨rfl, rfl⟩ := List.cons.inj hbytes
    have heq : o' = o := Option.some.inj (hat.symm.trans hat')
    exact ⟨hsame.mp heq, (encodes_iff h (hlen heq)).mp henc⟩
  · rintro ⟨hsh, hz⟩ a hmode hp
    have heq : o' = o := hsame.mpr hsh
    obtain ⟨opcode, hat, h3⟩ := assemble_line ho h hfind hmode hp
    rw [heq] at hat
    exact ⟨3, _, opcode, _, h3, rfl, hat, (encodes_iff h (hlen heq)).mpr hz⟩

def dollar1234 : Numeral :=
  ⟨.dollar, ['1', '2', '3', '4'], by decide, List.all_eq_true.mp rfl⟩

def dollar10 : Numeral := ⟨.dollar, ['1', '0'], by decide, List.all_eq_true.mp rfl⟩

theorem inverts_lda_abs : Inverts .emulation (Op.lda (addrAbs .u8 .u8)) [dollar1234] := by
  have hop : (execOps .emulation).at 0xAD = some (Op.lda (addrAbs .u8 .u8)) := by decide +kernel
  have h : (Op.lda (addrAbs .u8 .u8)).Takes [dollar1234] :=
    ⟨by decide, by decide +kernel, by decide +kernel⟩
  exact (inverts_iff hop h).mpr ⟨rfl, by decide⟩

/-- `BCS $10` is assembled to `BVS $10`. -/
theorem not_inverts_bcs : (execOps .emulation).at 0xB0 = some Op.bcs ∧ Op.bcs.Takes [dollar10] ∧
    ¬ Inverts .emulation Op.bcs [dollar10] := by
  have hop : (execOps .emulation).at 0xB0 = some Op.bcs := by decide +kernel
  have ht : Op.bcs.Takes [dollar10] := ⟨by decide, by decide +kernel, by decide +kernel⟩
  refine ⟨hop, ht, fun h => ?_⟩
  have hfind : (Op.ofMode .emulation).find? Op.bcs.answers = some Op.bvs := by decide +kernel
  obtain ⟨n, a', opcode, operands, hn, hbytes, hat, -⟩ :=
    h ⟨false, false, .emulation, Op.bcs.line [dollar10], "", []⟩ rfl rfl
  obtain ⟨opcode', hat', h3⟩ := assemble_line (Op.mem_ofMode hop) ht hfind
    (a := ⟨false, false, .emulation, Op.bcs.line [dollar10], "", []⟩) rfl rfl
  obtain ⟨-, rfl⟩ := Prod.mk.inj (assemble_unique hn h3)
  obtain ⟨rfl, -⟩ := List.cons.inj hbytes
  cases hat.symm.trans hat'

end Assembling

end RetroCpu
