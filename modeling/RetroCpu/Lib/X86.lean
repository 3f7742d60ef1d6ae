import Mathlib.Tactic.Common
import Mathlib.Data.BitVec

/-!
# Decoding x86-64 instructions on a byte

The 64-bit mode encodings of `CMP r/m8, imm8` (`80 /7 ib`) and `MOV r/m8, imm8` (`C6 /0 ib`): an
optional REX prefix, the opcode, ModRM, SIB and displacement where ModRM asks for them, and the
immediate.  Registers are their numbers.

* `decode`: the first instruction of a list of bytes, and the bytes after it.
-/

namespace X86

/-- What an address is relative to. -/
inductive Base
  | reg (n : BitVec 4)
  | rip
  deriving DecidableEq

/-- `[base + index << scale + disp]`. -/
structure Mem where
  base : Option Base
  index : Option (BitVec 4 × BitVec 2)
  disp : BitVec 64
  deriving DecidableEq

inductive Operand
  | reg (n : BitVec 4)
  | mem (m : Mem)
  deriving DecidableEq

inductive Instr
  | cmp (o : Operand) (imm : BitVec 8)
  | mov (o : Operand) (imm : BitVec 8)
  deriving DecidableEq

/-- The bits of a REX prefix. -/
structure Rex where
  w : Bool
  r : Bool
  x : Bool
  b : Bool
  deriving DecidableEq

/-- A register number with its fourth bit from REX. -/
def extend (bit : Bool) (n : BitVec 3) : BitVec 4 := BitVec.ofBool bit ++ n

/-- A displacement of four bytes. -/
def disp32 : List (BitVec 8) → Option (BitVec 64 × List (BitVec 8))
  | a :: b :: c :: d :: bs => some ((d ++ c ++ b ++ a).signExtend 64, bs)
  | _ => none

/-- The displacement that `mod` asks for. -/
def disp (mod : BitVec 2) (bs : List (BitVec 8)) : Option (BitVec 64 × List (BitVec 8)) :=
  if mod = 0 then some (0, bs)
  else if mod = 1 then
    match bs with
    | a :: bs => some (a.signExtend 64, bs)
    | [] => none
  else disp32 bs

theorem disp_two (bs : List (BitVec 8)) : disp 2 bs = disp32 bs := rfl

/-- SIB and the displacement after it. -/
def sib (rex : Rex) (mod : BitVec 2) : List (BitVec 8) → Option (Operand × List (BitVec 8))
  | [] => none
  | s :: bs =>
    let n := extend rex.x (s.extractLsb' 3 3)
    let index := if n = 4 then none else some (n, s.extractLsb' 6 2)
    if mod = 0 ∧ s.extractLsb' 0 3 = 5 then
      (disp32 bs).map fun p => (.mem ⟨none, index, p.1⟩, p.2)
    else
      (disp mod bs).map fun p =>
        (.mem ⟨some (.reg (extend rex.b (s.extractLsb' 0 3))), index, p.1⟩, p.2)

/-- The operand of a ModRM byte with the fields `mod` and `rm`. -/
def modrm (rex : Rex) (mod : BitVec 2) (rm : BitVec 3) (bs : List (BitVec 8)) :
    Option (Operand × List (BitVec 8)) :=
  if mod = 3 then some (.reg (extend rex.b rm), bs)
  else if rm = 4 then sib rex mod bs
  else if mod = 0 ∧ rm = 5 then (disp32 bs).map fun p => (.mem ⟨some .rip, none, p.1⟩, p.2)
  else (disp mod bs).map fun p => (.mem ⟨some (.reg (extend rex.b rm)), none, p.1⟩, p.2)

/-- ModRM alone. -/
theorem modrm_direct (rex : Rex) {mod : BitVec 2} {rm : BitVec 3} (h3 : mod ≠ 3) (h4 : rm ≠ 4)
    (h5 : ¬(mod = 0 ∧ rm = 5)) (bs : List (BitVec 8)) : modrm rex mod rm bs =
      (disp mod bs).map fun p => (.mem ⟨some (.reg (extend rex.b rm)), none, p.1⟩, p.2) := by
  rw [modrm, if_neg h3, if_neg h4, if_neg h5]

/-- ModRM and SIB. -/
theorem modrm_sib (rex : Rex) {mod : BitVec 2} (h3 : mod ≠ 3) (bs : List (BitVec 8)) :
    modrm rex mod 4 bs = sib rex mod bs := by
  rw [modrm, if_neg h3, if_pos rfl]

/-- How many bytes of displacement `mod` asks for. -/
def dispLength (mod : BitVec 2) : ℕ := if mod = 0 then 0 else if mod = 1 then 1 else 4

theorem length_disp32 {bs : List (BitVec 8)} {p : BitVec 64 × List (BitVec 8)}
    (h : disp32 bs = some p) : p.2.length + 4 = bs.length := by
  unfold disp32 at h
  split at h
  · cases h
    rfl
  · cases h

theorem length_disp {mod : BitVec 2} {bs : List (BitVec 8)} {p : BitVec 64 × List (BitVec 8)}
    (h : disp mod bs = some p) : p.2.length + dispLength mod = bs.length := by
  unfold disp at h
  unfold dispLength
  split_ifs at h ⊢ with h0 h1
  · cases h
    rfl
  · cases bs with
    | nil => cases h
    | cons a bs =>
      cases h
      rfl
  · exact length_disp32 h

/-- SIB takes a byte beside its displacement. -/
theorem length_sib {rex : Rex} {mod : BitVec 2} {bs : List (BitVec 8)}
    {p : Operand × List (BitVec 8)} (h : sib rex mod bs = some p) :
    p.2.length + 1 + dispLength mod ≤ bs.length := by
  cases bs with
  | nil => cases h
  | cons s bs =>
    simp only [sib] at h
    rw [List.length_cons]
    by_cases h5 : mod = 0 ∧ s.extractLsb' 0 3 = 5
    · rw [if_pos h5] at h
      obtain ⟨q, hq, rfl⟩ := Option.map_eq_some_iff.mp h
      have := length_disp32 hq
      rw [h5.1, dispLength, if_pos rfl]
      simp only
      omega
    · rw [if_neg h5] at h
      obtain ⟨q, hq, rfl⟩ := Option.map_eq_some_iff.mp h
      have := length_disp hq
      simp only
      omega

/-- A byte after an operand. -/
def immediate (o : Operand) : List (BitVec 8) → Option (Operand × BitVec 8 × List (BitVec 8))
  | imm :: bs => some (o, imm, bs)
  | [] => none

/-- ModRM with the opcode extension `ext`, and the immediate. -/
def operands (rex : Rex) (ext : BitVec 3) :
    List (BitVec 8) → Option (Operand × BitVec 8 × List (BitVec 8))
  | [] => none
  | m :: bs =>
    if m.extractLsb' 3 3 = ext then
      (modrm rex (m.extractLsb' 6 2) (m.extractLsb' 0 3) bs).bind fun p => immediate p.1 p.2
    else none

/-- The instruction after the prefixes. -/
def opcode (rex : Rex) : List (BitVec 8) → Option (Instr × List (BitVec 8))
  | [] => none
  | op :: bs =>
    if op = 0x80 then (operands rex 7 bs).map fun p => (.cmp p.1 p.2.1, p.2.2)
    else if op = 0xC6 then (operands rex 0 bs).map fun p => (.mov p.1 p.2.1, p.2.2)
    else none

/-- The first instruction of a list of bytes, and the bytes after it. -/
def decode : List (BitVec 8) → Option (Instr × List (BitVec 8))
  | [] => none
  | p :: bs =>
    if p.extractLsb' 4 4 = 4 then
      opcode ⟨p.getLsbD 3, p.getLsbD 2, p.getLsbD 1, p.getLsbD 0⟩ bs
    else opcode ⟨false, false, false, false⟩ (p :: bs)

example : decode [0xC6, 0x44, 0x24, 0x08, 0x2A] =
    some (.mov (.mem ⟨some (.reg 4), none, 8⟩) 0x2A, []) := by decide

end X86
