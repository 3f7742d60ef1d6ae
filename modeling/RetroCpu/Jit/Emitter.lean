import RetroCpu.Bus
import RetroCpu.Lib.X86

/-!
# The emitter of the x86-64 JIT

`X64Emitter` writes instructions as bytes, here decoded again.

* `decode_cmpM8_ne`: what `cmp_m_8` writes is never one instruction.
* `decode_movMImm8_iff`: the registers and offsets for which `mov_m_imm_8` writes its own.
-/

namespace RetroCpu.Jit

open X86

inductive Reg
  | RAX | RCX | RDX | RBX | RSP | RBP | RSI | RDI
  | R8 | R9 | R10 | R11 | R12 | R13 | R14 | R15
  deriving DecidableEq

def Reg.val : Reg → BitVec 32
  | RAX => 0
  | RCX => 1
  | RDX => 2
  | RBX => 3
  | RSP => 4
  | RBP => 5
  | RSI => 6
  | RDI => 7
  | R8 => 8
  | R9 => 9
  | R10 => 10
  | R11 => 11
  | R12 => 12
  | R13 => 13
  | R14 => 14
  | R15 => 15

namespace X64Emitter

/-- `MODRM`, stored in a byte. -/
def modrm (mod reg rm : BitVec 32) : Byte := (mod <<< 6 ||| reg <<< 3 ||| rm).setWidth 8

/-- `*(uint32_t*)ptr = v`. -/
def dword (v : BitVec 32) : List Byte :=
  [v.setWidth 8, (v >>> 8).setWidth 8, (v >>> 16).setWidth 8, (v >>> 24).setWidth 8]

/-- The bytes of `cmp_m_8`. -/
def cmpM8 (rs offset : BitVec 32) (imm : Byte) : List Byte :=
  0x80 :: modrm 1 7 (rs &&& 7) :: dword offset ++ [imm]

/-- The bytes of `mov_m_imm_8`. -/
def movMImm8 (rs offset : BitVec 32) (imm : Byte) : List Byte :=
  let mod : BitVec 32 := if offset = 0 then 0 else if offset ≤ 0xFF then 1 else 2
  0xC6 :: modrm mod 0 (rs &&& 7) ::
    (if offset = 0 then []
      else if offset ≤ 0xFF then [offset.setWidth 8]
      else dword offset) ++ [imm]

theorem dword_append (v : BitVec 32) :
    (v >>> 24).setWidth 8 ++ (v >>> 16).setWidth 8 ++ (v >>> 8).setWidth 8 ++ v.setWidth 8 =
      (v : BitVec (8 + 8 + 8 + 8)) := by
  refine BitVec.eq_of_getLsbD_eq fun i hi => ?_
  simp only [BitVec.getLsbD_append, BitVec.getLsbD_setWidth, BitVec.getLsbD_ushiftRight]
  rcases Nat.lt_or_ge i 8 with h | h
  · simp [h]
  rcases Nat.lt_or_ge i 16 with h' | h'
  · simp [show ¬i < 8 by omega, show i - 8 < 8 by omega, show 8 + (i - 8) = i by omega]
  rcases Nat.lt_or_ge i 24 with h'' | h''
  · simp [show ¬i < 8 by omega, show ¬i - 8 < 8 by omega, show i - 8 - 8 < 8 by omega,
      show 16 + (i - 8 - 8) = i by omega]
  · simp [show ¬i < 8 by omega, show ¬i - 8 < 8 by omega, show ¬i - 8 - 8 < 8 by omega,
      show i - 8 - 8 - 8 < 8 by omega, show 24 + (i - 8 - 8 - 8) = i by omega]

theorem fields_modrm : ∀ (mod : BitVec 2) (reg rm : BitVec 3),
    let m := modrm (mod.setWidth 32) (reg.setWidth 32) (rm.setWidth 32)
    m.extractLsb' 6 2 = mod ∧ m.extractLsb' 3 3 = reg ∧ m.extractLsb' 0 3 = rm := by
  decide

theorem and_seven (v : BitVec 32) : v &&& 7 = (v.setWidth 3).setWidth 32 := by
  refine BitVec.eq_of_toNat_eq ?_
  rw [BitVec.toNat_and, BitVec.toNat_setWidth, BitVec.toNat_setWidth]
  have : (7 : BitVec 32).toNat = 2 ^ 3 - 1 := rfl
  rw [this, Nat.and_two_pow_sub_one_eq_mod]
  omega

theorem operands_modrm (rex : Rex) (mod : BitVec 2) (reg rm : BitVec 3) (bs : List Byte) :
    operands rex reg (modrm (mod.setWidth 32) (reg.setWidth 32) (rm.setWidth 32) :: bs) =
      (X86.modrm rex mod rm bs).bind fun p => immediate p.1 p.2 := by
  obtain ⟨hm, hr, hk⟩ := fields_modrm mod reg rm
  simp only [operands, hm, hr, hk, if_true]

theorem disp32_dword (v : BitVec 32) (bs : List Byte) :
    disp32 (dword v ++ bs) = some (v.signExtend 64, bs) := by
  simp only [dword, List.cons_append, List.nil_append, disp32, dword_append]

def plain : Rex := ⟨false, false, false, false⟩

theorem decode_cmpM8 (rs offset : BitVec 32) (imm : Byte) :
    decode (cmpM8 rs offset imm) =
      ((X86.modrm plain 1 (rs.setWidth 3) (dword offset ++ [imm])).bind
        fun p => immediate p.1 p.2).map fun p => (.cmp p.1 p.2.1, p.2.2) := by
  rw [cmpM8, and_seven, ← operands_modrm]
  rfl

theorem decode_movMImm8 (mod : BitVec 2) (rs : BitVec 32) (bs : List Byte) :
    decode (0xC6 :: modrm (mod.setWidth 32) 0 (rs &&& 7) :: bs) =
      ((X86.modrm plain mod (rs.setWidth 3) bs).bind
        fun p => immediate p.1 p.2).map fun p => (.mov p.1 p.2.1, p.2.2) := by
  rw [and_seven, ← operands_modrm]
  rfl

/-- `cmp_m_8` announces a displacement of one byte and writes four. -/
theorem decode_cmpM8_ne (rs offset : BitVec 32) (imm : Byte) (i : Instr) :
    decode (cmpM8 rs offset imm) ≠ some (i, []) := by
  rw [decode_cmpM8, dword]
  intro h
  by_cases h4 : rs.setWidth 3 = 4
  · rw [h4, modrm_sib plain (by decide)] at h
    simp [sib, disp, immediate] at h
  · rw [modrm_direct plain (by decide) h4 (by simp)] at h
    simp [disp, immediate] at h

/-- Where ModRM asks for SIB, the bytes do not hold one and an immediate beside the
displacement. -/
theorem modrm_four_bind {mod : BitVec 2} (h3 : mod ≠ 3) {bs : List Byte}
    (hl : bs.length = dispLength mod + 1) :
    ((X86.modrm plain mod 4 bs).bind fun p => immediate p.1 p.2) = none := by
  rw [modrm_sib plain h3]
  cases h : sib plain mod bs with
  | none => rfl
  | some p =>
    have := length_sib h
    have hnil : p.2 = [] := List.eq_nil_of_length_eq_zero (by omega)
    rw [Option.bind_some, hnil]
    rfl

/-- The registers of ModRM are those below `R8`. -/
theorem extend_plain_iff (r : Reg) :
    extend plain.b (r.val.setWidth 3) = r.val.setWidth 4 ↔ r.val < 8 := by
  cases r <;> decide

theorem setWidth_eq_four_iff (r : Reg) : r.val.setWidth 3 = 4 ↔ r = .RSP ∨ r = .R12 := by
  cases r <;> decide

theorem setWidth_eq_five_iff (r : Reg) : r.val.setWidth 3 = 5 ↔ r = .RBP ∨ r = .R13 := by
  cases r <;> decide

/-- `[rs + offset]`. -/
def operand (r : Reg) (offset : BitVec 32) : Operand :=
  .mem ⟨some (.reg (r.val.setWidth 4)), none, offset.setWidth 64⟩

/-- The address `mov_m_imm_8` encodes is the one asked for. -/
theorem mem_eq_operand_iff (r : Reg) (offset : BitVec 32) (d : BitVec 64) :
    Operand.mem ⟨some (.reg (extend plain.b (r.val.setWidth 3))), none, d⟩ = operand r offset ↔
      r.val < 8 ∧ d = offset.setWidth 64 := by
  rw [operand, ← extend_plain_iff r]
  simp

theorem signExtend_byte_iff {v : BitVec 32} (h : v ≤ 0xFF) :
    (v.setWidth 8).signExtend 64 = v.setWidth 64 ↔ v < 0x80 := by
  have hv : (v.setWidth 8).toNat = v.toNat := by
    rw [BitVec.toNat_setWidth]
    bv_omega
  rw [← BitVec.toInt_inj, BitVec.toInt_signExtend_of_le (by decide), BitVec.toInt_eq_toNat_cond,
    BitVec.toInt_eq_toNat_cond, hv, BitVec.toNat_setWidth]
  bv_omega

theorem signExtend_dword {v : BitVec 32} (h : v < 0x80000000) :
    v.signExtend 64 = v.setWidth 64 := by
  rw [← BitVec.toInt_inj, BitVec.toInt_signExtend_of_le (by decide), BitVec.toInt_eq_toNat_cond,
    BitVec.toInt_eq_toNat_cond, BitVec.toNat_setWidth]
  bv_omega

/-- The registers and offsets that `mov_m_imm_8` encodes. -/
def Encodable (r : Reg) (offset : BitVec 32) : Prop :=
  r.val < 8 ∧ r ≠ .RSP ∧
    (offset = 0 ∧ r ≠ .RBP ∨ 0 < offset ∧ offset < 0x80 ∨ 0xFF < offset)

theorem decode_mov_direct {r : Reg} {mod : BitVec 2} {offset : BitVec 32} {d : BitVec 64}
    {imm : Byte} {bs : List Byte} (h3 : mod ≠ 3) (hr : ¬(mod = 0 ∧ r.val.setWidth 3 = 5))
    (hd : disp mod bs = some (d, [imm])) (hl : bs.length = dispLength mod + 1) :
    decode (0xC6 :: modrm (mod.setWidth 32) 0 (r.val &&& 7) :: bs) =
      some (.mov (operand r offset) imm, []) ↔
        r.val < 8 ∧ r ≠ .RSP ∧ d = offset.setWidth 64 := by
  rw [decode_movMImm8]
  by_cases h4 : r.val.setWidth 3 = 4
  · rw [h4, modrm_four_bind h3 hl]
    have h8 := (setWidth_eq_four_iff r).mp h4
    rcases h8 with rfl | rfl <;> simp [Reg.val]
  · rw [modrm_direct plain h3 h4 hr, hd]
    have hsp : r ≠ .RSP := fun h => h4 ((setWidth_eq_four_iff r).mpr (.inl h))
    simp [immediate, mem_eq_operand_iff, hsp]

/-- **What `mov_m_imm_8` writes.** -/
theorem decode_movMImm8_iff (r : Reg) {offset : BitVec 32} (ho : offset < 0x80000000)
    (imm : Byte) :
    decode (movMImm8 r.val offset imm) = some (.mov (operand r offset) imm, []) ↔
      Encodable r offset := by
  rw [Encodable, movMImm8]
  by_cases h0 : offset = 0
  · subst h0
    simp only [if_true]
    by_cases h5 : r.val.setWidth 3 = 5
    · -- the address is relative to the instruction pointer, and its displacement is missing
      have hn : decode (0xC6 :: modrm 0 0 (r.val &&& 7) :: [imm]) = none := by
        have h := decode_movMImm8 0 r.val [imm]
        rw [h5] at h
        exact h
      rw [List.cons_append, List.cons_append, List.nil_append, hn]
      rcases (setWidth_eq_five_iff r).mp h5 with rfl | rfl <;> simp [Reg.val]
    · have hbp : r ≠ .RBP := fun h => h5 ((setWidth_eq_five_iff r).mpr (.inl h))
      rw [List.cons_append, List.cons_append, List.nil_append]
      refine (decode_mov_direct (show (0 : BitVec 2) ≠ 3 by decide) (fun h => h5 h.2) rfl
        rfl).trans ?_
      simp [hbp]
  · have hpos : 0 < offset := by bv_omega
    simp only [if_neg h0]
    by_cases hff : offset ≤ 0xFF
    · rw [if_pos hff, if_pos hff]
      refine (decode_mov_direct (show (1 : BitVec 2) ≠ 3 by decide) (by simp) rfl rfl).trans ?_
      have hgt : ¬0xFF < offset := by bv_omega
      rw [signExtend_byte_iff hff]
      simp only [h0, hpos, hgt, false_and, true_and, false_or, or_false]
    · rw [if_neg hff, if_neg hff]
      refine (decode_mov_direct (show (2 : BitVec 2) ≠ 3 by decide) (by simp)
        ((disp_two _).trans (disp32_dword _ _)) rfl).trans ?_
      have hgt : 0xFF < offset := by bv_omega
      rw [signExtend_dword ho]
      simp only [hgt, or_true]

/-- **The emitted bytes.**  `cmp_m_8` writes one instruction for no register and offset, and
`mov_m_imm_8` writes the one it is for exactly where it is encodable without SIB, REX and a wider
displacement. -/
theorem decode_emitted (r : Reg) {offset : BitVec 32} (ho : offset < 0x80000000) (imm : Byte) :
    decode (cmpM8 r.val offset imm) ≠ some (.cmp (operand r offset) imm, []) ∧
      (decode (movMImm8 r.val offset imm) = some (.mov (operand r offset) imm, []) ↔
        Encodable r offset) :=
  ⟨decode_cmpM8_ne _ _ _ _, decode_movMImm8_iff r ho imm⟩

theorem decode_emitted_rbx :
    decode (cmpM8 Reg.RBX.val 0x10 3) ≠ some (.cmp (operand .RBX 0x10) 3, []) ∧
      decode (movMImm8 Reg.RBX.val 0x10 3) = some (.mov (operand .RBX 0x10) 3, []) := by
  have h := decode_emitted .RBX (show (0x10 : BitVec 32) < 0x80000000 by decide) 3
  exact ⟨h.1, h.2.mpr (by unfold Encodable; decide)⟩

/-- `CMP byte [RBX+8], 3` comes out as `CMP byte [RBX+8], 0` and three more bytes, and
`MOV byte [RAX+0x80], 0` as `MOV byte [RAX-0x80], 0`. -/
theorem decode_emitted_wrong :
    decode (cmpM8 Reg.RBX.val 8 3) = some (.cmp (operand .RBX 8) 0, [0, 0, 3]) ∧
      decode (cmpM8 Reg.RBX.val 8 3) ≠ some (.cmp (operand .RBX 8) 3, []) ∧
      decode (movMImm8 Reg.RAX.val 0x80 0) ≠ some (.mov (operand .RAX 0x80) 0, []) := by
  decide

end X64Emitter

end RetroCpu.Jit
