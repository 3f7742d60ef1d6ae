import RetroCpu.Wdc65816.Arithmetic
import RetroCpu.Wdc65816.Coherence

/-!
# The status register

P is not stored.  `GetStatusRegister` collects it from a word that is zero with Z, one whose
lowest bit is N, one whose second bit is C, one that is zero with I, and the raw bits of D and V.
`flagAt` is that reading bit by bit, and an instruction that changes P in its own encoding is
compared with the change of the byte by it.
-/

namespace RetroCpu

open WordBytes Machine StateFn

namespace Core

/-! ### The bits of P -/

def flagAt (c : Core) : ℕ → Bool
  | 0 => c.isCarry
  | 1 => c.isZero
  | 2 => c.interrupts == 0
  | 3 => c.otherFlags.getLsbD 3
  | 4 => c.modeEmulation || !c.modeLongXy
  | 5 => c.modeEmulation || !c.modeLongA
  | 6 => c.otherFlags.getLsbD 6
  | 7 => c.isNegative
  | _ => false

theorem getLsbD_orIf (p : Prop) [Decidable p] (v k : Byte) (i : ℕ) :
    (if p then v ||| k else v).getLsbD i = (v.getLsbD i || decide p && k.getLsbD i) := by
  split
  · next h => rw [BitVec.getLsbD_or, decide_eq_true h, Bool.true_and]
  · next h => rw [decide_eq_false h, Bool.false_and, Bool.or_false]

theorem getLsbD_packFlags (otherFlags zero interrupts carry negative : BitVec 32) (i : ℕ) :
    (packFlags otherFlags zero interrupts carry negative).getLsbD i =
      (decide (i < 8) && (otherFlags.getLsbD i && (0x48 : BitVec 32).getLsbD i) ||
        decide (zero = 0) && (2 : Byte).getLsbD i ||
        decide (interrupts = 0) && (4 : Byte).getLsbD i ||
        decide (carry &&& 2 ≠ 0) && (1 : Byte).getLsbD i ||
        decide (negative &&& 1 ≠ 0) && (0x80 : Byte).getLsbD i) := by
  unfold packFlags
  dsimp only
  rw [getLsbD_orIf, getLsbD_orIf, getLsbD_orIf, getLsbD_orIf, BitVec.getLsbD_setWidth,
    BitVec.getLsbD_and]

theorem getLsbD_packWidths (v : Byte) (emulation longA longXy : Bool) (i : ℕ) :
    (packWidths v emulation longA longXy).getLsbD i =
      (v.getLsbD i || (emulation || !longA) && (0x20 : Byte).getLsbD i ||
        (emulation || !longXy) && (0x10 : Byte).getLsbD i) := by
  have hboth : (0x30 : Byte).getLsbD i = ((0x20 : Byte).getLsbD i || (0x10 : Byte).getLsbD i) := by
    rw [← BitVec.getLsbD_or]
    rfl
  unfold packWidths
  cases emulation
  · dsimp only
    rw [if_neg Bool.false_ne_true, getLsbD_orIf, getLsbD_orIf, Bool.decide_eq_true,
      Bool.decide_eq_true, Bool.false_or, Bool.false_or]
  · rw [if_pos rfl, BitVec.getLsbD_or, hboth, Bool.true_or, Bool.true_or, Bool.true_and,
      Bool.true_and, Bool.or_assoc]

theorem getLsbD_getStatusRegister (c : Core) {i : ℕ} (hi : i < 8) :
    c.getStatusRegister.getLsbD i = c.flagAt i := by
  rw [getStatusRegister, getLsbD_packWidths, getLsbD_packFlags]
  obtain rfl | rfl | rfl | rfl | rfl | rfl | rfl | rfl :
      i = 0 ∨ i = 1 ∨ i = 2 ∨ i = 3 ∨ i = 4 ∨ i = 5 ∨ i = 6 ∨ i = 7 := by omega
  all_goals simp [flagAt, isCarry, isZero, isNegative, bne, Bool.beq_eq_decide_eq]

/-- P is `p`, with the width bits set while the emulation bit is. -/
def StatusIs (c : Core) (p : Byte) : Prop :=
  c.getStatusRegister = if c.modeEmulation then p ||| 0x30 else p

/-- The bits of P that are read from `c` in its mode: all, or all but the width bits. -/
def Shows (c : Core) (i : ℕ) : Prop := c.modeEmulation = true → i ≠ 4 ∧ i ≠ 5

theorem statusIs_of_flags {c : Core} {p : Byte}
    (h : ∀ i < 8, c.Shows i → c.flagAt i = p.getLsbD i) : c.StatusIs p := by
  have hmask : ∀ i < 8, (0x30 : Byte).getLsbD i = (decide (i = 4) || decide (i = 5)) := by decide
  unfold StatusIs
  apply BitVec.eq_of_getLsbD_eq
  intro i hi
  rw [getLsbD_getStatusRegister c hi]
  cases he : c.modeEmulation with
  | true =>
    rw [if_pos rfl, BitVec.getLsbD_or, hmask i hi]
    by_cases h4 : i = 4
    · simp [h4, flagAt, he]
    · by_cases h5 : i = 5
      · simp [h5, flagAt, he]
      · simp [h4, h5, h i hi fun _ => ⟨h4, h5⟩]
  | false =>
    rw [if_neg Bool.false_ne_true]
    exact h i hi fun htrue => absurd (he.symm.trans htrue) Bool.false_ne_true

/-- Bits of P are cleared. -/
theorem statusIs_clear {c c' : Core} {m : Byte}
    (h : ∀ i < 8, c'.Shows i → c'.flagAt i = (c.flagAt i && !m.getLsbD i)) :
    c'.StatusIs (c.getStatusRegister &&& ~~~m) := by
  refine statusIs_of_flags fun i hi hs => ?_
  rw [h i hi hs, BitVec.getLsbD_and, BitVec.getLsbD_not, getLsbD_getStatusRegister c hi,
    decide_eq_true hi, Bool.true_and]

/-- Bits of P are set. -/
theorem statusIs_raise {c c' : Core} {m : Byte}
    (h : ∀ i < 8, c'.Shows i → c'.flagAt i = (c.flagAt i || m.getLsbD i)) :
    c'.StatusIs (c.getStatusRegister ||| m) := by
  refine statusIs_of_flags fun i hi hs => ?_
  rw [h i hi hs, BitVec.getLsbD_or, getLsbD_getStatusRegister c hi]

/-- What is to be shown of each bit of P. -/
theorem forall_flags {q : ℕ → Prop} (h0 : q 0) (h1 : q 1) (h2 : q 2) (h3 : q 3) (h4 : q 4)
    (h5 : q 5) (h6 : q 6) (h7 : q 7) : ∀ i < 8, q i := by
  intro i hi
  obtain rfl | rfl | rfl | rfl | rfl | rfl | rfl | rfl :
      i = 0 ∨ i = 1 ∨ i = 2 ∨ i = 3 ∨ i = 4 ∨ i = 5 ∨ i = 6 ∨ i = 7 := by omega
  all_goals assumption

/-! ### `REP` and `SEP` -/

/-- `is_zero` and the other readings of the flags as propositions. -/
theorem and_ne_zero_iff (v : Byte) (k : ℕ) : v &&& BitVec.twoPow 8 k ≠ 0 ↔ v.getLsbD k = true := by
  rw [← and_twoPow_ne_zero, bne_iff_ne]

theorem isZero_rep (zero : BitVec 32) (flags : Byte) :
    (zero ||| (flags &&& 2).setWidth 32 == 0) = (zero == 0 && !flags.getLsbD 1) := by
  have h2 : flags &&& 2 = if flags.getLsbD 1 then 2 else 0 := by
    have h := BitVec.and_twoPow flags 1
    exact h
  rw [h2]
  cases flags.getLsbD 1
  · simp
  · simp only [if_pos, Bool.not_true, Bool.and_false, beq_eq_false_iff_ne]
    intro h
    have hbit := congrArg (fun w : BitVec 32 => w.getLsbD 1) h
    simp at hbit

/-- The emulation bit is kept, and in native mode the widths are `longXy` and `longA`. -/
structure Widths (c c' : Core) (longXy longA : Bool) : Prop where
  emulation : c'.modeEmulation = c.modeEmulation
  longXy : c.modeEmulation = false → c'.modeLongXy = longXy
  longA : c.modeEmulation = false → c'.modeLongA = longA

/-- `OnUpdateMode` keeps the emulation bit, and the widths in native mode. -/
theorem widths_onUpdateMode {c c' : Core} (h : c.modeNative6502 = true → c.modeEmulation = true)
    (h6 : c'.modeNative6502 = c.modeNative6502) (he : c'.modeEmulation = c.modeEmulation) :
    c.Widths c'.onUpdateMode c'.modeLongXy c'.modeLongA := by
  rw [onUpdateMode_eq]
  cases he' : c.modeEmulation with
  | true => exact ⟨by simp [he, he'], fun hf => absurd (he'.symm.trans hf) nofun,
      fun hf => absurd (he'.symm.trans hf) nofun⟩
  | false =>
    have hnot : c.modeNative6502 = false :=
      Bool.eq_false_iff.mpr fun htrue => Bool.false_ne_true (he'.symm.trans (h htrue))
    exact ⟨by simp [h6, hnot, he, he'], fun _ => by simp [h6, hnot, he, he'],
      fun _ => by simp [h6, hnot, he, he']⟩

/-- A width that `REP` need not set. -/
theorem or_eq_self_of_not {b on : Bool} (h : ¬(on = true ∧ (!b) = true)) : b = (b || on) := by
  cases b
  · cases on
    · rfl
    · exact absurd ⟨rfl, rfl⟩ h
  · rfl

/-- A width that `SEP` need not clear. -/
theorem and_eq_self_of_not {b off : Bool} (h : ¬(off = true ∧ b = true)) : b = (b && !off) := by
  cases b
  · rfl
  · cases off
    · rfl
    · exact absurd ⟨rfl, rfl⟩ h

theorem widths_rep {c : Core} (hc : c.Coherent) (flags : Byte) :
    c.Widths (c.rep flags) (c.modeLongXy || flags.getLsbD 4) (c.modeLongA || flags.getLsbD 5) := by
  have h4 : flags &&& 0x10 ≠ 0 ↔ flags.getLsbD 4 = true := and_ne_zero_iff flags 4
  have h5 : flags &&& 0x20 ≠ 0 ↔ flags.getLsbD 5 = true := and_ne_zero_iff flags 5
  simp only [rep, h4, h5]
  split
  · cases flags.getLsbD 4 <;> cases flags.getLsbD 5 <;>
      simp only [Bool.or_true, Bool.or_false, if_true, Bool.false_eq_true, if_false] <;>
      exact widths_onUpdateMode hc.native6502 rfl rfl
  · next h =>
    rw [not_or] at h
    exact ⟨rfl, fun _ => or_eq_self_of_not h.1, fun _ => or_eq_self_of_not h.2⟩

theorem widths_sep {c : Core} (hc : c.Coherent) (flags : Byte) :
    c.Widths (c.sep flags) (c.modeLongXy && !flags.getLsbD 4)
      (c.modeLongA && !flags.getLsbD 5) := by
  have h4 : flags &&& 0x10 ≠ 0 ↔ flags.getLsbD 4 = true := and_ne_zero_iff flags 4
  have h5 : flags &&& 0x20 ≠ 0 ↔ flags.getLsbD 5 = true := and_ne_zero_iff flags 5
  simp only [sep, h4, h5]
  split
  · cases flags.getLsbD 4 <;> cases flags.getLsbD 5 <;>
      simp only [Bool.not_true, Bool.not_false, Bool.and_true, Bool.and_false, if_true,
        Bool.false_eq_true, if_false] <;>
      exact widths_onUpdateMode hc.native6502 rfl rfl
  · next h =>
    rw [not_or] at h
    exact ⟨rfl, fun _ => and_eq_self_of_not h.1, fun _ => and_eq_self_of_not h.2⟩

/-- The words that P is collected from. -/
structure SameFlags (c c' : Core) : Prop where
  zero : c'.zero = c.zero
  negative : c'.negative = c.negative
  interrupts : c'.interrupts = c.interrupts
  carry : c'.carry = c.carry
  otherFlags : c'.otherFlags = c.otherFlags

theorem SameFlags.flagAt_eq {c c' : Core} (h : c.SameFlags c') {i : ℕ} (h4 : i ≠ 4) (h5 : i ≠ 5) :
    c'.flagAt i = c.flagAt i := by
  unfold flagAt isCarry isZero isNegative
  rw [h.zero, h.negative, h.interrupts, h.carry, h.otherFlags]
  split <;> first | rfl | contradiction

namespace SameFlags

variable {c c' c'' : Core}

theorem refl (c : Core) : c.SameFlags c := ⟨rfl, rfl, rfl, rfl, rfl⟩

theorem ite (p : Prop) [Decidable p] (h : c.SameFlags c') (h' : c.SameFlags c'') :
    c.SameFlags (if p then c' else c'') := by
  split
  · exact h
  · exact h'

theorem onUpdateMode (h : c.SameFlags c') : c.SameFlags c'.onUpdateMode := by
  rw [onUpdateMode_eq]
  exact ⟨h.zero, h.negative, h.interrupts, h.carry, h.otherFlags⟩

/-- What `REP` and `SEP` do to the widths. -/
theorem widths (c : Core) (p q : Prop) [Decidable p] [Decidable q] (longXy longA : Bool) :
    c.SameFlags
      (let c' := if p then { c with modeLongXy := longXy } else c
      let c'' := if q then { c' with modeLongA := longA } else c'
      c''.onUpdateMode) := by
  have h : c.SameFlags (if p then { c with modeLongXy := longXy } else c) :=
    ite p ⟨rfl, rfl, rfl, rfl, rfl⟩ (refl c)
  refine onUpdateMode (ite q ?_ h)
  exact ⟨h.zero, h.negative, h.interrupts, h.carry, h.otherFlags⟩

end SameFlags

theorem sameFlags_rep (c : Core) (flags : Byte) :
    ({ c with
      otherFlags := c.otherFlags &&& ~~~(flags.setWidth 32)
      zero := c.zero ||| (flags &&& 2).setWidth 32
      carry := if flags &&& 1 ≠ 0 then 0 else c.carry
      interrupts := if flags &&& 4 ≠ 0 then 1 else c.interrupts
      negative := if flags &&& 0x80 ≠ 0 then 0 else c.negative } : Core).SameFlags
        (c.rep flags) := by
  unfold rep
  exact .ite _ (.widths _ _ _ _ _) (.refl _)

theorem sameFlags_sep (c : Core) (flags : Byte) :
    ({ c with
      otherFlags := c.otherFlags ||| flags.setWidth 32
      carry := if flags &&& 1 ≠ 0 then 2 else c.carry
      zero := if flags &&& 2 ≠ 0 then 0 else c.zero
      interrupts := if flags &&& 4 ≠ 0 then 0 else c.interrupts
      negative := if flags &&& 0x80 ≠ 0 then 1 else c.negative } : Core).SameFlags
        (c.sep flags) := by
  unfold sep
  exact .ite _ (.widths _ _ _ _ _) (.refl _)

/-- In native mode the width bits are read off the widths. -/
theorem Widths.flagAt_eq {c c' : Core} {longXy longA : Bool} (h : c.Widths c' longXy longA) :
    (c'.Shows 4 → c'.flagAt 4 = !longXy ∧ c.flagAt 4 = !c.modeLongXy) ∧
      (c'.Shows 5 → c'.flagAt 5 = !longA ∧ c.flagAt 5 = !c.modeLongA) := by
  have hnative : ∀ i, i = 4 ∨ i = 5 → c'.Shows i → c.modeEmulation = false := by
    intro i hi hs
    rw [← h.emulation, Bool.eq_false_iff]
    intro he
    have hne := hs he
    omega
  refine ⟨fun hs => ?_, fun hs => ?_⟩
  · have he := hnative 4 (Or.inl rfl) hs
    simp [flagAt, h.emulation, he, h.longXy he]
  · have he := hnative 5 (Or.inr rfl) hs
    simp [flagAt, h.emulation, he, h.longA he]

/-- **`REP` clears the bits of P that its operand has.** -/
theorem statusIs_rep {c : Core} (hc : c.Coherent) (flags : Byte) :
    (c.rep flags).StatusIs (c.getStatusRegister &&& ~~~flags) := by
  have h0 : flags &&& 1 ≠ 0 ↔ flags.getLsbD 0 = true := and_ne_zero_iff flags 0
  have h2 : flags &&& 4 ≠ 0 ↔ flags.getLsbD 2 = true := and_ne_zero_iff flags 2
  have h7 : flags &&& 0x80 ≠ 0 ↔ flags.getLsbD 7 = true := and_ne_zero_iff flags 7
  have hwidths := (widths_rep hc flags).flagAt_eq
  have hs := sameFlags_rep c flags
  simp only [h0, h2, h7] at hs
  refine statusIs_clear (forall_flags ?_ ?_ ?_ ?_ ?_ ?_ ?_ ?_)
  · intro _
    rw [hs.flagAt_eq (by decide) (by decide)]
    cases flags.getLsbD 0 <;> simp [flagAt, isCarry]
  · intro _
    rw [hs.flagAt_eq (by decide) (by decide)]
    exact isZero_rep c.zero flags
  · intro _
    rw [hs.flagAt_eq (by decide) (by decide)]
    cases flags.getLsbD 2 <;> simp [flagAt]
  · intro _
    rw [hs.flagAt_eq (by decide) (by decide)]
    simp [flagAt]
  · intro hshows
    rw [(hwidths.1 hshows).1, (hwidths.1 hshows).2, Bool.not_or]
  · intro hshows
    rw [(hwidths.2 hshows).1, (hwidths.2 hshows).2, Bool.not_or]
  · intro _
    rw [hs.flagAt_eq (by decide) (by decide)]
    simp [flagAt]
  · intro _
    rw [hs.flagAt_eq (by decide) (by decide)]
    cases flags.getLsbD 7 <;> simp [flagAt, isNegative]

/-- **`SEP` sets the bits of P that its operand has.** -/
theorem statusIs_sep {c : Core} (hc : c.Coherent) (flags : Byte) :
    (c.sep flags).StatusIs (c.getStatusRegister ||| flags) := by
  have h0 : flags &&& 1 ≠ 0 ↔ flags.getLsbD 0 = true := and_ne_zero_iff flags 0
  have h1 : flags &&& 2 ≠ 0 ↔ flags.getLsbD 1 = true := and_ne_zero_iff flags 1
  have h2 : flags &&& 4 ≠ 0 ↔ flags.getLsbD 2 = true := and_ne_zero_iff flags 2
  have h7 : flags &&& 0x80 ≠ 0 ↔ flags.getLsbD 7 = true := and_ne_zero_iff flags 7
  have hwidths := (widths_sep hc flags).flagAt_eq
  have hs := sameFlags_sep c flags
  simp only [h0, h1, h2, h7] at hs
  refine statusIs_raise (forall_flags ?_ ?_ ?_ ?_ ?_ ?_ ?_ ?_)
  · intro _
    rw [hs.flagAt_eq (by decide) (by decide)]
    cases flags.getLsbD 0 <;> simp [flagAt, isCarry]
  · intro _
    rw [hs.flagAt_eq (by decide) (by decide)]
    cases flags.getLsbD 1 <;> simp [flagAt, isZero]
  · intro _
    rw [hs.flagAt_eq (by decide) (by decide)]
    cases flags.getLsbD 2 <;> simp [flagAt]
  · intro _
    rw [hs.flagAt_eq (by decide) (by decide)]
    simp [flagAt]
  · intro hshows
    rw [(hwidths.1 hshows).1, (hwidths.1 hshows).2, Bool.not_and, Bool.not_not]
  · intro hshows
    rw [(hwidths.2 hshows).1, (hwidths.2 hshows).2, Bool.not_and, Bool.not_not]
  · intro _
    rw [hs.flagAt_eq (by decide) (by decide)]
    simp [flagAt]
  · intro _
    rw [hs.flagAt_eq (by decide) (by decide)]
    cases flags.getLsbD 7 <;> simp [flagAt, isNegative]

/-! ### Single flags -/

theorem statusIs_clc (c : Core) :
    ({ c with carry := 0 }).StatusIs (c.getStatusRegister &&& ~~~0x01) := by
  refine statusIs_clear (forall_flags ?_ ?_ ?_ ?_ ?_ ?_ ?_ ?_)
  all_goals intro _; simp [flagAt, isCarry, isZero, isNegative]

theorem statusIs_sec (c : Core) :
    ({ c with carry := 2 }).StatusIs (c.getStatusRegister ||| 0x01) := by
  refine statusIs_raise (forall_flags ?_ ?_ ?_ ?_ ?_ ?_ ?_ ?_)
  all_goals intro _; simp [flagAt, isCarry, isZero, isNegative]

theorem statusIs_cli (c : Core) :
    ({ c with interrupts := 1 }).StatusIs (c.getStatusRegister &&& ~~~0x04) := by
  refine statusIs_clear (forall_flags ?_ ?_ ?_ ?_ ?_ ?_ ?_ ?_)
  all_goals intro _; simp [flagAt, isCarry, isZero, isNegative]

theorem statusIs_sei (c : Core) :
    ({ c with interrupts := 0 }).StatusIs (c.getStatusRegister ||| 0x04) := by
  refine statusIs_raise (forall_flags ?_ ?_ ?_ ?_ ?_ ?_ ?_ ?_)
  all_goals intro _; simp [flagAt, isCarry, isZero, isNegative]

theorem statusIs_cld (c : Core) :
    ({ c with otherFlags := c.otherFlags &&& 0xFFF7 }).StatusIs
      (c.getStatusRegister &&& ~~~0x08) := by
  refine statusIs_clear (forall_flags ?_ ?_ ?_ ?_ ?_ ?_ ?_ ?_)
  all_goals intro _; simp [flagAt, isCarry, isZero, isNegative]

theorem statusIs_sed (c : Core) :
    ({ c with otherFlags := c.otherFlags ||| 0x8 }).StatusIs
      (c.getStatusRegister ||| 0x08) := by
  refine statusIs_raise (forall_flags ?_ ?_ ?_ ?_ ?_ ?_ ?_ ?_)
  all_goals intro _; simp [flagAt, isCarry, isZero, isNegative]

theorem statusIs_clv (c : Core) :
    ({ c with otherFlags := c.otherFlags &&& 0xFFBF }).StatusIs
      (c.getStatusRegister &&& ~~~0x40) := by
  refine statusIs_clear (forall_flags ?_ ?_ ?_ ?_ ?_ ?_ ?_ ?_)
  all_goals intro _; simp [flagAt, isCarry, isZero, isNegative]

end Core

variable {β : Type} [Bus β]

/-! ### The instructions that write P -/

namespace Op

/-- P after an instruction, by the architecture.  `m` is the operand of `REP` and `SEP`, and the
byte that `PLP` and `RTI` pull. -/
def statusUpdate (p m : Byte) : Op → Option Byte
  | clc => some (p &&& ~~~0x01)
  | sec => some (p ||| 0x01)
  | cli => some (p &&& ~~~0x04)
  | sei => some (p ||| 0x04)
  | cld => some (p &&& ~~~0x08)
  | sed => some (p ||| 0x08)
  | clv => some (p &&& ~~~0x40)
  | rep => some (p &&& ~~~m)
  | sep => some (p ||| m)
  | plp | rti => some m
  | _ => none

/-- The byte that an instruction takes for P. -/
def statusByte : Op → Exec β Byte
  | rep | sep => do readPBR .u8 ((← getCore (·.ip)) + 1)
  | plp => popOld .u8
  | rti => Machine.pop .u8
  | _ => return 0

end Op

structure Core.Updates (c c' : Core) (p : Byte) : Prop where
  emulation : c'.modeEmulation = c.modeEmulation
  status : c'.StatusIs p

theorem Core.StatusIs.keeps {c c' : Core} {p : Byte} (h : c.StatusIs p)
    (hs : c'.getStatusRegister = c.getStatusRegister)
    (he : c'.modeEmulation = c.modeEmulation) : c'.StatusIs p := by
  unfold StatusIs
  rw [hs, he]
  exact h

theorem Core.updates_setStatusRegister {c : Core} (hc : c.Coherent) (v : Byte) :
    c.Updates (c.setStatusRegister v) v where
  emulation := modeEmulation_setStatusRegister hc v
  status := by
    unfold StatusIs
    rw [getStatusRegister_setStatusRegister hc, modeEmulation_setStatusRegister hc]

def KeepsStatus (_ : ℕ) (m m' : Machine β) : Prop :=
  m'.core.getStatusRegister = m.core.getStatusRegister ∧
    m'.core.modeEmulation = m.core.modeEmulation

omit [Bus β] in
theorem graded_keepsStatus : Graded (KeepsStatus (β := β)) where
  refl _ := ⟨rfl, rfl⟩
  trans h h' := ⟨h'.1.trans h.1, h'.2.trans h.2⟩
  mono _ h := h

omit [Bus β] in
theorem keepsStatus_internalOp (n : BitVec 32) :
    Within (KeepsStatus (β := β)) 0 (internalOp n) := fun _ => ⟨rfl, rfl⟩

omit [Bus β] in
theorem keepsStatus_update {g : Core → Core} (hg : ∀ c : Core,
    (g c).getStatusRegister = c.getStatusRegister ∧ (g c).modeEmulation = c.modeEmulation) :
    Within (KeepsStatus (β := β)) 0 (update g) := fun m => hg m.core

theorem keepsStatus_pop (s : Size) : Within (KeepsStatus (β := β)) 0 (pop s) := by
  cases s
  · exact fun _ => ⟨rfl, rfl⟩
  · exact fun _ => ⟨rfl, rfl⟩

omit [Bus β] in
theorem keepsStatus_setProgramBank (bank : Byte) :
    Within (KeepsStatus (β := β)) 0 (update (·.setProgramBank bank)) := by
  refine keepsStatus_update fun c => ?_
  unfold Core.setProgramBank
  generalize bank.setWidth 32 <<< 16 = base
  exact ⟨rfl, rfl⟩

/-- `RTI` pulls P first, and what follows does not touch it. -/
theorem updates_execRti {m : Machine β} (hc : m.core.Coherent) :
    m.core.Updates (Op.execRti m).2.core (pop .u8 m).1 := by
  have hR := graded_keepsStatus (β := β)
  have hrest : Within (KeepsStatus (β := β)) 0 (do
      let pc ← pop .u16
      internalOp 2
      update fun c => { c with ip := pc.toU32 }
      let emulation ← getCore (·.modeEmulation)
      when (!emulation) do
        let bank ← pop .u8
        update (·.setProgramBank bank)) :=
    hR.bind (keepsStatus_pop .u16) fun _ => hR.bind (keepsStatus_internalOp 2) fun _ =>
      hR.bind (keepsStatus_update fun _ => ⟨rfl, rfl⟩) fun _ => hR.bind (hR.get _) fun _ =>
      hR.when fun _ => hR.bind (keepsStatus_pop .u8) fun bank => keepsStatus_setProgramBank bank
  have hset : m.core.incSp.Updates (m.core.incSp.setStatusRegister (pop .u8 m).1)
      (pop .u8 m).1 := Core.updates_setStatusRegister hc.incSp (pop .u8 m).1
  obtain ⟨hstatus, hemulation⟩ := hrest
    (update (·.setStatusRegister (pop .u8 m).1) (pop .u8 m).2).2
  exact ⟨hemulation.trans hset.emulation, hset.status.keeps hstatus hemulation⟩

/-- The instruction pointer and the instruction count do not matter. -/
theorem Core.Updates.finish {c c' : Core} {p : Byte} (h : c.Updates c' p) (ip : CpuAddr)
    (n : BitVec 64) : c.Updates { c' with ip := ip, numEmulatedInstructions := n } p :=
  ⟨h.emulation, h.status⟩

theorem perform_updates {op : Op} {m : Machine β} (hc : m.core.Coherent) {p : Byte}
    (h : op.statusUpdate m.core.getStatusRegister (op.statusByte m).1 = some p) :
    m.core.Updates (perform op m).2.core p := by
  have hflag : ∀ {c' : Core} {q : Byte}, c'.StatusIs q →
      c'.modeEmulation = m.core.modeEmulation → ∀ ip n,
        m.core.Updates { c' with ip := ip, numEmulatedInstructions := n } q :=
    fun hs he => (Core.Updates.mk he hs).finish
  have hip := hc.setIp
  cases op with
  | clc =>
    cases h
    exact hflag (Core.statusIs_clc m.core) rfl _ _
  | sec =>
    cases h
    exact hflag (Core.statusIs_sec m.core) rfl _ _
  | cli =>
    cases h
    exact hflag (Core.statusIs_cli m.core) rfl _ _
  | sei =>
    cases h
    exact hflag (Core.statusIs_sei m.core) rfl _ _
  | cld =>
    cases h
    exact hflag (Core.statusIs_cld m.core) rfl _ _
  | sed =>
    cases h
    exact hflag (Core.statusIs_sed m.core) rfl _ _
  | clv =>
    cases h
    exact hflag (Core.statusIs_clv m.core) rfl _ _
  | rep =>
    cases h
    have hrep := Core.statusIs_rep (hip (m.core.ip + 2)) (Op.statusByte .rep m).1
    exact hflag hrep (Core.widths_rep (hip (m.core.ip + 2)) _).emulation _ _
  | sep =>
    cases h
    have hsep := Core.statusIs_sep (hip (m.core.ip + 2)) (Op.statusByte .sep m).1
    exact hflag hsep (Core.widths_sep (hip (m.core.ip + 2)) _).emulation _ _
  | plp =>
    cases h
    have hset := Core.updates_setStatusRegister (hc.incSp.setIp (m.core.ip + 1)) (popOld .u8 m).1
    exact hflag hset.status hset.emulation _ _
  | rti =>
    cases h
    have hrti := updates_execRti hc
    exact hrti.finish _ _
  | _ => cases h

end RetroCpu
