import Mathlib.Algebra.Group.Nat.Defs
import RetroCpu.Nes.ScrollReload

/-!
# The row of the scroll position

`vram_addr` has the row of pixels in three fields: the row of a tile (bits 12 to 14), the row of
tiles (bits 5 to 9), and bit 11, which selects the lower nametables. `IncrVert` goes down a row
and copies the column of `reg_t`, and bit 11 of `reg_t` with it.
-/

namespace RetroCpu.Nes.Ppu

/-! ### Rows -/

def coarseY (w : Word) : Nat := (w.extractLsb' 5 5).toNat

def fineY (w : Word) : Nat := (w.extractLsb' 12 3).toNat

/-- Whether the row is in the lower nametables. -/
def lower (w : Word) : Nat := (w.getLsbD 11).toNat

/-- The row of pixels, of the 480 in two nametables one above the other. -/
def row (w : Word) : Nat := 240 * lower w + 8 * coarseY w + fineY w

theorem coarseY_eq (w : Word) : coarseY w = w.toNat / 32 % 32 := by
  rw [coarseY, BitVec.extractLsb'_toNat, Nat.shiftRight_eq_div_pow]

theorem fineY_eq (w : Word) : fineY w = w.toNat / 4096 % 8 := by
  rw [fineY, BitVec.extractLsb'_toNat, Nat.shiftRight_eq_div_pow]

theorem fineY_lt (w : Word) : fineY w < 8 := by
  rw [fineY_eq]
  exact Nat.mod_lt _ (by decide)

theorem lower_le (w : Word) : lower w ≤ 1 := Bool.toNat_le _

theorem coarseY_reload (v t : Word) : coarseY (reload v t) = coarseY t := by
  have hbits : (reload v t).extractLsb' 5 5 = t.extractLsb' 5 5 := by
    apply BitVec.eq_of_getLsbD_eq
    intro i hi
    rw [BitVec.getLsbD_extractLsb', BitVec.getLsbD_extractLsb', getLsbD_reload v t (by omega),
      if_neg (by omega)]
  exact congrArg BitVec.toNat hbits

theorem fineY_reload (v t : Word) : fineY (reload v t) = fineY t := by
  have hbits : (reload v t).extractLsb' 12 3 = t.extractLsb' 12 3 := by
    apply BitVec.eq_of_getLsbD_eq
    intro i hi
    rw [BitVec.getLsbD_extractLsb', BitVec.getLsbD_extractLsb', getLsbD_reload v t (by omega),
      if_neg (by omega)]
  exact congrArg BitVec.toNat hbits

theorem lower_reload (v t : Word) : lower (reload v t) = lower v := by
  rw [lower, lower, getLsbD_reload v t (by decide)]
  rfl

/-! ### One row down -/

theorem fineY_last_iff (w : Word) : w &&& 0x7000 = 0x7000 ↔ fineY w = 7 := by
  have hfield : fineY w = 7 ↔ w.extractLsb' 12 3 = BitVec.allOnes 3 := by
    rw [← BitVec.toNat_inj]
    rfl
  rw [hfield]
  constructor
  · intro h
    have hextract : (w &&& 0x7000).extractLsb' 12 3 = BitVec.allOnes 3 := by
      rw [h]
      rfl
    rw [BitVec.extractLsb'_and] at hextract
    exact (BitVec.and_allOnes).symm.trans hextract
  · intro h
    have hmask : ∀ i < 16, (0x7000 : Word).getLsbD i = (decide (12 ≤ i) && decide (i < 15)) := by
      decide
    apply BitVec.eq_of_getLsbD_eq
    intro i hi
    rw [BitVec.getLsbD_and, hmask i hi]
    by_cases hin : 12 ≤ i ∧ i < 15
    · have hbit : (w.extractLsb' 12 3).getLsbD (i - 12) = true := by
        rw [h, BitVec.getLsbD_allOnes]
        exact decide_eq_true (by omega)
      rw [BitVec.getLsbD_extractLsb', Nat.add_sub_cancel' hin.1] at hbit
      simp [hin, (Bool.and_eq_true_iff.mp hbit).2]
    · have hout : (decide (12 ≤ i) && decide (i < 15)) = false := by
        simp only [Bool.and_eq_false_iff, decide_eq_false_iff_not]
        omega
      rw [hout, Bool.and_false]

/-- The row of tiles, as `IncrVert` takes it out of `vram_addr`. -/
def tileRow (w : Word) : Word := (w >>> 5) &&& 0x1F

theorem toNat_tileRow (w : Word) : (tileRow w).toNat = coarseY w := by
  rw [tileRow, toNat_and_31, BitVec.toNat_ushiftRight, Nat.shiftRight_eq_div_pow, coarseY_eq]

theorem tileRow_and_fff (w : Word) : tileRow (w &&& 0xFFF) = tileRow w := by
  have hlow : (w &&& 0xFFF).toNat = w.toNat % 4096 := by
    rw [BitVec.toNat_and]
    exact Nat.and_two_pow_sub_one_eq_mod w.toNat 12
  apply BitVec.eq_of_toNat_eq
  rw [toNat_tileRow, toNat_tileRow, coarseY_eq, coarseY_eq, hlow]
  omega

/-- The rows of `vram_addr` when `IncrVert` is over, bit 11 apart. -/
def rowNext (w : Word) : Word :=
  if w &&& 0x7000 ≠ 0x7000 then w + 0x1000
  else if tileRow w = 29 ∨ tileRow w = 31 then 0
  else (tileRow w + 1) <<< 5

theorem shifted_and_rows {y : Word} (h : y.toNat < 32) :
    (y <<< 5) &&& (0xF3E0 : Word) = y <<< 5 := by
  have hmask : ∀ i < 16, (0xF3E0 : Word).getLsbD i =
      (decide (5 ≤ i ∧ i < 10) || decide (12 ≤ i)) := by decide
  apply BitVec.eq_of_getLsbD_eq
  intro i hi
  rw [BitVec.getLsbD_and, hmask i hi, BitVec.getLsbD_shiftLeft]
  by_cases hin : 5 ≤ i ∧ i < 10
  · rw [decide_eq_true hin, Bool.true_or, Bool.and_true]
  · by_cases hlow : i < 5
    · simp [hlow]
    · have hbit : y.getLsbD (i - 5) = false := by
        apply Nat.testBit_lt_two_pow
        calc y.toNat < 2 ^ 5 := h
          _ ≤ 2 ^ (i - 5) := Nat.pow_le_pow_right (by decide) (by omega)
      rw [hbit, Bool.and_false, Bool.false_and]

/-- Switching the lower nametables does not reach the bits that `IncrVert` keeps. -/
theorem flipped_and_f000 {w : Word} (h : w &&& 0xF000#16 = 0) :
    (w ^^^ 0x800) &&& 0xF000#16 = 0 := by
  have hapart : ∀ i < 16, ((0x800 : Word).getLsbD i && (0xF000#16).getLsbD i) = false := by
    decide
  apply BitVec.eq_of_getLsbD_eq
  intro i hi
  have hbit : (w &&& 0xF000#16).getLsbD i = false := by
    rw [h]
    exact BitVec.getLsbD_zero
  rw [BitVec.getLsbD_and] at hbit
  rw [BitVec.getLsbD_and, BitVec.getLsbD_xor, Bool.and_xor_distrib_right, hbit, hapart i hi]
  exact BitVec.getLsbD_zero.symm

/-- `IncrVert` copies the column of `reg_t`, and bit 11 with it. -/
theorem vramAddr_incrVert (p : Ppu) :
    p.incrVert.vramAddr = reload p.regT (rowNext p.vramAddr) := by
  have hhigh : p.vramAddr &&& 0xFFF &&& 0xF000#16 = 0 := by
    rw [BitVec.and_assoc]
    exact BitVec.and_zero
  unfold incrVert rowNext reload
  by_cases hfine : p.vramAddr &&& 0x7000 ≠ 0x7000
  · rw [if_pos hfine, if_pos hfine]
    exact BitVec.or_comm _ _
  · rw [if_neg hfine, if_neg hfine]
    have hrow : (p.vramAddr &&& 0xFFF) >>> 5 &&& 0x1F = tileRow p.vramAddr :=
      tileRow_and_fff p.vramAddr
    dsimp only
    rw [hrow]
    by_cases h29 : tileRow p.vramAddr = 29
    · rw [if_pos h29, if_pos (Or.inl h29)]
      dsimp only
      rw [flipped_and_f000 hhigh]
      exact BitVec.or_comm _ _
    · rw [if_neg h29]
      by_cases h31 : tileRow p.vramAddr = 31
      · rw [if_pos h31, if_pos (Or.inr h31)]
        dsimp only
        rw [hhigh]
        exact BitVec.or_comm _ _
      · have hlt : (tileRow p.vramAddr + 1).toNat < 32 := by
          have hcoarse : (tileRow p.vramAddr).toNat < 32 := by
            rw [toNat_tileRow, coarseY_eq]
            exact Nat.mod_lt _ (by decide)
          have hne : (tileRow p.vramAddr).toNat ≠ 31 := fun h =>
            h31 (BitVec.eq_of_toNat_eq h)
          rw [BitVec.toNat_add]
          show ((tileRow p.vramAddr).toNat + 1) % 65536 < 32
          omega
        rw [if_neg h31, if_neg (not_or.mpr ⟨h29, h31⟩), shifted_and_rows hlt]
        dsimp only
        rw [hhigh, BitVec.or_assoc]
        exact BitVec.zero_or.trans (BitVec.or_comm _ _)

/-! ### The next row -/

theorem toNat_shifted {y : Word} (h : y.toNat < 32) : (y <<< 5).toNat = 32 * y.toNat := by
  rw [BitVec.toNat_shiftLeft, Nat.shiftLeft_eq]
  omega

theorem rowNext_of_ne {w : Word} (h : fineY w ≠ 7) : (rowNext w).toNat = w.toNat + 4096 := by
  have hne := mt (fineY_last_iff w).mp h
  have hlt := w.isLt
  rw [fineY_eq] at h
  rw [rowNext, if_pos hne, BitVec.toNat_add]
  show (w.toNat + 4096) % 65536 = _
  omega

theorem rowNext_of_eq {w : Word} (h : fineY w = 7) (hcoarse : coarseY w ≤ 29) :
    (rowNext w).toNat = 32 * ((coarseY w + 1) % 30) := by
  have hlast := (fineY_last_iff w).mpr h
  have h29 : tileRow w = 29 ↔ coarseY w = 29 := by
    rw [← toNat_tileRow, ← BitVec.toNat_inj]
    rfl
  have h31 : tileRow w ≠ 31 := by
    intro heq
    have hrow : (31 : Word).toNat = coarseY w := heq ▸ toNat_tileRow w
    have h31 : (31 : Word).toNat = 31 := rfl
    omega
  rw [rowNext, if_neg (not_not.mpr hlast)]
  by_cases hbottom : coarseY w = 29
  · rw [if_pos (Or.inl (h29.mpr hbottom)), hbottom]
    rfl
  · have hnext : (tileRow w + 1).toNat = coarseY w + 1 := by
      rw [BitVec.toNat_add, toNat_tileRow]
      show (coarseY w + 1) % 65536 = _
      omega
    rw [if_neg (not_or.mpr ⟨mt h29.mp hbottom, h31⟩), toNat_shifted (by omega), hnext]
    omega

/-- The fields of `rowNext` count the 240 rows of a nametable. -/
theorem rowNext_position {w : Word} (h : coarseY w ≤ 29) : coarseY (rowNext w) ≤ 29 ∧
    8 * coarseY (rowNext w) + fineY (rowNext w) = (8 * coarseY w + fineY w + 1) % 240 := by
  have hlt := fineY_lt w
  by_cases hfine : fineY w = 7
  · have hnext := rowNext_of_eq hfine h
    rw [coarseY_eq (rowNext w), fineY_eq (rowNext w), hnext, hfine]
    omega
  · have hnext := rowNext_of_ne hfine
    have hcoarse : (w.toNat + 4096) / 32 % 32 = coarseY w := by
      rw [coarseY_eq]
      omega
    have hnextFine : (w.toNat + 4096) / 4096 % 8 = fineY w + 1 := by
      rw [fineY_eq] at hfine hlt ⊢
      omega
    rw [coarseY_eq (rowNext w), fineY_eq (rowNext w), hnext, hcoarse, hnextFine]
    omega

theorem unused_rowNext {w : Word} (h : coarseY w ≤ 29)
    (hset : (rowNext w).getLsbD 15 = true) : w.getLsbD 15 = true := by
  rw [BitVec.getLsbD, Nat.testBit_eq_decide_div_mod_eq, decide_eq_true_iff] at hset ⊢
  by_cases hfine : fineY w = 7
  · rw [rowNext_of_eq hfine h] at hset
    omega
  · have hw := fineY_eq w
    rw [rowNext_of_ne hfine] at hset
    omega

/-- The position goes down from `p` to `q` by a row, in the column of `reg_t`. -/
structure RowAdvanced (p q : Ppu) : Prop where
  tiles : coarseY q.vramAddr ≤ 29
  rows : row q.vramAddr = (row p.vramAddr + 1) % 480
  column : ∀ i, i < 5 ∨ i = 10 → q.vramAddr.getLsbD i = p.regT.getLsbD i
  unused : q.vramAddr.getLsbD 15 = true → p.vramAddr.getLsbD 15 = true
  frame : q = { p with vramAddr := q.vramAddr }

/-- **`IncrVert` goes down a row exactly when bit 11 of `reg_t` selects the nametables that the
next row is in.** -/
theorem incrVert_iff (p : Ppu) (h : coarseY p.vramAddr ≤ 29) :
    RowAdvanced p p.incrVert ↔
      p.regT.getLsbD 11 = decide (240 ≤ (row p.vramAddr + 1) % 480) := by
  have hvram := vramAddr_incrVert p
  obtain ⟨htiles, hrows⟩ := rowNext_position h
  have hfine := fineY_lt p.vramAddr
  have hlower := lower_le p.vramAddr
  have hrow : row p.incrVert.vramAddr =
      240 * lower p.regT + (8 * coarseY p.vramAddr + fineY p.vramAddr + 1) % 240 := by
    rw [hvram, row, lower_reload, coarseY_reload, fineY_reload, Nat.add_assoc, hrows]
  have hbit : p.regT.getLsbD 11 = decide (240 ≤ (row p.vramAddr + 1) % 480) ↔
      row p.incrVert.vramAddr = (row p.vramAddr + 1) % 480 := by
    rw [hrow]
    unfold row lower
    unfold lower at hlower
    cases p.regT.getLsbD 11
    · simp only [Bool.toNat_false, false_eq_decide_iff]
      omega
    · simp only [Bool.toNat_true, true_eq_decide_iff]
      omega
  rw [hbit]
  constructor
  · intro hadvanced
    exact hadvanced.rows
  · intro hnext
    refine ⟨?_, hnext, ?_, ?_, ?_⟩
    · rw [hvram, coarseY_reload]
      exact htiles
    · intro i hi
      rw [hvram, getLsbD_reload _ _ (by omega), if_pos (by omega)]
    · rw [hvram, getLsbD_reload _ _ (by decide), if_neg (by decide)]
      exact unused_rowNext h
    · obtain ⟨vramAddr, heq⟩ := incrVert_eq p
      rw [heq]

/-- The last row of the upper nametables, with a scroll position of 239 rows. -/
def lastRow : Ppu := { leftEdge with vramAddr := 0x73A0, regT := 0x73A0 }

/-- The same row, with a scroll position in the lower nametables. -/
def lastRowBelow : Ppu := { lastRow with regT := 0x0800 }

theorem incrVert_iff_lastRowBelow : row lastRowBelow.vramAddr = 239 ∧
    RowAdvanced lastRowBelow lastRowBelow.incrVert :=
  ⟨by decide, (incrVert_iff lastRowBelow (by decide)).mpr (by decide)⟩

/-- The row under `lastRow` is drawn from the top of the upper nametables. -/
theorem lastRow_not_advanced : coarseY lastRow.vramAddr ≤ 29 ∧ row lastRow.vramAddr = 239 ∧
    row lastRow.incrVert.vramAddr = 0 ∧ ¬RowAdvanced lastRow lastRow.incrVert := by
  have hnext : row lastRow.incrVert.vramAddr = 0 := by decide
  refine ⟨by decide, by decide, hnext, ?_⟩
  intro hadvanced
  have hrows := hadvanced.rows
  rw [hnext] at hrows
  exact absurd hrows (by decide)

end RetroCpu.Nes.Ppu
