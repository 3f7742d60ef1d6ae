import Mathlib.Logic.Function.Iterate
import RetroCpu.Nes.Events

/-!
# The scroll position

`reg_t` has the scroll position that the program set, `vram_addr` the one that is drawn from.
`vramAddr_scanline0` follows `vram_addr` over scanline 0, on which the rows are copied and the
columns count the tiles of a line that is not drawn.
-/

namespace RetroCpu.Nes.Ppu

variable {p : Ppu}

/-! ### Columns -/

/-- The column of tiles, of the 64 in two nametables side by side. -/
def column (w : Word) : BitVec 6 := w.extractLsb' 10 1 ++ w.extractLsb' 0 5

theorem toNat_and_31 (w : Word) : (w &&& 0x1F).toNat = w.toNat % 32 := by
  rw [BitVec.toNat_and]
  exact Nat.and_two_pow_sub_one_eq_mod w.toNat 5

theorem toNat_extractLsb'_31 (w : Word) : (w.extractLsb' 0 5).toNat = w.toNat % 32 := by
  rw [BitVec.extractLsb'_toNat, Nat.shiftRight_zero]

theorem and_31_iff (w : Word) : w &&& 0x1F = 0x1F ↔ w.extractLsb' 0 5 = 0x1F := by
  rw [← BitVec.toNat_inj, ← BitVec.toNat_inj, toNat_and_31, toNat_extractLsb'_31]
  rfl

theorem column_horizNext (w : Word) : column (horizNext w) = column w + 1 := by
  have hadd : ∀ (b : BitVec 1) (l : BitVec 5),
      (b ++ l) + 1 = if l = 0x1F then (b ^^^ 1) ++ 0#5 else b ++ (l + 1) := by decide
  unfold horizNext column
  rw [hadd]
  by_cases h : w &&& 0x1F = 0x1F
  · have hlow := (and_31_iff w).mp h
    rw [if_pos h, BitVec.extractLsb'_xor, BitVec.extractLsb'_xor, hlow]
    rfl
  · have hlow := mt (and_31_iff w).mpr h
    rw [if_neg h, if_neg hlow]
    have hne : w.toNat % 32 ≠ 31 := fun heq =>
      h (BitVec.eq_of_toNat_eq ((toNat_and_31 w).trans heq))
    have hhigh : (w + 1).extractLsb' 10 1 = w.extractLsb' 10 1 := by
      apply BitVec.eq_of_toNat_eq
      rw [BitVec.extractLsb'_toNat, BitVec.extractLsb'_toNat, BitVec.toNat_add,
        Nat.shiftRight_eq_div_pow, Nat.shiftRight_eq_div_pow]
      show (w.toNat + 1) % 65536 / 1024 % 2 = w.toNat / 1024 % 2
      omega
    have hlast : (w + 1).extractLsb' 0 5 = w.extractLsb' 0 5 + 1 := by
      apply BitVec.eq_of_toNat_eq
      rw [BitVec.toNat_add, toNat_extractLsb'_31, toNat_extractLsb'_31, BitVec.toNat_add]
      show (w.toNat + 1) % 65536 % 32 = (w.toNat % 32 + 1) % 32
      omega
    rw [hhigh, hlast]

theorem bit11_horizNext (w : Word) : (horizNext w).getLsbD 11 = w.getLsbD 11 := by
  unfold horizNext
  by_cases h : w &&& 0x1F = 0x1F
  · rw [if_pos h, BitVec.getLsbD_xor]
    exact Bool.xor_false _
  · have hne : w.toNat % 32 ≠ 31 := fun heq =>
      h (BitVec.eq_of_toNat_eq ((toNat_and_31 w).trans heq))
    rw [if_neg h]
    simp only [BitVec.getLsbD, Nat.testBit_eq_decide_div_mod_eq, BitVec.toNat_add]
    show decide ((w.toNat + 1) % 65536 / 2048 % 2 = 1) = decide (w.toNat / 2048 % 2 = 1)
    congr 2
    omega

theorem column_eq_iff (v w : Word) : column v = column w ↔
    (∀ i < 5, v.getLsbD i = w.getLsbD i) ∧ v.getLsbD 10 = w.getLsbD 10 := by
  have hbit : ∀ u : Word, ∀ i, (column u).getLsbD i =
      if i < 5 then u.getLsbD i else decide (i - 5 < 1) && u.getLsbD (10 + (i - 5)) := by
    intro u i
    rw [column, BitVec.getLsbD_append, BitVec.getLsbD_extractLsb', BitVec.getLsbD_extractLsb']
    by_cases hi : i < 5
    · rw [if_pos hi, if_pos hi, decide_eq_true hi, Nat.zero_add, Bool.true_and]
    · rw [if_neg hi, if_neg hi]
  constructor
  · intro h
    have hall : ∀ i, (column v).getLsbD i = (column w).getLsbD i := fun i => by rw [h]
    refine ⟨fun i hi => ?_, ?_⟩
    · have hi' := hall i
      rw [hbit, hbit, if_pos hi, if_pos hi] at hi'
      exact hi'
    · have h5 := hall 5
      rw [hbit, hbit] at h5
      exact h5
  · rintro ⟨hlow, hhigh⟩
    apply BitVec.eq_of_getLsbD_eq
    intro i hi
    rw [hbit, hbit]
    by_cases h5 : i < 5
    · rw [if_pos h5, if_pos h5, hlow i h5]
    · obtain rfl : i = 5 := by omega
      exact hhigh

/-- What `copyVert` makes of `vram_addr`: the rows are copied and the columns stay, and with them
bit 11, which selects the lower nametables. -/
def reload (v t : Word) : Word := (v &&& 0xC1F) ||| (t &&& 0xF3E0)

theorem getLsbD_reload (v t : Word) {i : Nat} (hi : i < 16) : (reload v t).getLsbD i =
    if i < 5 ∨ i = 10 ∨ i = 11 then v.getLsbD i else t.getLsbD i := by
  have hleft : ∀ i < 16, (0xC1F : Word).getLsbD i = decide (i < 5 ∨ i = 10 ∨ i = 11) := by decide
  have hright : ∀ i < 16, (0xF3E0 : Word).getLsbD i = !decide (i < 5 ∨ i = 10 ∨ i = 11) := by decide
  rw [reload, BitVec.getLsbD_or, BitVec.getLsbD_and, BitVec.getLsbD_and, hleft i hi, hright i hi]
  by_cases h : i < 5 ∨ i = 10 ∨ i = 11 <;> simp [h]

theorem reload_eq_iff (v t : Word) : reload v t &&& 0x7FFF = t &&& 0x7FFF ↔
    column v = column t ∧ v.getLsbD 11 = t.getLsbD 11 := by
  have hmask : ∀ i < 16, (0x7FFF : Word).getLsbD i = decide (i < 15) := by decide
  rw [column_eq_iff]
  constructor
  · intro h
    have hall : ∀ i < 15, (i < 5 ∨ i = 10 ∨ i = 11) → v.getLsbD i = t.getLsbD i := by
      intro i hi hcopied
      have hbit : (reload v t &&& 0x7FFF).getLsbD i = (t &&& 0x7FFF).getLsbD i := by rw [h]
      rw [BitVec.getLsbD_and, BitVec.getLsbD_and, hmask i (by omega), decide_eq_true hi,
        Bool.and_true, Bool.and_true, getLsbD_reload v t (by omega), if_pos hcopied] at hbit
      exact hbit
    exact ⟨⟨fun i hi => hall i (by omega) (Or.inl hi), hall 10 (by decide) (by decide)⟩,
      hall 11 (by decide) (by decide)⟩
  · rintro ⟨⟨hlow, h10⟩, h11⟩
    apply BitVec.eq_of_getLsbD_eq
    intro i hi
    rw [BitVec.getLsbD_and, BitVec.getLsbD_and, getLsbD_reload v t hi]
    by_cases hcopied : i < 5 ∨ i = 10 ∨ i = 11
    · rw [if_pos hcopied]
      rcases hcopied with h | rfl | rfl
      · rw [hlow i h]
      · rw [h10]
      · rw [h11]
    · rw [if_neg hcopied]

theorem reload_reload (v t : Word) : reload (reload v t) t = reload v t := by
  apply BitVec.eq_of_getLsbD_eq
  intro i hi
  rw [getLsbD_reload _ _ hi, getLsbD_reload _ _ hi]
  split <;> rfl

/-! ### Steps -/

theorem vramAddr_read (p : Ppu) (addr : CpuAddr) : (p.read addr).2.vramAddr = p.vramAddr := by
  simp only [read]
  split <;> rfl

theorem vramAddr_onEvenDot (p : Ppu) (f : Ppu → Ppu) : (p.onEvenDot f).vramAddr =
    if p.currentPixelClock % 2 = 0 then (f p).vramAddr else p.vramAddr := by
  show (if p.currentPixelClock &&& 1 = 0 then f p else p).vramAddr = _
  rw [Nat.and_one_is_mod]
  split <;> rfl

/-- On scanline 0 the last fetch of a line does not go down a row. -/
theorem vramAddr_fetchBg2 (h : p.currentScanline = 0) : p.fetchBg2.vramAddr =
    if p.currentPixelClock = 256 then p.vramAddr else horizNext p.vramAddr := by
  have hread := vramAddr_read p (p.backgroundAddr p.future.nametable + 8)
  have hbeam := beam_read p (p.backgroundAddr p.future.nametable + 8)
  unfold fetchBg2 readBackgroundBit1
  dsimp only
  generalize (p.read (p.backgroundAddr p.future.nametable + 8)) = r at hread hbeam
  have hscanline : r.2.currentScanline = 0 := (congrArg Beam.scanline hbeam).trans h
  have hclock : r.2.currentPixelClock = p.currentPixelClock := congrArg Beam.clock hbeam
  rw [if_neg (not_not.mpr hscanline)]
  unfold leaveBg2
  dsimp only
  rw [hclock, hscanline]
  by_cases hlast : p.currentPixelClock = 256
  · rw [if_pos hlast, if_pos hlast]
    exact hread
  · rw [if_neg hlast, if_neg hlast]
    exact congrArg horizNext hread

/-- A fetch before the tail of scanline 0 goes on by a column when a tile is complete. -/
theorem vramAddr_fetchStep (h : p.currentScanline = 0) (hpos : 0 < p.currentPixelClock)
    (hlt : p.currentPixelClock < 320) (hs : p.state = fetchState p.currentPixelClock) :
    p.fetchStep.vramAddr =
      if p.currentPixelClock % 8 = 0 ∧ p.currentPixelClock < 256 then horizNext p.vramAddr
      else p.vramAddr := by
  have hodd : ∀ f : Ppu → Ppu,
      (f p).vramAddr = p.vramAddr → (p.onEvenDot f).vramAddr = p.vramAddr := by
    intro f hf
    rw [vramAddr_onEvenDot, hf, ite_self]
  have hbg2 : ∀ c < 320, 0 < c →
      (c % 8 = 0 ∧ c < 256 ↔ fetchState c = .fetchBg2 ∧ c % 2 = 0 ∧ c ≠ 256) := by
    decide +kernel
  have hstates : ∀ c < 320, 0 < c →
      fetchState c ∈ [PpuState.fetchNt, .fetchAt, .fetchBg, .fetchBg2, .fetchBadNt, .fetchBadNt2,
        .fetchSpriteLow, .fetchSpriteHigh] := by
    decide +kernel
  have hmem := hstates _ hlt hpos
  simp only [hbg2 _ hlt hpos]
  rw [← hs] at hmem ⊢
  simp only [List.mem_cons, List.not_mem_nil, or_false] at hmem
  rcases hmem with hst | hst | hst | hst | hst | hst | hst | hst
  case inr.inr.inr.inl =>
    rw [fetchStep, hst]
    dsimp only
    rw [vramAddr_onEvenDot, vramAddr_fetchBg2 h]
    by_cases heven : p.currentPixelClock % 2 = 0
    · by_cases hlast : p.currentPixelClock = 256
      · simp [hlast]
      · simp [heven, hlast]
    · simp [heven]
  all_goals
    rw [if_neg (by rw [hst]; exact fun hf => by cases hf.1), fetchStep, hst]
    apply hodd
  · exact vramAddr_read _ _
  · exact vramAddr_read _ _
  · exact vramAddr_read _ _
  · exact vramAddr_read _ _
  · exact vramAddr_read _ _
  · rfl
  · rfl

/-! ### Scanline 0 -/

theorem clockStep_of_ne_start (h : p.state ≠ .fetchScanlineStart) :
    p.clockStep = p.tick.copyVert.fetchStep :=
  ppuStep_of_ne_start (p := p.tick) h

theorem vramAddr_copyVert (hscanline : p.currentScanline = 0)
    (hrendering : p.renderingEnabled = true) : p.copyVert.vramAddr =
      if 280 ≤ p.currentPixelClock ∧ p.currentPixelClock ≤ 304 then reload p.vramAddr p.regT
      else p.vramAddr := by
  unfold copyVert
  simp only [hscanline, hrendering, true_and]
  split <;> rfl

/-- The first dot of the frame. -/
theorem clockStep_frameStart (h : AtFrameStart p) (hrendering : p.renderingEnabled = true) :
    p.clockStep.beam = { p.beam with state := .fetchNt, clock := 1 } ∧
      p.clockStep.vramAddr = p.vramAddr := by
  have hcopy : p.tick.copyVert = p.tick :=
    if_neg fun hc => absurd hc.2.2.1 (by show ¬280 ≤ p.currentPixelClock; rw [h.clock]; decide)
  have hskip : ({ p.tick.scanlineStart with currentPixelClock := p.currentPixelClock + 1 } :
      Ppu).skipsDot = false := by
    show (p.currentScanline == 1 && _ && _) = false
    rw [h.scanline]
    rfl
  have hstep : p.clockStep =
      { p.tick.scanlineStart with currentPixelClock := p.currentPixelClock + 1 } := by
    rw [clockStep, ppuStep, hcopy, if_pos (show p.tick.state = _ from h.state)]
    exact if_neg fun hs => Bool.false_ne_true (hskip.symm.trans hs)
  rw [hstep]
  refine ⟨?_, rfl⟩
  show { p.tick.scanlineStart.beam with clock := p.currentPixelClock + 1 } = _
  rw [beam_scanlineStart, if_pos (show p.tick.beam.rendering = true from hrendering), h.clock]
  rfl

/-- The beam on scanline 0 of a frame that is rendered. -/
theorem beam_scanline0 (h : AtFrameStart p) (hrendering : p.renderingEnabled = true) {n : Nat}
    (hn : n < 339) :
    (clockStep^[n] p).beam = { p.beam with state := fetchState n, clock := n } := by
  induction n with
  | zero =>
    show p.beam = _
    unfold beam
    rw [h.state, h.clock]
    rfl
  | succ n ih =>
    rw [Function.iterate_succ_apply']
    by_cases hpos : 0 < n
    · have hbeam := ih (by omega)
      generalize clockStep^[n] p = q at hbeam
      have hclock : q.currentPixelClock = n := congrArg Beam.clock hbeam
      have hstate : q.tick.state = fetchState q.tick.currentPixelClock := by
        show q.state = fetchState q.currentPixelClock
        rw [hclock]
        exact congrArg Beam.state hbeam
      have hnext := beam_rendered_next hstate (by show 0 < q.currentPixelClock; omega)
        (by show q.currentPixelClock < 340; omega)
      have hbeam' : q.tick.beam = q.beam := rfl
      rw [clockStep, hnext, hbeam', hbeam]
      show _ = { p.beam with state := fetchState (n + 1), clock := n + 1 }
      rw [← hclock]
      rfl
    · obtain rfl : n = 0 := by omega
      exact (clockStep_frameStart h hrendering).1

/-- `vram_addr` when `n` dots of scanline 0 are over. -/
def scanline0Addr (v t : Word) (n : Nat) : Word :=
  if n ≤ 280 then horizNext^[min ((n - 1) / 8) 31] v else reload (horizNext^[31] v) t

theorem scanline0Addr_succ (v t : Word) {n : Nat} (hpos : 0 < n) :
    scanline0Addr v t (n + 1) =
      (let w := scanline0Addr v t n
      let w := if 280 ≤ n ∧ n ≤ 304 then reload w t else w
      if n % 8 = 0 ∧ n < 256 then horizNext w else w) := by
  unfold scanline0Addr
  dsimp only
  by_cases hcolumn : n % 8 = 0 ∧ n < 256
  · have hcount : min (n / 8) 31 = min ((n - 1) / 8) 31 + 1 := by omega
    have hcopy : ¬(280 ≤ n ∧ n ≤ 304) := by omega
    rw [if_pos (by omega : n + 1 ≤ 280), if_pos hcolumn, if_neg hcopy,
      if_pos (by omega : n ≤ 280), Nat.add_sub_cancel, hcount, Function.iterate_succ_apply']
  · rw [if_neg hcolumn]
    by_cases hlow : n < 280
    · have hcount : min (n / 8) 31 = min ((n - 1) / 8) 31 := by omega
      have hcopy : ¬(280 ≤ n ∧ n ≤ 304) := by omega
      rw [if_pos (by omega : n + 1 ≤ 280), if_neg hcopy, if_pos (by omega : n ≤ 280),
        Nat.add_sub_cancel, hcount]
    · rw [if_neg (by omega : ¬n + 1 ≤ 280)]
      by_cases hfirst : n = 280
      · subst hfirst
        rfl
      · rw [if_neg (by omega : ¬n ≤ 280), reload_reload, ite_self]

theorem settings_iterate (p : Ppu) (n : Nat) :
    (clockStep^[n] p).renderingEnabled = p.renderingEnabled ∧ (clockStep^[n] p).regT = p.regT := by
  induction n with
  | zero => exact ⟨rfl, rfl⟩
  | succ n ih =>
    rw [Function.iterate_succ_apply']
    have hstep := settings_ppuStep (clockStep^[n] p).tick
    exact ⟨(congrArg Settings.renderingEnabled hstep).trans ih.1,
      (congrArg Settings.regT hstep).trans ih.2⟩

theorem vramAddr_scanline0 (h : AtFrameStart p) (hrendering : p.renderingEnabled = true) {n : Nat}
    (hn : n ≤ 320) :
    (clockStep^[n] p).vramAddr = scanline0Addr p.vramAddr p.regT n := by
  induction n with
  | zero => rfl
  | succ n ih =>
    rw [Function.iterate_succ_apply']
    by_cases hpos : 0 < n
    · have hbeam := beam_scanline0 h hrendering (n := n) (by omega)
      have hvram := ih (by omega)
      obtain ⟨hen, hregT⟩ := settings_iterate p n
      generalize clockStep^[n] p = q at hbeam hvram hen hregT
      have hstate : q.state = fetchState n := congrArg Beam.state hbeam
      have hscanline : q.tick.currentScanline = 0 := (congrArg Beam.scanline hbeam).trans h.scanline
      have hclock : q.tick.currentPixelClock = n := congrArg Beam.clock hbeam
      have hne : q.state ≠ .fetchScanlineStart := by
        rw [hstate]
        exact fetchState_ne_start n (by omega) hpos
      have hcopy : q.tick.copyVert.beam = q.tick.beam := beam_copyVert q.tick
      have hcclock : q.tick.copyVert.currentPixelClock = n :=
        (congrArg Beam.clock hcopy).trans hclock
      have hcstate : q.tick.copyVert.state = fetchState q.tick.copyVert.currentPixelClock := by
        rw [hcclock]
        exact (congrArg Beam.state hcopy).trans hstate
      rw [clockStep_of_ne_start hne,
        vramAddr_fetchStep ((congrArg Beam.scanline hcopy).trans hscanline) (by omega) (by omega)
          hcstate,
        hcclock, vramAddr_copyVert hscanline (hen.trans hrendering), hclock,
        scanline0Addr_succ _ _ hpos, ← hvram, ← hregT]
      rfl
    · obtain rfl : n = 0 := by omega
      exact (clockStep_frameStart h hrendering).2

/-- At dot 320 of scanline 0 `vram_addr` has the position of `reg_t`. -/
structure ScrollReloaded (p : Ppu) : Prop where
  scanline : p.currentScanline = 0
  clock : p.currentPixelClock = 320
  position : p.vramAddr &&& 0x7FFF = p.regT &&& 0x7FFF

theorem column_iterate (n : Nat) (v : Word) :
    column (horizNext^[n] v) = column v + BitVec.ofNat 6 n ∧
      (horizNext^[n] v).getLsbD 11 = v.getLsbD 11 := by
  induction n with
  | zero => exact ⟨(BitVec.add_zero _).symm, rfl⟩
  | succ n ih =>
    rw [Function.iterate_succ_apply', column_horizNext, bit11_horizNext, ih.1, ih.2,
      BitVec.ofNat_add, BitVec.add_assoc]
    exact ⟨rfl, rfl⟩

/-- **The columns of scanline 0 are counted from where `vram_addr` was, and the scroll position
is reloaded if that comes out right.** -/
theorem scroll_reload (p : Ppu) (h : AtFrameStart p) (hrendering : p.renderingEnabled = true) :
    ScrollReloaded (clockStep^[320] p) ↔
      column p.vramAddr + 31 = column p.regT ∧ p.vramAddr.getLsbD 11 = p.regT.getLsbD 11 := by
  have hbeam := beam_scanline0 h hrendering (n := 320) (by decide)
  have hvram := vramAddr_scanline0 h hrendering (Nat.le_refl 320)
  have hregT := (settings_iterate p 320).2
  obtain ⟨hcolumn, hbit⟩ := column_iterate 31 p.vramAddr
  generalize clockStep^[320] p = q at hbeam hvram hregT ⊢
  have hposition : q.vramAddr &&& 0x7FFF = q.regT &&& 0x7FFF ↔
      column p.vramAddr + 31 = column p.regT ∧ p.vramAddr.getLsbD 11 = p.regT.getLsbD 11 := by
    rw [hvram, hregT, ← hbit]
    have h31 : column p.vramAddr + 31 = column (horizNext^[31] p.vramAddr) := hcolumn.symm
    rw [h31, scanline0Addr, if_neg (by decide)]
    exact reload_eq_iff _ _
  constructor
  · intro hreloaded
    exact hposition.mp hreloaded.position
  · intro hcond
    have hscanline : q.currentScanline = p.currentScanline := congrArg Beam.scanline hbeam
    exact ⟨hscanline.trans h.scanline, congrArg Beam.clock hbeam, hposition.mpr hcond⟩

/-- A frame that begins at the left edge, as a program leaves it that sets no scroll position. -/
def leftEdge : Ppu := (zeroed.construct.initializePpu true).writeMask 8

/-- The same frame, with the scroll position in the last column. -/
def rightEdge : Ppu := leftEdge.writeReg 5 0xF8

theorem scroll_reload_rightEdge : ScrollReloaded (clockStep^[320] rightEdge) :=
  (scroll_reload rightEdge ⟨rfl, rfl, rfl⟩ rfl).mpr ⟨by decide, by decide⟩

/-- The first visible line of `leftEdge` does not begin at the left edge. -/
theorem leftEdge_not_reloaded : AtFrameStart leftEdge ∧ leftEdge.renderingEnabled = true ∧
    leftEdge.vramAddr = 0 ∧ leftEdge.regT = 0 ∧
    (clockStep^[320] leftEdge).currentScanline = 0 ∧
    (clockStep^[320] leftEdge).currentPixelClock = 320 ∧
    (clockStep^[320] leftEdge).vramAddr &&& 0x7FFF ≠
      (clockStep^[320] leftEdge).regT &&& 0x7FFF := by
  have hstart : AtFrameStart leftEdge := ⟨rfl, rfl, rfl⟩
  have hbeam := beam_scanline0 hstart rfl (n := 320) (by decide)
  have hvram := vramAddr_scanline0 hstart rfl (Nat.le_refl 320)
  have hregT := (settings_iterate leftEdge 320).2
  generalize clockStep^[320] leftEdge = q at hbeam hvram hregT ⊢
  have hscanline : q.currentScanline = 0 := congrArg Beam.scanline hbeam
  have hclock : q.currentPixelClock = 320 := congrArg Beam.clock hbeam
  refine ⟨hstart, rfl, rfl, rfl, hscanline, hclock, ?_⟩
  rw [hvram, hregT]
  show scanline0Addr 0 0 320 &&& 0x7FFF ≠ 0 &&& 0x7FFF
  decide +kernel

end RetroCpu.Nes.Ppu
