import RetroCpu.Lib.Latch
import RetroCpu.Nes.Clocks
import RetroCpu.Nes.Frame

/-!
# The line of the NMI

`PpuStep` calls `AssertNMI` at one dot of the frame, and the bit that this sets in
`pending_interrupts` is a latch.  `Beam.untilNmi` counts the steps that are left until that dot at
least, and `NesBus.latch` is the latch with it.

* `NesBus.elapses_ppuStep`: a step is a tick, and two raises are 89341 ticks apart at least.
* `NesBus.outcome_follows_read`, `NesBus.outcome_follows_write`: an access ticks no further than its
  own time allows.
-/

namespace RetroCpu.Nes

/-- The steps between two calls of `AssertNMI` are as many as the dots of a short frame. -/
def nmiPeriod : Nat := 262 * 341 - 1

/-- The dot at which `PpuStep` calls `AssertNMI`. -/
def nmiDot : Nat := 241 * 341 + 4

/-- The steps before the one that calls `AssertNMI`, at least.  A frame may leave out dot 342. -/
def Beam.untilNmi (b : Beam) : Nat :=
  if b.dot ≤ 341 then nmiDot - 1 - b.dot
  else if b.dot ≤ nmiDot then nmiDot - b.dot
  else 262 * 341 + nmiDot - 1 - b.dot

theorem Beam.Advances.untilNmi {b b' : Beam} (h : Beam.Advances b b') :
    b.untilNmi ≤ b'.untilNmi + 1 := by
  have hdot := h.dot
  have hlt' : b'.dot < 262 * 341 := by
    have hs := h.valid.scanline
    have hc := h.valid.clock
    rw [Beam.dot]
    omega
  unfold Beam.nextDot at hdot
  by_cases hskips : b.skips = true
  · have h341 := Ppu.dot_of_skips hskips
    simp only [hskips, h341, if_true] at hdot
    unfold Beam.untilNmi nmiDot
    rw [hdot, h341]
    decide
  · rw [if_neg hskips] at hdot
    unfold Beam.untilNmi nmiDot
    split_ifs at hdot ⊢ <;> omega

/-- The step after the one that calls `AssertNMI`. -/
theorem Beam.Advances.untilNmi_of_dot {b b' : Beam} (h : Beam.Advances b b')
    (hdot : b.dot = nmiDot) : b.untilNmi = 0 ∧ nmiPeriod ≤ b'.untilNmi + 1 := by
  have hnext := h.dot
  have hdot' : b.dot = 82185 := hdot
  rw [Ppu.nextDot_of_ne (by omega), if_neg (by omega)] at hnext
  unfold Beam.untilNmi nmiPeriod nmiDot
  rw [hnext, hdot']
  decide

namespace Ppu

/-! ### The calls of `AssertNMI` -/

/-- A function of the picture processor that does not call `AssertNMI`. -/
def Silent (f : Ppu → Ppu) : Prop := ∀ p, (f p).nmis = p.nmis

theorem nmis_read (p : Ppu) (addr : CpuAddr) : (p.read addr).2.nmis = p.nmis := by
  obtain ⟨bus, hbus⟩ := read_eq p addr
  rw [hbus]

theorem silent_incrVert : Silent incrVert := by
  intro p
  obtain ⟨vramAddr, h⟩ := incrVert_eq p
  rw [h]

theorem silent_copyVert : Silent copyVert := by
  intro p
  obtain ⟨vramAddr, h⟩ := copyVert_eq p
  rw [h]

theorem nmis_addSprite (p : Ppu) (index : BitVec 32) (sY eY : Byte) (y : BitVec 32) :
    (p.addSprite index sY eY y).nmis = p.nmis := by
  unfold addSprite
  simp only [readSpriteBit0, readSpriteBit1]
  exact (nmis_read _ _).trans (nmis_read _ _)

theorem nmis_evaluateSpritesLoop (fuel : Nat) (index : BitVec 32) (p : Ppu) :
    (evaluateSpritesLoop fuel index p).nmis = p.nmis := by
  induction fuel generalizing index p with
  | zero => rfl
  | succ fuel ih =>
    simp only [evaluateSpritesLoop]
    split
    · split
      · rw [ih]
        split
        · exact nmis_addSprite _ _ _ _ _
        · rfl
      · split
        · exact ih _ _
        · exact ih _ _
    · rfl

theorem silent_evaluateSprites : Silent evaluateSprites := fun p =>
  nmis_evaluateSpritesLoop _ _ { p with numSprites := 0 }

theorem nmis_drawLoop (y : BitVec 32) (n : Nat) (x : BitVec 32) (p : Ppu) :
    (drawLoop y n x p).nmis = p.nmis := by
  induction n generalizing x p with
  | zero => rfl
  | succ n ih => exact ih _ _

theorem silent_drawPixels : Silent drawPixels := by
  intro p
  unfold drawPixels
  split
  · rfl
  · exact (nmis_drawLoop _ _ _ _).trans (nmis_drawLoop _ _ _ _)

theorem silent_onEvenDot {f : Ppu → Ppu} (hf : Silent f) : Silent (onEvenDot · f) := by
  intro p
  show (if p.currentPixelClock &&& 1 = 0 then f p else p).nmis = p.nmis
  split
  · exact hf p
  · rfl

theorem silent_leaveBg2 : Silent leaveBg2 := by
  intro p
  unfold leaveBg2
  split
  · dsimp only
    split
    · exact (silent_evaluateSprites _).trans (silent_incrVert _)
    · rfl
  · rfl

theorem silent_fetchBg2 : Silent fetchBg2 := by
  intro p
  have hread := nmis_read p (p.backgroundAddr p.future.nametable + 8)
  unfold fetchBg2
  dsimp only
  split
  · exact (silent_leaveBg2 _).trans ((silent_drawPixels _).trans hread)
  · exact (silent_leaveBg2 _).trans hread

theorem silent_leaveTailBg2 : Silent leaveTailBg2 := by
  intro p
  unfold leaveTailBg2
  split <;> rfl

theorem silent_fetchTailBg2 : Silent fetchTailBg2 := fun p =>
  (silent_leaveTailBg2 _).trans (nmis_read p (p.backgroundAddr p.next.nametable + 8))

theorem silent_endNt2 : Silent endNt2 := by
  intro p
  unfold endNt2
  split
  · dsimp only
    split <;> rfl
  · rfl

/-- Only the scanlines below the picture call `AssertNMI`. -/
theorem nmis_fetchStep {p : Ppu} (h : p.state ≠ .postrenderScanline) :
    p.fetchStep.nmis = p.nmis := by
  unfold fetchStep
  split
  · rfl
  · exact silent_onEvenDot (f := fetchNt) (fun _ => nmis_read _ _) p
  · exact silent_onEvenDot (f := fetchAt) (fun _ => nmis_read _ _) p
  · exact silent_onEvenDot (f := fetchBg) (fun _ => nmis_read _ _) p
  · exact silent_onEvenDot silent_fetchBg2 p
  · exact silent_onEvenDot (f := fetchBadNt) (fun _ => nmis_read _ _) p
  · exact silent_onEvenDot (f := fetchBadNt2) (fun _ => nmis_read _ _) p
  · exact silent_onEvenDot (fun _ => rfl : Silent fetchSpriteLow) p
  · exact silent_onEvenDot (fun _ => rfl : Silent fetchSpriteHigh) p
  · exact silent_onEvenDot (f := fetchTailNt) (fun _ => nmis_read _ _) p
  · exact silent_onEvenDot (f := fetchTailAt) (fun _ => nmis_read _ _) p
  · exact silent_onEvenDot (f := fetchTailBg) (fun _ => nmis_read _ _) p
  · exact silent_onEvenDot silent_fetchTailBg2 p
  · exact silent_onEvenDot (fun _ => rfl : Silent endNt1) p
  · split
    · rfl
    · exact silent_endNt2 p
  · exact silent_endNt2 p
  · next hs => exact absurd hs h

/-- Below the picture there is no other case. -/
theorem ppuStep_postrender {p : Ppu} (h : p.beam.Valid) (hscanline : 240 < p.currentScanline) :
    p.ppuStep = p.postrenderScanline := by
  have hs : p.state = .postrenderScanline := h.postrender hscanline
  rw [ppuStep, copyVert_of_scanline (by omega), if_neg (by rw [hs]; decide), fetchStep, hs]

theorem status_postrenderScanline (p : Ppu) :
    p.postrenderScanline.status = p.enterVblank.status ∧
      p.postrenderScanline.nmis = p.enterVblank.nmis := by
  unfold postrenderScanline
  dsimp only
  split
  · split <;> exact ⟨rfl, rfl⟩
  · exact ⟨rfl, rfl⟩

/-- **`PpuStep` calls `AssertNMI` at one dot only.** -/
theorem nmis_ppuStep {p : Ppu} (h : p.beam.Valid) :
    p.ppuStep.nmis = p.nmis ∨ p.ppuStep.nmis = p.nmis + 1 ∧ p.beam.dot = nmiDot := by
  by_cases hscanline : p.beam.scanline ≤ 240
  · left
    have hstate : p.state ≠ .postrenderScanline := by
      rcases h.rendered hscanline with hs | ⟨hs, -⟩
      · have hall : ∀ clock, clock < 341 → fetchState clock ≠ .postrenderScanline := by
          decide +kernel
        have hs' : p.state = fetchState p.beam.clock := hs
        rw [hs']
        exact hall _ h.clock
      · have hs' : p.state = .renderDisabledScanline := hs
        rw [hs']
        decide
    have hcopy : p.copyVert.state ≠ .postrenderScanline := by
      obtain ⟨vramAddr, hv⟩ := copyVert_eq p
      rw [hv]
      exact hstate
    unfold ppuStep
    dsimp only
    split
    · split
      · next hskip =>
        refine (nmis_fetchStep ?_).trans ((silent_copyVert _).trans (silent_copyVert p))
        obtain ⟨vramAddr, hv⟩ := copyVert_eq
          { p.copyVert.scanlineStart with currentPixelClock :=
              p.copyVert.scanlineStart.currentPixelClock + 1 }
        rw [hv]
        show (if p.copyVert.renderingEnabled then PpuState.fetchNt
          else .renderDisabledScanline) ≠ .postrenderScanline
        split <;> decide
      · exact silent_copyVert p
    · exact (nmis_fetchStep hcopy).trans (silent_copyVert p)
  · have hlines : p.numRenderScanlines = 240 := h.renderScanlines
    have hpost : p.numPostrenderScanlines = 1 := h.postrenderScanlines
    rw [ppuStep_postrender h (Nat.not_le.mp hscanline), (status_postrenderScanline p).2]
    unfold enterVblank
    split
    · next hline =>
      split
      · exact Or.inl rfl
      · split
        · next hset =>
          refine Or.inr ⟨rfl, ?_⟩
          have hclock : p.currentPixelClock = 4 := hset.2
          show 341 * p.currentScanline + p.currentPixelClock = nmiDot
          rw [hline, hlines, hpost, hclock]
          rfl
        · exact Or.inl rfl
    · exact Or.inl rfl

end Ppu

/-! ### The latch -/

namespace NesBus

/-- The bit that `AssertNMI` sets, and the picture processor behind it. -/
def latch (b : NesBus) : Latch where
  raised := b.ppu.nmis
  line := b.pendingInterrupts &&& 4 != 0
  distance := b.ppu.beam.untilNmi

def OnlyNmi (b : NesBus) : Prop := b.pendingInterrupts = 0 ∨ b.pendingInterrupts = 4

/-- The picture processor goes on by `k` steps. -/
structure Elapses (k : ℕ) (b b' : NesBus) : Prop where
  valid : b'.ppu.beam.Valid
  cycle : b'.ppu.lastPpuCycle.toNat = b.ppu.lastPpuCycle.toNat + 4 * k
  latch : Latch.Elapses nmiPeriod k b.latch b'.latch
  onlyNmi : b.OnlyNmi → b'.OnlyNmi

variable {b b' b'' : NesBus}

theorem Elapses.trans {j k : ℕ} (h : Elapses j b b') (h' : Elapses k b' b'') :
    Elapses (j + k) b b'' where
  valid := h'.valid
  cycle := by rw [h'.cycle, h.cycle]; omega
  latch := Latch.graded_elapses.trans h.latch h'.latch
  onlyNmi hb := h'.onlyNmi (h.onlyNmi hb)

/-- What leaves the picture processor and the latch alone. -/
theorem elapses_zero (hv : b.ppu.beam.Valid) (hppu : Ppu.SamePlace b.ppu.beam b'.ppu.beam)
    (hcycle : b'.ppu.lastPpuCycle = b.ppu.lastPpuCycle) (hnmis : b'.ppu.nmis = b.ppu.nmis)
    (hpending : b'.pendingInterrupts = b.pendingInterrupts) : Elapses 0 b b' where
  valid := hppu.valid hv
  cycle := by rw [hcycle]; rfl
  latch := by
    refine Latch.elapses_of_same hnmis ?_ ?_
    · rw [latch, latch, hpending]
    · show b.ppu.beam.untilNmi ≤ b'.ppu.beam.untilNmi + 0
      rw [Beam.untilNmi, Beam.untilNmi, hppu.dot]
      exact Nat.le_refl _
  onlyNmi hb := by
    unfold OnlyNmi
    rw [hpending]
    exact hb

/-- The bit that `SetInterruptSource` sets. -/
theorem raised_and (v : BitVec 32) : (v ||| (1 <<< 2 : ℕ)) &&& 4 = 4 := by
  show (v ||| 4) &&& 4 = 4
  rw [BitVec.and_comm, BitVec.and_or_distrib_left]
  ext i hi
  simp
  grind

theorem onlyNmi_setPpu (h : b.OnlyNmi) (p : Ppu) : (b.setPpu p).OnlyNmi := by
  show (if p.nmis = b.ppu.nmis then b.pendingInterrupts else
    b.pendingInterrupts ||| (1 <<< 2 : ℕ)) = 0 ∨ (if p.nmis = b.ppu.nmis then b.pendingInterrupts
      else b.pendingInterrupts ||| (1 <<< 2 : ℕ)) = 4
  split
  · exact h
  · rcases h with h | h
    · exact Or.inr (by rw [h]; rfl)
    · exact Or.inr (by rw [h]; rfl)

/-- A step of the picture processor, as the bus sees it. -/
theorem elapses_ppuStep {p q : Ppu} (hp : b.ppu.nmis ≤ p.nmis)
    (hstep : Beam.Advances p.beam q.beam)
    (hn : q.nmis = p.nmis ∨ q.nmis = p.nmis + 1 ∧ p.beam.dot = nmiDot) :
    Latch.Elapses nmiPeriod 1 (b.setPpu p).latch (b.setPpu q).latch := by
  rcases hn with hn | ⟨hn, hdot⟩
  · refine Latch.elapses_of_same hn ?_ hstep.untilNmi
    unfold latch setPpu
    dsimp only
    rw [hn]
  · obtain ⟨hnear, hfar⟩ := hstep.untilNmi_of_dot hdot
    refine Latch.elapses_raise hn ?_ hnear hfar
    have hne : q.nmis ≠ b.ppu.nmis := by omega
    unfold latch setPpu
    dsimp only
    rw [if_neg hne, raised_and]
    rfl

/-- An access at `cycle`, which lets the picture processor go on as far as there. -/
structure Follows (cycle : BitVec 64) (b b' : NesBus) : Prop where
  frame : Frame b b'
  elapses : ∃ k, Elapses k b b'
  ahead : b'.ppu.lastPpuCycle.toNat ≤ max b.ppu.lastPpuCycle.toNat (cycle.toNat + 3)

/-- A bus with the clocks of an NTSC console, and the beam at a dot. -/
structure Paced (b : NesBus) : Prop where
  ticks : Ticks 12 4 b
  valid : b.ppu.beam.Valid

variable {cycle : BitVec 64}

theorem Follows.paced (h : Follows cycle b b') (hb : b.Paced) : b'.Paced := by
  obtain ⟨k, hk⟩ := h.elapses
  exact ⟨stable_ticks.frame hb.ticks h.frame, hk.valid⟩

theorem Follows.trans (h : Follows cycle b b') (h' : Follows cycle b' b'') :
    Follows cycle b b'' := by
  obtain ⟨j, hj⟩ := h.elapses
  obtain ⟨k, hk⟩ := h'.elapses
  have hahead := h.ahead
  have hahead' := h'.ahead
  exact ⟨h.frame.trans h'.frame, ⟨j + k, hj.trans hk⟩, by omega⟩

theorem Follows.le {cycle' : BitVec 64} (h : Follows cycle b b')
    (hle : cycle.toNat ≤ cycle'.toNat) :
    Follows cycle' b b' := by
  have hahead := h.ahead
  exact ⟨h.frame, h.elapses, by omega⟩

theorem follows_zero (hb : b.Paced) (hf : Frame b b') (hppu : Ppu.SamePlace b.ppu.beam b'.ppu.beam)
    (hcycle : b'.ppu.lastPpuCycle = b.ppu.lastPpuCycle) (hnmis : b'.ppu.nmis = b.ppu.nmis)
    (hpending : b'.pendingInterrupts = b.pendingInterrupts) : Follows cycle b b' :=
  ⟨hf, ⟨0, elapses_zero hb.valid hppu hcycle hnmis hpending⟩, by
    rw [hcycle]
    exact Nat.le_max_left _ _⟩

/-- **`CatchUpToCpu` is a run of steps.** -/
theorem outcome_follows_catchUp (hb : b.Paced) (hroom : cycle.toNat + 4 ≤ 2 ^ 64) :
    Outcome (fun b' => Follows cycle b b' ∧ cycle.toNat ≤ b'.ppu.lastPpuCycle.toNat)
      (fun _ => True) (b.catchUp cycle) := by
  have hsize := hb.ticks.ppuClockSize
  unfold catchUp
  cases hc : b.ppu.catchUpToCpu cycle catchUpFuel with
  | none => trivial
  | some q =>
    have hends := Ppu.catchesUp_iff.mp ⟨_, hc⟩
    obtain ⟨-, hreach, -⟩ := Ppu.CatchesUp.bounds (c := cycle) ⟨_, hc⟩
    have hinv := hends.invariant
      (P := fun r => r.ppuClockSize = 4 ∧ b.ppu.nmis ≤ r.nmis ∧
        r.lastPpuCycle.toNat ≤ max b.ppu.lastPpuCycle.toNat (cycle.toNat + 3) ∧
          ∃ k, Elapses k b (b.setPpu r))
      (fun r ⟨hr, hn, hahead, k, hk⟩ hdone => ?_)
      ⟨hsize, Nat.le_refl _, Nat.le_max_left _ _, 0, ?_⟩
    · obtain ⟨⟨hq, -, hahead, hk⟩, -⟩ := hinv
      exact ⟨⟨frame_setPpu (hq.trans hsize.symm), hk, hahead⟩, hreach⟩
    · have hbehind : r.lastPpuCycle.toNat < cycle.toNat := not_not.mp hdone
      have hcycle := hk.cycle
      have hvalid : r.tick.beam.Valid := hk.valid
      have hstep := Ppu.advances_ppuStep hvalid
      have hnmis := Ppu.nmis_ppuStep hvalid
      have hlast : r.clockStep.lastPpuCycle.toNat = r.lastPpuCycle.toNat + 4 := by
        rw [Ppu.lastPpuCycle_clockStep, BitVec.toNat_add, hr]
        show (r.lastPpuCycle.toNat + 4) % 2 ^ 64 = _
        omega
      refine ⟨(Ppu.ppuClockSize_clockStep r).trans hr, ?_, by omega, k + 1, hstep.valid, ?_, ?_,
        fun h => onlyNmi_setPpu h _⟩
      · rcases hnmis with h | ⟨h, -⟩
        · exact hn.trans (Nat.le_of_eq h.symm)
        · exact hn.trans (h ▸ Nat.le_succ _)
      · change r.lastPpuCycle.toNat = _ at hcycle
        show r.clockStep.lastPpuCycle.toNat = _
        omega
      · exact Latch.graded_elapses.trans hk.latch
          (elapses_ppuStep (p := r.tick) hn hstep hnmis)
    · exact elapses_zero hb.valid ⟨_, rfl⟩ rfl rfl (if_pos rfl)

/-! ### Accesses -/

theorem counts_readReg (p : Ppu) (offset : BitVec 32) :
    (p.readReg offset).2.lastPpuCycle = p.lastPpuCycle ∧ (p.readReg offset).2.nmis = p.nmis := by
  unfold Ppu.readReg
  dsimp only
  split
  · exact ⟨rfl, rfl⟩
  split
  · exact ⟨rfl, rfl⟩
  split
  · unfold Ppu.readData
    dsimp only
    split
    · exact ⟨congrArg Settings.lastPpuCycle (Ppu.settings_read _ _), Ppu.nmis_read _ _⟩
    · exact ⟨rfl, rfl⟩
  · exact ⟨rfl, rfl⟩

theorem counts_writeReg (p : Ppu) (addr : BitVec 32) (v : Byte) :
    (p.writeReg addr v).lastPpuCycle = p.lastPpuCycle ∧ (p.writeReg addr v).nmis = p.nmis := by
  unfold Ppu.writeReg
  dsimp only
  split
  · exact ⟨rfl, rfl⟩
  split
  · exact ⟨rfl, rfl⟩
  split
  · split <;> exact ⟨rfl, rfl⟩
  split
  · split <;> exact ⟨rfl, rfl⟩
  split
  · unfold Ppu.writeScroll
    split <;> exact ⟨rfl, rfl⟩
  split
  · unfold Ppu.writeAddr
    split <;> exact ⟨rfl, rfl⟩
  split
  · unfold Ppu.writeData Ppu.write
    dsimp only
    split <;> exact ⟨rfl, rfl⟩
  · exact ⟨rfl, rfl⟩

theorem follows_readReg (hb : b.Paced) (offset : BitVec 32) :
    Follows cycle b (b.setPpu (b.ppu.readReg offset).2) := by
  obtain ⟨hcycle, hnmis⟩ := counts_readReg b.ppu offset
  exact follows_zero hb (frame_setPpu (ppuClockSize_readReg _ _))
    (Ppu.samePlace_of_eq (Ppu.beam_readReg _ _)) hcycle hnmis (if_pos hnmis)

theorem follows_writePpuReg (hb : b.Paced) (addr : BitVec 32) (v : Byte) :
    Follows cycle b (b.writePpuReg addr v) := by
  obtain ⟨hcycle, hnmis⟩ := counts_writeReg b.ppu addr v
  exact follows_zero hb (frame_writePpuReg b addr v) (Ppu.samePlace_writeReg _ _ _) hcycle hnmis
    (if_pos hnmis)

/-- What an access changes besides the picture processor. -/
theorem follows_rest (hb : b.Paced) (hf : Frame b b') (hbeam : b'.ppu.beam = b.ppu.beam)
    (hcycle : b'.ppu.lastPpuCycle = b.ppu.lastPpuCycle) (hnmis : b'.ppu.nmis = b.ppu.nmis)
    (hpending : b'.pendingInterrupts = b.pendingInterrupts) : Follows cycle b b' :=
  follows_zero hb hf (Ppu.samePlace_of_eq hbeam) hcycle hnmis hpending

theorem follows_controllers (hb : b.Paced) (reg : BitVec 32) (v : Byte) :
    Follows cycle b (b.readReg reg v).2 ∧ Follows cycle b (b.writeController v) := by
  refine ⟨?_, ?_⟩
  · have hf := frame_readReg b reg v
    unfold readReg at hf ⊢
    split
    · next h => exact follows_rest hb (by rwa [if_pos h] at hf) rfl rfl rfl rfl
    · next h =>
      rw [if_neg h] at hf
      split
      · next h' => exact follows_rest hb (by rwa [if_pos h'] at hf) rfl rfl rfl rfl
      · exact follows_rest hb (.refl b) rfl rfl rfl rfl
  · have hf := frame_writeController b v
    have hsame : (b.writeController v).ppu = b.ppu ∧
        (b.writeController v).pendingInterrupts = b.pendingInterrupts := by
      unfold writeController latchControllerData
      split
      · exact ⟨rfl, rfl⟩
      split
      · split <;> exact ⟨rfl, rfl⟩
      · exact ⟨rfl, rfl⟩
    obtain ⟨hppu, hpending⟩ := hsame
    exact follows_rest hb hf (by rw [hppu]) (by rw [hppu]) (by rw [hppu]) hpending

/-- **A read lets the picture processor go on as far as the read.** -/
theorem outcome_follows_read (hb : b.Paced) (hroom : cycle.toNat + 4 ≤ 2 ^ 64) (addr : CpuAddr) :
    Outcome (fun r => Follows cycle b r.2) (fun _ => True) (b.read cycle addr) := by
  unfold read
  dsimp only
  split
  · refine Outcome.bind (P := fun r => Follows cycle b r.2) ?_ fun r hr => ?_
    · unfold ioRead
      split
      · split
        · refine (outcome_follows_catchUp hb hroom).bind fun b' hb' => ?_
          exact hb'.1.trans (follows_readReg (hb'.1.paced hb) _)
        · exact (follows_controllers hb _ _).1
      · split
        · trivial
        · exact follows_rest hb (.refl b) rfl rfl rfl rfl
    · exact hr.trans (follows_rest (hr.paced hb) ⟨rfl, rfl, rfl, rfl, rfl⟩ rfl rfl rfl rfl)
  · exact follows_rest hb (frame_setMain (SystemBus.frame_readByte _ _ _)) rfl rfl rfl rfl

/-- **The sprite DMA does so at each of its reads.** -/
theorem outcome_follows_oamDma (hb : b.Paced) (hroom : cycle.toNat + 4 ≤ 2 ^ 64) (base : Word) :
    Outcome (Follows cycle b) (fun _ => True) (b.oamDma cycle base) := by
  refine (outcome_follows_catchUp hb hroom).bind fun b' hb' => ?_
  refine Outcome.foldlM (fun c hc i _ => ?_) hb'.1
  refine (outcome_follows_read (hc.paced hb) hroom _).bind fun r hr => ?_
  exact hc.trans (hr.trans (follows_rest (hr.paced (hc.paced hb)) ⟨rfl, rfl, rfl, rfl, rfl⟩
    rfl rfl rfl rfl))

theorem frame_writeByteNoIo {s s' : SystemBus Unit} {addr : CpuAddr} {v : Byte}
    {cycles : BitVec 32} (h : s.writeByteNoIo addr v = some (cycles, s')) :
    SystemBus.Frame s s' := by
  simp only [SystemBus.writeByteNoIo] at h
  split at h
  · cases h
    exact ⟨rfl, rfl, rfl⟩
  · obtain ⟨ptr, -, hs⟩ := Option.map_eq_some_iff.mp h
    cases hs
    exact ⟨rfl, rfl, rfl⟩

/-- The time that a sprite DMA holds the CPU at most: 513 of its cycles. -/
def maxStall : Nat := 12 * 513

/-- **A write does so up to the end of the time that it holds the CPU.** -/
theorem outcome_follows_write (hb : b.Paced) (hroom : cycle.toNat + maxStall + 4 ≤ 2 ^ 64)
    (addr : CpuAddr) (v : Byte) :
    Outcome (fun r => r.1.toNat ≤ maxStall ∧ Follows (cycle + r.1.setWidth 64) b r.2)
      (fun _ => True) (b.write cycle addr v) := by
  have hcycle : cycle + (0 : BitVec 32).setWidth 64 = cycle := by bv_omega
  have hstall : maxStall = 6156 := rfl
  have hroom' : cycle.toNat + 4 ≤ 2 ^ 64 := by omega
  have hzero : ∀ {b'}, Follows cycle b b' →
      (0 : BitVec 32).toNat ≤ maxStall ∧ Follows (cycle + (0 : BitVec 32).setWidth 64) b b' :=
    fun h => ⟨Nat.zero_le _, by rwa [hcycle]⟩
  unfold write
  dsimp only
  split
  · refine Outcome.bind
      (P := fun r => r.1.toNat ≤ maxStall ∧ Follows (cycle + r.1.setWidth 64) b r.2) ?_
      fun r hr => ?_
    · unfold ioWrite
      split
      · split
        · refine (outcome_follows_catchUp hb hroom').bind fun b' hb' => ?_
          exact hzero (hb'.1.trans (follows_writePpuReg (hb'.1.paced hb) _ _))
        · unfold writeReg
          split
          · split
            · trivial
            · have hsize : b.cpuClockSize = 12 := hb.ticks.cpuClockSize
              have hwait : (b.dmaWait cycle).toNat ≤ 12 := by
                unfold dmaWait
                rw [hsize]
                split <;> decide
              have hat : (cycle + (b.dmaWait cycle).setWidth 64).toNat =
                  cycle.toNat + (b.dmaWait cycle).toNat := by
                rw [BitVec.toNat_add, BitVec.toNat_setWidth_of_le (by decide)]
                omega
              have hend : (b.dmaWait cycle + b.cpuClockSize * 512).toNat =
                  (b.dmaWait cycle).toNat + 6144 := by
                rw [hsize, BitVec.toNat_add]
                show ((b.dmaWait cycle).toNat + 6144) % 2 ^ 32 = _
                omega
              refine (outcome_follows_oamDma hb (by omega) _).bind fun b' hb' => ?_
              refine ⟨by show (b.dmaWait cycle + b.cpuClockSize * 512).toNat ≤ _; omega,
                hb'.le ?_⟩
              show _ ≤ (cycle + (b.dmaWait cycle + b.cpuClockSize * 512).setWidth 64).toNat
              rw [hat, BitVec.toNat_add, BitVec.toNat_setWidth_of_le (by decide), hend]
              omega
          · split
            · exact hzero (follows_controllers hb 0 _).2
            · exact hzero (follows_rest hb (.refl b) rfl rfl rfl rfl)
      · split
        · trivial
        · next main hmain =>
          exact hzero (follows_rest hb (frame_setMain (frame_writeByteNoIo hmain))
            rfl rfl rfl rfl)
    · exact ⟨hr.1, hr.2.trans (follows_rest (hr.2.paced hb) ⟨rfl, rfl, rfl, rfl, rfl⟩
        rfl rfl rfl rfl)⟩
  · exact hzero (follows_rest hb (frame_setMain (SystemBus.frame_writeByte _ _ _ _))
      rfl rfl rfl rfl)

end NesBus

end RetroCpu.Nes
