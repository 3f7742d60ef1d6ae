import RetroCpu.Nes.Nmi

/-!
# A frame that is not drawn

While rendering is off `PpuStep` counts the dots and reads nothing.  `Dark` is such a picture
processor before the dot of the NMI.

* `Dark.nmis`: at that dot it calls `AssertNMI` if the program has asked for it.
* `Dark.catchesUp`: so `CatchUpToCpu` leaves it before that dot, or has called `AssertNMI`.
-/

namespace RetroCpu.Nes.Ppu

variable {p : Ppu} {due : ℕ}

/-- The state of a scanline that is not drawn. -/
def Blank (s : PpuState) : Prop :=
  s = .fetchScanlineStart ∨ s = .renderDisabledScanline ∨ s = .postrenderScanline

/-- The picture processor of a program that draws nothing.  Its clock is at `due` when it comes
to the dot at which it calls `AssertNMI`. -/
structure Dark (due : ℕ) (p : Ppu) : Prop where
  valid : p.beam.Valid
  ppuClockSize : p.ppuClockSize = 4
  rendering : p.renderingEnabled = false
  state : Blank p.state
  dot : p.beam.dot ≤ nmiDot
  clock : p.lastPpuCycle.toNat + 4 * nmiDot = due + 4 * p.beam.dot
  status : 241 * 341 + 1 < p.beam.dot → p.status &&& 0x80 = 0x80

/-- It reads nothing. -/
theorem blank_ppuStep (hr : p.renderingEnabled = false) (hs : Blank p.state) :
    p.ppuStep.bus = p.bus ∧ Blank p.ppuStep.state := by
  have hcopy : p.copyVert = p := if_neg fun h => by simp [hr] at h
  have hend : ∀ q : Ppu, Blank q.state → q.endNt2.bus = q.bus ∧ Blank q.endNt2.state := by
    intro q hq
    unfold endNt2
    split
    · dsimp only
      split
      · exact ⟨rfl, .inr (.inr rfl)⟩
      · exact ⟨rfl, .inl rfl⟩
    · exact ⟨rfl, hq⟩
  rw [ppuStep, hcopy]
  rcases hs with hs | hs | hs
  · have hskip : ∀ q : Ppu, q.renderingEnabled = false → q.skipsDot = false := by
      intro q hq
      simp [skipsDot, hq]
    have hstart : p.scanlineStart.state = .renderDisabledScanline := by
      show (if p.renderingEnabled then PpuState.fetchNt else .renderDisabledScanline) = _
      rw [hr]
      rfl
    rw [if_pos hs]
    dsimp only
    split
    · next h => exact absurd (h.symm.trans (hskip _ hr)) (by decide)
    · exact ⟨rfl, .inr (.inl hstart)⟩
  · rw [if_neg (by rw [hs]; decide), fetchStep, hs]
    dsimp only
    split
    · exact ⟨rfl, .inr (.inl rfl)⟩
    · exact hend p (.inr (.inl hs))
  · rw [if_neg (by rw [hs]; decide), fetchStep, hs]
    dsimp only
    have hvblank : p.enterVblank.bus = p.bus ∧ p.enterVblank.state = p.state := by
      unfold enterVblank
      split
      · split
        · exact ⟨rfl, rfl⟩
        · split <;> exact ⟨rfl, rfl⟩
      · exact ⟨rfl, rfl⟩
    unfold postrenderScanline
    dsimp only
    split
    · split
      · exact ⟨hvblank.1, .inl rfl⟩
      · exact ⟨hvblank.1, .inr (.inr (hvblank.2.trans hs))⟩
    · exact ⟨hvblank.1, .inr (.inr (hvblank.2.trans hs))⟩

theorem nextDot_dark (hr : p.beam.rendering = false) (hdot : p.beam.dot ≤ nmiDot) :
    p.beam.nextDot = p.beam.dot + 1 := by
  have hmax : nmiDot = 82185 := rfl
  rw [Beam.nextDot, if_neg (by omega), Beam.skips, hr]
  simp

/-- The bit of the vertical blank, from the dot at which it is set. -/
theorem status_ppuStep (h : p.beam.Valid) (hlo : 241 * 341 + 1 ≤ p.beam.dot)
    (hhi : p.beam.dot < nmiDot)
    (hs : 241 * 341 + 1 < p.beam.dot → p.status &&& 0x80 = 0x80) :
    p.ppuStep.status &&& 0x80 = 0x80 := by
  have hmax : nmiDot = 82185 := rfl
  have hdot : p.beam.dot = 341 * p.currentScanline + p.currentPixelClock := rfl
  have hclock : p.currentPixelClock < 341 := h.clock
  have hline : p.currentScanline = 241 := by omega
  have hlines : p.numRenderScanlines = 240 := h.renderScanlines
  have hpost : p.numPostrenderScanlines = 1 := h.postrenderScanlines
  rw [ppuStep_postrender h (by omega), (status_postrenderScanline p).1, enterVblank,
    if_pos (by omega)]
  split
  · show (p.status ||| 0x80) &&& 0x80 = 0x80
    rw [BitVec.and_comm, BitVec.and_or_distrib_left]
    ext i hi
    simp
    grind
  · next hne =>
    rw [if_neg (by omega)]
    exact hs (by omega)

theorem nmis_of_dot (h : p.beam.Valid) (hdot : p.beam.dot = nmiDot)
    (hset : p.status &&& p.control &&& 0x80 ≠ 0) : p.ppuStep.nmis = p.nmis + 1 := by
  have hmax : nmiDot = 82185 := rfl
  have hdot' : p.beam.dot = 341 * p.currentScanline + p.currentPixelClock := rfl
  have hclock : p.currentPixelClock < 341 := h.clock
  have hlines : p.numRenderScanlines = 240 := h.renderScanlines
  have hpost : p.numPostrenderScanlines = 1 := h.postrenderScanlines
  rw [ppuStep_postrender h (by omega), (status_postrenderScanline p).2, enterVblank,
    if_pos (by omega), if_neg (by omega), if_pos ⟨hset, by omega⟩]

/-- A step before the dot of the NMI. -/
theorem Dark.clockStep (h : Dark due p) (hdot : p.beam.dot < nmiDot)
    (hroom : p.lastPpuCycle.toNat + 4 < 2 ^ 64) :
    Dark due p.clockStep ∧ p.clockStep.bus = p.bus ∧ p.clockStep.nmis = p.nmis := by
  have hvalid : p.tick.beam.Valid := h.valid
  have hstep := advances_ppuStep hvalid
  have hnext : p.clockStep.beam.dot = p.beam.dot + 1 :=
    hstep.dot.trans (nextDot_dark (p := p.tick) h.rendering h.dot)
  obtain ⟨hbus, hstate⟩ := blank_ppuStep (p := p.tick) h.rendering h.state
  have hsettings : p.clockStep.settings = p.tick.settings := settings_ppuStep p.tick
  have hlast : p.clockStep.lastPpuCycle.toNat = p.lastPpuCycle.toNat + 4 := by
    rw [lastPpuCycle_clockStep, h.ppuClockSize, BitVec.toNat_add]
    exact Nat.mod_eq_of_lt hroom
  have htime := h.clock
  refine ⟨⟨hstep.valid, (ppuClockSize_clockStep p).trans h.ppuClockSize,
    (congrArg Settings.renderingEnabled hsettings).trans h.rendering, hstate, by omega, by omega,
    fun hlo => ?_⟩, hbus, ?_⟩
  · exact status_ppuStep hvalid (show 241 * 341 + 1 ≤ p.beam.dot by omega) hdot h.status
  · rcases nmis_ppuStep hvalid with hn | ⟨-, hn⟩
    · exact hn
    · exact absurd hn (Nat.ne_of_lt hdot)

/-- **It calls `AssertNMI` if the program has asked for it.** -/
theorem Dark.nmis (h : Dark due p) (hdot : p.beam.dot = nmiDot)
    (hcontrol : p.control &&& 0x80 = 0x80) : p.clockStep.nmis = p.nmis + 1 := by
  refine nmis_of_dot (p := p.tick) h.valid hdot ?_
  show p.status &&& p.control &&& 0x80 ≠ 0
  have hmax : nmiDot = 82185 := rfl
  rw [BitVec.and_assoc, hcontrol, h.status (by omega)]
  decide

/-! ### Catching up -/

/-- The picture processor has gone on in the dark. -/
structure Darker (due : ℕ) (p q : Ppu) : Prop where
  dark : Dark due q
  bus : q.bus = p.bus
  nmis : q.nmis = p.nmis
  control : q.control = p.control

/-- **It is still before the NMI, or it has called `AssertNMI`.** -/
theorem Dark.catchesUp {c : BitVec 64} {q : Ppu} (h : Dark due p) (hc : c.toNat + 4 ≤ 2 ^ 64)
    (hq : CatchesUp c p q) :
    Darker due p q ∨ due < c.toNat ∧ (p.control &&& 0x80 = 0x80 → p.nmis < q.nmis) := by
  refine ((catchesUp_iff.mp hq).invariant (P := fun r => Darker due p r ∨ r.beam.Valid ∧
    due < c.toNat ∧ (p.control &&& 0x80 = 0x80 → p.nmis < r.nmis)) ?_
    (.inl ⟨h, rfl, rfl, rfl⟩)).1.imp_right fun hr => hr.2
  rintro r (hr | ⟨hvalid, hdue, hn⟩) hdone
  · have hbehind : r.lastPpuCycle.toNat < c.toNat := not_not.mp hdone
    have htime := hr.dark.clock
    have hdot := hr.dark.dot
    have hcontrol : r.clockStep.control = r.control :=
      congrArg Settings.control (settings_ppuStep r.tick)
    rcases Nat.lt_or_eq_of_le hdot with hlt | heq
    · obtain ⟨hdark, hbus, hnmis⟩ := hr.dark.clockStep hlt (by omega)
      exact .inl ⟨hdark, hbus.trans hr.bus, hnmis.trans hr.nmis, hcontrol.trans hr.control⟩
    · refine .inr ⟨(advances_ppuStep (p := r.tick) hr.dark.valid).valid, by omega, fun hset => ?_⟩
      have hnmis := hr.dark.nmis heq (hr.control ▸ hset)
      rw [hnmis, hr.nmis]
      exact Nat.lt_succ_self _
  · refine .inr ⟨(advances_ppuStep (p := r.tick) hvalid).valid, hdue, fun hset => ?_⟩
    have hle : r.nmis ≤ r.clockStep.nmis := by
      rcases nmis_ppuStep (p := r.tick) hvalid with hn | ⟨hn, -⟩
      · exact Nat.le_of_eq hn.symm
      · exact (Nat.le_succ _).trans (Nat.le_of_eq hn.symm)
    exact (hn hset).trans_le hle

end RetroCpu.Nes.Ppu
