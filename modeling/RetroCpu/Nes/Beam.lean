import RetroCpu.Nes.Ppu

/-!
# The beam

Which dot of which scanline the picture processor is at.  `Beam.Valid` ties the state of the
machine to the dot, `Beam.dot` numbers the dots of a frame from 0 to 262 · 341 − 1, and
`advances_ppuStep` says that a step goes to the next one, or over one on the odd frames.
-/

namespace RetroCpu.Nes

/-- What decides where the beam goes. -/
structure Beam where
  state : PpuState
  scanline : Nat
  clock : Nat
  renderScanlines : Nat
  postrenderScanlines : Nat
  totalScanlines : Nat
  rendering : Bool
  frameId : BitVec 32

namespace Ppu

def beam (p : Ppu) : Beam where
  state := p.state
  scanline := p.currentScanline
  clock := p.currentPixelClock
  renderScanlines := p.numRenderScanlines
  postrenderScanlines := p.numPostrenderScanlines
  totalScanlines := p.totalScanlines
  rendering := p.renderingEnabled
  frameId := p.frameId

/-! ### What leaves the beam alone -/

variable (p : Ppu)

theorem beam_read (addr : CpuAddr) : (p.read addr).2.beam = p.beam := by
  simp only [read]
  split <;> rfl

theorem beam_incrVert : p.incrVert.beam = p.beam := by
  unfold incrVert
  split <;> rfl

theorem beam_addSprite (index : BitVec 32) (sY eY : Byte) (y : BitVec 32) :
    (p.addSprite index sY eY y).beam = p.beam := by
  unfold addSprite
  simp only [readSpriteBit0, readSpriteBit1]
  exact (beam_read _ _).trans (beam_read _ _)

theorem beam_evaluateSpritesLoop (fuel : Nat) (index : BitVec 32) :
    (evaluateSpritesLoop fuel index p).beam = p.beam := by
  induction fuel generalizing index p with
  | zero => rfl
  | succ fuel ih =>
    simp only [evaluateSpritesLoop]
    split
    · split
      · rw [ih]
        split
        · exact beam_addSprite _ _ _ _ _
        · rfl
      · split
        · exact ih _ _
        · exact ih _ _
    · rfl

theorem beam_evaluateSprites : p.evaluateSprites.beam = p.beam :=
  beam_evaluateSpritesLoop _ _ _

theorem beam_drawLoop (y : BitVec 32) (n : Nat) (x : BitVec 32) :
    (drawLoop y n x p).beam = p.beam := by
  induction n generalizing x p with
  | zero => rfl
  | succ n ih => exact ih _ _

theorem beam_drawPixels : p.drawPixels.beam = p.beam := by
  unfold drawPixels
  split
  · rfl
  · exact (beam_drawLoop _ _ _ _).trans (beam_drawLoop _ _ _ _)

theorem beam_copyVert : p.copyVert.beam = p.beam := by
  unfold copyVert
  split <;> rfl

variable {p}

/-- A case of `PpuStep` that goes to the state `s` on an even dot. -/
theorem beam_onEvenDot {f : Ppu → Ppu} {s : PpuState}
    (hf : (f p).beam = { p.beam with state := s }) :
    (p.onEvenDot f).beam =
      { p.beam with
        state := if p.currentPixelClock % 2 = 0 then s else p.state
        clock := p.currentPixelClock + 1 } := by
  simp only [onEvenDot, Nat.and_one_is_mod]
  split
  · have hclock : (f p).currentPixelClock = p.currentPixelClock := congrArg Beam.clock hf
    have hset : ∀ q : Ppu, ({ q with currentPixelClock := q.currentPixelClock + 1 } : Ppu).beam =
        { q.beam with clock := q.currentPixelClock + 1 } := fun _ => rfl
    rw [hset, hf, hclock]
  · rfl

end Ppu

/-! ### The state of the machine at a dot -/

/-- The state that fetches at a dot. -/
def fetchState (clock : Nat) : PpuState :=
  if clock = 0 then .fetchScanlineStart
  else if clock ≤ 256 then
    match (clock - 1) / 2 % 4 with
    | 0 => .fetchNt
    | 1 => .fetchAt
    | 2 => .fetchBg
    | _ => .fetchBg2
  else if clock ≤ 320 then
    match (clock - 1) / 2 % 4 with
    | 0 => .fetchBadNt
    | 1 => .fetchBadNt2
    | 2 => .fetchSpriteLow
    | _ => .fetchSpriteHigh
  else if clock ≤ 336 then
    match (clock - 1) / 2 % 4 with
    | 0 => .fetchTailNt
    | 1 => .fetchTailAt
    | 2 => .fetchTailBg
    | _ => .fetchTailBg2
  else if clock ≤ 338 then .endNt1
  else .endNt2

/-- The state that a case goes to on an even dot. -/
def evenState (clock : Nat) : PpuState → PpuState
  | .fetchNt => .fetchAt
  | .fetchAt => .fetchBg
  | .fetchBg => .fetchBg2
  | .fetchBg2 => if clock = 256 then .fetchBadNt else .fetchNt
  | .fetchBadNt => .fetchBadNt2
  | .fetchBadNt2 => .fetchSpriteLow
  | .fetchSpriteLow => .fetchSpriteHigh
  | .fetchSpriteHigh => if clock = 320 then .fetchTailNt else .fetchBadNt
  | .fetchTailNt => .fetchTailAt
  | .fetchTailAt => .fetchTailBg
  | .fetchTailBg => .fetchTailBg2
  | .fetchTailBg2 => if clock = 336 then .endNt1 else .fetchTailNt
  | .endNt1 => .endNt2
  | s => s

theorem fetchState_succ : ∀ clock, 0 < clock → clock < 340 →
    fetchState (clock + 1) =
      if clock % 2 = 0 then evenState clock (fetchState clock) else fetchState clock := by
  have hall : ∀ clock < 340, 0 < clock → fetchState (clock + 1) =
      if clock % 2 = 0 then evenState clock (fetchState clock) else fetchState clock := by
    decide +kernel
  intro clock hpos hlt
  exact hall clock hlt hpos

theorem fetchState_eq_endNt2 :
    ∀ clock, clock < 341 → (fetchState clock = .endNt2 ↔ 338 < clock) := by
  decide +kernel

theorem fetchState_ne_start : ∀ clock, clock < 341 → 0 < clock →
    fetchState clock ≠ .fetchScanlineStart := by
  decide +kernel

/-- The states in which a step only fetches. -/
def Fetching : PpuState → Prop
  | .fetchScanlineStart | .endNt2 | .postrenderScanline | .renderDisabledScanline => False
  | _ => True

instance : DecidablePred Fetching := fun s => by
  cases s <;> unfold Fetching <;> infer_instance

theorem fetching_fetchState : ∀ clock, clock < 339 → 0 < clock → Fetching (fetchState clock) := by
  decide +kernel

namespace Ppu

variable {p : Ppu}

variable (p) in
theorem beam_setState (q : Ppu) (s : PpuState) (h : q.beam = p.beam) :
    ({ q with state := s } : Ppu).beam = { p.beam with state := s } := by
  rw [← h]
  rfl

theorem beam_fetchNt : p.fetchNt.beam = { p.beam with state := .fetchAt } :=
  beam_setState p p.readNameTableByte.2 _ (beam_read _ _)

theorem beam_fetchAt : p.fetchAt.beam = { p.beam with state := .fetchBg } :=
  beam_setState p p.readAttribTableByte.2 _ (beam_read _ _)

theorem beam_fetchBg : p.fetchBg.beam = { p.beam with state := .fetchBg2 } :=
  beam_setState p (p.readBackgroundBit0 p.future.nametable).2 _ (beam_read _ _)

theorem beam_leaveBg2 (p : Ppu) : p.leaveBg2.beam =
    { p.beam with state := evenState p.currentPixelClock .fetchBg2 } := by
  unfold leaveBg2
  rw [evenState]
  split
  · dsimp only
    split
    · exact (beam_evaluateSprites _).trans (beam_incrVert _)
    · rfl
  · rfl

theorem beam_fetchBg2 : p.fetchBg2.beam =
    { p.beam with state := evenState p.currentPixelClock .fetchBg2 } := by
  have hread := beam_read p (p.backgroundAddr p.future.nametable + 8)
  have hclock := congrArg Beam.clock hread
  have hleave : ∀ q : Ppu, q.beam = p.beam → q.leaveBg2.beam =
      { p.beam with state := evenState p.currentPixelClock .fetchBg2 } := by
    intro q hq
    have hqclock : q.currentPixelClock = p.currentPixelClock := congrArg Beam.clock hq
    rw [beam_leaveBg2, hq, hqclock]
  unfold fetchBg2
  simp only
  split
  · apply hleave
    exact (beam_drawPixels _).trans hread
  · apply hleave
    exact hread

theorem beam_leaveTailBg2 (p : Ppu) : p.leaveTailBg2.beam =
    { p.beam with state := evenState p.currentPixelClock .fetchTailBg2 } := by
  unfold leaveTailBg2
  rw [evenState]
  split <;> rfl

theorem beam_fetchTailBg2 : p.fetchTailBg2.beam =
    { p.beam with state := evenState p.currentPixelClock .fetchTailBg2 } := by
  have hread := beam_read p (p.backgroundAddr p.next.nametable + 8)
  have hleave : ∀ q : Ppu, q.beam = p.beam → q.leaveTailBg2.beam =
      { p.beam with state := evenState p.currentPixelClock .fetchTailBg2 } := by
    intro q hq
    have hqclock : q.currentPixelClock = p.currentPixelClock := congrArg Beam.clock hq
    rw [beam_leaveTailBg2, hq, hqclock]
  unfold fetchTailBg2
  apply hleave
  exact hread

theorem beam_fetchTailNt : p.fetchTailNt.beam = { p.beam with state := .fetchTailAt } :=
  beam_setState p p.readNameTableByte.2 _ (beam_read _ _)

theorem beam_fetchTailAt : p.fetchTailAt.beam = { p.beam with state := .fetchTailBg } :=
  beam_setState p p.readAttribTableByte.2 _ (beam_read _ _)

theorem beam_fetchTailBg : p.fetchTailBg.beam = { p.beam with state := .fetchTailBg2 } :=
  beam_setState p (p.readBackgroundBit0 p.next.nametable).2 _ (beam_read _ _)

theorem beam_case {f : Ppu → Ppu} (hstep : p.fetchStep = p.onEvenDot f)
    (hf : (f p).beam = { p.beam with state := evenState p.currentPixelClock p.state }) :
    p.fetchStep.beam =
      { p.beam with
        state := if p.currentPixelClock % 2 = 0 then evenState p.currentPixelClock p.state
          else p.state
        clock := p.currentPixelClock + 1 } := by
  rw [hstep, beam_onEvenDot hf]

/-- **A fetching step counts the dot.** -/
theorem beam_fetchStep (h : Fetching p.state) :
    p.fetchStep.beam =
      { p.beam with
        state := if p.currentPixelClock % 2 = 0 then evenState p.currentPixelClock p.state
          else p.state
        clock := p.currentPixelClock + 1 } := by
  have hread := beam_read p (0x2000 ||| (p.vramAddr &&& 0xFFF).setWidth 32)
  rcases hs : p.state with _ | _ | _ | _ | _ | _ | _ | _ | _ | _ | _ | _ | _ | _ | _ | _ | _
  case fetchScanlineStart => simp [hs, Fetching] at h
  case endNt2 => simp [hs, Fetching] at h
  case postrenderScanline => simp [hs, Fetching] at h
  case renderDisabledScanline => simp [hs, Fetching] at h
  all_goals rw [← hs]
  case fetchNt => exact beam_case (by rw [fetchStep, hs]) (by rw [hs]; exact beam_fetchNt)
  case fetchAt => exact beam_case (by rw [fetchStep, hs]) (by rw [hs]; exact beam_fetchAt)
  case fetchBg => exact beam_case (by rw [fetchStep, hs]) (by rw [hs]; exact beam_fetchBg)
  case fetchBg2 => exact beam_case (by rw [fetchStep, hs]) (by rw [hs]; exact beam_fetchBg2)
  case fetchBadNt =>
    exact beam_case (by rw [fetchStep, hs]) (by rw [hs]; exact beam_setState p _ _ hread)
  case fetchBadNt2 =>
    exact beam_case (by rw [fetchStep, hs]) (by rw [hs]; exact beam_setState p _ _ hread)
  case fetchSpriteLow => exact beam_case (by rw [fetchStep, hs]) (by rw [hs]; rfl)
  case fetchSpriteHigh => exact beam_case (by rw [fetchStep, hs]) (by rw [hs]; rfl)
  case fetchTailNt => exact beam_case (by rw [fetchStep, hs]) (by rw [hs]; exact beam_fetchTailNt)
  case fetchTailAt => exact beam_case (by rw [fetchStep, hs]) (by rw [hs]; exact beam_fetchTailAt)
  case fetchTailBg => exact beam_case (by rw [fetchStep, hs]) (by rw [hs]; exact beam_fetchTailBg)
  case fetchTailBg2 =>
    exact beam_case (by rw [fetchStep, hs]) (by rw [hs]; exact beam_fetchTailBg2)
  case endNt1 => exact beam_case (by rw [fetchStep, hs]) (by rw [hs]; rfl)

theorem beam_enterVblank (p : Ppu) :
    ∃ frameId, p.enterVblank.beam = { p.beam with frameId := frameId } := by
  unfold enterVblank
  split
  · split
    · exact ⟨_, rfl⟩
    · split
      · exact ⟨_, rfl⟩
      · exact ⟨_, rfl⟩
  · exact ⟨_, rfl⟩

theorem beam_endNt2 (p : Ppu) : p.endNt2.beam =
    if p.beam.clock % 2 = 0 then
      if p.beam.renderScanlines < p.beam.scanline + 1 then
        { p.beam with
          state := .postrenderScanline, scanline := p.beam.scanline + 1, clock := 0 }
      else
        { p.beam with
          state := .fetchScanlineStart, scanline := p.beam.scanline + 1, clock := 0 }
    else { p.beam with clock := p.beam.clock + 1 } := by
  unfold endNt2
  rw [Nat.and_one_is_mod, apply_ite beam]
  dsimp only
  rw [apply_ite beam]
  rfl

end Ppu

namespace Beam

/-- The state of the machine is the one that belongs to the dot. -/
structure Valid (b : Beam) : Prop where
  renderScanlines : b.renderScanlines = 240
  postrenderScanlines : b.postrenderScanlines = 1
  totalScanlines : b.totalScanlines = 262
  scanline : b.scanline < 262
  clock : b.clock < 341
  rendered : b.scanline ≤ 240 →
    b.state = fetchState b.clock ∨ b.state = .renderDisabledScanline ∧ 0 < b.clock
  postrender : 240 < b.scanline → b.state = .postrenderScanline

def later (b : Beam) (s : PpuState) (n : Nat) : Beam := { b with state := s, clock := b.clock + n }

def dot (b : Beam) : Nat := 341 * b.scanline + b.clock

/-- The next step is the first of scanline 1, on an odd frame that is rendered. -/
def skips (b : Beam) : Bool :=
  b.scanline == 1 && b.clock == 0 && b.rendering && b.frameId &&& 1 != 0

def nextDot (b : Beam) : Nat :=
  if b.dot + 1 = 262 * 341 then 0 else if b.skips then b.dot + 2 else b.dot + 1

end Beam

namespace Beam

variable {b : Beam}

/-- A step goes on from a valid beam to the next dot. -/
structure Advances (b b' : Beam) : Prop where
  valid : b'.Valid
  dot : b'.dot = b.nextDot

theorem nextDot_of_clock (hclock : 0 < b.clock) :
    b.nextDot = if b.dot + 1 = 262 * 341 then 0 else b.dot + 1 := by
  have hskips : b.skips = false := by simp [skips, Nat.ne_of_gt hclock]
  rw [nextDot, hskips]
  rfl

theorem nextDot_of_lt (hclock : b.clock < 340)
    (hskips : b.skips = false) : b.nextDot = b.dot + 1 := by
  rw [nextDot, hskips, if_neg]
  · rfl
  · rw [dot]
    omega

/-- The next dot of the scanline. -/
theorem advances_clock (h : b.Valid) (hclock : b.clock < 340) (hskips : b.skips = false)
    {s : PpuState} {f : BitVec 32}
    (hrendered : b.scanline ≤ 240 → s = fetchState (b.clock + 1) ∨ s = .renderDisabledScanline)
    (hpost : 240 < b.scanline → s = .postrenderScanline) :
    Advances b { b with state := s, clock := b.clock + 1, frameId := f } where
  valid :=
    { renderScanlines := h.renderScanlines
      postrenderScanlines := h.postrenderScanlines
      totalScanlines := h.totalScanlines
      scanline := h.scanline
      clock := Nat.succ_lt_succ hclock
      rendered := fun hscanline =>
        (hrendered hscanline).imp_right fun hs => ⟨hs, Nat.succ_pos _⟩
      postrender := hpost }
  dot := by
    rw [nextDot_of_lt hclock hskips]
    rfl

/-- The first dot of the next scanline. -/
theorem advances_scanline (h : b.Valid) (hclock : b.clock = 340) (hlt : b.scanline < 261)
    {s : PpuState} {f : BitVec 32} (hrendered : b.scanline < 240 → s = .fetchScanlineStart)
    (hpost : 240 ≤ b.scanline → s = .postrenderScanline) :
    Advances b { b with state := s, scanline := b.scanline + 1, clock := 0, frameId := f } where
  valid :=
    { renderScanlines := h.renderScanlines
      postrenderScanlines := h.postrenderScanlines
      totalScanlines := h.totalScanlines
      scanline := Nat.succ_lt_succ hlt
      clock := Nat.zero_lt_succ 340
      rendered := fun hscanline => Or.inl (hrendered hscanline)
      postrender := fun hscanline => hpost (Nat.le_of_lt_succ hscanline) }
  dot := by
    rw [nextDot_of_clock (by omega), if_neg (by rw [dot]; omega)]
    show 341 * (b.scanline + 1) + 0 = 341 * b.scanline + b.clock + 1
    omega

/-- The first dot of the frame. -/
theorem advances_frame (h : b.Valid) (hclock : b.clock = 340) (hlast : b.scanline = 261)
    {f : BitVec 32} :
    Advances b { b with
      state := .fetchScanlineStart, scanline := 0, clock := 0, frameId := f } where
  valid :=
    { renderScanlines := h.renderScanlines
      postrenderScanlines := h.postrenderScanlines
      totalScanlines := h.totalScanlines
      scanline := Nat.zero_lt_succ 261
      clock := Nat.zero_lt_succ 340
      rendered := fun _ => Or.inl rfl
      postrender := fun hscanline => absurd hscanline (Nat.not_lt_zero 240) }
  dot := by
    rw [nextDot_of_clock (by omega), if_pos (by rw [dot]; omega)]
    rfl

end Beam

namespace Ppu

variable {p : Ppu}

open Beam (Advances)

theorem beam_postrenderScanline (p : Ppu) : p.postrenderScanline.beam =
    if p.enterVblank.beam.clock + 1 = 341 then
      if p.enterVblank.beam.scanline + 1 = p.enterVblank.beam.totalScanlines then
        { p.enterVblank.beam with state := .fetchScanlineStart, scanline := 0, clock := 0 }
      else
        { p.enterVblank.beam with scanline := p.enterVblank.beam.scanline + 1, clock := 0 }
    else { p.enterVblank.beam with clock := p.enterVblank.beam.clock + 1 } := by
  unfold postrenderScanline
  rw [apply_ite beam, apply_ite beam]
  rfl

theorem advances_postrender (h : p.beam.Valid) (hscanline : 240 < p.beam.scanline) :
    Advances p.beam p.postrenderScanline.beam := by
  have hstate := h.postrender hscanline
  have hlast := h.scanline
  have hlt := h.clock
  have htotal := h.totalScanlines
  obtain ⟨frameId, hbeam⟩ := beam_enterVblank p
  rw [beam_postrenderScanline, hbeam]
  dsimp only
  split
  · split
    · exact Beam.advances_frame h (by omega) (by omega)
    · exact Beam.advances_scanline h (by omega) (by omega) (fun hb => by omega) (fun _ => hstate)
  · have hskips : p.beam.skips = false := by
      have hne : p.beam.scanline ≠ 1 := by omega
      simp [Beam.skips, hne]
    exact Beam.advances_clock h (by omega) hskips (fun hb => by omega) (fun _ => hstate)

theorem advances_endNt2 (h : p.beam.Valid) (hscanline : p.beam.scanline ≤ 240)
    (hclock : 338 < p.beam.clock)
    (hstate : p.beam.clock = 339 → p.beam.state = .endNt2) :
    Advances p.beam p.endNt2.beam := by
  have hlt := h.clock
  rw [beam_endNt2, h.renderScanlines]
  split
  · split
    · exact Beam.advances_scanline h (by omega) (by omega) (fun hb => by omega) (fun _ => rfl)
    · exact Beam.advances_scanline h (by omega) (by omega) (fun _ => rfl) (fun hb => by omega)
  · have hskips : p.beam.skips = false := by
      have hne : p.beam.clock ≠ 0 := by omega
      simp [Beam.skips, hne]
    have h339 : p.beam.clock = 339 := by omega
    refine Beam.advances_clock h (by omega) hskips (fun _ => Or.inl ?_) (fun hb => by omega)
    show p.beam.state = fetchState (p.beam.clock + 1)
    rw [hstate h339, h339]
    rfl

/-- **On a scanline that is drawn a step goes to the next dot.** -/
theorem advances_fetchStep (h : p.beam.Valid) (hscanline : p.beam.scanline ≤ 240)
    (hpos : 0 < p.beam.clock) : Advances p.beam p.fetchStep.beam := by
  have hlt := h.clock
  have hskips : p.beam.skips = false := by simp [Beam.skips, Nat.ne_of_gt hpos]
  rcases h.rendered hscanline with hstate | ⟨hstate, -⟩
  · by_cases hend : 338 < p.beam.clock
    · have hs : p.state = .endNt2 := hstate.trans ((fetchState_eq_endNt2 _ hlt).mpr hend)
      rw [fetchStep, hs]
      exact advances_endNt2 h hscanline hend (fun _ => hs)
    · have hfetching : Fetching p.state := by
        have hs : p.state = fetchState p.beam.clock := hstate
        rw [hs]
        exact fetching_fetchState _ (by omega) hpos
      rw [beam_fetchStep hfetching]
      refine Beam.advances_clock h (by omega) hskips (fun _ => Or.inl ?_) (fun hb => by omega)
      have hsucc := fetchState_succ _ hpos (by omega : p.beam.clock < 340)
      rw [hsucc, ← hstate]
      rfl
  · have hs : p.state = .renderDisabledScanline := hstate
    rw [fetchStep, hs]
    dsimp only
    split
    · rename_i hne
      have hne' : p.beam.clock ≠ 340 := hne
      exact Beam.advances_clock h (by omega) hskips (fun _ => Or.inr rfl) (fun hb => by omega)
    · rename_i heq
      have heq' : p.beam.clock = 340 := Decidable.not_not.mp heq
      exact advances_endNt2 h hscanline (by omega) (fun hb => by omega)

theorem beam_scanlineStart (p : Ppu) : p.scanlineStart.beam =
    { p.beam with
      state := if p.beam.rendering then .fetchNt else .renderDisabledScanline } := rfl

/-- The start of a scanline, before the test for the odd frame. -/
theorem valid_start {b : Beam} (h : b.Valid) (hscanline : b.scanline ≤ 240) {s : PpuState}
    {clock : Nat} (hlt : clock < 341) (hpos : 0 < clock)
    (hs : s = fetchState clock ∨ s = .renderDisabledScanline) :
    ({ b with state := s, clock := clock } : Beam).Valid where
  renderScanlines := h.renderScanlines
  postrenderScanlines := h.postrenderScanlines
  totalScanlines := h.totalScanlines
  scanline := h.scanline
  clock := hlt
  rendered := fun _ => hs.imp_right fun hs => ⟨hs, hpos⟩
  postrender := fun hb => absurd hb (Nat.not_lt.mpr hscanline)

/-- The first dot of a scanline, and the second one with it on an odd frame. -/
theorem beam_ppuStep_start (hclock : p.beam.clock = 0)
    (hstate : p.beam.state = .fetchScanlineStart) :
    p.ppuStep.beam =
      if p.beam.skips then { p.beam with state := .fetchNt, clock := 2 }
      else
        { p.beam with
          state := if p.beam.rendering then .fetchNt else .renderDisabledScanline
          clock := 1 } := by
  have hcopy := beam_copyVert p
  have hstart : p.copyVert.state = .fetchScanlineStart := (congrArg Beam.state hcopy).trans hstate
  unfold ppuStep
  dsimp only
  rw [if_pos hstart]
  generalize hq : ({ p.copyVert.scanlineStart with
    currentPixelClock := p.copyVert.scanlineStart.currentPixelClock + 1 } : Ppu) = q
  have hbeam : q.beam =
      { p.beam with
        state := if p.beam.rendering then .fetchNt else .renderDisabledScanline
        clock := p.beam.clock + 1 } := by
    rw [← hq, ← hcopy]
    rfl
  have hskips : q.skipsDot = p.beam.skips := by
    have hq : q.skipsDot =
        (q.beam.scanline == 1 && q.beam.rendering && q.beam.frameId &&& 1 != 0) := rfl
    rw [hq, hbeam, Beam.skips, hclock]
    simp
  rw [hclock] at hbeam
  rw [hskips]
  cases hskip : p.beam.skips with
  | true =>
    have hrendering : p.beam.rendering = true := by
      simp only [Beam.skips, Bool.and_eq_true] at hskip
      exact hskip.1.2
    rw [hrendering, if_pos rfl] at hbeam
    have hfetch : q.copyVert.beam = _ := (beam_copyVert q).trans hbeam
    have hs : q.copyVert.state = .fetchNt := congrArg Beam.state hfetch
    have hc : q.copyVert.currentPixelClock = 1 := congrArg Beam.clock hfetch
    rw [if_pos rfl, if_pos rfl, beam_fetchStep (by rw [hs]; trivial), hc, hs, hfetch]
    rfl
  | false =>
    rw [if_neg (by decide), if_neg (by decide), hbeam]

theorem advances_start (h : p.beam.Valid) (hscanline : p.beam.scanline ≤ 240)
    (hclock : p.beam.clock = 0) (hstate : p.beam.state = .fetchScanlineStart) :
    Advances p.beam p.ppuStep.beam := by
  rw [beam_ppuStep_start hclock hstate]
  cases hskip : p.beam.skips with
  | true =>
    rw [if_pos rfl]
    constructor
    · exact valid_start h hscanline (by omega) (by omega) (Or.inl rfl)
    · have hdot : p.beam.dot = 341 * p.beam.scanline + p.beam.clock := rfl
      have hlast : ¬p.beam.dot + 1 = 262 * 341 := by omega
      rw [Beam.nextDot, hskip, if_neg hlast, if_pos rfl, hdot, hclock]
      rfl
  | false =>
    rw [if_neg (by decide)]
    constructor
    · refine valid_start h hscanline (by omega) (by omega) ?_
      cases p.beam.rendering
      · exact Or.inr rfl
      · exact Or.inl rfl
    · rw [Beam.nextDot_of_lt (by omega) hskip]
      show 341 * p.beam.scanline + 1 = 341 * p.beam.scanline + p.beam.clock + 1
      omega

/-- **A step goes from the state that belongs to a dot to the one that belongs to the next.** -/
theorem advances_ppuStep (h : p.beam.Valid) : Advances p.beam p.ppuStep.beam := by
  have hcopy := beam_copyVert p
  by_cases hscanline : p.beam.scanline ≤ 240
  · by_cases hclock : p.beam.clock = 0
    · rcases h.rendered hscanline with hstate | ⟨-, hpos⟩
      · rw [hclock] at hstate
        exact advances_start h hscanline hclock hstate
      · omega
    · have hstart : p.copyVert.state ≠ .fetchScanlineStart := by
        have hs : p.copyVert.state = p.beam.state := congrArg Beam.state hcopy
        rw [hs]
        rcases h.rendered hscanline with hstate | ⟨hstate, -⟩
        · rw [hstate]
          exact fetchState_ne_start _ h.clock (by omega)
        · rw [hstate]
          decide
      rw [ppuStep, if_neg hstart]
      rw [← hcopy] at h hscanline hclock ⊢
      exact advances_fetchStep h hscanline (by omega)
  · have hstate : p.copyVert.state = .postrenderScanline :=
      (congrArg Beam.state hcopy).trans (h.postrender (by omega))
    rw [ppuStep, if_neg (by rw [hstate]; decide), fetchStep, hstate]
    rw [← hcopy] at h hscanline ⊢
    exact advances_postrender h (by omega)

end Ppu

end RetroCpu.Nes
