import RetroCpu.Nes.Frame
import RetroCpu.Nes.Settings

/-!
# Lines that are rendered, and events

Where a step goes on a scanline that fetches its tiles.  `PpuEvent` is what can happen to the
picture processor: between two steps the CPU gets at its registers, which leaves the beam where
it is.
-/

namespace RetroCpu.Nes

namespace Ppu

variable {p : Ppu}

theorem ppuStep_of_ne_start (h : p.state ≠ .fetchScanlineStart) :
    p.ppuStep = p.copyVert.fetchStep := by
  have hstate : p.copyVert.state = p.state := congrArg Beam.state (beam_copyVert p)
  exact if_neg (by rw [hstate]; exact h)

/-! ### Lines that are rendered -/

/-- The first dot of a line, and the second one with it on an odd frame. -/
theorem beam_rendered_first (hstate : p.state = .fetchScanlineStart)
    (hclock : p.currentPixelClock = 0) (hrendering : p.renderingEnabled = true) :
    p.ppuStep.beam =
      { p.beam with state := .fetchNt, clock := if p.beam.skips then 2 else 1 } := by
  have hrender : p.beam.rendering = true := hrendering
  rw [beam_ppuStep_start hclock hstate, hrender]
  cases p.beam.skips <;> rfl

theorem beam_rendered_next (hstate : p.state = fetchState p.currentPixelClock)
    (hpos : 0 < p.currentPixelClock) (hlt : p.currentPixelClock < 340) :
    p.ppuStep.beam =
      { p.beam with
        state := fetchState (p.currentPixelClock + 1), clock := p.currentPixelClock + 1 } := by
  have hne : p.state ≠ .fetchScanlineStart := by
    rw [hstate]
    exact fetchState_ne_start _ (by omega) hpos
  have hcopy := beam_copyVert p
  have hs : p.copyVert.state = p.state := congrArg Beam.state hcopy
  have hc : p.copyVert.currentPixelClock = p.currentPixelClock := congrArg Beam.clock hcopy
  rw [ppuStep_of_ne_start hne]
  by_cases hend : 338 < p.currentPixelClock
  · have h339 : p.currentPixelClock = 339 := by omega
    have hend2 : p.copyVert.state = .endNt2 := by
      rw [hs, hstate, h339]
      rfl
    have hodd : ¬p.beam.clock % 2 = 0 := by
      show ¬p.currentPixelClock % 2 = 0
      omega
    have hlast : fetchState (p.currentPixelClock + 1) = p.beam.state := by
      rw [h339]
      exact (hs.symm.trans hend2).symm
    rw [fetchStep, hend2, hlast]
    exact (beam_endNt2 _).trans (by rw [hcopy, if_neg hodd]; rfl)
  · have hfetching : Fetching p.copyVert.state := by
      rw [hs, hstate]
      exact fetching_fetchState _ (by omega) hpos
    rw [beam_fetchStep hfetching, hcopy, hs, hc, hstate, fetchState_succ _ hpos hlt]

theorem beam_rendered_last (h : p.beam.Valid) (hstate : p.state = fetchState p.currentPixelClock)
    (hlast : p.currentPixelClock = 340) :
    p.ppuStep.beam =
      { p.beam with
        state := if p.currentScanline < 240 then .fetchScanlineStart else .postrenderScanline
        scanline := p.currentScanline + 1, clock := 0 } := by
  have hcopy := beam_copyVert p
  have hend2 : p.state = .endNt2 := by
    rw [hstate, hlast]
    rfl
  have hs : p.copyVert.state = .endNt2 := (congrArg Beam.state hcopy).trans hend2
  have heven : p.beam.clock % 2 = 0 := by
    show p.currentPixelClock % 2 = 0
    omega
  have hrender := h.renderScanlines
  rw [ppuStep_of_ne_start (by rw [hend2]; decide), fetchStep, hs]
  dsimp only
  rw [beam_endNt2, hcopy, if_pos heven]
  by_cases hvisible : p.currentScanline < 240
  · have hnext : ¬p.beam.renderScanlines < p.beam.scanline + 1 := by
      show ¬p.beam.renderScanlines < p.currentScanline + 1
      omega
    rw [if_neg hnext, if_pos hvisible]
    rfl
  · have hnext : p.beam.renderScanlines < p.beam.scanline + 1 := by
      show p.beam.renderScanlines < p.currentScanline + 1
      omega
    rw [if_pos hnext, if_neg hvisible]
    rfl

/-- The dots at which tiles are completed. -/
theorem fetchState_eq_fetchBg2 : ∀ clock < 341, (fetchState clock = .fetchBg2 ∧ clock % 2 = 0 ↔
    0 < clock ∧ clock ≤ 256 ∧ clock % 8 = 0) := by
  decide +kernel

theorem fetchState_of_state (h : p.beam.Valid) (hs : p.state = .fetchBg2) :
    p.currentScanline ≤ 240 ∧ fetchState p.currentPixelClock = .fetchBg2 := by
  have hscanline : p.currentScanline ≤ 240 := by
    by_contra hlt
    have hpost : p.state = .postrenderScanline := h.postrender (Nat.lt_of_not_le hlt)
    rw [hs] at hpost
    cases hpost
  refine ⟨hscanline, ?_⟩
  rcases h.rendered hscanline with hstate | ⟨hstate, -⟩
  · exact hstate.symm.trans hs
  · have hdisabled : p.state = .renderDisabledScanline := hstate
    rw [hs] at hdisabled
    cases hdisabled

/-! ### Events -/

end Ppu

inductive PpuEvent
  /-- `CatchUpToCpu` moves the clock. -/
  | tick
  | ppuStep
  /-- `ReadPPU` after `CatchUpToCpu`. -/
  | readReg (offset : BitVec 32)
  /-- `WritePPU` after `CatchUpToCpu`. -/
  | writeReg (addr : BitVec 32) (value : Byte)
  /-- `OamDma` fills sprite memory. -/
  | oamDma (bytes : Byte → Byte)

namespace Ppu

variable {p : Ppu}

def event (p : Ppu) : PpuEvent → Ppu
  | .tick => p.tick
  | .ppuStep => p.ppuStep
  | .readReg offset => (p.readReg offset).2
  | .writeReg addr value => p.writeReg addr value
  | .oamDma bytes => { p with oam := bytes }

def events (p : Ppu) (es : List PpuEvent) : Ppu := es.foldl event p

theorem events_cons (p : Ppu) (e : PpuEvent) (es : List PpuEvent) :
    p.events (e :: es) = (p.event e).events es := rfl

/-- An event that is not a step leaves the beam where it is. -/
theorem samePlace_event {e : PpuEvent} (h : e ≠ .ppuStep) (p : Ppu) :
    SamePlace p.beam (p.event e).beam := by
  cases e with
  | tick => exact samePlace_of_eq rfl
  | ppuStep => exact absurd rfl h
  | readReg offset => exact samePlace_of_eq (beam_readReg p offset)
  | writeReg addr value => exact samePlace_writeReg p addr value
  | oamDma bytes => exact samePlace_of_eq rfl

theorem valid_event (h : p.beam.Valid) (e : PpuEvent) : (p.event e).beam.Valid := by
  by_cases he : e = .ppuStep
  · rw [he]
    exact (advances_ppuStep h).valid
  · exact (samePlace_event he p).valid h

theorem valid_events (h : p.beam.Valid) (es : List PpuEvent) : (p.events es).beam.Valid := by
  induction es generalizing p with
  | nil => exact h
  | cons e es ih => exact ih (valid_event h e)

/-- The beam `n` steps after the start of an even frame that is rendered. -/
theorem beam_steps (hstart : AtFrameStart p) (hvalid : p.beam.Valid)
    (hrendering : p.renderingEnabled = true) (heven : p.frameId &&& 1 = 0) {n : Nat}
    (hn : n ≤ 240 * 341) : (p.events (List.replicate n .ppuStep)).beam =
      { p.beam with state := fetchState (n % 341), scanline := n / 341, clock := n % 341 } := by
  induction n with
  | zero =>
    show p.beam = _
    unfold beam
    rw [hstart.state, hstart.scanline, hstart.clock]
    rfl
  | succ n ih =>
    have hbeam := ih (by omega)
    have hsucc : p.events (List.replicate (n + 1) .ppuStep) =
        (p.events (List.replicate n .ppuStep)).ppuStep := by
      rw [List.replicate_succ', events, List.foldl_append]
      rfl
    have hq := valid_events hvalid (List.replicate n .ppuStep)
    rw [hsucc]
    generalize p.events (List.replicate n .ppuStep) = q at hbeam hq
    have hs : q.state = fetchState (n % 341) := congrArg Beam.state hbeam
    have hc : q.currentPixelClock = n % 341 := congrArg Beam.clock hbeam
    have hl : q.currentScanline = n / 341 := congrArg Beam.scanline hbeam
    have hr : q.renderingEnabled = true := (congrArg Beam.rendering hbeam).trans hrendering
    have hstate : q.state = fetchState q.currentPixelClock := by rw [hs, hc]
    by_cases hfirst : n % 341 = 0
    · have hskips : q.beam.skips = false := by
        have hframe : (q.beam.frameId &&& 1 != 0) = false := by
          have hid : q.beam.frameId = p.frameId := congrArg Beam.frameId hbeam
          rw [hid, heven]
          rfl
        rw [Beam.skips, hframe, Bool.and_false]
      have hmod : (n + 1) % 341 = 1 := by omega
      have hdiv : (n + 1) / 341 = n / 341 := by omega
      rw [beam_rendered_first (by rw [hs, hfirst]; rfl) (by rw [hc, hfirst]) hr, hskips, hbeam,
        hmod, hdiv]
      rfl
    · by_cases hlast : n % 341 = 340
      · have hmod : (n + 1) % 341 = 0 := by omega
        have hdiv : (n + 1) / 341 = n / 341 + 1 := by omega
        rw [beam_rendered_last hq hstate (by rw [hc, hlast]), hbeam, hl, hmod, hdiv,
          if_pos (by omega)]
        rfl
      · have hmod : (n + 1) % 341 = n % 341 + 1 := by omega
        have hdiv : (n + 1) / 341 = n / 341 := by omega
        rw [beam_rendered_next hstate (by omega) (by omega), hbeam, hc, hmod, hdiv]

end Ppu

end RetroCpu.Nes
