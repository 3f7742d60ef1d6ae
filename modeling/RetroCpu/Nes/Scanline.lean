import RetroCpu.Nes.Background
import RetroCpu.Nes.Cells

/-!
# The background of a scanline

The pipeline has two tiles ready when a scanline begins, and while it draws from them it
fetches the next one.  `Shows` says what the tiles hold at the start of a group of eight
dots, `scanline_background` follows it over the scanline.
-/

namespace RetroCpu.Nes

namespace Ppu

/-! ### Steps -/

/-- Where the beam is and what the background comes from. -/
structure At (p : Ppu) (b : Beam) (v : View) : Prop where
  beam : p.beam = b
  view : p.view = v

variable {p : Ppu} {b : Beam} {v : View}

theorem clockStep_eq_fetchStep (h : At p b v) (hscanline : b.scanline ≠ 0)
    (hstate : b.state ≠ .fetchScanlineStart) : p.clockStep = p.tick.fetchStep := by
  obtain ⟨rfl, rfl⟩ := h
  have hcopy : p.tick.copyVert = p.tick := copyVert_of_scanline hscanline
  rw [clockStep, ppuStep, hcopy]
  exact if_neg hstate

/-- The state of a case of `PpuStep` that only works on even dots. -/
def Case (s : PpuState) (f : Ppu → Ppu) : Prop :=
  Fetching s ∧ ∀ q : Ppu, q.state = s → q.fetchStep = q.onEvenDot f

theorem ne_start_of_fetching : ∀ s : PpuState, Fetching s → s ≠ .fetchScanlineStart := by
  intro s h hs
  rw [hs] at h
  exact h

section Dot

variable {s : PpuState} {f : Ppu → Ppu} {n : Nat} (hcase : Case s f)
  (h : At (clockStep^[n] p) b v) (hs : b.state = s) (hscanline : b.scanline ≠ 0)

include hcase h hs hscanline

theorem at_clockStep : clockStep^[n + 1] p = (clockStep^[n] p).tick.onEvenDot f ∧
    (clockStep^[n + 1] p).beam =
      b.later (if b.clock % 2 = 0 then evenState b.clock s else s) 1 := by
  have hstep : clockStep^[n + 1] p = (clockStep^[n] p).clockStep :=
    Function.iterate_succ_apply' clockStep n p
  have hfetch : (clockStep^[n] p).clockStep = (clockStep^[n] p).tick.fetchStep :=
    clockStep_eq_fetchStep h hscanline (by rw [hs]; exact ne_start_of_fetching s hcase.1)
  obtain ⟨rfl, rfl⟩ := h
  have hstate : (clockStep^[n] p).tick.state = s := hs
  rw [hstep, hfetch]
  refine ⟨hcase.2 _ hstate, ?_⟩
  rw [beam_fetchStep (by rw [hstate]; exact hcase.1), hstate]
  rfl

/-- On an odd dot nothing is fetched. -/
theorem at_odd (hodd : b.clock % 2 = 1) : At (clockStep^[n + 1] p) (b.later s 1) v := by
  obtain ⟨hstep, hbeam⟩ := at_clockStep hcase h hs hscanline
  rw [if_neg (by omega)] at hbeam
  have hclock : ¬(clockStep^[n] p).tick.currentPixelClock &&& 1 = 0 := by
    have hc : (clockStep^[n] p).tick.currentPixelClock = b.clock := congrArg Beam.clock h.beam
    rw [Nat.and_one_is_mod, hc]
    omega
  refine ⟨hbeam, ?_⟩
  rw [hstep, onEvenDot, if_neg hclock]
  exact h.view

/-- On an even dot a case does its work. -/
theorem at_even (heven : b.clock % 2 = 0) :
    At (clockStep^[n + 1] p) (b.later (evenState b.clock s) 1)
      (f (clockStep^[n] p).tick).view := by
  obtain ⟨hstep, hbeam⟩ := at_clockStep hcase h hs hscanline
  rw [if_pos heven] at hbeam
  have hclock : (clockStep^[n] p).tick.currentPixelClock &&& 1 = 0 := by
    have hc : (clockStep^[n] p).tick.currentPixelClock = b.clock := congrArg Beam.clock h.beam
    rw [Nat.and_one_is_mod, hc]
    exact heven
  refine ⟨hbeam, ?_⟩
  rw [hstep, onEvenDot, if_pos hclock]
  rfl

/-- An odd dot and the even one after it. -/
theorem at_pair {v' : View} (hodd : b.clock % 2 = 1)
    (hf : ∀ q : Ppu, q.view = v → q.beam = b.later s 1 → (f q).view = v') :
    At (clockStep^[n + 2] p) (b.later (evenState (b.clock + 1) s) 2) v' := by
  have h₁ := at_odd hcase h hs hscanline hodd
  have h₂ := at_even hcase h₁ rfl hscanline (by show (b.clock + 1) % 2 = 0; omega)
  rw [hf (clockStep^[n + 1] p).tick h₁.view h₁.beam] at h₂
  exact h₂

end Dot

theorem case_fetchNt : Case .fetchNt fetchNt := ⟨trivial, fun q h => by rw [fetchStep, h]⟩
theorem case_fetchAt : Case .fetchAt fetchAt := ⟨trivial, fun q h => by rw [fetchStep, h]⟩
theorem case_fetchBg : Case .fetchBg fetchBg := ⟨trivial, fun q h => by rw [fetchStep, h]⟩
theorem case_fetchBg2 : Case .fetchBg2 fetchBg2 := ⟨trivial, fun q h => by rw [fetchStep, h]⟩
theorem case_fetchSpriteHigh : Case .fetchSpriteHigh fetchSpriteHigh :=
  ⟨trivial, fun q h => by rw [fetchStep, h]⟩
theorem case_fetchTailNt : Case .fetchTailNt fetchTailNt :=
  ⟨trivial, fun q h => by rw [fetchStep, h]⟩
theorem case_fetchTailAt : Case .fetchTailAt fetchTailAt :=
  ⟨trivial, fun q h => by rw [fetchStep, h]⟩
theorem case_fetchTailBg : Case .fetchTailBg fetchTailBg :=
  ⟨trivial, fun q h => by rw [fetchStep, h]⟩
theorem case_fetchTailBg2 : Case .fetchTailBg2 fetchTailBg2 :=
  ⟨trivial, fun q h => by rw [fetchStep, h]⟩
theorem case_endNt1 : Case .endNt1 endNt1 := ⟨trivial, fun q h => by rw [fetchStep, h]⟩

/-! ### Eight dots -/

section Group

variable {n : Nat} (h : At (clockStep^[n] p) b v) (hm : v.Mapped) (hs : b.state = .fetchNt)
  (hscanline : b.scanline ≠ 0) (hodd : b.clock % 2 = 1)

include h hm hs hscanline hodd

/-- The three fetches that come before a tile is complete. -/
theorem at_fetches : At (clockStep^[n + 6] p) (b.later .fetchBg2 6)
    { v with future := v.fetchedBg (v.fetchedAt (v.fetchedNt v.future)) } := by
  have h₁ := at_pair case_fetchNt h hs hscanline hodd fun q hq _ =>
    (view_fetchNt (p := q) (by rw [hq]; exact hm)).trans (by rw [hq])
  have h₂ := at_pair case_fetchAt h₁ rfl hscanline (by show (b.clock + 2) % 2 = 1; omega)
    fun q hq _ => (view_fetchAt (p := q) (by rw [hq]; exact hm)).trans (by rw [hq])
  have h₃ := at_pair case_fetchBg h₂ rfl hscanline (by show (b.clock + 2 + 2) % 2 = 1; omega)
    fun q hq _ => (view_fetchBg (p := q) (by rw [hq]; exact hm)).trans (by rw [hq])
  exact h₃

/-- Eight dots that draw eight pixels and fetch a tile. -/
theorem at_group (hclock : b.clock + 7 < 256) :
    At (clockStep^[n + 8] p) (b.later .fetchNt 8)
      (v.group (BitVec.ofNat 32 (b.clock + 7) - 8) (BitVec.ofNat 32 b.scanline - 1)) := by
  have h₁ := at_fetches h hm hs hscanline hodd
  have hf : ∀ q : Ppu,
      q.view = { v with future := v.fetchedBg (v.fetchedAt (v.fetchedNt v.future)) } →
      q.beam = (b.later .fetchBg2 6).later .fetchBg2 1 → q.fetchBg2.view =
        v.group (BitVec.ofNat 32 (b.clock + 7) - 8) (BitVec.ofNat 32 b.scanline - 1) := by
    intro q hq hbeam
    have hq' : q.currentScanline = b.scanline := congrArg Beam.scanline hbeam
    have hc : q.currentPixelClock = b.clock + 7 := congrArg Beam.clock hbeam
    have hmq : q.view.Mapped := by
      rw [hq]
      exact hm
    rw [view_fetchBg2 hmq (by omega) (by omega), hq, hq', hc]
    rfl
  have h₂ := at_pair case_fetchBg2 h₁ rfl hscanline (by show (b.clock + 6) % 2 = 1; omega) hf
  have hne : b.clock + 6 + 1 ≠ 256 := by omega
  have hstate : evenState ((b.later .fetchBg2 6).clock + 1) .fetchBg2 = .fetchNt := if_neg hne
  rw [hstate] at h₂
  exact h₂

/-- The last eight dots of a scanline draw as well. -/
theorem drawn_lastGroup (hclock : b.clock + 7 = 256) : (clockStep^[n + 8] p).drawn =
    (v.group (BitVec.ofNat 32 256 - 8) (BitVec.ofNat 32 b.scanline - 1)).drawn := by
  have h₁ := at_fetches h hm hs hscanline hodd
  have h₂ := at_odd case_fetchBg2 h₁ rfl hscanline (by show (b.clock + 6) % 2 = 1; omega)
  obtain ⟨hstep, -⟩ := at_clockStep case_fetchBg2 h₂ rfl hscanline
  have hbeam : (clockStep^[n + 6 + 1] p).tick.beam = b.later .fetchBg2 7 := h₂.beam
  have hview : (clockStep^[n + 6 + 1] p).tick.view =
      { v with future := v.fetchedBg (v.fetchedAt (v.fetchedNt v.future)) } := h₂.view
  have hstep' : clockStep^[n + 8] p = (clockStep^[n + 6 + 1] p).tick.onEvenDot fetchBg2 := hstep
  rw [hstep']
  generalize (clockStep^[n + 6 + 1] p).tick = q at hbeam hview
  have hq : q.currentScanline = b.scanline := congrArg Beam.scanline hbeam
  have hc : q.currentPixelClock = 256 := (congrArg Beam.clock hbeam).trans hclock
  have hmq : q.view.Mapped := by
    rw [hview]
    exact hm
  rw [onEvenDot, if_pos (by rw [hc]; rfl)]
  show q.fetchBg2.drawn = _
  rw [drawn_fetchBg2 hmq (by omega) (by omega), hview, hq, hc]
  rfl

end Group

/-- Eight dots at the end of a scanline that fetch a tile of the next one. -/
theorem at_tail {n : Nat} (h : At (clockStep^[n] p) b v) (hm : v.Mapped)
    (hs : b.state = .fetchTailNt) (hscanline : b.scanline ≠ 0) (hodd : b.clock % 2 = 1) :
    At (clockStep^[n + 8] p) (b.later (evenState (b.clock + 7) .fetchTailBg2) 8)
      { v with
        vramAddr := horizNext v.vramAddr, next := v.tile
        current := if b.clock + 7 = 336 then v.current else v.tile } := by
  have h₁ := at_pair case_fetchTailNt h hs hscanline hodd fun q hq _ =>
    (view_fetchTailNt (p := q) (by rw [hq]; exact hm)).trans (by rw [hq])
  have h₂ := at_pair case_fetchTailAt h₁ rfl hscanline (by show (b.clock + 2) % 2 = 1; omega)
    fun q hq _ => (view_fetchTailAt (p := q) (by rw [hq]; exact hm)).trans (by rw [hq])
  have h₃ := at_pair case_fetchTailBg h₂ rfl hscanline
    (by show (b.clock + 2 + 2) % 2 = 1; omega)
    fun q hq _ => (view_fetchTailBg (p := q) (by rw [hq]; exact hm)).trans (by rw [hq])
  have hf : ∀ q : Ppu,
      q.view = { v with next := v.fetchedBg (v.fetchedAt (v.fetchedNt v.next)) } →
      q.beam = (b.later .fetchTailBg2 6).later .fetchTailBg2 1 → q.fetchTailBg2.view =
        { v with
          vramAddr := horizNext v.vramAddr, next := v.tile
          current := if b.clock + 7 = 336 then v.current else v.tile } := by
    intro q hq hbeam
    have hc : q.currentPixelClock = b.clock + 7 := congrArg Beam.clock hbeam
    have hmq : q.view.Mapped := by
      rw [hq]
      exact hm
    rw [view_fetchTailBg2 hmq, hq, hc]
    rfl
  exact at_pair case_fetchTailBg2 h₃ rfl hscanline
    (by show (b.clock + 2 + 2 + 2) % 2 = 1; omega) hf

/-! ### The end of a scanline and the start of the next -/

section Turn

variable {n : Nat} (h : At (clockStep^[n] p) b v) (hscanline : b.scanline ≠ 0)

include h hscanline

theorem clockStep_endNt2 (hs : b.state = .endNt2) :
    clockStep^[n + 1] p = (clockStep^[n] p).tick.endNt2 := by
  have hstep : clockStep^[n + 1] p = (clockStep^[n] p).clockStep :=
    Function.iterate_succ_apply' clockStep n p
  have hstate : (clockStep^[n] p).tick.state = .endNt2 := (congrArg Beam.state h.beam).trans hs
  rw [hstep, clockStep_eq_fetchStep h hscanline (by rw [hs]; decide), fetchStep, hstate]

/-- The last dot but one. -/
theorem at_endNt2_odd (hs : b.state = .endNt2) (hodd : b.clock % 2 = 1) :
    At (clockStep^[n + 1] p) (b.later .endNt2 1) v := by
  have hc : (clockStep^[n] p).tick.currentPixelClock = b.clock := congrArg Beam.clock h.beam
  have hclock : ¬(clockStep^[n] p).tick.currentPixelClock &&& 1 = 0 := by
    rw [Nat.and_one_is_mod, hc]
    omega
  have hbeam : (clockStep^[n] p).tick.beam = b := h.beam
  rw [clockStep_endNt2 h hscanline hs]
  constructor
  · rw [beam_endNt2, hbeam, if_neg (by omega), Beam.later, ← hs]
  · rw [endNt2, if_neg hclock]
    exact h.view

theorem at_endNt2_even (hs : b.state = .endNt2) (heven : b.clock % 2 = 0)
    (hlast : b.scanline < b.renderScanlines) :
    At (clockStep^[n + 1] p)
      { b with state := .fetchScanlineStart, scanline := b.scanline + 1, clock := 0 } v := by
  have hbeam : (clockStep^[n] p).tick.beam = b := h.beam
  have hview : ∀ q : Ppu, q.endNt2.view = q.view := by
    intro q
    unfold endNt2
    split
    · dsimp only
      split <;> rfl
    · rfl
  rw [clockStep_endNt2 h hscanline hs]
  constructor
  · rw [beam_endNt2, hbeam, if_pos heven, if_neg (by omega)]
  · rw [hview]
    exact h.view

/-- The first dot of a scanline shifts the tile that is drawn first. -/
theorem at_start (hs : b.state = .fetchScanlineStart) (hrendering : b.rendering = true)
    (hodd : b.scanline ≠ 1) : At (clockStep^[n + 1] p) (b.later .fetchNt 1)
      { v with current := v.current.shifted v.scrollFineX.toNat } := by
  have hstep : clockStep^[n + 1] p = (clockStep^[n] p).clockStep :=
    Function.iterate_succ_apply' clockStep n p
  obtain ⟨rfl, rfl⟩ := h
  generalize hq : clockStep^[n] p = q at *
  have hcopy : q.tick.copyVert = q.tick := copyVert_of_scanline hscanline
  have hskip : ∀ clock, ({ q.tick.scanlineStart with currentPixelClock := clock } : Ppu).skipsDot =
      false := by
    intro clock
    have hne : q.currentScanline ≠ 1 := hodd
    show (q.currentScanline == 1 && _ && _) = false
    rw [beq_false_of_ne hne]
    rfl
  have hstate : q.tick.state = .fetchScanlineStart := hs
  have hstart : q.clockStep =
      { q.tick.scanlineStart with currentPixelClock := q.tick.currentPixelClock + 1 } := by
    rw [clockStep, ppuStep, hcopy, if_pos hstate]
    exact if_neg (by rw [hskip]; decide)
  rw [hstep, hstart]
  constructor
  · show { q.tick.scanlineStart.beam with clock := q.beam.clock + 1 } = _
    have hrendering' : q.tick.beam.rendering = true := hrendering
    rw [beam_scanlineStart, if_pos hrendering']
    rfl
  · rfl

end Turn

/-! ### A whole scanline -/

/-- The picture processor at dot 320 of a scanline, before it fetches the tiles of the next
one. -/
structure BeforeTail (p : Ppu) : Prop where
  state : p.state = .fetchSpriteHigh
  clock : p.currentPixelClock = 320
  first : 1 ≤ p.currentScanline
  last : p.currentScanline < 240
  renderScanlines : p.numRenderScanlines = 240
  rendering : p.renderingEnabled = true
  background : p.bgEnabled = true
  fineX : p.scrollFineX ≤ 7
  mapped : p.view.Mapped

/-- The first dot of a scanline whose two tiles have been fetched. -/
theorem at_shown (h : p.BeforeTail) : ∃ future,
    At (clockStep^[22] p)
      { p.beam with state := .fetchNt, scanline := p.currentScanline + 1, clock := 1 }
      (p.view.shown (BitVec.ofNat 32 p.currentScanline) 0 future) := by
  have hfirst := h.first
  have hscanline : p.beam.scanline ≠ 0 := by
    show p.currentScanline ≠ 0
    omega
  have hclock : p.beam.clock = 320 := h.clock
  have h₀ : At (clockStep^[0] p) p.beam p.view := ⟨rfl, rfl⟩
  have h₁ : At (clockStep^[1] p) (p.beam.later .fetchTailNt 1) p.view := by
    have heven := at_even case_fetchSpriteHigh h₀ h.state hscanline (by rw [hclock])
    rw [hclock] at heven
    exact heven
  have hc₁ : (p.beam.later .fetchTailNt 1).clock = 321 := by
    show p.beam.clock + 1 = 321
    omega
  have h₂ : At (clockStep^[9] p) ((p.beam.later .fetchTailNt 1).later .fetchTailNt 8)
      { p.view with
        vramAddr := horizNext p.vramAddr, next := p.view.tileAt 0
        current := p.view.tileAt 0 } := by
    have htail := at_tail h₁ h.mapped rfl hscanline (by rw [hc₁])
    rw [hc₁] at htail
    exact htail
  have hc₂ : ((p.beam.later .fetchTailNt 1).later .fetchTailNt 8).clock = 329 := by
    show p.beam.clock + 1 + 8 = 329
    omega
  have h₃ : At (clockStep^[17] p)
      (((p.beam.later .fetchTailNt 1).later .fetchTailNt 8).later .endNt1 8)
      { p.view with
        vramAddr := horizNext (horizNext p.vramAddr), next := p.view.tileAt 1
        current := p.view.tileAt 0 } := by
    have htail := at_tail h₂ h.mapped rfl hscanline (by rw [hc₂])
    rw [hc₂] at htail
    exact htail
  have h₄ := at_pair case_endNt1 h₃ rfl hscanline
    (by show (p.beam.clock + 1 + 8 + 8) % 2 = 1; omega) fun q hq _ => hq
  have h₅ := at_endNt2_odd h₄ hscanline rfl
    (by show (p.beam.clock + 1 + 8 + 8 + 2) % 2 = 1; omega)
  have h₆ := at_endNt2_even h₅ hscanline rfl
    (by show (p.beam.clock + 1 + 8 + 8 + 2 + 1) % 2 = 0; omega)
    (by
      show p.currentScanline < p.numRenderScanlines
      rw [h.renderScanlines]
      exact h.last)
  have h₇ := at_start h₆ (Nat.succ_ne_zero _) rfl h.rendering
    (by show p.currentScanline + 1 ≠ 1; omega)
  refine ⟨p.view.future, ?_⟩
  have hdrawn : p.view.drawn = p.view.drawn ++ (List.range (8 * 0)).map (p.view.pixel
      (BitVec.ofNat 32 p.currentScanline)) := (List.append_nil _).symm
  unfold View.shown
  rw [← hdrawn]
  exact h₇

theorem ofNat_add_sub (m n : Nat) :
    BitVec.ofNat 32 (m + n) - BitVec.ofNat 32 n = BitVec.ofNat 32 m := by
  rw [BitVec.ofNat_add, BitVec.add_sub_cancel]

theorem BeforeTail.fineX_lt (h : p.BeforeTail) : p.view.scrollFineX.toNat < 8 := by
  have hle : p.scrollFineX.toNat ≤ 7 := h.fineX
  show p.scrollFineX.toNat < 8
  omega

/-- The view after `k` groups of the scanline. -/
theorem at_shown_group (h : p.BeforeTail) {k : Nat} (hk : k ≤ 31) : ∃ future,
    At (clockStep^[22 + 8 * k] p)
      { p.beam with state := .fetchNt, scanline := p.currentScanline + 1, clock := 8 * k + 1 }
      (p.view.shown (BitVec.ofNat 32 p.currentScanline) k future) := by
  induction k with
  | zero => exact at_shown h
  | succ k ih =>
    obtain ⟨future, hat⟩ := ih (by omega)
    have hgroup := at_group hat h.mapped rfl (Nat.succ_ne_zero _)
      (by show (8 * k + 1) % 2 = 1; omega) (by show 8 * k + 1 + 7 < 256; omega)
    have hx : BitVec.ofNat 32 (8 * k + 1 + 7) - 8 = BitVec.ofNat 32 (8 * k) :=
      ofNat_add_sub (8 * k) 8
    have hy : BitVec.ofNat 32 (p.currentScanline + 1) - 1 = BitVec.ofNat 32 p.currentScanline :=
      ofNat_add_sub p.currentScanline 1
    dsimp only at hgroup
    rw [hx, hy, View.group_shown _ _ h.fineX_lt (by omega)] at hgroup
    exact ⟨_, hgroup⟩

/-- **The background of a scanline.**  From dot 320 of a scanline to dot 256 of the next, 256
pixels are drawn, and each has the colour of its bit of its tile. -/
theorem scanline_background (p : Ppu) (h : p.BeforeTail) :
    (clockStep^[278] p).drawn =
      p.drawn ++ (List.range 256).map fun x =>
        (BitVec.ofNat 32 x, BitVec.ofNat 32 p.currentScanline,
          if 8 ≤ x ∨ p.mask &&& 2 ≠ 0 then p.view.background x else 0) := by
  obtain ⟨future, hat⟩ := at_shown_group h (Nat.le_refl 31)
  have hlast := drawn_lastGroup hat h.mapped rfl (Nat.succ_ne_zero _)
    (by show (8 * 31 + 1) % 2 = 1; decide) (by show 8 * 31 + 1 + 7 = 256; decide)
  have hx : BitVec.ofNat 32 256 - 8 = BitVec.ofNat 32 (8 * 31) := ofNat_add_sub 248 8
  have hy : BitVec.ofNat 32 (p.currentScanline + 1) - 1 = BitVec.ofNat 32 p.currentScanline :=
    ofNat_add_sub p.currentScanline 1
  dsimp only at hlast
  rw [hx, hy, View.group_shown _ _ h.fineX_lt (by omega)] at hlast
  refine hlast.trans (congrArg (p.drawn ++ ·) (List.map_congr_left fun x _ => ?_))
  have hbackground : p.view.bgEnabled = true := h.background
  have hleft : p.view.left = decide (p.mask &&& 2 ≠ 0) := rfl
  rw [View.pixel_eq, hbackground, hleft]
  simp

/-- A picture processor on a bus of RAM. -/
theorem mapped_simple (mem : HostMemory) (p : Ppu) (h : p.bus = SystemBus.simple 14 mem) :
    p.view.Mapped := by
  intro a _
  refine ⟨_, _, ?_, ⟨0, ?_, rfl⟩, rfl⟩
  · show (p.bus.memory.page (a &&& p.bus.memMask)).isIo (a &&& p.bus.memMask) = false
    rw [h]
    exact Page.isIo_eq_false rfl rfl _
  · show (p.bus.memory.page (a &&& p.bus.memMask)).ptr = some 0
    rw [h]
    rfl

/-- A picture processor before a scanline whose second tile has three pixels that are not
transparent. -/
def tiled : Ppu :=
  { zeroed with
    bus := SystemBus.simple 14 fun a =>
      if a = 0x2001 then 1 else if a = 0x10 then 0xF0 else if a = 0x18 then 0xCC
      else if a = 0x23C0 then 2 else 0
    state := .fetchSpriteHigh, currentPixelClock := 320, currentScanline := 1
    numRenderScanlines := 240, renderingEnabled := true, bgEnabled := true, scrollFineX := 3 }

theorem scanline_background_tiled :
    (clockStep^[278] tiled).drawn = (List.range 256).map (fun x =>
      (BitVec.ofNat 32 x, 1, if 8 ≤ x ∨ tiled.mask &&& 2 ≠ 0 then tiled.view.background x else 0)) ∧
    (List.range 8).map (fun x => tiled.view.background (x + 5)) = [11, 11, 9, 9, 10, 10, 0, 0] := by
  have h : tiled.BeforeTail :=
    ⟨rfl, rfl, by decide, by decide, rfl, rfl, rfl, by decide, mapped_simple _ tiled rfl⟩
  exact ⟨scanline_background tiled h, by decide +kernel⟩

end Ppu

/-- On an NROM console every address below the palette is memory. -/
theorem Wired.mapped {γ : Type} {layout : HostLayout} {rom : RomInes} {n : Console γ}
    (h : Wired layout rom n) : n.ppu.view.Mapped := by
  intro a ha
  by_cases hchr : a < 0x2000
  · exact ⟨_, _, h.chr a hchr⟩
  · exact ⟨_, _, h.nametables a (by bv_omega) (by bv_omega)⟩

end RetroCpu.Nes
