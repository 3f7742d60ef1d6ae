import Mathlib.Tactic.SplitIfs
import RetroCpu.Nes.Events
import RetroCpu.Nes.Sprites

/-!
# The sprites of a line

The sprites that are found at the end of a line are held until the next line that is drawn has
been drawn.  `spriteLine` is which line that is, and `sprites_on_line` says when the sprites
belong to it.
-/

namespace RetroCpu.Nes.Ppu

variable {p q : Ppu}

/-! ### What changes the sprites -/

/-- The part of the picture processor that `EvaluateSprites` writes and what it reads. -/
def spritePart (p : Ppu) : (Nat → Sprite) × Nat × (Byte → Byte) × Bool :=
  (p.sprites, p.numSprites, p.oam, p.tallSprites)

theorem lineSet_congr (hoam : q.oam = p.oam) (htall : q.tallSprites = p.tallSprites) (s : Nat) :
    q.lineSet s = p.lineSet s := by
  have hcovers : ∀ k, q.Covers s k ↔ p.Covers s k := by
    intro k
    unfold Covers spriteTop spriteHeight
    rw [hoam, htall]
  unfold lineSet lineSetOf
  congr 1
  exact List.filter_congr fun k _ => decide_eq_decide.mpr (hcovers k)

theorem ofEntry_congr (hoam : q.oam = p.oam) {k : Nat} {sprite : Sprite} (h : OfEntry p k sprite) :
    OfEntry q k sprite := by
  refine ⟨?_, ?_⟩
  · rw [hoam]
    exact h.attrib
  · rw [hoam]
    exact h.x

def HoldsLine (p : Ppu) (s : Nat) : Prop :=
  List.Forall₂ (OfEntry p) (p.lineSet s) p.spriteList

theorem holdsLine_congr (h : q.spritePart = p.spritePart) {s : Nat} (hp : HoldsLine p s) :
    HoldsLine q s := by
  have hsprites : q.sprites = p.sprites := congrArg Prod.fst h
  have hnum : q.numSprites = p.numSprites := congrArg (fun x => x.2.1) h
  have hoam : q.oam = p.oam := congrArg (fun x => x.2.2.1) h
  have htall : q.tallSprites = p.tallSprites := congrArg (fun x => x.2.2.2) h
  have hlist : q.spriteList = p.spriteList := by
    rw [spriteList, hsprites, hnum]
    rfl
  rw [HoldsLine, lineSet_congr hoam htall, hlist]
  exact hp.imp fun k sprite => ofEntry_congr hoam

theorem lineSet_one (p : Ppu) : p.lineSet 1 = [] := by
  have hfilter : (List.range 64).filter (p.Covers 1 ·) = [] := by
    refine List.filter_eq_nil_iff.mpr fun k _ => ?_
    have hcovers : ¬p.Covers 1 k := fun h => by
      have hle := h.1
      omega
    simpa using hcovers
  rw [lineSet, lineSetOf, hfilter]
  rfl

/-- Where no entry is drawn no sprite is held. -/
theorem holdsLine_nil {s s' : Nat} (hs : p.lineSet s = []) (hs' : p.lineSet s' = [])
    (h : HoldsLine p s) : HoldsLine p s' := by
  rw [HoldsLine, hs] at h
  rw [HoldsLine, hs']
  exact h

theorem part_read (p : Ppu) (addr : CpuAddr) : (p.read addr).2.spritePart = p.spritePart := by
  obtain ⟨bus, hread⟩ := read_eq p addr
  rw [hread]
  rfl

theorem part_onEvenDot {f : Ppu → Ppu} (hf : (f p).spritePart = p.spritePart) :
    (p.onEvenDot f).spritePart = p.spritePart := by
  show (if p.currentPixelClock &&& 1 = 0 then f p else p).spritePart = p.spritePart
  split
  · exact hf
  · rfl

theorem part_drawPixels (p : Ppu) : p.drawPixels.spritePart = p.spritePart := by
  have hloop : ∀ y n x (p : Ppu), (drawLoop y n x p).spritePart = p.spritePart := by
    intro y n
    induction n with
    | zero => exact fun x p => rfl
    | succ n ih => exact fun x p => ih _ _
  unfold drawPixels
  split
  · rfl
  · exact (hloop _ _ _ _).trans (hloop _ _ _ _)

/-- The fetch at the end of a line looks for the sprites of the next. -/
def Evaluating (p : Ppu) : Prop :=
  p.state = .fetchBg2 ∧ p.currentPixelClock = 256 ∧ 0 < p.currentScanline

theorem part_leaveBg2 (h : ¬(p.currentPixelClock = 256 ∧ 0 < p.currentScanline)) :
    p.leaveBg2.spritePart = p.spritePart := by
  unfold leaveBg2
  dsimp only
  split
  · rw [if_neg fun hpos => h ⟨‹_›, hpos⟩]
    rfl
  · rfl

/-- The picture processor when a tile is complete and its pixels are drawn. -/
theorem fetchBg2_eq (p : Ppu) : ∃ r : Ppu, p.fetchBg2 = r.leaveBg2 ∧ r.beam = p.beam ∧
    r.spritePart = p.spritePart := by
  have hbeam := beam_read p (p.backgroundAddr p.future.nametable + 8)
  have hpart := part_read p (p.backgroundAddr p.future.nametable + 8)
  unfold fetchBg2 readBackgroundBit1
  dsimp only
  split
  · exact ⟨_, rfl, (beam_drawPixels _).trans hbeam, (part_drawPixels _).trans hpart⟩
  · exact ⟨_, rfl, hbeam, hpart⟩

theorem part_fetchBg2 (h : ¬(p.currentPixelClock = 256 ∧ 0 < p.currentScanline)) :
    p.fetchBg2.spritePart = p.spritePart := by
  obtain ⟨r, hfetch, hbeam, hpart⟩ := fetchBg2_eq p
  have hclock : r.currentPixelClock = p.currentPixelClock := congrArg Beam.clock hbeam
  have hscanline : r.currentScanline = p.currentScanline := congrArg Beam.scanline hbeam
  rw [hfetch, part_leaveBg2 (by rw [hclock, hscanline]; exact h), hpart]

theorem part_endNt2 (p : Ppu) : p.endNt2.spritePart = p.spritePart := by
  unfold endNt2
  split
  · dsimp only
    split <;> rfl
  · rfl

theorem part_postrenderScanline (p : Ppu) : p.postrenderScanline.spritePart = p.spritePart := by
  have hvblank : p.enterVblank.spritePart = p.spritePart := by
    unfold enterVblank
    split
    · split
      · rfl
      · split <;> rfl
    · rfl
  unfold postrenderScanline
  dsimp only
  split
  · split <;> exact hvblank
  · exact hvblank

theorem part_leaveTailBg2 (p : Ppu) : p.leaveTailBg2.spritePart = p.spritePart := by
  unfold leaveTailBg2
  split <;> rfl

theorem part_fetchStep (h : ¬Evaluating p) : p.fetchStep.spritePart = p.spritePart := by
  unfold fetchStep
  split
  · rfl
  · exact part_onEvenDot (part_read _ _)
  · exact part_onEvenDot (part_read _ _)
  · exact part_onEvenDot (part_read _ _)
  · rename_i hs
    exact part_onEvenDot (part_fetchBg2 fun hlast => h ⟨hs, hlast⟩)
  · exact part_onEvenDot (part_read _ _)
  · exact part_onEvenDot (part_read _ _)
  · exact part_onEvenDot rfl
  · exact part_onEvenDot rfl
  · exact part_onEvenDot (part_read _ _)
  · exact part_onEvenDot (part_read _ _)
  · exact part_onEvenDot (part_read _ _)
  · exact part_onEvenDot ((part_leaveTailBg2 _).trans
      (part_read p (p.backgroundAddr p.next.nametable + 8)))
  · exact part_onEvenDot rfl
  · split
    · rfl
    · exact part_endNt2 p
  · exact part_endNt2 p
  · exact part_postrenderScanline p

/-- **A step leaves the sprites alone, but at the end of a line.** -/
theorem part_ppuStep (h : ¬Evaluating p) : p.ppuStep.spritePart = p.spritePart := by
  obtain ⟨vramAddr, hcopy⟩ := copyVert_eq p
  by_cases hstart : p.state = .fetchScanlineStart
  · have hstate : p.copyVert.state = .fetchScanlineStart := by
      rw [hcopy]
      exact hstart
    unfold ppuStep
    dsimp only
    rw [if_pos hstate]
    split
    · generalize hq : ({ p.copyVert.scanlineStart with
        currentPixelClock := p.copyVert.scanlineStart.currentPixelClock + 1 } : Ppu) = q
      have hpart : q.spritePart = p.spritePart := by
        rw [← hq, hcopy]
        rfl
      have hqs : q.state ≠ .fetchBg2 := by
        rw [← hq]
        show (if p.copyVert.renderingEnabled then PpuState.fetchNt
          else PpuState.renderDisabledScanline) ≠ .fetchBg2
        split <;> decide
      obtain ⟨vramAddr', hcopy'⟩ := copyVert_eq q
      have hfetch : q.copyVert.fetchStep.spritePart = q.copyVert.spritePart :=
        part_fetchStep (by rw [hcopy']; exact fun heval => hqs heval.1)
      rw [hfetch, hcopy']
      exact hpart
    · rw [hcopy]
      rfl
  · have hfetch : p.copyVert.fetchStep.spritePart = p.copyVert.spritePart :=
      part_fetchStep (by rw [hcopy]; exact h)
    rw [ppuStep_of_ne_start hstart, hfetch, hcopy]
    rfl

/-- **At the end of a line the sprites of the next line are found.** -/
theorem holdsLine_ppuStep (h : Evaluating p) (hlast : p.currentScanline ≤ 240) :
    HoldsLine p.ppuStep (p.currentScanline + 1) ∧ p.ppuStep.oam = p.oam ∧
      p.ppuStep.tallSprites = p.tallSprites := by
  have hsettings := settings_ppuStep p
  refine ⟨?_, congrArg Settings.oam hsettings, congrArg Settings.tallSprites hsettings⟩
  obtain ⟨hs, hclock, hpos⟩ := h
  have hcopy : p.copyVert = p := copyVert_of_scanline (by omega)
  have hstep : p.ppuStep = p.onEvenDot fetchBg2 := by
    rw [ppuStep_of_ne_start (by rw [hs]; decide), hcopy, fetchStep, hs]
  obtain ⟨r, hbg2, hbeam, -⟩ := fetchBg2_eq p
  have hrclock : r.currentPixelClock = 256 := (congrArg Beam.clock hbeam).trans hclock
  have hrscanline : r.currentScanline = p.currentScanline := congrArg Beam.scanline hbeam
  obtain ⟨t, hleave, htscanline⟩ : ∃ t : Ppu, r.leaveBg2 = t.evaluateSprites ∧
      t.currentScanline = p.currentScanline := by
    obtain ⟨vramAddr, hvert⟩ := incrVert_eq { r with state := .fetchBadNt }
    refine ⟨_, ?_, (congrArg Beam.scanline (beam_incrVert { r with state := .fetchBadNt })).trans
      hrscanline⟩
    rw [leaveBg2, if_pos hrclock]
    exact if_pos (by show 0 < r.currentScanline; omega)
  have hfound := evaluateSprites_found (p := t) (by omega) (by omega)
  rw [← hleave, ← hbg2, htscanline] at hfound
  obtain ⟨⟨bus, sprites, n, hfinal⟩, hentries⟩ := hfound
  have hoam : p.fetchBg2.oam = t.oam := by rw [hfinal]
  have htall : p.fetchBg2.tallSprites = t.tallSprites := by rw [hfinal]
  have hheld : HoldsLine p.fetchBg2 (p.currentScanline + 1) := by
    rw [HoldsLine, lineSet_congr hoam htall]
    exact hentries.imp fun k sprite => ofEntry_congr hoam
  rw [hstep, onEvenDot, if_pos (by rw [hclock]; rfl)]
  refine holdsLine_congr (p := p.fetchBg2) ?_ hheld
  rfl

/-! ### Where the beam goes -/

structure Rendering (p : Ppu) : Prop where
  valid : p.beam.Valid
  enabled : p.renderingEnabled = true
  fetching : p.state ≠ .renderDisabledScanline

theorem fetchState_ne_disabled : ∀ clock < 341, fetchState clock ≠ .renderDisabledScanline := by
  decide +kernel

theorem Rendering.state (h : Rendering p) (hscanline : p.currentScanline ≤ 240) :
    p.state = fetchState p.currentPixelClock := by
  rcases h.valid.rendered hscanline with hs | ⟨hs, -⟩
  · exact hs
  · exact absurd hs h.fetching

theorem Rendering.ppuStep (h : Rendering p) : Rendering p.ppuStep := by
  have hlt : p.currentPixelClock < 341 := h.valid.clock
  refine ⟨(advances_ppuStep h.valid).valid,
    (congrArg Settings.renderingEnabled (settings_ppuStep p)).trans h.enabled, ?_⟩
  by_cases hscanline : p.currentScanline ≤ 240
  · have hstate := h.state hscanline
    by_cases hfirst : p.currentPixelClock = 0
    · have hstart : p.state = .fetchScanlineStart := by
        rw [hstate, hfirst]
        rfl
      have hs : p.ppuStep.state = .fetchNt :=
        congrArg Beam.state (beam_rendered_first hstart hfirst h.enabled)
      rw [hs]
      decide
    · by_cases hlast : p.currentPixelClock = 340
      · have hs : p.ppuStep.state =
            if p.currentScanline < 240 then .fetchScanlineStart else .postrenderScanline :=
          congrArg Beam.state (beam_rendered_last h.valid hstate hlast)
        rw [hs]
        split <;> decide
      · have hs : p.ppuStep.state = fetchState (p.currentPixelClock + 1) :=
          congrArg Beam.state (beam_rendered_next hstate (by omega) (by omega))
        rw [hs]
        exact fetchState_ne_disabled _ (by omega)
  · have hstate : p.state = .postrenderScanline := h.valid.postrender (Nat.lt_of_not_le hscanline)
    have hcopy : p.copyVert = p := copyVert_of_scanline (by omega)
    obtain ⟨frameId, hbeam⟩ := beam_enterVblank p
    have hs : p.enterVblank.state = .postrenderScanline := (congrArg Beam.state hbeam).trans hstate
    rw [ppuStep_of_ne_start (by rw [hstate]; decide), hcopy, fetchStep, hstate]
    show p.postrenderScanline.state ≠ _
    unfold postrenderScanline
    dsimp only
    split
    · split
      · simp
      · rw [hs]
        decide
    · show p.enterVblank.state ≠ _
      rw [hs]
      decide

def spriteLine (p : Ppu) : Nat :=
  if p.currentScanline = 0 ∨ 240 < p.currentScanline then 1
  else if p.currentPixelClock ≤ 256 then p.currentScanline
  else if p.currentScanline < 240 then p.currentScanline + 1
  else 1

theorem Rendering.evaluating (h : Rendering p) (hpos : 0 < p.currentScanline)
    (hlast : p.currentScanline ≤ 240) (hclock : p.currentPixelClock = 256) : Evaluating p := by
  refine ⟨?_, hclock, hpos⟩
  rw [h.state hlast, hclock]
  rfl

/-- The next line that is drawn is another one only when the sprites are. -/
theorem spriteLine_ppuStep (h : Rendering p) (heval : ¬Evaluating p) :
    spriteLine p.ppuStep = spriteLine p := by
  have hadvance := advances_ppuStep h.valid
  have hdot : 341 * p.ppuStep.currentScanline + p.ppuStep.currentPixelClock = p.beam.nextDot :=
    hadvance.dot
  have hclock : p.currentPixelClock < 341 := h.valid.clock
  have hclock' : p.ppuStep.currentPixelClock < 341 := hadvance.valid.clock
  have hscanline : p.currentScanline < 262 := h.valid.scanline
  have hbefore : p.beam.dot = 341 * p.currentScanline + p.currentPixelClock := rfl
  have hne : ¬(0 < p.currentScanline ∧ p.currentScanline ≤ 240 ∧ p.currentPixelClock = 256) :=
    fun hlast => heval (h.evaluating hlast.1 hlast.2.1 hlast.2.2)
  unfold spriteLine
  by_cases hskips : p.beam.skips = true
  · have hfirst := dot_of_skips hskips
    rw [Beam.nextDot, hskips, if_neg (by omega), if_pos rfl] at hdot
    split_ifs <;> omega
  · rw [Beam.nextDot, if_neg hskips] at hdot
    split at hdot <;> split_ifs <;> omega

/-! ### Runs -/

/-- Rendering stays enabled, and sprite memory and `$2000` are not written. -/
def KeepsSprites : PpuEvent → Prop
  | .writeReg addr value =>
    addr &&& 7 ≠ 0 ∧ addr &&& 7 ≠ 4 ∧ (addr &&& 7 = 1 → value &&& 0x18 ≠ 0)
  | .oamDma _ => False
  | _ => True

theorem part_readReg (p : Ppu) (offset : BitVec 32) :
    (p.readReg offset).2.spritePart = p.spritePart := by
  unfold readReg
  dsimp only
  split
  · rfl
  · split
    · rfl
    · split
      · unfold readData
        dsimp only
        split
        · exact part_read p.readBuffer _
        · rfl
      · rfl

theorem part_writeReg {addr : BitVec 32} {value : Byte} (h : KeepsSprites (.writeReg addr value))
    (hp : p.renderingEnabled = true) : (p.writeReg addr value).spritePart = p.spritePart ∧
      (p.writeReg addr value).renderingEnabled = true := by
  obtain ⟨hcontrol, hoam, hmask⟩ := h
  unfold writeReg
  dsimp only
  rw [if_neg hcontrol]
  split
  · rename_i hone
    refine ⟨rfl, ?_⟩
    show (if p.renderingEnabled then if value &&& 0x18 = 0 then false else p.renderingEnabled
      else if value &&& 0x18 ≠ 0 then true else p.renderingEnabled) = true
    rw [if_pos hp, if_neg (hmask hone)]
    exact hp
  split
  · exact ⟨rfl, hp⟩
  split
  · unfold writeScroll
    split <;> exact ⟨rfl, hp⟩
  split
  · unfold writeAddr
    split <;> exact ⟨rfl, hp⟩
  split
  · unfold writeData write
    dsimp only
    split <;> exact ⟨rfl, hp⟩
  · exact ⟨rfl, hp⟩

/-- An event that is not a step leaves the sprites alone. -/
theorem part_event {e : PpuEvent} (he : e ≠ .ppuStep) (hkeeps : KeepsSprites e)
    (hp : p.renderingEnabled = true) :
    (p.event e).spritePart = p.spritePart ∧ (p.event e).renderingEnabled = true := by
  cases e with
  | tick => exact ⟨rfl, hp⟩
  | ppuStep => exact absurd rfl he
  | readReg offset =>
    exact ⟨part_readReg p offset, (congrArg Beam.rendering (beam_readReg p offset)).trans hp⟩
  | writeReg addr value => exact part_writeReg hkeeps hp
  | oamDma bytes => exact hkeeps.elim

/-- What a run keeps: the sprites are those of the line that they are drawn on. -/
structure OnTime (oam : Byte → Byte) (tall : Bool) (p : Ppu) : Prop where
  rendering : Rendering p
  oam : p.oam = oam
  tall : p.tallSprites = tall
  held : HoldsLine p (spriteLine p)

variable {oam : Byte → Byte} {tall : Bool}

theorem OnTime.ppuStep (h : OnTime oam tall p) (hlast : p.lineSet 241 = []) :
    OnTime oam tall p.ppuStep := by
  have hsettings := settings_ppuStep p
  have hoam : p.ppuStep.oam = p.oam := congrArg Settings.oam hsettings
  have htall : p.ppuStep.tallSprites = p.tallSprites := congrArg Settings.tallSprites hsettings
  refine ⟨h.rendering.ppuStep, hoam.trans h.oam, htall.trans h.tall, ?_⟩
  by_cases heval : Evaluating p
  · have hpos := heval.2.2
    have hscanline := (fetchState_of_state h.rendering.valid heval.1).1
    have hheld := (holdsLine_ppuStep heval hscanline).1
    have hbeam := beam_rendered_next (h.rendering.state hscanline)
      (by rw [heval.2.1]; decide) (by rw [heval.2.1]; decide)
    have hl : p.ppuStep.currentScanline = p.currentScanline := congrArg Beam.scanline hbeam
    have hc : p.ppuStep.currentPixelClock = p.currentPixelClock + 1 := congrArg Beam.clock hbeam
    have heq : spriteLine p.ppuStep =
        if p.currentScanline < 240 then p.currentScanline + 1 else 1 := by
      rw [spriteLine, hl, hc, heval.2.1, if_neg (by omega), if_neg (by decide)]
    rw [heq]
    by_cases hlt : p.currentScanline < 240
    · rw [if_pos hlt]
      exact hheld
    · have h240 : p.currentScanline = 240 := by omega
      rw [if_neg hlt]
      rw [h240] at hheld
      refine holdsLine_nil ?_ (lineSet_one _) hheld
      rw [lineSet_congr hoam htall]
      exact hlast
  · rw [spriteLine_ppuStep h.rendering heval]
    exact holdsLine_congr (part_ppuStep heval) h.held

theorem OnTime.event (h : OnTime oam tall p) (hlast : p.lineSet 241 = []) {e : PpuEvent}
    (he : KeepsSprites e) : OnTime oam tall (p.event e) := by
  by_cases hstep : e = .ppuStep
  · subst hstep
    exact h.ppuStep hlast
  · obtain ⟨hpart, hrendering⟩ := part_event hstep he h.rendering.enabled
    obtain ⟨enabled, hbeam⟩ := samePlace_event hstep p
    have hstate : (p.event e).state = p.state := congrArg Beam.state hbeam
    have hscanline : (p.event e).currentScanline = p.currentScanline := congrArg Beam.scanline hbeam
    have hclock : (p.event e).currentPixelClock = p.currentPixelClock := congrArg Beam.clock hbeam
    have hoam : (p.event e).oam = p.oam := congrArg (fun x => x.2.2.1) hpart
    have htall : (p.event e).tallSprites = p.tallSprites := congrArg (fun x => x.2.2.2) hpart
    refine ⟨⟨valid_event h.rendering.valid e, hrendering, ?_⟩, hoam.trans h.oam,
      htall.trans h.tall, ?_⟩
    · rw [hstate]
      exact h.rendering.fetching
    · have heq : spriteLine (p.event e) = spriteLine p := by
        rw [spriteLine, hscanline, hclock]
        rfl
      rw [heq]
      exact holdsLine_congr hpart h.held

theorem OnTime.events (h : OnTime oam tall p) (hlast : p.lineSet 241 = []) {es : List PpuEvent}
    (hes : ∀ e ∈ es, KeepsSprites e) : OnTime oam tall (p.events es) := by
  induction es generalizing p with
  | nil => exact h
  | cons e es ih =>
    have hnext := h.event hlast (hes e List.mem_cons_self)
    refine ih hnext ?_ fun e' he' => hes e' (List.mem_cons_of_mem _ he')
    rw [lineSet_congr (hnext.oam.trans h.oam.symm) (hnext.tall.trans h.tall.symm)]
    exact hlast

/-! ### Runs that come to a dot -/

/-- The beam comes to every dot but the one that an odd frame leaves out. -/
theorem exists_dot {P : Ppu → Prop} {T : Nat} (hT : T < 262 * 341) (hskipped : T ≠ 342)
    (hP : ∀ r, Rendering r → P r → r.beam.dot ≠ T → P r.ppuStep) (h : Rendering p) (hp : P p) :
    ∃ es, (∀ e ∈ es, KeepsSprites e) ∧ Rendering (p.events es) ∧ P (p.events es) ∧
      (p.events es).beam.dot = T := by
  generalize hn : (T + 262 * 341 - p.beam.dot) % (262 * 341) = n
  induction n using Nat.strongRecOn generalizing p with
  | ind n ih =>
    by_cases hdot : p.beam.dot = T
    · exact ⟨[], by simp, h, hp, hdot⟩
    · have hadvance := advances_ppuStep h.valid
      have hclock : p.currentPixelClock < 341 := h.valid.clock
      have hscanline : p.currentScanline < 262 := h.valid.scanline
      have hvalue : p.beam.dot = 341 * p.currentScanline + p.currentPixelClock := rfl
      have hcloser : (T + 262 * 341 - p.ppuStep.beam.dot) % (262 * 341) < n := by
        have hnext := hadvance.dot
        by_cases hskips : p.beam.skips = true
        · have hfirst := dot_of_skips hskips
          rw [Beam.nextDot, hskips, if_neg (by omega), if_pos rfl] at hnext
          omega
        · rw [Beam.nextDot, if_neg hskips] at hnext
          split at hnext <;> omega
      obtain ⟨es, hes, hr, hpr, hreached⟩ := ih _ hcloser h.ppuStep (hP p h hp hdot) rfl
      refine ⟨.ppuStep :: es, ?_, hr, hpr, hreached⟩
      intro e he
      rcases List.mem_cons.mp he with rfl | he
      · trivial
      · exact hes e he

theorem place_of_dot {s c : Nat} (hp : p.currentPixelClock < 341) (hc : c < 341)
    (h : p.beam.dot = 341 * s + c) : p.currentScanline = s ∧ p.currentPixelClock = c := by
  have hvalue : p.beam.dot = 341 * p.currentScanline + p.currentPixelClock := rfl
  omega

/-- The next step calls `DrawPixels`. -/
def Drawing (p : Ppu) : Prop :=
  p.state = .fetchBg2 ∧ p.currentPixelClock % 2 = 0 ∧ p.currentScanline ≠ 0

theorem Rendering.drawing (h : Rendering p) (hpos : 0 < p.currentScanline)
    (hlast : p.currentScanline ≤ 240) (hclock : p.currentPixelClock = 256) : Drawing p :=
  ⟨(h.evaluating hpos hlast hclock).1, by rw [hclock], by omega⟩

theorem spriteLine_le (p : Ppu) : 1 ≤ spriteLine p ∧ spriteLine p ≤ 240 := by
  unfold spriteLine
  split_ifs <;> omega

/-- The end of the next line that is drawn comes before the sprites change. -/
theorem exists_drawing (h : Rendering p) : ∃ es, (∀ e ∈ es, KeepsSprites e) ∧
    Rendering (p.events es) ∧ (p.events es).spritePart = p.spritePart ∧
    (p.events es).currentScanline = spriteLine p ∧ (p.events es).currentPixelClock = 256 := by
  obtain ⟨hfirst, hlast⟩ := spriteLine_le p
  obtain ⟨es, hes, hr, hkept, hdot⟩ := exists_dot (T := 341 * spriteLine p + 256)
    (P := fun r => r.spritePart = p.spritePart ∧ spriteLine r = spriteLine p) (by omega) (by omega)
    (by
      intro r hr hkept hne
      have heval : ¬Evaluating r := by
        rintro ⟨hs, hclock, hpos⟩
        have hle := (fetchState_of_state hr.valid hs).1
        have hline : spriteLine r = r.currentScanline := by
          rw [spriteLine, if_neg (by omega), if_pos (by omega)]
        have hdot : r.beam.dot = 341 * r.currentScanline + r.currentPixelClock := rfl
        exact hne (by rw [hdot, hclock, ← hkept.2, hline])
      exact ⟨(part_ppuStep heval).trans hkept.1, (spriteLine_ppuStep hr heval).trans hkept.2⟩)
    h ⟨rfl, rfl⟩
  obtain ⟨hl, hc⟩ := place_of_dot hr.valid.clock (by decide) hdot
  exact ⟨es, hes, hr, hkept.1, hl, hc⟩

theorem events_append (p : Ppu) (es es' : List PpuEvent) :
    p.events (es ++ es') = (p.events es).events es' := List.foldl_append

/-- **The sprites of the last line are drawn on the first one.** -/
theorem exists_stale (h : Rendering p) : ∃ es, (∀ e ∈ es, KeepsSprites e) ∧
    Drawing (p.events es) ∧ (p.events es).currentScanline = 1 ∧
    (p.events es).numSprites = (p.lineSet 241).length := by
  obtain ⟨es, hes, hr, ⟨hoam, htall⟩, hdot⟩ := exists_dot (T := 341 * 240 + 256)
    (P := fun r => r.oam = p.oam ∧ r.tallSprites = p.tallSprites) (by decide) (by decide)
    (by
      intro r _ hkept _
      have hsettings := settings_ppuStep r
      exact ⟨(congrArg Settings.oam hsettings).trans hkept.1,
        (congrArg Settings.tallSprites hsettings).trans hkept.2⟩)
    h ⟨rfl, rfl⟩
  obtain ⟨hl, hc⟩ := place_of_dot hr.valid.clock (by decide) hdot
  obtain ⟨hheld, hoam', htall'⟩ :=
    holdsLine_ppuStep (hr.evaluating (by omega) (by omega) hc) (by omega)
  obtain ⟨es', hes', hr', hpart, hl', hc'⟩ := exists_drawing hr.ppuStep
  have hbeam := beam_rendered_next (hr.state (by omega)) (by omega) (by omega)
  have hscanline : (p.events es).ppuStep.currentScanline = 240 :=
    (congrArg Beam.scanline hbeam).trans hl
  have hclock : (p.events es).ppuStep.currentPixelClock = 257 := by
    have hnext : (p.events es).ppuStep.currentPixelClock = (p.events es).currentPixelClock + 1 :=
      congrArg Beam.clock hbeam
    omega
  have hline : spriteLine (p.events es).ppuStep = 1 := by
    rw [spriteLine, hscanline, hclock]
    rfl
  have hevents : p.events (es ++ .ppuStep :: es') = ((p.events es).ppuStep).events es' := by
    rw [events_append, events_cons]
    rfl
  rw [hline] at hl'
  refine ⟨es ++ .ppuStep :: es', ?_, ?_, ?_, ?_⟩
  · intro e he
    rcases List.mem_append.mp he with he | he
    · exact hes e he
    · rcases List.mem_cons.mp he with rfl | he
      · trivial
      · exact hes' e he
  · rw [hevents]
    exact hr'.drawing (by omega) (by omega) hc'
  · rw [hevents]
    exact hl'
  · have hnum : (((p.events es).ppuStep).events es').numSprites =
        (p.events es).ppuStep.numSprites := congrArg (fun x => x.2.1) hpart
    have hlength := hheld.length_eq
    rw [hl, lineSet_congr (hoam'.trans hoam) (htall'.trans htall), length_spriteList] at hlength
    rw [hevents, hnum, hlength]

/-- Whenever `DrawPixels` runs the sprites are those of the entries of the line. -/
def SpritesOnLine (p : Ppu) : Prop :=
  ∀ es, (∀ e ∈ es, KeepsSprites e) → Drawing (p.events es) →
    HoldsLine (p.events es) (p.events es).currentScanline

theorem lineSet_eq_nil_iff (p : Ppu) (s : Nat) : p.lineSet s = [] ↔ ∀ k < 64, ¬p.Covers s k := by
  rw [lineSet, lineSetOf, List.take_eq_nil_iff]
  simp

/-- **The sprites belong to the line, if they do when the run begins and no sprite is on the row
below those that are drawn.** -/
theorem sprites_on_line (p : Ppu) (h : Rendering p) :
    SpritesOnLine p ↔ HoldsLine p (spriteLine p) ∧ ∀ k < 64, ¬p.Covers 241 k := by
  rw [← lineSet_eq_nil_iff]
  constructor
  · intro hall
    constructor
    · obtain ⟨es, hes, hr, hpart, hl, hc⟩ := exists_drawing h
      obtain ⟨hfirst, hlast⟩ := spriteLine_le p
      have hheld := hall es hes (hr.drawing (by omega) (by omega) hc)
      rw [hl] at hheld
      exact holdsLine_congr hpart.symm hheld
    · obtain ⟨es, hes, hdrawing, hl, hnum⟩ := exists_stale h
      have hlength := (hall es hes hdrawing).length_eq
      rw [hl, lineSet_one, length_spriteList, hnum] at hlength
      exact List.eq_nil_of_length_eq_zero hlength.symm
  · rintro ⟨hheld, hlast⟩ es hes ⟨hs, heven, hpos⟩
    have hon : OnTime p.oam p.tallSprites (p.events es) :=
      OnTime.events ⟨h, rfl, rfl, hheld⟩ hlast hes
    obtain ⟨hle, hfetch⟩ := fetchState_of_state hon.rendering.valid hs
    obtain ⟨-, hclock, -⟩ := (fetchState_eq_fetchBg2 _ hon.rendering.valid.clock).mp ⟨hfetch, heven⟩
    have hclock' : (p.events es).currentPixelClock ≤ 256 := hclock
    have hline : spriteLine (p.events es) = (p.events es).currentScanline := by
      rw [spriteLine, if_neg (by omega), if_pos hclock']
    have hresult := hon.held
    rwa [hline] at hresult

/-- The start of a frame with one sprite on the row 101 and the others out of sight. -/
def middleSprite : Ppu :=
  { (zeroed.construct.initializePpu true).writeMask 0x18 with
    oam := fun i => if i = 0 then 100 else 255 }

theorem sprites_on_line_middleSprite :
    middleSprite.lineSet 102 = [0] ∧ SpritesOnLine middleSprite := by
  have hrendering : Rendering middleSprite :=
    ⟨valid_event (valid_initial zeroed) (.writeReg 1 0x18), rfl, by decide⟩
  have hset : middleSprite.lineSet (spriteLine middleSprite) = [] := by decide
  have hheld : HoldsLine middleSprite (spriteLine middleSprite) := by
    rw [HoldsLine, hset]
    exact .nil
  exact ⟨by decide, (sprites_on_line middleSprite hrendering).mpr ⟨hheld, by decide⟩⟩

/-- The start of a frame with every sprite on the row below those that are drawn. -/
def bottomSprites : Ppu :=
  { (zeroed.construct.initializePpu true).writeMask 0x18 with oam := fun _ => 235 }

theorem rendering_bottomSprites : Rendering bottomSprites :=
  ⟨valid_event (valid_initial zeroed) (.writeReg 1 0x18), rfl, by decide⟩

/-- There are eight sprites on the first line of the second frame. -/
theorem bottomSprites_stale : AtFrameStart bottomSprites ∧ bottomSprites.numSprites = 0 ∧
    ∃ es, (∀ e ∈ es, KeepsSprites e) ∧ Drawing (bottomSprites.events es) ∧
      (bottomSprites.events es).currentScanline = 1 ∧
      (bottomSprites.events es).numSprites = 8 := by
  refine ⟨⟨rfl, rfl, rfl⟩, rfl, ?_⟩
  have hset : (bottomSprites.lineSet 241).length = 8 := by decide
  rw [← hset]
  exact exists_stale rendering_bottomSprites

end RetroCpu.Nes.Ppu
