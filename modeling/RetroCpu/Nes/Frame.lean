import RetroCpu.Nes.Beam

/-!
# Frames

How many steps a frame takes.  A run is a list of calls of `PpuStep`, `ReadPPU` and
`WritePPU`; the last two catch up with the CPU first, so they step as well.  `runCalls`
lists the states that all these steps start from, and `frame_length` counts them from one
start of a frame to the next.
-/

namespace RetroCpu.Nes

/-- A call that reaches the picture processor from outside. -/
inductive PpuCall
  | ppuStep
  | readPpu (cpuCycle : BitVec 64) (fuel : Nat) (offset : BitVec 32)
  | writePpu (cpuCycle : BitVec 64) (fuel : Nat) (addr : BitVec 32) (value : Byte)

namespace Ppu

/-- The states in which `CatchUpToCpu` calls `PpuStep`. -/
def catchUpStates (cpuCycle : BitVec 64) : Nat → Ppu → List Ppu
  | 0, _ => []
  | fuel + 1, p =>
    if p.lastPpuCycle < cpuCycle then p.tick :: catchUpStates cpuCycle fuel p.tick.ppuStep else []

/-- The states in which a call calls `PpuStep`, and the state it leaves.  `none` is a catch-up that
`fuel` steps are not enough for. -/
def call (p : Ppu) : PpuCall → Option (List Ppu × Ppu)
  | .ppuStep => some ([p], p.ppuStep)
  | .readPpu cpuCycle fuel offset =>
    (readPpu cpuCycle fuel offset p).map fun r => (catchUpStates cpuCycle fuel p, r.2)
  | .writePpu cpuCycle fuel addr value =>
    (writePpu cpuCycle fuel addr value p).map fun q => (catchUpStates cpuCycle fuel p, q)

/-- The states in which `PpuStep` is called over a list of calls, and the state at the end. -/
def runCalls : List PpuCall → Ppu → Option (List Ppu × Ppu)
  | [], p => some ([], p)
  | c :: calls, p =>
    (p.call c).bind fun r => (runCalls calls r.2).map fun r' => (r.1 ++ r'.1, r'.2)

/-! ### Registers leave the beam where it is -/

/-- The beams are the same but for `rendering_enabled`. -/
def SamePlace (b b' : Beam) : Prop := ∃ rendering, b' = { b with rendering := rendering }

theorem samePlace_of_eq {b b' : Beam} (h : b' = b) : SamePlace b b' := ⟨b.rendering, h⟩

theorem SamePlace.valid {b b' : Beam} (h : SamePlace b b') (hb : b.Valid) : b'.Valid := by
  obtain ⟨rendering, rfl⟩ := h
  exact ⟨hb.renderScanlines, hb.postrenderScanlines, hb.totalScanlines, hb.scanline, hb.clock,
    hb.rendered, hb.postrender⟩

theorem SamePlace.dot {b b' : Beam} (h : SamePlace b b') : b'.dot = b.dot := by
  obtain ⟨rendering, rfl⟩ := h
  rfl

theorem beam_readData (p : Ppu) : p.readData.beam = p.beam := by
  unfold readData
  dsimp only
  split
  · exact beam_read p.readBuffer _
  · rfl

theorem beam_readReg (p : Ppu) (offset : BitVec 32) : (p.readReg offset).2.beam = p.beam := by
  unfold readReg
  dsimp only
  split
  · rfl
  · split
    · rfl
    · split
      · exact beam_readData p
      · rfl

theorem beam_write (p : Ppu) (addr : CpuAddr) (value : Byte) :
    (p.write addr value).beam = p.beam := by
  unfold write
  dsimp only
  split <;> rfl

theorem beam_writeScroll (p : Ppu) (value : Byte) : (p.writeScroll value).beam = p.beam := by
  unfold writeScroll
  split <;> rfl

theorem beam_writeAddr (p : Ppu) (value : Byte) : (p.writeAddr value).beam = p.beam := by
  unfold writeAddr
  split <;> rfl

theorem samePlace_writeReg (p : Ppu) (addr : BitVec 32) (value : Byte) :
    SamePlace p.beam (p.writeReg addr value).beam := by
  unfold writeReg
  dsimp only
  split
  · exact samePlace_of_eq rfl
  split
  · exact ⟨_, rfl⟩
  split
  · split <;> exact samePlace_of_eq rfl
  split
  · split <;> exact samePlace_of_eq rfl
  split
  · exact samePlace_of_eq (beam_writeScroll _ _)
  split
  · exact samePlace_of_eq (beam_writeAddr _ _)
  split
  · exact samePlace_of_eq (beam_write _ _ _)
  · exact samePlace_of_eq rfl

/-! ### The dots of a run -/

/-- From the dot `d` on, each state is at the dot that follows the one before it. -/
def Dots : Nat → List Ppu → Prop
  | _, [] => True
  | d, p :: rest => p.beam.Valid ∧ p.beam.dot = d ∧ Dots p.beam.nextDot rest

theorem dots_catchUpStates {cpuCycle : BitVec 64} {fuel : Nat} {p q : Ppu} (h : p.beam.Valid)
    (hrun : catchUpToCpu cpuCycle fuel p = some q) : q.beam.Valid ∧ ∀ rest,
      Dots q.beam.dot rest → Dots p.beam.dot (catchUpStates cpuCycle fuel p ++ rest) := by
  induction fuel generalizing p with
  | zero => cases hrun
  | succ fuel ih =>
    rw [catchUpToCpu] at hrun
    rw [catchUpStates]
    by_cases hlt : p.lastPpuCycle < cpuCycle
    · rw [if_pos hlt] at hrun
      rw [if_pos hlt]
      have hstep := advances_ppuStep (p := p.tick) h
      obtain ⟨hq, hdots⟩ := ih hstep.valid hrun
      refine ⟨hq, fun rest hdot => ⟨h, rfl, ?_⟩⟩
      rw [← hstep.dot]
      exact hdots rest hdot
    · rw [if_neg hlt] at hrun
      rw [if_neg hlt]
      cases hrun
      exact ⟨h, fun rest hdot => hdot⟩

theorem dots_call {p q : Ppu} {c : PpuCall} {steps : List Ppu} (h : p.beam.Valid)
    (hrun : p.call c = some (steps, q)) :
    q.beam.Valid ∧ ∀ rest, Dots q.beam.dot rest → Dots p.beam.dot (steps ++ rest) := by
  cases c with
  | ppuStep =>
    cases hrun
    have hstep := advances_ppuStep h
    refine ⟨hstep.valid, fun rest hdot => ⟨h, rfl, ?_⟩⟩
    rw [← hstep.dot]
    exact hdot
  | readPpu cpuCycle fuel offset =>
    obtain ⟨r, hread, heq⟩ := Option.map_eq_some_iff.mp hrun
    obtain ⟨q', hcatch, hq'⟩ := Option.bind_eq_some_iff.mp hread
    cases hq'
    cases heq
    obtain ⟨hq, hdots⟩ := dots_catchUpStates h hcatch
    have hplace := samePlace_of_eq (beam_readReg q' offset)
    exact ⟨hplace.valid hq, fun rest hdot => hdots rest (hplace.dot ▸ hdot)⟩
  | writePpu cpuCycle fuel addr value =>
    obtain ⟨r, hwrite, heq⟩ := Option.map_eq_some_iff.mp hrun
    obtain ⟨q', hcatch, hq'⟩ := Option.bind_eq_some_iff.mp hwrite
    cases hq'
    cases heq
    obtain ⟨hq, hdots⟩ := dots_catchUpStates h hcatch
    have hplace := samePlace_writeReg q' addr value
    exact ⟨hplace.valid hq, fun rest hdot => hdots rest (hplace.dot ▸ hdot)⟩

theorem dots_runCalls {calls : List PpuCall} {p q : Ppu} {steps : List Ppu} (h : p.beam.Valid)
    (hrun : runCalls calls p = some (steps, q)) : Dots p.beam.dot (steps ++ [q]) := by
  have hall : q.beam.Valid ∧ ∀ rest, Dots q.beam.dot rest → Dots p.beam.dot (steps ++ rest) := by
    induction calls generalizing p steps with
    | nil =>
      cases hrun
      exact ⟨h, fun rest hdot => hdot⟩
    | cons c calls ih =>
      obtain ⟨⟨steps', q'⟩, hcall, heq⟩ := Option.bind_eq_some_iff.mp hrun
      obtain ⟨⟨steps'', q''⟩, hrest, heq⟩ := Option.map_eq_some_iff.mp heq
      cases heq
      obtain ⟨hq', hdots⟩ := dots_call h hcall
      obtain ⟨hq, hdots'⟩ := ih hq' hrest
      refine ⟨hq, fun rest hdot => ?_⟩
      rw [List.append_assoc]
      exact hdots _ (hdots' rest hdot)
  exact hall.2 [q] ⟨hall.1, rfl, trivial⟩

theorem Dots.valid {d : Nat} {states : List Ppu} (h : Dots d states) :
    ∀ p ∈ states, p.beam.Valid := by
  induction states generalizing d with
  | nil => simp
  | cons p rest ih =>
    intro q hq
    rcases List.mem_cons.mp hq with rfl | hq
    · exact h.1
    · exact ih h.2.2 q hq

theorem Dots.valid_at {d : Nat} {states : List Ppu} (h : Dots d states) {i : Nat} {p : Ppu}
    (hp : states[i]? = some p) : p.beam.Valid := h.valid p (List.mem_of_getElem? hp)

theorem Dots.next {d : Nat} {states : List Ppu} (h : Dots d states) {i : Nat} {p q : Ppu}
    (hp : states[i]? = some p) (hq : states[i + 1]? = some q) : q.beam.dot = p.beam.nextDot := by
  induction states generalizing d i with
  | nil => simp at hp
  | cons r rest ih =>
    cases i with
    | zero =>
      cases rest with
      | nil => simp at hq
      | cons r' rest =>
        simp only [List.getElem?_cons_zero, List.getElem?_cons_succ, Option.some.injEq] at hp hq
        subst hp hq
        exact h.2.2.2.1
    | succ i => exact ih h.2.2 (by simpa using hp) (by simpa using hq)

/-! ### A frame -/

theorem dot_of_skips {b : Beam} (h : b.skips = true) : b.dot = 341 := by
  simp only [Beam.skips, Bool.and_eq_true, beq_iff_eq] at h
  rw [Beam.dot, h.1.1.1, h.1.1.2]

theorem nextDot_of_ne {b : Beam} (h : b.dot ≠ 341) :
    b.nextDot = if b.dot + 1 = 262 * 341 then 0 else b.dot + 1 := by
  have hskips : b.skips = false := by
    cases hs : b.skips with
    | true => exact absurd (dot_of_skips hs) h
    | false => rfl
  rw [Beam.nextDot, hskips]
  rfl

/-- The dot that a frame leaves out. -/
def skipped (p : Ppu) : Nat := if p.beam.skips then 1 else 0

theorem skipped_le (p : Ppu) : p.skipped ≤ 1 := by
  unfold skipped
  split <;> omega

section Frame

variable {d : Nat} {states : List Ppu} {i : Nat} {p : Ppu}

theorem exists_of_le {k m : Nat} {r : Ppu} (hr : states[m]? = some r) (hk : k ≤ m) :
    ∃ r', states[k]? = some r' := by
  obtain ⟨hm, -⟩ := List.getElem?_eq_some_iff.mp hr
  exact ⟨states[k], List.getElem?_eq_getElem (by omega)⟩

/-- Up to the start of scanline 1 each step is a dot. -/
theorem Dots.dot_first (h : Dots d states) (hp : states[i]? = some p) (hdot : p.beam.dot = 0)
    {k : Nat} (hk : k ≤ 341) {r : Ppu} (hr : states[i + k]? = some r) : r.beam.dot = k := by
  induction k generalizing r with
  | zero =>
    rw [Nat.add_zero, hp] at hr
    cases hr
    exact hdot
  | succ k ih =>
    obtain ⟨r', hr'⟩ := exists_of_le hr (by omega : i + k ≤ i + (k + 1))
    have hprev := ih (by omega) hr'
    rw [h.next hr' hr, nextDot_of_ne (by omega), hprev, if_neg (by omega)]

/-- From then on each step is a dot again. -/
theorem Dots.dot_rest (h : Dots d states) (hp : states[i]? = some p) (hdot : p.beam.dot = 0)
    {s : Ppu} (hs : states[i + 341]? = some s) {k : Nat} (hk : 341 < k)
    (hlt : k < 262 * 341 - s.skipped) {r : Ppu} (hr : states[i + k]? = some r) :
    r.beam.dot = k + s.skipped := by
  have hsdot := h.dot_first hp hdot (Nat.le_refl 341) hs
  induction k generalizing r with
  | zero => omega
  | succ k ih =>
    have hskipped := skipped_le s
    by_cases hfirst : k = 341
    · subst hfirst
      rw [h.next hs hr, Beam.nextDot, if_neg (by omega), hsdot, skipped]
      split <;> rfl
    · obtain ⟨r', hr'⟩ := exists_of_le hr (by omega : i + k ≤ i + (k + 1))
      have hprev := ih (by omega) (by omega) hr'
      rw [h.next hr' hr, nextDot_of_ne (by omega), hprev, if_neg (by omega)]
      omega

/-- The step after the last dot is the first of the next frame. -/
theorem Dots.dot_last (h : Dots d states) (hp : states[i]? = some p) (hdot : p.beam.dot = 0)
    {s : Ppu} (hs : states[i + 341]? = some s) {r : Ppu}
    (hr : states[i + (262 * 341 - s.skipped)]? = some r) : r.beam.dot = 0 := by
  have hskipped := skipped_le s
  have hlast : i + (262 * 341 - s.skipped - 1) + 1 = i + (262 * 341 - s.skipped) := by omega
  obtain ⟨r', hr'⟩ := exists_of_le hr
    (by omega : i + (262 * 341 - s.skipped - 1) ≤ i + (262 * 341 - s.skipped))
  have hprev := h.dot_rest hp hdot hs (by omega) (by omega) hr'
  rw [← hlast] at hr
  rw [h.next hr' hr, nextDot_of_ne (by omega), if_pos (by omega)]

end Frame

/-- `(state FETCH_SCANLINE_START, current_scanline 0, current_pixel_clock 0)`. -/
structure AtFrameStart (p : Ppu) : Prop where
  state : p.state = .fetchScanlineStart
  scanline : p.currentScanline = 0
  clock : p.currentPixelClock = 0

theorem atFrameStart_iff {p : Ppu} (h : p.beam.Valid) : AtFrameStart p ↔ p.beam.dot = 0 := by
  constructor
  · intro hstart
    have hscanline := hstart.scanline
    have hclock := hstart.clock
    show 341 * p.currentScanline + p.currentPixelClock = 0
    omega
  · intro hdot
    have hdot' : 341 * p.beam.scanline + p.beam.clock = 0 := hdot
    have hscanline : p.beam.scanline = 0 := by omega
    have hclock : p.beam.clock = 0 := by omega
    rcases h.rendered (by omega) with hstate | ⟨-, hpos⟩
    · rw [hclock] at hstate
      exact ⟨hstate, hscanline, hclock⟩
    · omega

/-- Two arrivals at the start of a frame with none between them. -/
structure Consecutive (states : List Ppu) (i j : Nat) : Prop where
  lt : i < j
  first : ∃ p, states[i]? = some p ∧ AtFrameStart p
  last : ∃ p, states[j]? = some p ∧ AtFrameStart p
  between : ∀ k p, i < k → k < j → states[k]? = some p → ¬AtFrameStart p

/-- The steps from the `i`th to the `j`th go once over the scanlines from 0 to 261 in order,
and they are as many as the frame has dots.  `t s` is the first step of scanline `s`. -/
structure FrameLength (states : List Ppu) (i j : Nat) : Prop where
  length : ∃ p, states[i + 341]? = some p ∧ p.currentScanline = 1 ∧ p.currentPixelClock = 0 ∧
    j - i = if p.renderingEnabled = true ∧ p.frameId &&& 1 ≠ 0 then 262 * 341 - 1 else 262 * 341
  scanlines : ∃ t : Nat → Nat, t 0 = i ∧ t 262 = j ∧ ∀ s < 262, t s < t (s + 1) ∧
    ∀ k p, t s ≤ k → k < t (s + 1) → states[k]? = some p → p.currentScanline = s

section Frame

variable {d : Nat} {states : List Ppu} {i j : Nat}

/-- Where scanline 1 begins, and how far it is to the next frame. -/
theorem Consecutive.length_eq (h : Consecutive states i j) (hdots : Dots d states) :
    ∃ s, states[i + 341]? = some s ∧ s.beam.dot = 341 ∧ j = i + (262 * 341 - s.skipped) := by
  obtain ⟨p, hp, hstart⟩ := h.first
  obtain ⟨q, hq, hend⟩ := h.last
  have hdot := (atFrameStart_iff (hdots.valid_at hp)).mp hstart
  have hqdot := (atFrameStart_iff (hdots.valid_at hq)).mp hend
  have hij : j = i + (j - i) := by have := h.lt; omega
  rw [hij] at hq
  have hfar : 341 < j - i := by
    by_contra hle
    have hfirst := hdots.dot_first hp hdot (by omega) hq
    have := h.lt
    omega
  obtain ⟨s, hs⟩ := exists_of_le hq (by omega : i + 341 ≤ i + (j - i))
  have hskipped := skipped_le s
  refine ⟨s, hs, hdots.dot_first hp hdot (Nat.le_refl 341) hs, ?_⟩
  by_contra hne
  by_cases hshort : j - i < 262 * 341 - s.skipped
  · have hrest := hdots.dot_rest hp hdot hs hfar hshort hq
    omega
  · obtain ⟨r, hr⟩ := exists_of_le hq
      (by omega : i + (262 * 341 - s.skipped) ≤ i + (j - i))
    have hlast := hdots.dot_last hp hdot hs hr
    exact h.between _ r (by omega) (by omega) hr ((atFrameStart_iff (hdots.valid_at hr)).mpr hlast)

theorem scanline_of_dot {p : Ppu} (h : p.beam.Valid) {s : Nat} (hle : 341 * s ≤ p.beam.dot)
    (hlt : p.beam.dot < 341 * (s + 1)) : p.currentScanline = s := by
  have hclock : p.currentPixelClock < 341 := h.clock
  have hdot : p.beam.dot = 341 * p.currentScanline + p.currentPixelClock := rfl
  omega

theorem Consecutive.frameLength (h : Consecutive states i j) (hdots : Dots d states) :
    FrameLength states i j := by
  obtain ⟨s, hs, hsdot, hj⟩ := h.length_eq hdots
  obtain ⟨p, hp, hstart⟩ := h.first
  have hdot := (atFrameStart_iff (hdots.valid_at hp)).mp hstart
  have hskipped := skipped_le s
  have hscanline : s.currentScanline = 1 :=
    scanline_of_dot (hdots.valid_at hs) (by omega) (by omega)
  have hclock : s.currentPixelClock = 0 := by
    have hsdot' : 341 * s.currentScanline + s.currentPixelClock = 341 := hsdot
    omega
  refine ⟨⟨s, hs, hscanline, hclock, ?_⟩, ?_⟩
  · have hskips : s.beam.skips = (s.renderingEnabled && s.frameId &&& 1 != 0) := by
      show (s.currentScanline == 1 && s.currentPixelClock == 0 && s.renderingEnabled &&
        s.frameId &&& 1 != 0) = _
      rw [hscanline, hclock]
      rfl
    have hval : s.skipped =
        if s.renderingEnabled = true ∧ s.frameId &&& 1 ≠ 0 then 1 else 0 := by
      rw [skipped, hskips]
      simp only [Bool.and_eq_true, bne_iff_ne]
    rw [hj, hval]
    split <;> omega
  · refine ⟨fun n => i + 341 * n - if 2 ≤ n then s.skipped else 0, ?_, ?_, ?_⟩
    · rfl
    · rw [hj]
      simp only [if_pos (by decide : 2 ≤ 262)]
      omega
    · intro n hn
      refine ⟨?_, ?_⟩
      · dsimp only
        split <;> split <;> omega
      · intro k r hle hlt hr
        dsimp only at hle hlt
        have hk : k = i + (k - i) := by
          split at hle <;> omega
        rw [hk] at hr
        by_cases hfirst : k - i ≤ 341
        · have hrdot := hdots.dot_first hp hdot hfirst hr
          apply scanline_of_dot (hdots.valid_at hr)
          · split at hle <;> split at hlt <;> omega
          · split at hle <;> split at hlt <;> omega
        · have hshort : k - i < 262 * 341 - s.skipped := by
            split at hle <;> split at hlt <;> omega
          have hrdot := hdots.dot_rest hp hdot hs (by omega) hshort hr
          apply scanline_of_dot (hdots.valid_at hr)
          · split at hle <;> split at hlt <;> omega
          · split at hle <;> split at hlt <;> omega

end Frame

theorem valid_initial (memory : Ppu) : (memory.construct.initializePpu true).beam.Valid :=
  ⟨rfl, rfl, rfl, Nat.zero_lt_succ 261, Nat.zero_lt_succ 340, fun _ => Or.inl rfl,
    fun h => absurd h (Nat.not_lt_zero 240)⟩

/-- **After an arrival there is another one, if the run goes on for a frame.** -/
theorem Dots.consecutive {d : Nat} {states : List Ppu} (h : Dots d states) {i : Nat} {p : Ppu}
    (hp : states[i]? = some p) (hstart : AtFrameStart p) (hlong : i + 262 * 341 < states.length) :
    ∃ j, Consecutive states i j := by
  have hdot := (atFrameStart_iff (h.valid_at hp)).mp hstart
  have hend := List.getElem?_eq_getElem hlong
  obtain ⟨s, hs⟩ := exists_of_le hend (by omega : i + 341 ≤ i + 262 * 341)
  have hskipped := skipped_le s
  obtain ⟨q, hq⟩ := exists_of_le hend
    (by omega : i + (262 * 341 - s.skipped) ≤ i + 262 * 341)
  have hqdot := h.dot_last hp hdot hs hq
  refine ⟨i + (262 * 341 - s.skipped), by omega, ⟨p, hp, hstart⟩,
    ⟨q, hq, (atFrameStart_iff (h.valid_at hq)).mpr hqdot⟩, ?_⟩
  intro k r hik hkj hr hrstart
  have hrdot := (atFrameStart_iff (h.valid_at hr)).mp hrstart
  obtain ⟨n, rfl⟩ := Nat.exists_eq_add_of_lt hik
  by_cases hfirst : n + 1 ≤ 341
  · have := h.dot_first hp hdot hfirst hr
    omega
  · have := h.dot_rest hp hdot hs (k := n + 1) (by omega) (by omega) hr
    omega

/-- **Every frame of every run takes 262 · 341 steps, one less on the odd frames that are
rendered, and goes over the scanlines in order**, and after an arrival the next one comes. -/
theorem frame_length (memory : Ppu) (calls : List PpuCall) (steps : List Ppu) (q : Ppu)
    (hrun : runCalls calls (memory.construct.initializePpu true) = some (steps, q)) :
    (∀ p ∈ steps ++ [q], p.currentPixelClock ≤ 340) ∧
      (∀ i j, Consecutive (steps ++ [q]) i j → FrameLength (steps ++ [q]) i j) ∧
      ∀ i p, (steps ++ [q])[i]? = some p → AtFrameStart p →
        i + 262 * 341 < (steps ++ [q]).length → ∃ j, Consecutive (steps ++ [q]) i j := by
  have hdots := dots_runCalls (valid_initial memory) hrun
  refine ⟨fun p hp => ?_, fun i j h => ?_, fun i p hp hstart hlong => ?_⟩
  · exact Nat.le_of_lt_succ (hdots.valid p hp).clock
  · exact h.frameLength hdots
  · exact hdots.consecutive hp hstart hlong

/-- A run of `PpuStep` alone. -/
theorem runCalls_replicate (n : Nat) (p : Ppu) : ∃ steps q,
    runCalls (List.replicate n .ppuStep) p = some (steps, q) ∧ steps.length = n ∧
      (steps ++ [q])[0]? = some p := by
  induction n generalizing p with
  | zero => exact ⟨[], p, rfl, rfl, rfl⟩
  | succ n ih =>
    obtain ⟨steps, q, hrun, hlength, -⟩ := ih p.ppuStep
    refine ⟨p :: steps, q, ?_, congrArg (· + 1) hlength, rfl⟩
    rw [List.replicate_succ, runCalls, call, Option.bind_some, hrun]
    rfl

/-- A frame after two writes, of which the second panics. -/
theorem frame_length_zeroed : ∃ steps q j, runCalls (.writePpu 0 1 1 0x18 :: .writePpu 0 1 3 0 ::
      List.replicate (262 * 341) .ppuStep) (zeroed.construct.initializePpu true) =
        some (steps, q) ∧
    Consecutive (steps ++ [q]) 0 j ∧ FrameLength (steps ++ [q]) 0 j := by
  obtain ⟨steps, q, hrun, hlength, hfirst⟩ := runCalls_replicate (262 * 341)
    (((zeroed.construct.initializePpu true).writeReg 1 0x18).writeReg 3 0)
  have hwrites : ∀ calls, runCalls calls
      (((zeroed.construct.initializePpu true).writeReg 1 0x18).writeReg 3 0) = some (steps, q) →
      runCalls (.writePpu 0 1 1 0x18 :: .writePpu 0 1 3 0 :: calls)
        (zeroed.construct.initializePpu true) = some (steps, q) := by
    intro calls h
    show ((runCalls calls (((zeroed.construct.initializePpu true).writeReg 1 0x18).writeReg 3
      0)).map _).map _ = _
    rw [h]
    rfl
  have hcalls := hwrites _ hrun
  have hlong : 0 + 262 * 341 < (steps ++ [q]).length := by
    rw [List.length_append, hlength, List.length_singleton]
    omega
  obtain ⟨-, hframes, harrives⟩ := frame_length zeroed _ steps q hcalls
  obtain ⟨j, hj⟩ := harrives 0 _ hfirst ⟨rfl, rfl, rfl⟩ hlong
  exact ⟨steps, q, j, hcalls, hj, hframes 0 j hj⟩

end Ppu

end RetroCpu.Nes
