import Mathlib.Data.Int.GCD
import Mathlib.Tactic.Ring
import RetroCpu.Nes.OpenBus
import RetroCpu.Wdc65816.Progress

/-!
# The clocks of a loaded ROM

`LoadRom` sets the clocks where the display is NTSC and refuses PAL.  A NES 2.0 header has two
more values, and for those it goes on with the clocks that it finds.

`CatchUpToCpu` moves in steps of `ppu_clock_size` through the 64 bits of a clock, so it comes to
a cycle exactly if that is no later than the last multiple of the step's power of two:
`exists_catchesUp_iff`.  `clock_runs_iff` puts this together with what `Run` needs.
-/

namespace RetroCpu.Nes

namespace Ppu

/-! ### Where `CatchUpToCpu` gets -/

/-- The latest time that steps of `size` get to from `last`. -/
def lastReach (size : BitVec 32) (last : BitVec 64) : Nat :=
  2 ^ 64 - Nat.gcd size.toNat (2 ^ 64) + last.toNat % Nat.gcd size.toNat (2 ^ 64)

theorem lastReach_lt (size : BitVec 32) (last : BitVec 64) : lastReach size last < 2 ^ 64 := by
  have hdvd : Nat.gcd size.toNat (2 ^ 64) ∣ 2 ^ 64 := Nat.gcd_dvd_right _ _
  have hpos : 0 < Nat.gcd size.toNat (2 ^ 64) := Nat.gcd_pos_of_pos_right _ (by decide)
  have hle := Nat.le_of_dvd (by decide) hdvd
  have hmod := Nat.mod_lt last.toNat hpos
  unfold lastReach
  omega

theorem clockStep_iterate (p : Ppu) (k : Nat) :
    (clockStep^[k] p).ppuClockSize = p.ppuClockSize ∧
      (clockStep^[k] p).lastPpuCycle.toNat =
        (p.lastPpuCycle.toNat + k * p.ppuClockSize.toNat) % 2 ^ 64 := by
  induction k with
  | zero =>
    have hlt := p.lastPpuCycle.isLt
    exact ⟨rfl, by rw [Nat.zero_mul, Nat.add_zero]; exact (Nat.mod_eq_of_lt hlt).symm⟩
  | succ k ih =>
    rw [Function.iterate_succ_apply', ppuClockSize_clockStep, lastPpuCycle_clockStep,
      BitVec.toNat_add, BitVec.toNat_setWidth_of_le (by decide), ih.1, ih.2]
    refine ⟨rfl, ?_⟩
    rw [Nat.mod_add_mod, Nat.add_mul, Nat.one_mul, Nat.add_assoc]

/-- A number below `n` in the class of `l` modulo a divisor of `n`. -/
theorem le_last_of_dvd {g n l x : Nat} (hg : g ∣ n) (hx : x < n)
    (hmod : x % g = l % g) : x ≤ n - g + l % g := by
  obtain ⟨m, rfl⟩ := hg
  have hdiv : x / g < m := Nat.div_lt_of_lt_mul hx
  have hle : g * (x / g) + g ≤ g * m := by
    calc g * (x / g) + g = g * (x / g + 1) := by rw [Nat.mul_add, Nat.mul_one]
      _ ≤ g * m := Nat.mul_le_mul_left g hdiv
  have hx' := Nat.div_add_mod x g
  omega

theorem le_lastReach (size : BitVec 32) (last : BitVec 64) (k : Nat) :
    (last.toNat + k * size.toNat) % 2 ^ 64 ≤ lastReach size last := by
  have hdvd : Nat.gcd size.toNat (2 ^ 64) ∣ 2 ^ 64 := Nat.gcd_dvd_right _ _
  refine le_last_of_dvd hdvd (Nat.mod_lt _ (by decide)) ?_
  obtain ⟨j, hj⟩ := (Nat.gcd_dvd_left size.toNat (2 ^ 64)).mul_left k
  rw [Nat.mod_mod_of_dvd _ hdvd, hj, Nat.add_mul_mod_self_left]

/-- The multiples of `s` modulo `n`. -/
theorem exists_mul_mod {s d n : Nat} (hn : 0 < n) (h : Nat.gcd s n ∣ d) :
    ∃ k, k * s % n = d % n := by
  have hn' : (n : ℤ) ≠ 0 := by omega
  obtain ⟨x, y, hxy⟩ := Int.gcd_dvd_iff.mp (show Int.gcd (s : ℤ) (n : ℤ) ∣ d from h)
  have hx : ((x % n).toNat : ℤ) = x % n := Int.toNat_of_nonneg (Int.emod_nonneg x hn')
  refine ⟨(x % n).toNat, ?_⟩
  have hstep : x % n * s = d + n * (-y - x / n * s) := by
    rw [Int.emod_def, hxy]
    ring
  have hmod : (((x % n).toNat * s : Nat) : ℤ) % n = (d : ℤ) % n := by
    rw [Nat.cast_mul, hx, hstep, Int.add_mul_emod_self_left]
  exact_mod_cast hmod

/-- Steps get to that time. -/
theorem exists_steps (size : BitVec 32) (last : BitVec 64) :
    ∃ k, (last.toNat + k * size.toNat) % 2 ^ 64 = lastReach size last := by
  have hlast := last.isLt
  have hlt := lastReach_lt size last
  have hdvd : Nat.gcd size.toNat (2 ^ 64) ∣ 2 ^ 64 := Nat.gcd_dvd_right _ _
  -- the way to `lastReach`, once around
  have hway : Nat.gcd size.toNat (2 ^ 64) ∣ lastReach size last + 2 ^ 64 - last.toNat := by
    obtain ⟨m, hm⟩ := hdvd
    have hdiv := Nat.div_add_mod last.toNat (Nat.gcd size.toNat (2 ^ 64))
    have hle := Nat.le_of_dvd (by decide) (Nat.gcd_dvd_right size.toNat (2 ^ 64))
    have heq : lastReach size last + 2 ^ 64 - last.toNat + Nat.gcd size.toNat (2 ^ 64) *
        (last.toNat / Nat.gcd size.toNat (2 ^ 64) + 1) = Nat.gcd size.toNat (2 ^ 64) * (m + m) := by
      rw [Nat.mul_add, Nat.mul_add, ← hm, Nat.mul_one]
      unfold lastReach
      omega
    exact (Nat.dvd_add_left (Nat.dvd_mul_right _ _)).mp (heq ▸ Nat.dvd_mul_right _ _)
  obtain ⟨k, hk⟩ := exists_mul_mod (by decide) hway
  refine ⟨k, ?_⟩
  calc (last.toNat + k * size.toNat) % 2 ^ 64
      = (last.toNat + k * size.toNat % 2 ^ 64) % 2 ^ 64 := (Nat.add_mod_mod _ _ _).symm
    _ = (last.toNat + (lastReach size last + 2 ^ 64 - last.toNat)) % 2 ^ 64 := by
        rw [hk, Nat.add_mod_mod]
    _ = lastReach size last := by omega

theorem exists_catchesUp_iff (c : BitVec 64) (p : Ppu) :
    (∃ q, CatchesUp c p q) ↔ c.toNat ≤ lastReach p.ppuClockSize p.lastPpuCycle := by
  simp only [catchesUp_iff, exists_endsIn_iff, CaughtUp, BitVec.not_lt, BitVec.le_def,
    (clockStep_iterate p _).2]
  constructor
  · rintro ⟨k, hk⟩
    exact hk.trans (le_lastReach _ _ k)
  · intro hc
    obtain ⟨k, hk⟩ := exists_steps p.ppuClockSize p.lastPpuCycle
    exact ⟨k, hk ▸ hc⟩

end Ppu

/-! ### What is paid for -/

namespace NesBus

/-- A bus with given clocks. -/
structure Ticks (cpuClockSize ppuClockSize : BitVec 32) (b : NesBus) : Prop where
  decodes : b.Decodes
  cpuClockSize : b.cpuClockSize = cpuClockSize
  ppuClockSize : b.ppu.ppuClockSize = ppuClockSize

variable {cpuClockSize ppuClockSize : BitVec 32}

theorem stable_ticks : Stable (Ticks cpuClockSize ppuClockSize) where
  decodes h := h.decodes
  frame h hf := ⟨hf.decodes h.decodes, hf.cpuClockSize.trans h.cpuClockSize,
    hf.ppuClockSize.trans h.ppuClockSize⟩
  fault _ h := ⟨h.decodes, h.cpuClockSize, h.ppuClockSize⟩

theorem Ticks.price {b : NesBus} (h : Ticks cpuClockSize ppuClockSize b) (addr : CpuAddr) :
    b.price addr = cpuClockSize := by
  rw [NesBus.price, MemoryMap.page, h.decodes.cycles, h.cpuClockSize]

/-- **Every access of a console with a running clock costs a clock.** -/
theorem charges_ticks (ppuClockSize : BitVec 32) (hpos : 0 < cpuClockSize) :
    Bus.Charges (Ticks cpuClockSize ppuClockSize) where
  toInvariant := stable_ticks.invariant
  read_pos h _ a := by
    show 1 ≤ (NesBus.price _ a).toNat
    rw [h.price]
    exact hpos
  write_pos h _ a _ := by
    show 1 ≤ (NesBus.price _ a).toNat
    rw [h.price]
    exact hpos

end NesBus

/-! ### `LoadRom` -/

/-- The display that `Parse` finds is NTSC: it finds nothing else in iNES. -/
def Ntsc (image : List Byte) : Prop :=
  image.getD 7 0 &&& 0xC = 8 → image.getD 12 0 &&& 3 = 0

instance : DecidablePred Ntsc := fun image =>
  inferInstanceAs (Decidable (image.getD 7 0 &&& 0xC = 8 → image.getD 12 0 &&& 3 = 0))

theorem system_parse {image : List Byte} {rom : RomInes} (h : RomInes.parse image = some rom) :
    rom.system = 0 ↔ Ntsc image := by
  simp only [RomInes.parse, Option.bind_eq_bind, Option.bind_eq_some_iff] at h
  obtain ⟨flags6, h6, trainer, ht, flags7, h7, n5, h5, n4, h4, flags8, h8, h⟩ := h
  have d7 := RomInes.getD_of_getElem? h7
  by_cases hines : flags7 &&& 0xC = 8
  · rw [if_pos hines] at h
    simp only [Option.bind_eq_some_iff] at h
    obtain ⟨flags9, h9, flags10, h10, flags11, h11, flags12, h12, h⟩ := h
    have d12 := RomInes.getD_of_getElem? h12
    obtain rfl := Option.some.inj h
    have hwide : ((flags12 &&& 3).setWidth 32 : BitVec 32) = 0 ↔ flags12 &&& 3 = 0 := by
      rw [← BitVec.toNat_inj, BitVec.toNat_setWidth_of_le (by decide), ← BitVec.toNat_inj]
      rfl
    rw [Ntsc, d7, d12]
    exact hwide.trans ⟨fun h _ => h, fun h => h hines⟩
  · rw [if_neg hines] at h
    obtain rfl := Option.some.inj h
    rw [Ntsc, d7]
    exact ⟨fun _ h => absurd h hines, fun _ => rfl⟩

/-- `cycle_stop` of `Run`, where the next frame starts. -/
def Console.nextFrameStart {γ : Type} (n : Console γ) (currentFrameStartCycle : BitVec 64) :
    BitVec 64 := currentFrameStartCycle + n.masterClocksPerFrame.setWidth 64

/-- The clocks of a console run: in the state `m` they get `CatchUpToCpu` to the cycle `c`, and
`Run` further. -/
structure ClockRuns (loaded : Console Unit) (m : Machine NesBus) (c : BitVec 64) : Prop where
  cpuClockSize : 0 < loaded.cpuClockSize
  ppuClockSize : 0 < loaded.ppu.ppuClockSize
  masterClocksPerFrame : 0 < loaded.masterClocksPerFrame
  catchUp : ∃ q, Ppu.CatchesUp c m.bus.ppu q
  frame : ∀ start, loaded.nextFrameStart start ≠ start
  instruction : ∀ m', m.emulateInstruction = some m' → Paid (2 ^ 19) m m'
  interrupt : ∀ param, Paid (2 ^ 19) m (Machine.interrupt param m).2

/-- The clocks that `LoadRom` finds. -/
structure Clocked (n : Console Unit) : Prop where
  cpuClockSize : 0 < n.cpuClockSize
  ppuClockSize : 0 < n.ppu.ppuClockSize
  masterClocksPerFrame : 0 < n.masterClocksPerFrame

section Loaded

variable {layout : HostLayout} {devices : IODevices Unit} {rom : RomInes} {fuel : Nat}
  {n loaded : Console Unit} {image : List Byte}

theorem clocked_setNtsc (n : Console Unit) : Clocked n.setNtsc :=
  ⟨(by decide : (0 : BitVec 32) < 12), (by decide : (0 : BitVec 32) < 4),
    (by decide : (0 : BitVec 32) < 357366)⟩

theorem clocked_iff (n : Console Unit) (system : BitVec 32) :
    Clocked (n.clocked system) ↔ system = 0 ∨ Clocked n := by
  unfold Console.clocked
  by_cases h : system = 0
  · rw [if_pos h]
    exact ⟨fun _ => Or.inl h, fun _ => clocked_setNtsc _⟩
  · rw [if_neg h]
    constructor
    · intro hn
      exact Or.inr ⟨hn.cpuClockSize, hn.ppuClockSize, hn.masterClocksPerFrame⟩
    · rintro (hzero | hn)
      · exact absurd hzero h
      · exact ⟨hn.cpuClockSize, hn.ppuClockSize, hn.masterClocksPerFrame⟩

theorem SameClocks.clocked_iff {n n' : Console Unit} (h : SameClocks n n') :
    Clocked n' ↔ Clocked n := by
  constructor
  · rintro ⟨hcpu, hppu, hframe⟩
    rw [h.cpuClockSize] at hcpu
    rw [h.ppuClockSize] at hppu
    rw [h.masterClocksPerFrame] at hframe
    exact ⟨hcpu, hppu, hframe⟩
  · rintro ⟨hcpu, hppu, hframe⟩
    rw [← h.cpuClockSize] at hcpu
    rw [← h.ppuClockSize] at hppu
    rw [← h.masterClocksPerFrame] at hframe
    exact ⟨hcpu, hppu, hframe⟩

theorem nextFrameStart_ne (n : Console Unit) (h : 0 < n.masterClocksPerFrame)
    (start : BitVec 64) : n.nextFrameStart start ≠ start := by
  intro heq
  have hzero : n.masterClocksPerFrame.setWidth 64 = 0 := by
    unfold Console.nextFrameStart at heq
    bv_omega
  have hnat := congrArg BitVec.toNat hzero
  rw [BitVec.toNat_setWidth_of_le (by decide)] at hnat
  have hpos : 0 < n.masterClocksPerFrame.toNat := h
  have hz : (0 : BitVec 64).toNat = 0 := rfl
  omega

/-- **The clocks of an accepted ROM run exactly if its display is NTSC or the console had
clocks before**, up to the last cycle that the clock of the picture processor gets to. -/
theorem clock_runs_iff (hparse : RomInes.parse image = some rom)
    (hload : Console.loadRom layout devices () rom fuel n = some (true, loaded))
    {controllers : Controllers} {pendingInterrupts : BitVec 32} {m : Machine NesBus}
    (hrun : Run Machine.step NesBus.Happens (loaded.boot controllers pendingInterrupts) m)
    (c : BitVec 64) :
    ClockRuns loaded m c ↔ (Ntsc image ∨ Clocked n) ∧
      c.toNat ≤ Ppu.lastReach (if Ntsc image then 4 else n.ppu.ppuClockSize)
        m.bus.ppu.lastPpuCycle := by
  have hsame := sameClocks_loadRom hload
  have hclocked : Clocked loaded ↔ Ntsc image ∨ Clocked n := by
    rw [hsame.clocked_iff, clocked_iff, system_parse hparse]
  have hticks : NesBus.Ticks loaded.cpuClockSize loaded.ppu.ppuClockSize m.bus :=
    NesBus.stable_ticks.of_run hrun
      ⟨decodes_boot hparse hload controllers pendingInterrupts, rfl, rfl⟩
  have hsize : m.bus.ppu.ppuClockSize = if Ntsc image then 4 else n.ppu.ppuClockSize := by
    rw [hticks.ppuClockSize, hsame.ppuClockSize, Console.clocked]
    simp only [system_parse hparse]
    split <;> rfl
  have hcatch := Ppu.exists_catchesUp_iff c m.bus.ppu
  rw [hsize] at hcatch
  constructor
  · intro h
    exact ⟨hclocked.mp ⟨h.cpuClockSize, h.ppuClockSize, h.masterClocksPerFrame⟩,
      hcatch.mp h.catchUp⟩
  · rintro ⟨hclocks, hc⟩
    obtain ⟨hcpu, hppu, hframe⟩ := hclocked.mpr hclocks
    have hcharges := NesBus.charges_ticks loaded.ppu.ppuClockSize hcpu
    exact
      { cpuClockSize := hcpu
        ppuClockSize := hppu
        masterClocksPerFrame := hframe
        catchUp := hcatch.mpr hc
        frame := nextFrameStart_ne loaded hframe
        instruction := fun m' hm' => (paid_emulateInstruction hcharges hticks hm').le (by decide)
        interrupt := fun param => (paid_interrupt hcharges hticks param).le (by decide) }

end Loaded

theorem clock_runs_zeros : ∃ (rom : RomInes) (loaded : Console Unit),
    RomInes.parse (zerosImage false) = some rom ∧
      Console.loadRom .apart (SystemBus.simple 16 fun _ => 0).ioDevices () rom 3
        (Console.zeroed fun _ => 0) = some (true, loaded) ∧
      ClockRuns loaded (loaded.boot .idle 0) 357366 := by
  obtain ⟨rom, loaded, hparse, hsystem, -, hload⟩ := loadRom_zeros false
  have hntsc : Ntsc (zerosImage false) := (system_parse hparse).mp hsystem
  have hlast : (loaded.boot .idle 0).bus.ppu.lastPpuCycle = 0 := by
    refine (sameClocks_loadRom hload).lastPpuCycle.trans ?_
    rw [hsystem]
    rfl
  refine ⟨rom, loaded, hparse, hload,
    (clock_runs_iff hparse hload .refl 357366).mpr ⟨Or.inl hntsc, ?_⟩⟩
  rw [hlast, if_pos hntsc]
  decide

/-- A NES 2.0 image for more than one region. -/
theorem not_clock_runs_nes2 : ∃ (rom : RomInes) (loaded : Console Unit),
    RomInes.parse (zerosImage true) = some rom ∧
      Console.loadRom .apart (SystemBus.simple 16 fun _ => 0).ioDevices () rom 3
        (Console.zeroed fun _ => 0) = some (true, loaded) ∧
      loaded.cpuClockSize = 0 ∧ loaded.masterClocksPerFrame = 0 ∧
      ¬∃ q, Ppu.CatchesUp 1 loaded.ppu q := by
  obtain ⟨rom, loaded, hparse, hsystem, -, hload⟩ := loadRom_zeros true
  have hsame := sameClocks_loadRom hload
  rw [hsystem] at hsame
  refine ⟨rom, loaded, hparse, hload, hsame.cpuClockSize, hsame.masterClocksPerFrame, ?_⟩
  rw [Ppu.exists_catchesUp_iff, hsame.ppuClockSize, hsame.lastPpuCycle]
  decide

end RetroCpu.Nes
