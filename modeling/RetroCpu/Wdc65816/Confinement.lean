import RetroCpu.Wdc65816.StackPage

/-!
# Confinement of the 6502

The 6502 is the 65816 with `mode_native_6502` set.  The 65816 has more state than
a 6502: the high bytes of A, X, Y and SP, the direct page register and the two
bank registers.  None of the operations of the 6502 row reaches it, so once
`PowerOn` has cleared that state no program can tell that it is there.
-/

namespace RetroCpu

open WordBytes Machine StateFn

variable {β : Type}

structure Core.Confined (c : Core) : Prop where
  mode : c.mode = .native6502
  d : c.d = 0
  dataSegmentBase : c.dataSegmentBase = 0
  codeSegmentBase : c.codeSegmentBase = 0
  sp : 0x0100 ≤ c.sp ∧ c.sp ≤ 0x01FF
  a : hi c.a = 0
  x : hi c.x = 0
  y : hi c.y = 0

structure Footprint.Is6502 (f : Footprint) : Prop where
  a : f.a ≠ .full
  x : f.x ≠ .full
  y : f.y ≠ .full
  d : f.d = false
  sp : f.sp ≠ .full
  dataBank : f.dataBank = false
  programBank : f.programBank ≠ .full

instance (f : Footprint) : Decidable f.Is6502 :=
  decidable_of_iff (f.a ≠ .full ∧ f.x ≠ .full ∧ f.y ≠ .full ∧ f.d = false ∧ f.sp ≠ .full ∧
    f.dataBank = false ∧ f.programBank ≠ .full)
    ⟨fun ⟨a, x, y, d, s, b, p⟩ => ⟨a, x, y, d, s, b, p⟩, fun ⟨a, x, y, d, s, b, p⟩ =>
      ⟨a, x, y, d, s, b, p⟩⟩

/-- An operation of the 6502 row is not `XCE` and has the footprint of a 6502. -/
def Op.is6502 (op : Op) : Bool := op != .xce && op.footprint.Is6502

theorem is6502_native6502Row : (execOps .native6502).all (fun o => o.all Op.is6502) = true := by
  decide +kernel

/-- What the runs keep: the confined state, and the bits that choose its mode. -/
structure Core.Runs6502 (c : Core) : Prop where
  coherent : c.Coherent
  native6502 : c.modeNative6502 = true
  d : c.d = 0
  dataSegmentBase : c.dataSegmentBase = 0
  codeSegmentBase : c.codeSegmentBase = 0
  sp : hi c.sp = 1
  a : hi c.a = 0
  x : hi c.x = 0
  y : hi c.y = 0

namespace Core.Runs6502

variable {c : Core}

theorem mode (h : c.Runs6502) : c.mode = .native6502 := by
  rw [h.coherent.mode, if_pos h.native6502]

theorem confined (h : c.Runs6502) : c.Confined where
  mode := h.mode
  d := h.d
  dataSegmentBase := h.dataSegmentBase
  codeSegmentBase := h.codeSegmentBase
  sp := by
    have ht := toNat_hi c.sp
    have h1 : (1 : Byte).toNat = 1 := rfl
    rw [h.sp, h1] at ht
    constructor
    · bv_omega
    · bv_omega
  a := h.a
  x := h.x
  y := h.y

/-- A 6502 footprint keeps the state confined. -/
theorem rel {c' : Core} {f : Footprint} (h : c.Runs6502) (hf : f.Is6502) (hr : f.Rel c c') :
    c'.Runs6502 := by
  have he : c.modeEmulation = true := h.coherent.native6502 h.native6502
  have hp : c'.codeSegmentBase = 0 := by
    have hrp := hr.programBank he
    cases hb : f.programBank with
    | keep =>
      rw [hb] at hrp
      exact Eq.trans hrp h.codeSegmentBase
    | zero =>
      rw [hb] at hrp
      rcases hrp with hrp | hrp
      · exact hrp.trans h.codeSegmentBase
      · exact hrp
    | full => exact absurd hb hf.programBank
  exact
    { coherent := hr.coherent
      native6502 := hr.modeNative6502.trans h.native6502
      d := (hr.d hf.d).trans h.d
      dataSegmentBase := (hr.dataBank hf.dataBank).trans h.dataSegmentBase
      codeSegmentBase := hp
      sp := (hr.sp he).hi_eq_one hf.sp h.sp
      a := hr.a.hi_eq_zero hf.a h.a
      x := hr.x.hi_eq_zero hf.x h.x
      y := hr.y.hi_eq_zero hf.y h.y }

/-- `Reset` clears the banks and the high bytes of X and Y itself. -/
theorem resetMode {ip : Word} (h6 : c.modeNative6502 = true) (hd : c.d = 0) (hs : hi c.sp = 1)
    (ha : hi c.a = 0) : (c.resetSp.resetMode ip).Runs6502 := by
  have hi := Core.indexFits_onUpdateMode ({ c.resetSp with
    ip := ip.setWidth 32
    dataSegmentBase := 0, codeSegmentBase := 0
    interrupts := 0
    modeEmulation := true, modeLongA := false, modeLongXy := false })
  have hxy : (c.resetSp.resetMode ip).modeLongXy = false := by
    rw [Core.resetMode, onUpdateMode_eq, Bool.and_false]
  obtain ⟨hx, hy⟩ := hi hxy
  exact
    { coherent := coherent_onUpdateMode _
      native6502 := by
        rw [Core.resetMode, onUpdateMode_eq]
        exact h6
      d := by
        rw [Core.resetMode, onUpdateMode_eq]
        exact hd
      dataSegmentBase := by rw [Core.resetMode, onUpdateMode_eq]
      codeSegmentBase := by rw [Core.resetMode, onUpdateMode_eq]
      sp := by
        rw [Core.resetMode, onUpdateMode_eq, resetSp, hi_setLo]
        exact hs
      a := by
        rw [Core.resetMode, onUpdateMode_eq]
        exact ha
      x := hx
      y := hy }

end Core.Runs6502

variable [Bus β]

/-- What happens to the 6502 of a console: instructions, interrupts, resets and changes of
memory. -/
def Stimulus.Hardware : Stimulus β → Prop
  | emulateInstruction | interrupt _ | reset | world _ => True
  | powerOn | loadState _ | setRegister _ _ => False

theorem runs6502_step {i : Stimulus β} {m m' : Machine β} (hm : m.core.Runs6502)
    (hi : i.Hardware) (h : Machine.step i m = some m') : m'.core.Runs6502 := by
  cases i with
  | powerOn => exact absurd hi id
  | reset =>
    cases h
    exact Core.Runs6502.resetMode hm.native6502 hm.d hm.sp hm.a
  | emulateInstruction =>
    have hall := is6502_native6502Row
    rw [← hm.mode] at hall
    have hk : ∀ op, m.handler = some op → op ≠ .xce ∧ op.footprint.Is6502 := by
      intro op hop
      simpa [Op.is6502] using of_handler hm.coherent hall hop
    rcases emulateInstruction_cases h with ⟨op, hop, -, hs⟩ | ⟨hop, -, -⟩
    · exact hm.rel (hk op hop).2 (hs.core hm.coherent)
    · exact absurd rfl (hk _ hop).1
  | interrupt param =>
    cases h
    exact hm.rel (by decide) ((spends_interrupt param m).core hm.coherent)
  | loadState inData => exact absurd hi id
  | setRegister reg value => exact absurd hi id
  | world bus =>
    cases h
    exact hm

/-- **A 6502 stays in its mode, bank 0, direct page 0, stack page 1 and 8 bits**, after `PowerOn`
with `mode_native_6502` set, whatever its memory holds. -/
theorem confined_of_run (start : Machine β) (h6 : start.core.modeNative6502 = true)
    {m : Machine β} (h : Run Machine.step (fun _ i => i.Hardware) (powerOn start).2 m) :
    m.core.Confined := by
  have h1 : hi (0x100 : Word) = 1 := by decide
  have h0 : hi (0 : Word) = 0 := by decide
  have hs : (powerOn start).2.core.Runs6502 :=
    Core.Runs6502.resetMode (c := start.core.powerOn) h6 rfl h1 h0
  exact (Run.invariant (P := fun m : Machine β => m.core.Runs6502) hs
    (fun _ _ _ hm hok hst => runs6502_step hm hok hst) h).confined

/-- `PLA`, then `RTI` with a status byte that asks for 16-bit registers. -/
theorem confined_rti : ∃ m : Machine (SystemBus Unit), Run Machine.step (fun _ i => i.Hardware)
    (powerOn (nes [0x68, 0x40])).2 m ∧ m.core.modeLongXy = false ∧ m.core.sp = 0x0101 ∧
      m.core.Confined := by
  have hs : (runList Machine.step [.emulateInstruction, .emulateInstruction]
      (powerOn (nes [0x68, 0x40])).2).map
        (fun m : Machine (SystemBus Unit) => (m.core.modeLongXy, m.core.sp)) =
        some (false, 0x0101) := by decide +kernel
  obtain ⟨m, hm, hx⟩ := Option.map_eq_some_iff.mp hs
  obtain ⟨hl, hsp⟩ := Prod.mk.inj hx
  have hrun : Run Machine.step (fun _ i => i.Hardware) (powerOn (nes [0x68, 0x40])).2 m :=
    Run.of_runList (by simp [Stimulus.Hardware]) hm
  exact ⟨m, hrun, hl, hsp, confined_of_run _ rfl hrun⟩

end RetroCpu
