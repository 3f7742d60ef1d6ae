import RetroCpu.Wdc65816.Arithmetic
import RetroCpu.Wdc65816.Coherence

/-!
# Switching between emulation and native mode

`XCE` should exchange the carry and the emulation flag, so that a program can read the old
mode back from the carry.  It sets the mode to the carry and does not write the carry:
`xce_exchange_iff` says that this is an exchange only where nothing is exchanged.
-/

namespace RetroCpu

open WordBytes Machine

namespace Core

/-! ### The registers after `XCE` -/

theorem xce_of_eq {c : Core} (h : c.isCarry = c.modeEmulation) : c.xce = c := if_pos h

theorem xce_of_ne {c : Core} (h : c.isCarry ≠ c.modeEmulation) :
    c.xce = ({ c with modeEmulation := !c.modeEmulation }).onUpdateMode := if_neg h

/-- `XCE` takes the emulation flag from the carry. -/
theorem modeEmulation_xce {c : Core} (h6 : c.modeNative6502 = false) :
    c.xce.modeEmulation = c.isCarry := by
  by_cases h : c.isCarry = c.modeEmulation
  · rw [xce_of_eq h]
    exact h.symm
  · rw [xce_of_ne h, onUpdateMode_eq]
    show (c.modeNative6502 || !c.modeEmulation) = c.isCarry
    rw [h6, Bool.false_or]
    exact (Bool.eq_not_of_ne h).symm

/-- `XCE` writes the modes and what depends on the widths, and nothing else. -/
theorem xce_frame (c : Core) : c.xce = { c with
    modeEmulation := c.xce.modeEmulation
    modeLongA := c.xce.modeLongA
    modeLongXy := c.xce.modeLongXy
    mode := c.xce.mode
    currentInstructionSet := c.xce.currentInstructionSet
    x := c.xce.x
    y := c.xce.y } := by
  rcases c.xce_cases with h | h
  · rw [h]
  · rw [h, onUpdateMode_eq]

theorem lo_onUpdateMode (c : Core) :
    lo c.onUpdateMode.x = lo c.x ∧ lo c.onUpdateMode.y = lo c.y := by
  cases h6 : c.modeNative6502 <;> cases he : c.modeEmulation <;> cases hx : c.modeLongXy <;>
    simp [onUpdateMode, h6, he, hx]

theorem lo_xce (c : Core) : lo c.xce.x = lo c.x ∧ lo c.xce.y = lo c.y := by
  rcases c.xce_cases with h | h
  · rw [h]
    exact ⟨rfl, rfl⟩
  · rw [h]
    exact lo_onUpdateMode _

/-- Where `XCE` changes the mode, either way, the registers are 8 bits wide afterwards. -/
theorem widths_xce {c : Core} (hc : c.Coherent) (h : c.xce.modeEmulation ≠ c.modeEmulation) :
    c.xce.modeLongA = false ∧ c.xce.modeLongXy = false ∧ hi c.xce.x = 0 ∧ hi c.xce.y = 0 := by
  have hswitch : c.xce = ({ c with modeEmulation := !c.modeEmulation }).onUpdateMode := by
    rcases c.xce_cases with hsame | hswitch
    · exact absurd (congrArg Core.modeEmulation hsame) h
    · exact hswitch
  have hxy : c.xce.modeLongXy = false := by
    rw [hswitch, onUpdateMode_eq]
    cases he : c.modeEmulation
    · simp
    · simp [(hc.emulation he).2]
  have ha : c.xce.modeLongA = false := by
    rw [hswitch, onUpdateMode_eq]
    cases he : c.modeEmulation
    · simp
    · simp [(hc.emulation he).1]
  have hfits : c.xce.IndexFits := by
    rw [hswitch]
    exact indexFits_onUpdateMode _
  exact ⟨ha, hxy, hfits hxy⟩

end Core

variable {β : Type} [Bus β]

/-- `m'` is `m` after the carry and the emulation flag have changed places. -/
structure XceExchange (m m' : Machine β) : Prop where
  emulation : m'.core.modeEmulation = m.core.isCarry
  carry : m'.core.isCarry = m.core.modeEmulation
  twice : ∀ m'', m'.handler = some .xce → m'.emulateInstruction = some m'' →
    m''.core.modeEmulation = m.core.modeEmulation ∧ m''.core.isCarry = m.core.isCarry
  entering : m.core.modeEmulation = false → m'.core.modeEmulation = true →
    m'.core.modeLongA = false ∧ m'.core.modeLongXy = false ∧ hi m'.core.x = 0 ∧ hi m'.core.y = 0
  leaving : m.core.modeEmulation = true → m'.core.modeEmulation = false →
    m'.core.modeLongA = false ∧ m'.core.modeLongXy = false
  low : lo m'.core.x = lo m.core.x ∧ lo m'.core.y = lo m.core.y
  bus : m'.bus = (Bus.readByte m.bus m.cycle m.core.getCanonicalAddress).bus
  frame : m'.core = { m.core with
    modeEmulation := m'.core.modeEmulation
    carry := m'.core.carry
    modeLongA := m'.core.modeLongA
    modeLongXy := m'.core.modeLongXy
    mode := m'.core.mode
    currentInstructionSet := m'.core.currentInstructionSet
    x := m'.core.x
    y := m'.core.y
    ip := m.core.ip + 1
    numEmulatedInstructions := m.core.numEmulatedInstructions + 1 }

/-! ### The instruction -/

theorem emulateInstruction_xce {m m' : Machine β} (hop : m.handler = some .xce)
    (h : m.emulateInstruction = some m') :
    m' = { (fetch m).2 with core := m.core.afterXce } := by
  obtain ⟨op, hhandler, hperform⟩ := Option.map_eq_some_iff.mp h
  obtain rfl : op = .xce := Option.some.inj (hhandler.symm.trans hop)
  rw [← hperform, perform_xce]

/-- `XCE` does not write the carry. -/
theorem Core.isCarry_afterXce (c : Core) : c.afterXce.isCarry = c.isCarry := by
  show (c.addIp 1).xce.isCarry = c.isCarry
  rw [xce_frame]
  rfl

theorem Core.modeEmulation_afterXce_eq {c : Core} (h6 : c.modeNative6502 = false) :
    c.afterXce.modeEmulation = c.isCarry :=
  modeEmulation_xce (c := c.addIp 1) h6

/-- **`XCE` exchanges the carry and the emulation flag only if they are equal**, in every
reachable state of a CPU that is not a 6502.  It goes to the mode that the carry asks for and
leaves the carry as it is. -/
theorem xce_exchange_iff (storage : Core) (bus : β) {m m' : Machine β}
    (hrun : Run Machine.step (fun _ _ => True) (Machine.construct storage bus) m)
    (h6 : m.core.modeNative6502 = false) (hop : m.handler = some .xce)
    (h : m.emulateInstruction = some m') :
    XceExchange m m' ↔ m.core.isCarry = m.core.modeEmulation := by
  have hm : m.core.Coherent :=
    Run.invariant (P := fun m => m.core.Coherent) (Core.coherent_onUpdateMode _)
      (fun _ _ _ hm _ hs => coherent_step hm hs) hrun
  have hc : (m.core.addIp 1).Coherent := hm.setIp _
  have hm' := emulateInstruction_xce hop h
  have hcore : m'.core = m.core.afterXce := by rw [hm']
  have hcarry : m'.core.isCarry = m.core.isCarry := by rw [hcore, Core.isCarry_afterXce]
  have hemulation : m'.core.modeEmulation = m.core.isCarry := by
    rw [hcore, Core.modeEmulation_afterXce_eq h6]
  constructor
  · intro hexchange
    exact hcarry.symm.trans hexchange.carry
  · intro heq
    have h6' : m'.core.modeNative6502 = false := by
      rw [hcore, Core.modeNative6502_afterXce, h6]
    refine ⟨hemulation, hcarry.trans heq, ?_, ?_, ?_, ?_, ?_, ?_⟩
    · intro m'' hop' h'
      have hcore' : m''.core = m'.core.afterXce := by rw [emulateInstruction_xce hop' h']
      rw [hcore', Core.modeEmulation_afterXce_eq h6', Core.isCarry_afterXce, hcarry]
      exact ⟨heq, rfl⟩
    · intro he he'
      rw [hcore] at he' ⊢
      exact Core.widths_xce hc fun hsame =>
        Bool.false_ne_true (he.symm.trans (hsame.symm.trans he'))
    · intro he he'
      rw [hcore] at he' ⊢
      have hwidths := Core.widths_xce hc fun hsame =>
        Bool.false_ne_true (he'.symm.trans (hsame.trans he))
      exact ⟨hwidths.1, hwidths.2.1⟩
    · rw [hcore]
      exact Core.lo_xce (m.core.addIp 1)
    · rw [hm']
      rfl
    · rw [hcore, Core.afterXce, Core.xce_frame]
      rfl

/-- The CPU after `PowerOn` at an `XCE`, with the carry clear. -/
theorem xce_exchange_iff_powerOn : ∃ m', (running [0xFB]).emulateInstruction = some m' ∧
    (XceExchange (running [0xFB]) m' ↔
      (running [0xFB]).core.isCarry = (running [0xFB]).core.modeEmulation) := by
  have hop : (running [0xFB]).handler = some .xce := by decide +kernel
  have hs : (running [0xFB]).emulateInstruction.isSome = true := by
    rw [emulateInstruction, hop]
    rfl
  obtain ⟨m', hm'⟩ := Option.isSome_iff_exists.mp hs
  exact ⟨m', hm', xce_exchange_iff default (SystemBus.simple 24 (SystemBus.program [0xFB]))
    (.tail .powerOn .refl trivial rfl) (by decide +kernel) hop hm'⟩

/-- A boot program that enters native mode cannot read from the carry that it was in emulation
mode. -/
theorem xce_keeps_carry : (running [0xFB]).core.modeNative6502 = false ∧
    (running [0xFB]).handler = some .xce ∧ ∃ m',
      (running [0xFB]).emulateInstruction = some m' ∧ (running [0xFB]).core.modeEmulation = true ∧
        m'.core.modeEmulation = false ∧ m'.core.isCarry = false ∧
        ¬XceExchange (running [0xFB]) m' := by
  have hs : (running [0xFB]).emulateInstruction.map
      (fun m => (m.core.modeEmulation, m.core.isCarry)) = some (false, false) := by
    decide +kernel
  have he : (running [0xFB]).core.modeEmulation = true := by decide +kernel
  obtain ⟨m', hm', hflags⟩ := Option.map_eq_some_iff.mp hs
  obtain ⟨hemulation, hcarry⟩ := Prod.mk.inj hflags
  refine ⟨by decide +kernel, by decide +kernel, m', hm', he, hemulation, hcarry, ?_⟩
  intro hexchange
  exact Bool.false_ne_true (hcarry.symm.trans (hexchange.carry.trans he))

end RetroCpu
