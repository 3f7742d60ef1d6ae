import RetroCpu.Wdc65816.Reach

/-!
# The dispatch mode is always coherent

Seven places change the width or emulation bits.  Each ends in `OnUpdateMode`, or
skips it because nothing has changed, so the opcode row in use is that of the
bits in every state a CPU object can come to: from the constructor, by any calls
and with any memory, and after loading any bytes.
-/

namespace RetroCpu

open WordBytes Machine StateFn

variable {β : Type}

namespace Core

theorem coherent_xce {c : Core} (hc : c.Coherent) : c.xce.Coherent := by
  rcases c.xce_cases with h | h
  · rw [h]
    exact hc
  · rw [h]
    exact coherent_onUpdateMode _

theorem coherent_afterXce {c : Core} (hc : c.Coherent) : c.afterXce.Coherent :=
  have h : (c.addIp 1).xce.Coherent :=
    coherent_xce ⟨hc.native6502, hc.emulation, hc.mode, hc.instructionSet⟩
  ⟨h.native6502, h.emulation, h.mode, h.instructionSet⟩

theorem coherent_loadRegisters {c : Core} (hc : c.Coherent) (s : SaveData) :
    (c.loadRegisters s).Coherent :=
  ⟨hc.native6502, hc.emulation, hc.mode, hc.instructionSet⟩

end Core

theorem coherent_loadState {m : Machine β} (hm : m.core.Coherent) (inData : List Byte) :
    (m.loadState inData).2.2.core.Coherent := by
  rw [loadState]
  split
  · exact hm
  · exact Core.coherent_loadRegisters (Core.coherent_onUpdateMode _) _

variable [Bus β]

theorem coherent_emulateInstruction {m m' : Machine β} (hm : m.core.Coherent)
    (h : m.emulateInstruction = some m') : m'.core.Coherent := by
  rcases emulateInstruction_cases h with ⟨op, -, -, hs⟩ | ⟨-, -, hx⟩
  · exact (hs.core hm).coherent
  · rw [hx]
    exact Core.coherent_afterXce hm

/-- Every stimulus keeps the modes coherent. -/
theorem coherent_step {i : Stimulus β} {m m' : Machine β} (hm : m.core.Coherent)
    (h : Machine.step i m = some m') : m'.core.Coherent := by
  cases i with
  | powerOn =>
    cases h
    exact Core.coherent_onUpdateMode _
  | reset =>
    cases h
    exact Core.coherent_onUpdateMode _
  | emulateInstruction => exact coherent_emulateInstruction hm h
  | interrupt param =>
    cases h
    exact ((spends_interrupt param m).core hm).coherent
  | loadState inData =>
    cases h
    exact coherent_loadState hm inData
  | setRegister reg value =>
    cases h
    obtain ⟨f, hf, -, -⟩ := rel_setRegister hm reg value
    exact hf.coherent
  | world bus =>
    cases h
    exact hm

/-- **In every state reached from the constructor the mode and the opcode row in use are those
of the emulation and width bits.**  What the storage of the object held before does not matter. -/
theorem coherent_of_run (storage : Core) (bus : β) {m : Machine β}
    (h : Run Machine.step (fun _ _ => True) (Machine.construct storage bus) m) :
    m.core.Coherent :=
  Run.invariant (P := fun m => m.core.Coherent) (Core.coherent_onUpdateMode _)
    (fun _ _ _ hm _ hs => coherent_step hm hs) h

/-- `CLC`, `XCE` and `REP #$30` after `PowerOn`: the wide row of native mode. -/
theorem coherent_rep : ∃ m : Machine (SystemBus Unit),
    m.core.mode = .native16A16XY ∧ m.core.modeEmulation = false ∧ m.core.Coherent := by
  have hs : (runList Machine.step
      [.powerOn, .emulateInstruction, .emulateInstruction, .emulateInstruction]
      (construct default (SystemBus.simple 24 (SystemBus.program [0x18, 0xFB, 0xC2, 0x30])))).map
        (fun m => (m.core.mode, m.core.modeEmulation)) = some (.native16A16XY, false) := by
    decide +kernel
  obtain ⟨m, hm, hmode⟩ := Option.map_eq_some_iff.mp hs
  obtain ⟨hmode, he⟩ := Prod.mk.inj hmode
  exact ⟨m, hmode, he, coherent_of_run default _ (Run.of_runList (by simp) hm)⟩

theorem Core.Coherent.setIp {c : Core} (hc : c.Coherent) (ip : CpuAddr) :
    ({ c with ip := ip }).Coherent :=
  ⟨hc.native6502, hc.emulation, hc.mode, hc.instructionSet⟩

theorem Core.Coherent.decSp {c : Core} (hc : c.Coherent) : c.decSp.Coherent :=
  ⟨hc.native6502, hc.emulation, hc.mode, hc.instructionSet⟩

theorem Core.Coherent.incSp {c : Core} (hc : c.Coherent) : c.incSp.Coherent :=
  ⟨hc.native6502, hc.emulation, hc.mode, hc.instructionSet⟩

end RetroCpu
