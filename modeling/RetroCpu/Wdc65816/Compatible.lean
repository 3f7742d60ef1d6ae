import RetroCpu.Wdc65816.Bisimulation

/-!
# The 65816 as a 6502

The same object is a 6502 when `mode_native_6502` is set, with a row of opcodes of its own, and a
65816 otherwise, which starts in emulation mode.  `runs_as_6502` says what that mode is worth: a
program, with all that happens to it, that keeps to what the two have in common runs alike on both,
cycle by cycle.

What they do not have in common: the opcodes where the two rows differ, but for `JMP ($xxxx)`
through a pointer that does not cross a page; an interrupt or a `BRK` with the decimal flag set,
which the 6502 keeps in the handler; and the registers that only the 65816 has.
-/

namespace RetroCpu

open WordBytes Machine StateFn

/-- A machine that sees no difference between the two CPUs. -/
abbrev Machine.SameAs6502 {β : Type} [Bus β] : Machine β → Machine β → Prop :=
  Machine.Alike (Accord.refl β) True

instance {β : Type} [Bus β] (m : Machine β) : Decidable m.PortableInstruction :=
  inferInstanceAs (Decidable (_ ∨ _))

variable {β : Type} [Bus β]

/-- **A 65816 in emulation mode runs as a 6502**, whatever happens to both, as long as it is
something that both have. -/
theorem runs_as_6502 (storage : Core) (bus : β) (o : CpuSettings) {is : List (Stimulus β)}
    (his : Admissible Machine.step Machine.Portable is
      (switchedOn storage bus { o with modeNative6502 := true })) :
    Option.Rel Machine.SameAs6502
      (runList Machine.step is (switchedOn storage bus { o with modeNative6502 := true }))
      (runList Machine.step is (switchedOn storage bus { o with modeNative6502 := false })) := by
  have hon : (switchedOn storage bus { o with modeNative6502 := true }).SameAs6502
      (switchedOn storage bus { o with modeNative6502 := false }) :=
    alike_switchedOn storage ⟨rfl, rfl⟩ (fun h => absurd trivial h) rfl rfl rfl
  refine runList_rel (fun i m m' h hp => ?_) is hon his
  refine alike_step i h ?_ (fun hr _ => ⟨rfl, hr.2⟩) (fun _ _ => ⟨h.bus.1, rfl⟩) fun _ => hp
  -- a register that both have is no bank register
  cases i with
  | setRegister reg value =>
    have hreg : Core.wideRegister reg = false := hp
    simp only [Core.wideRegister, Bool.or_eq_false_iff] at hreg
    rintro (h | h)
    · exact absurd (hreg.1.2.symm.trans h) Bool.false_ne_true
    · exact absurd (hreg.2.symm.trans h) Bool.false_ne_true
  | _ => trivial

/-- `LDA #5`, and then a power cycle. -/
theorem runs_as_6502_lda : Option.Rel Machine.SameAs6502
    (runList Machine.step [.emulateInstruction, .powerOn] (switchedOn default
      (SystemBus.simple 24 (SystemBus.program [0xA9, 5])) { modeNative6502 := true }))
    (runList Machine.step [.emulateInstruction, .powerOn] (switchedOn default
      (SystemBus.simple 24 (SystemBus.program [0xA9, 5])) {})) := by
  have hlda : (switchedOn default (SystemBus.simple 24 (SystemBus.program [0xA9, 5]))
      { modeNative6502 := true }).PortableInstruction := by
    decide +kernel
  exact runs_as_6502 default _ {} ⟨hlda, fun _ _ => ⟨trivial, fun _ _ => trivial⟩⟩

end RetroCpu
