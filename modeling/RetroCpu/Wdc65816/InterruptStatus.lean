import RetroCpu.Wdc65816.Trace

/-!
# The status byte of an interrupt

In emulation mode `BRK` and the interrupt line share a vector, and the handler looks at bit 4
of the status byte on the stack to tell which of the two it was called for.  `DoInterrupt` sets
that bit for all but `COP`, and clears bit 5 for the interrupt line.
-/

namespace RetroCpu

open Machine StateFn

/-- The status byte `pushed` tells the interrupts apart and is otherwise the status register
`status`. -/
structure InterruptType.StatusFits (type : InterruptType) (status pushed : Byte) : Prop where
  brk : type = .brk → pushed.getLsbD 4 = true
  line : type = .irq ∨ type = .nmi → pushed.getLsbD 4 = false
  unused : pushed.getLsbD 5 = true
  flags : ∀ i < 8, i ≠ 4 → i ≠ 5 → pushed.getLsbD i = status.getLsbD i

variable {β : Type} [Bus β]

/-- The third byte that `DoInterrupt` writes in emulation mode, after the program counter. -/
def Machine.pushedByte (type : InterruptType) (m : Machine β) : Option BusAccess :=
  (doInterrupt type m.traced).2.bus.trace[2]?

def Machine.PushesStatus (type : InterruptType) (m : Machine β) : Prop :=
  ∃ addr pushed, m.pushedByte type = some (.write addr pushed) ∧
    type.StatusFits m.core.getStatusRegister pushed

/-! ### The frame -/

/-- An interrupt in emulation mode writes the program counter and the status byte first. -/
theorem trace_doInterrupt (type : InterruptType) {m : Machine β}
    (he : m.core.modeEmulation = true) : ∃ high low addr rest,
      (doInterrupt type m.traced).2.bus.trace = high :: low ::
        .write addr (type.pushedStatus true m.core.getStatusRegister) :: rest := by
  have hframe : ∃ high low addr, (pushInterruptFrame type m.traced).2.bus.trace =
      [high, low, .write addr (type.pushedStatus true m.core.getStatusRegister)] := by
    have he' : m.traced.core.modeEmulation = true := he
    simp only [pushInterruptFrame, bind_apply, getCore, get_apply, he', Bool.not_true, when_false,
      pure_apply]
    exact ⟨_, _, _, rfl⟩
  obtain ⟨high, low, addr, hframe⟩ := hframe
  have hrest : ∃ rest, (doInterrupt type m.traced).2.bus.trace =
      (pushInterruptFrame type m.traced).2.bus.trace ++ rest := by
    have hext := extends_of_course (f := interruptFootprint)
      (course_enterHandler (β := Traced β) (t := type) rfl fun _ => trivial)
    obtain ⟨rest, hrest⟩ := hext (pushInterruptFrame type m.traced).2
    exact ⟨rest, hrest.symm⟩
  obtain ⟨rest, hrest⟩ := hrest
  rw [hframe] at hrest
  exact ⟨high, low, addr, rest, hrest⟩

/-! ### The byte -/

theorem getLsbD_patched : ∀ (v k : Byte), k &&& 0xCF = 0 → ∀ i < 8,
    ((v &&& 0xCF) ||| k).getLsbD i = if i = 4 ∨ i = 5 then k.getLsbD i else v.getLsbD i := by
  intro v k hk i hi
  have hmask : ∀ i < 8, (0xCF : Byte).getLsbD i = !decide (i = 4 ∨ i = 5) := by decide
  have hbit : (k &&& 0xCF).getLsbD i = false := by
    rw [hk]
    exact BitVec.getLsbD_zero
  rw [BitVec.getLsbD_and, hmask i hi] at hbit
  rw [BitVec.getLsbD_or, BitVec.getLsbD_and, hmask i hi]
  by_cases h : i = 4 ∨ i = 5
  · simp [h]
  · simp [h] at hbit
    simp [h, hbit]

/-- The byte that `DoInterrupt` makes in emulation mode is right for `BRK` and `COP` only. -/
theorem InterruptType.statusFits_iff (type : InterruptType) (status : Byte) :
    type.StatusFits status (type.pushedStatus true status) ↔ type = .brk ∨ type = .cop := by
  have hflags : ∀ k : Byte, k &&& 0xCF = 0 → ∀ i < 8, i ≠ 4 → i ≠ 5 →
      ((status &&& 0xCF) ||| k).getLsbD i = status.getLsbD i := by
    intro k hk i hi h4 h5
    rw [getLsbD_patched status k hk i hi, if_neg (not_or.mpr ⟨h4, h5⟩)]
  have hset : ∀ k : Byte, k &&& 0xCF = 0 → ∀ i, i = 4 ∨ i = 5 →
      ((status &&& 0xCF) ||| k).getLsbD i = k.getLsbD i := by
    intro k hk i hi
    rw [getLsbD_patched status k hk i (by omega), if_pos hi]
  cases type with
  | brk =>
    refine iff_of_true ⟨fun _ => ?_, fun h => ?_, ?_, hflags 0x30 rfl⟩ (Or.inl rfl)
    · exact hset 0x30 rfl 4 (Or.inl rfl)
    · rcases h with h | h <;> cases h
    · exact hset 0x30 rfl 5 (Or.inr rfl)
  | cop =>
    refine iff_of_true ⟨fun h => ?_, fun h => ?_, ?_, hflags 0x20 rfl⟩ (Or.inr rfl)
    · cases h
    · rcases h with h | h <;> cases h
    · exact hset 0x20 rfl 5 (Or.inr rfl)
  | irq =>
    refine iff_of_false (fun h => ?_) (fun h => by rcases h with h | h <;> cases h)
    have h4 := hset 0x10 rfl 4 (Or.inl rfl)
    exact Bool.false_ne_true ((h.line (Or.inl rfl)).symm.trans h4)
  | nmi =>
    refine iff_of_false (fun h => ?_) (fun h => by rcases h with h | h <;> cases h)
    have h4 := hset 0x30 rfl 4 (Or.inl rfl)
    exact Bool.false_ne_true ((h.line (Or.inr rfl)).symm.trans h4)

/-- **The status byte of an interrupt in emulation mode is right for the software interrupts
and for no other.** -/
theorem pushesStatus_iff (type : InterruptType) {m : Machine β}
    (he : m.core.modeEmulation = true) :
    m.PushesStatus type ↔ type = .brk ∨ type = .cop := by
  obtain ⟨high, low, addr, rest, htrace⟩ := trace_doInterrupt type he
  have hbyte : m.pushedByte type =
      some (.write addr (type.pushedStatus true m.core.getStatusRegister)) := by
    rw [pushedByte, htrace]
    rfl
  rw [← type.statusFits_iff m.core.getStatusRegister]
  constructor
  · rintro ⟨addr', pushed, hpushed, hfits⟩
    obtain ⟨-, rfl⟩ := BusAccess.write.inj (Option.some.inj (hbyte.symm.trans hpushed))
    exact hfits
  · intro hfits
    exact ⟨addr, _, hbyte, hfits⟩

theorem pushesStatus_iff_running :
    (running [0xEA]).PushesStatus .brk ↔ InterruptType.brk = .brk ∨ InterruptType.brk = .cop :=
  pushesStatus_iff .brk (by decide +kernel)

/-- The interrupt line looks like `BRK` in bit 4, and bit 5 is clear. -/
theorem irq_looks_like_brk : (running [0xEA]).core.modeEmulation = true ∧
    ((running [0xEA]).pushedByte .irq).map (fun a => (a.data.getLsbD 4, a.data.getLsbD 5)) =
      some (true, false) ∧ ¬(running [0xEA]).PushesStatus .irq := by
  have hbits : ((running [0xEA]).pushedByte .irq).map
      (fun a => (a.data.getLsbD 4, a.data.getLsbD 5)) = some (true, false) := by decide +kernel
  refine ⟨by decide +kernel, hbits, ?_⟩
  rintro ⟨addr, pushed, hpushed, hfits⟩
  rw [hpushed] at hbits
  have h4 : pushed.getLsbD 4 = true := congrArg Prod.fst (Option.some.inj hbits)
  exact Bool.false_ne_true ((hfits.line (Or.inl rfl)).symm.trans h4)

end RetroCpu
