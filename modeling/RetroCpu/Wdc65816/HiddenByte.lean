import RetroCpu.Wdc65816.Coherence

/-!
# The high byte of an 8-bit accumulator

While `mode_long_a` is clear, the high byte of A is the hidden accumulator B.  An operation
is `Narrow` if its footprint lets it write A in 8 bits at most, and `exec_keepsHigh` says
that such an operation keeps B.  What is left is to look at the
entries of the four opcode rows for 8-bit accumulators: all are narrow but `XBA`, the
transfers of D and SP to A, and the block moves.
-/

namespace RetroCpu

open WordBytes Machine StateFn

variable {β : Type}

def KeepsHigh (_ : ℕ) (m m' : Machine β) : Prop := hi m'.core.a = hi m.core.a

theorem graded_keepsHigh : Graded (KeepsHigh (β := β)) where
  refl _ := rfl
  trans h h' := Eq.trans h' h
  mono _ h := h

/-- **A change of the CPU keeps the high byte of A if the footprint lets A be written in 8 bits at
most.** -/
theorem Core.Change.hi_a {f : Footprint} (hf : f.a ≠ .full) {c c' : Core} (h : Change f c c') :
    hi c'.a = hi c.a := by
  have hkeep (c : Core) : hi c.onUpdateMode.a = hi c.a := by rw [onUpdateMode_eq]
  induction h with
  | flags h => rw [h]
  | mask c h => rfl
  | @set c r s hr hw v =>
    cases r with
    | a =>
      cases s with
      | u8 => exact hi_setLo _ _
      | u16 =>
        have hall : f.a.allows .u16 = true := hr
        cases ha : f.a with
        | full => exact absurd ha hf
        | keep | low =>
          rw [ha] at hall
          exact absurd hall (by decide)
    | x | y | d | sp => cases s <;> rfl
  | stack c h => rfl
  | programBank c h => rfl
  | dataBank c hb hw bank => rfl
  | status c hf v =>
    simp only [setStatusRegister]
    split
    · exact hkeep _
    · rfl
  | rep c hf flags =>
    simp only [Core.rep]
    split
    · split <;> split <;> exact hkeep _
    · rfl
  | sep c hf flags =>
    simp only [Core.sep]
    split
    · split <;> split <;> exact hkeep _
    · rfl
  | trans _ _ ih ih' => exact ih'.trans ih

variable [Bus β]

theorem keepsHigh_of_course {f : Footprint} (hf : f.a ≠ .full) {I : Prop} {α : Type} {n : ℕ}
    {x : Exec β α} (h : Within (Course (f.allowance I)) n x) : Within KeepsHigh 0 x :=
  fun m => Course.related (R := KeepsHigh) (n := n) graded_keepsHigh
    (fun _ _ hc => Core.Change.hi_a hf hc) (fun _ _ => rfl) (fun _ _ => rfl)
    (fun _ _ _ _ => rfl) (fun _ _ _ => rfl) (h m)

namespace Op

/-- The operation writes A in 8 bits at most. -/
def Narrow (op : Op) : Bool := op.footprint.a ≠ .full

/-- **A narrow operation keeps the high byte of A.** -/
theorem exec_keepsHigh (op : Op) (h : op.Narrow = true) :
    Within (KeepsHigh (β := β)) 0 op.exec := by
  by_cases hx : op = .xce
  · rw [hx]
    refine graded_keepsHigh.bind (n := 0)
      (keepsHigh_of_course (f := {}) Level.noConfusion (I := False) (course_addIp 1)) fun _ m => ?_
    show hi m.core.xce.a = hi m.core.a
    rcases m.core.xce_cases with h | h
    · rw [h]
    · rw [h, Core.onUpdateMode_eq]
  · exact keepsHigh_of_course (of_decide_eq_true h) (I := False) (op.course_exec hx)

/-- The instructions that move B: `XBA`, the 16-bit transfers to A, and the block moves. -/
def movesB : List Op := [xba, tdc .u8 .u8, tsc .u8 .u8, mvn, mvp]

/-- **In a row for an 8-bit A every entry is narrow but those that move B.** -/
theorem narrow_row {mode : Mode} (h : mode.sizeA = .u8) :
    (execOps mode).all (fun o => o.all fun op => op.Narrow || op ∈ movesB) = true := by
  cases mode with
  | native8A8XY | native8A16XY | emulation | native6502 => decide +kernel
  | native16A8XY | native16A16XY => exact absurd h nofun

end Op

/-- The row in use is one for an 8-bit A while `mode_long_a` is clear. -/
theorem Core.Coherent.sizeA_mode {c : Core} (hc : c.Coherent) (hl : c.modeLongA = false) :
    c.mode.sizeA = .u8 := by
  rw [hc.mode, hl]
  split
  · rfl
  · split
    · rfl
    · cases c.modeLongXy <;> rfl

theorem keepsHigh_perform {op : Op} (hn : op.Narrow = true) :
    Within (KeepsHigh (β := β)) 0 (perform op) :=
  graded_keepsHigh.bind (n := 0) (Op.exec_keepsHigh op hn) fun _ _ => rfl

theorem keepsHigh_emulateInstruction {m m' : Machine β} (hc : m.core.Coherent)
    (hl : m.core.modeLongA = false) {op : Op} (hop : m.handler = some op) (hb : op ∉ Op.movesB)
    (h : m.emulateInstruction = some m') : hi m'.core.a = hi m.core.a := by
  have hn : op.Narrow = true := by
    have hrow := of_handler hc (Op.narrow_row (hc.sizeA_mode hl)) hop
    rcases (Bool.or_eq_true _ _).mp hrow with hn | hn
    · exact hn
    · exact absurd (of_decide_eq_true hn) hb
  obtain ⟨op', hop', rfl⟩ := Option.map_eq_some_iff.mp h
  obtain rfl : op' = op := Option.some.inj (hop'.symm.trans hop)
  exact keepsHigh_perform hn (fetch m).2

/-- **While `mode_long_a` is clear, B is changed by the instructions that move it and by no
other**, in every state reached from `PowerOn`: `RTI` and the entry of an interrupt keep it
too. -/
theorem hi_a_of_run (start : Machine β) {m : Machine β}
    (h : Run Machine.step (fun _ _ => True) (powerOn start).2 m)
    (hl : m.core.modeLongA = false) :
    (∀ op m', m.handler = some op → op ∉ Op.movesB → m.emulateInstruction = some m' →
      hi m'.core.a = hi m.core.a) ∧
    (∀ param, hi (interrupt param m).2.core.a = hi m.core.a) ∧
    hi (perform .rti m).2.core.a = hi m.core.a := by
  have hc : m.core.Coherent :=
    Run.invariant (P := fun m => m.core.Coherent) (Core.coherent_onUpdateMode _)
      (fun _ _ _ hm _ hs => coherent_step hm hs) h
  refine ⟨fun op m' hop hb he => ?_, fun param => ?_, ?_⟩
  · exact keepsHigh_emulateInstruction hc hl hop hb he
  · exact keepsHigh_of_course (f := interruptFootprint) Level.noConfusion
      (course_interrupt rfl param) m
  · exact keepsHigh_perform rfl m

/-- `LDA #$12`, `XBA`, and an `LDA #$34` that keeps the byte exchanged. -/
theorem hi_a_lda : ∃ m m', Run Machine.step (fun _ _ => True)
    (powerOn (running [0xA9, 0x12, 0xEB, 0xA9, 0x34])).2 m ∧
      m.emulateInstruction = some m' ∧ lo m'.core.a = 0x34 ∧ hi m'.core.a = 0x12 := by
  have hs : (runList Machine.step [.emulateInstruction, .emulateInstruction]
      (powerOn (running [0xA9, 0x12, 0xEB, 0xA9, 0x34])).2).map (fun m => (m.handler,
        m.core.modeLongA, hi m.core.a, m.emulateInstruction.map fun m' => lo m'.core.a)) =
      some (some (.lda (addrImm .u8 .u8 .u8)), false, 0x12, some 0x34) := by decide +kernel
  obtain ⟨m, hm, hx⟩ := Option.map_eq_some_iff.mp hs
  obtain ⟨hop, hx⟩ := Prod.mk.inj hx
  obtain ⟨hl, hx⟩ := Prod.mk.inj hx
  obtain ⟨hb, hx⟩ := Prod.mk.inj hx
  obtain ⟨m', hm', hlo⟩ := Option.map_eq_some_iff.mp hx
  have hrun : Run Machine.step (fun _ _ => True)
      (powerOn (running [0xA9, 0x12, 0xEB, 0xA9, 0x34])).2 m := Run.of_runList (by simp) hm
  exact ⟨m, m', hrun, hm', hlo,
    ((hi_a_of_run _ hrun hl).1 _ m' hop (by decide) hm').trans hb⟩

end RetroCpu
