import RetroCpu.Wdc65816.Progress
import RetroCpu.Wdc65816.Stack
import RetroCpu.Wdc65816.StatusRegister

/-!
# The interrupt mask

`cpu_state.interrupts` is 0 while I is set and 1 while it is clear, so that the run loop can add
it to the pending interrupts.  No instruction computes with the word: it is written as 0 or as 1,
or copied from a bit, and `maskFits_of_run` says that it is never anything else.
-/

namespace RetroCpu

open WordBytes Machine StateFn

variable {β : Type} [Bus β]

/-! ### The word is 0 or 1 -/

/-- `interrupts` is 0 or 1. -/
def Core.MaskFits (c : Core) : Prop := c.interrupts = 0 ∨ c.interrupts = 1

namespace Core

theorem MaskFits.of_eq {c c' : Core} (h : c.MaskFits) (he : c'.interrupts = c.interrupts) :
    c'.MaskFits := by
  rw [MaskFits, he]
  exact h

theorem interrupts_set (c : Core) (r : Reg) {s : Size} (v : Val s) :
    (c.set r v).interrupts = c.interrupts := by
  cases s <;> cases r <;> rfl

theorem interrupts_onUpdateMode (c : Core) : c.onUpdateMode.interrupts = c.interrupts := by
  rw [onUpdateMode_eq]

theorem maskFits_ite (p : Prop) [Decidable p] {v w : BitVec 32} (hv : v = 0 ∨ v = 1)
    (hw : w = 0 ∨ w = 1) : (if p then v else w) = 0 ∨ (if p then v else w) = 1 := by
  split
  · exact hv
  · exact hw

theorem maskFits_rep {c : Core} (h : c.MaskFits) (flags : Byte) : (c.rep flags).MaskFits := by
  rw [MaskFits, (sameFlags_rep c flags).interrupts]
  exact maskFits_ite _ (Or.inr rfl) h

theorem maskFits_sep {c : Core} (h : c.MaskFits) (flags : Byte) : (c.sep flags).MaskFits := by
  rw [MaskFits, (sameFlags_sep c flags).interrupts]
  exact maskFits_ite _ (Or.inl rfl) h

theorem one_sub_bit : ∀ v : Byte,
    (1 : BitVec 32) - ((v.setWidth 32 >>> 2) &&& 1) = 0 ∨
      (1 : BitVec 32) - ((v.setWidth 32 >>> 2) &&& 1) = 1 := by
  decide +kernel

/-- `SetStatusRegister` copies the word from a bit. -/
theorem maskFits_setStatusRegister (c : Core) (v : Byte) : (c.setStatusRegister v).MaskFits := by
  have h : (c.setStatusRegister v).interrupts = (c.setFlags v).interrupts := by
    simp only [setStatusRegister]
    split
    · exact interrupts_onUpdateMode _
    · rfl
  rw [MaskFits, h]
  exact one_sub_bit v

theorem interrupts_xce (c : Core) : c.xce.interrupts = c.interrupts := by
  rcases c.xce_cases with h | h
  · rw [h]
  · rw [h, interrupts_onUpdateMode]

theorem maskFits_setRegister {c : Core} (h : c.MaskFits) (reg : String) (value : BitVec 64) :
    (c.setRegister reg value).2.MaskFits := by
  have hset : ∀ (r : Reg) (s : Size) (v : Val s), (c.set r v).MaskFits :=
    fun r s v => h.of_eq (c.interrupts_set r v)
  have hsized : ∀ (r : Reg) (long : Bool), (if long then c.set r (s := .u16) (value.setWidth 16)
      else c.set r (s := .u8) (value.setWidth 8)).MaskFits := by
    intro r long
    split
    · exact hset r .u16 _
    · exact hset r .u8 _
  have cases : ∀ {p : Prop} [Decidable p] {t e : Bool × Core},
      t.2.MaskFits → e.2.MaskFits → (if p then t else e).2.MaskFits := by
    intro p _ t e ht he
    split
    · exact ht
    · exact he
  unfold setRegister
  refine cases ?_ (cases (hsized .a _) (cases (hsized .x _) (cases (hsized .y _)
    (cases (hset .a .u16 _) (cases (hset .d .u16 _) (cases ?_
    (cases (maskFits_setStatusRegister c _) (cases ?_ (cases ?_ h)))))))))
  · split
    · exact h.of_eq rfl
    · exact h.of_eq rfl
  · exact h.of_eq rfl
  · exact h.of_eq rfl
  · exact h.of_eq rfl

end Core

/-! ### Instructions -/

def KeepsMask (_ : ℕ) (m m' : Machine β) : Prop := m.core.MaskFits → m'.core.MaskFits

omit [Bus β] in
theorem graded_keepsMask : Graded (KeepsMask (β := β)) where
  refl _ := id
  trans h h' := h' ∘ h
  mono _ h := h

/-- **No change that an instruction makes to the CPU makes the word anything but 0 or 1.** -/
theorem Core.Change.maskFits {f : Footprint} {c c' : Core} (h : Change f c c')
    (hc : c.MaskFits) : c'.MaskFits := by
  induction h with
  | flags h =>
    rw [h]
    exact hc
  | mask c h => exact h
  | set c hr hw v => exact hc.of_eq (c.interrupts_set _ v)
  | stack c h => exact hc
  | programBank c h => exact hc
  | dataBank c hb hw bank => exact hc
  | status c hf v => exact c.maskFits_setStatusRegister v
  | rep c hf flags => exact maskFits_rep hc flags
  | sep c hf flags => exact maskFits_sep hc flags
  | trans _ _ ih ih' => exact ih' (ih hc)

theorem keepsMask_of_course {f : Footprint} {I : Prop} {α : Type} {n : ℕ} {x : Exec β α}
    (h : Within (Course (f.allowance I)) n x) : Within KeepsMask 0 x :=
  fun m => Course.related (R := KeepsMask) (n := n) graded_keepsMask
    (fun _ _ hc hm => Core.Change.maskFits hc hm) (fun _ _ => id) (fun _ _ => id)
    (fun _ _ _ _ => id) (fun _ _ _ => id) (h m)

theorem Op.exec_keepsMask (op : Op) : Within (KeepsMask (β := β)) 0 op.exec := by
  by_cases hx : op = .xce
  · rw [hx]
    exact graded_keepsMask.bind (n := 0)
      (keepsMask_of_course (f := {}) (I := False) (course_addIp 1))
      fun _ m hm => hm.of_eq (Core.interrupts_xce m.core)
  · exact keepsMask_of_course (I := False) (op.course_exec hx)

theorem keepsMask_perform (op : Op) : Within (KeepsMask (β := β)) 0 (perform op) :=
  graded_keepsMask.bind (n := 0) op.exec_keepsMask fun _ _ hm => hm

/-- Every stimulus keeps the word 0 or 1. -/
theorem maskFits_step {i : Stimulus β} {m m' : Machine β} (hm : m.core.MaskFits)
    (h : Machine.step i m = some m') : m'.core.MaskFits := by
  cases i with
  | powerOn | reset =>
    cases h
    exact Or.inl (Core.interrupts_onUpdateMode _)
  | emulateInstruction =>
    obtain ⟨op, -, rfl⟩ := Option.map_eq_some_iff.mp h
    exact keepsMask_perform op _
      (keepsMask_of_course (f := {}) (I := False) course_fetch m hm)
  | interrupt param =>
    cases h
    exact keepsMask_of_course (course_interrupt (f := interruptFootprint) rfl param) m hm
  | loadState inData =>
    cases h
    show (m.loadState inData).2.2.core.MaskFits
    rw [loadState]
    split
    · exact hm
    · have hset := Core.maskFits_setStatusRegister
        { m.core with
          modeEmulation := (SaveData.ofMemory inData).emulation != 0
          modeNative6502 := (SaveData.ofMemory inData).native6502 != 0 }
        (SaveData.ofMemory inData).flags
      exact hset.of_eq (Core.interrupts_onUpdateMode _)
  | setRegister reg value =>
    cases h
    exact Core.maskFits_setRegister hm reg value
  | world bus =>
    cases h
    exact hm

/-- **In every state reached from the constructor `interrupts` is 0 or 1.** -/
theorem maskFits_of_run (storage : Core) (bus : β) {m : Machine β}
    (h : Run Machine.step (fun _ _ => True) (Machine.construct storage bus) m) :
    m.core.MaskFits :=
  Run.invariant (P := fun m => m.core.MaskFits) (Or.inl (Core.interrupts_onUpdateMode _))
    (fun _ _ _ hm _ hs => maskFits_step hm hs) h

/-! ### The abstraction -/

/-- With the interrupt line alone pending, the run loop takes the interrupt while I is clear. -/
theorem Core.MaskFits.irq_iff {c : Core} (h : c.MaskFits) :
    3 ≤ (1 <<< 1 : BitVec 32) + c.interrupts ↔ c.getStatusRegister.getLsbD 2 = false := by
  rw [getLsbD_getStatusRegister c (by decide), flagAt]
  rcases h with h | h
  · rw [h]
    decide
  · rw [h]
    decide

/-- So the run loop calls `Interrupt(0)`, and otherwise emulates an instruction. -/
theorem choose_irq_iff {ε : Type} {P : β → Prop} (dev : Devices ε P) {m : Machine β}
    (h : m.core.MaskFits) (hp : Bus.pendingInterrupts m.bus = 1 <<< 1) :
    (emulatedCpu dev).choose m = .interrupt 0 ↔ m.core.getStatusRegister.getLsbD 2 = false := by
  rw [← h.irq_iff, EmulatedCpu.choose]
  show (if 3 ≤ Bus.pendingInterrupts m.bus + m.core.interrupts then
    Call.interrupt (if Bus.pendingInterrupts m.bus &&& 4 ≠ 0 then 1 else 0) else .emu) =
      .interrupt 0 ↔ _
  rw [hp, if_neg (by decide : ¬(1 <<< 1 : BitVec 32) &&& 4 ≠ 0)]
  split
  · next hle => exact iff_of_true rfl hle
  · next hle => exact iff_of_false Call.noConfusion hle

/-- What the CPU keeps instead of P does what P should. -/
structure StatusAbstracts (m : Machine β) : Prop where
  /-- P after an instruction that writes it. -/
  update : ∀ op p m', m.handler = some op →
    op.statusUpdate m.core.getStatusRegister (op.statusByte (fetch m).2).1 = some p →
    m.emulateInstruction = some m' → m.core.Updates m'.core p
  interrupts : m.core.interrupts = 0 ∨ m.core.interrupts = 1
  irq : 3 ≤ (1 <<< 1 : BitVec 32) + m.core.interrupts ↔
    m.core.getStatusRegister.getLsbD 2 = false

/-- **The words and bits that P is spread over are an abstraction of it, in every reachable
state**: `CLC`, `SEC`, `CLI`, `SEI`, `CLD`, `SED`, `CLV`, `REP`, `SEP`, `PLP` and `RTI` change it
as the architecture says, the width bits read 1 while the emulation bit is set, and the run loop
sees in `interrupts` what bit 2 says. -/
theorem status_abstracts (storage : Core) (bus : β) {m : Machine β}
    (h : Run Machine.step (fun _ _ => True) (Machine.construct storage bus) m) :
    StatusAbstracts m := by
  have hmask : m.core.MaskFits := maskFits_of_run storage bus h
  have hcoherent : m.core.Coherent :=
    Run.invariant (P := fun m => m.core.Coherent) (Core.coherent_onUpdateMode _)
      (fun _ _ _ hm _ hs => coherent_step hm hs) h
  refine ⟨?_, hmask, hmask.irq_iff⟩
  intro op p m' hop hp hm'
  have hfetch : (fetch m).2.core = m.core := rfl
  obtain ⟨op', hop', rfl⟩ := Option.map_eq_some_iff.mp hm'
  obtain rfl : op' = op := Option.some.inj (hop'.symm.trans hop)
  rw [← hfetch] at hp hcoherent ⊢
  exact perform_updates hcoherent hp

/-- A CPU after `PowerOn`, at a `SED`. -/
theorem status_abstracts_powerOn : StatusAbstracts (running [0xF8]) :=
  status_abstracts default _ (.tail .powerOn .refl trivial rfl)

end RetroCpu
