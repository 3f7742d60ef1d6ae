import RetroCpu.Wdc65816.IndexWidth

/-!
# The stack page of emulation mode

In emulation mode the stack should wrap in `0x0100` to `0x01FF`.  Once SP is in
page 1 every operation of the two emulation rows keeps it there, and `Push` writes
to that page only.  Nothing puts it there: `XCE` and `Reset` enter emulation mode
with the SP that native mode left.  `stackPage_of_run` has as its condition that
this SP is in page 1, and `stackPage_fails` is a program that breaks it.
-/

namespace RetroCpu

open WordBytes Machine StateFn

variable {β : Type}

def Core.StackPage (c : Core) : Prop := c.modeEmulation = true → hi c.sp = 1

variable [Bus β]

/-! ### Pushes -/

/-- The bytes, pushed one after another, go to page 1. -/
def Machine.PushesLand : List Byte → Machine β → Prop
  | [], _ => True
  | v :: vs, m =>
    (∃ a : CpuAddr, 0x000100 ≤ a ∧ a ≤ 0x0001FF ∧
      (pushU8 v m).2.bus = (Bus.writeByte m.bus m.cycle a v).bus) ∧
      PushesLand vs (pushU8 v m).2

theorem addr_of_hi {sp : Word} (h : hi sp = 1) :
    0x000100 ≤ sp.setWidth 32 &&& 0xFFFF ∧ sp.setWidth 32 &&& (0xFFFF : CpuAddr) ≤ 0x0001FF := by
  have ht := toNat_hi sp
  have h1 : (1 : Byte).toNat = 1 := rfl
  rw [h, h1] at ht
  rw [setWidth_and_wordMask]
  constructor
  · bv_omega
  · bv_omega

theorem Core.StackPage.pushesLand {m : Machine β} (h : m.core.StackPage)
    (he : m.core.modeEmulation = true) (vs : List Byte) : m.PushesLand vs := by
  induction vs generalizing m with
  | nil => trivial
  | cons v vs ih =>
    obtain ⟨h1, h2⟩ := addr_of_hi (h he)
    refine ⟨⟨_, h1, h2, rfl⟩, ih (fun _ => ?_) he⟩
    show hi m.core.decSp.sp = 1
    rw [Core.decSp, he, if_pos rfl, hi_setLo]
    exact h he

/-! ### The invariant -/

def Machine.EntersEmulation (m : Machine β) (i : Stimulus β) : Prop :=
  m.core.modeEmulation = false ∧ (i = .reset ∨ i = .emulateInstruction ∧
    m.handler = some .xce ∧ m.core.carry &&& 2 ≠ 0)

/-- An operation of the emulation rows leaves SP in its page or puts it in page 1. -/
def Op.keepsPage (mode : Mode) (op : Op) : Bool :=
  (mode != .emulation && mode != .native6502) || op.footprint.sp != .full

theorem keepsPage_execOps (mode : Mode) :
    (execOps mode).all (fun o => o.all (Op.keepsPage mode)) = true := by
  cases mode <;> decide +kernel

theorem Core.Coherent.mode_emulation {c : Core} (hc : c.Coherent) (h : c.modeEmulation = true) :
    c.mode = .emulation ∨ c.mode = .native6502 := by
  rw [hc.mode, if_pos h]
  split
  · exact Or.inr rfl
  · exact Or.inl rfl

theorem SpUse.Rel.hi_eq_one {l : SpUse} (hl : l ≠ .full) {v v' : Word} (h : l.Rel v v')
    (hv : hi v = 1) : hi v' = 1 := by
  cases l
  · exact Eq.trans h hv
  · rcases h with h | h
    · exact h.trans hv
    · exact h
  · exact absurd rfl hl

theorem Footprint.Rel.stackPage {f : Footprint} {c c' : Core} (h : f.Rel c c')
    (hf : c.modeEmulation = true → f.sp ≠ .full) (hp : c.StackPage) : c'.StackPage := by
  intro he'
  have he : c.modeEmulation = true := h.modeEmulation.symm.trans he'
  exact (h.sp he).hi_eq_one (hf he) (hp he)

theorem Core.sp_onUpdateMode (c : Core) : c.onUpdateMode.sp = c.sp := by
  rw [onUpdateMode_eq]

theorem Core.sp_afterXce (c : Core) : c.afterXce.sp = c.sp := by
  have h : (c.addIp 1).xce.sp = c.sp := by
    rcases (c.addIp 1).xce_cases with h | h
    · rw [h]
      rfl
    · rw [h, sp_onUpdateMode]
      rfl
  exact h

/-- `XCE` with the carry clear enters native mode or stays there. -/
theorem Core.modeEmulation_afterXce {c : Core} (hc : c.carry &&& 2 = 0)
    (he : c.modeEmulation = false) : c.afterXce.modeEmulation = false := by
  have h : (c.addIp 1).xce = c.addIp 1 := by
    rw [xce]
    have h2 : ((c.addIp 1).carry &&& 2 != 0) = false := by simpa [addIp] using hc
    rw [h2]
    exact if_pos he.symm
  rw [afterXce, h]
  exact he

theorem stackPage_emulateInstruction {m m' : Machine β} (hm : m.core.Coherent)
    (hp : m.core.StackPage)
    (hen : m.EntersEmulation .emulateInstruction → hi m.core.sp = 1)
    (h : m.emulateInstruction = some m') : m'.core.StackPage := by
  rcases emulateInstruction_cases h with ⟨op, hop, -, hs⟩ | ⟨hop, -, hx⟩
  · refine (hs.core hm).stackPage (fun he => ?_) hp
    have hk := of_handler hm (keepsPage_execOps _) hop
    rcases hm.mode_emulation he with hmode | hmode
    · simpa [Op.keepsPage, hmode] using hk
    · simpa [Op.keepsPage, hmode] using hk
  · intro he'
    rw [hx] at he' ⊢
    rw [Core.sp_afterXce]
    cases he : m.core.modeEmulation with
    | true => exact hp he
    | false =>
      by_cases hc : m.core.carry &&& 2 = 0
      · exact absurd ((Core.modeEmulation_afterXce hc he).symm.trans he') Bool.false_ne_true
      · exact hen ⟨he, Or.inr ⟨rfl, hop, hc⟩⟩

theorem stackPage_reset {m : Machine β} (hp : hi m.core.sp = 1) :
    hi (reset m).2.core.sp = 1 := by
  obtain ⟨ip, h⟩ := core_reset m
  rw [h, Core.resetMode, Core.sp_onUpdateMode]
  show hi m.core.resetSp.sp = 1
  rw [Core.resetSp, hi_setLo]
  exact hp

theorem stackPage_powerOn (m : Machine β) : hi (powerOn m).2.core.sp = 1 := by
  have h1 : hi (0x100 : Word) = 1 := by decide
  exact stackPage_reset (m := { m with core := m.core.powerOn }) h1

theorem stackPage_step {i : Stimulus β} {m m' : Machine β} (hm : m.core.Coherent)
    (hp : m.core.StackPage) (hd : i.Driven) (hen : m.EntersEmulation i → hi m.core.sp = 1)
    (h : Machine.step i m = some m') : m'.core.StackPage := by
  cases i with
  | powerOn =>
    cases h
    exact fun _ => stackPage_powerOn m
  | reset =>
    cases h
    refine fun _ => stackPage_reset ?_
    cases he : m.core.modeEmulation with
    | true => exact hp he
    | false => exact hen ⟨he, Or.inl rfl⟩
  | emulateInstruction => exact stackPage_emulateInstruction hm hp hen h
  | interrupt param =>
    cases h
    exact ((spends_interrupt param m).core hm).stackPage (fun _ => by decide) hp
  | loadState inData => exact absurd hd id
  | setRegister reg value =>
    cases h
    obtain ⟨f, hf, -, hsp⟩ := rel_setRegister hm reg value
    exact hf.stackPage (fun _ => hsp) hp
  | world bus =>
    cases h
    exact hp

/-- **In emulation mode SP is in page 1 and every push lands there**, in every state reached
from `PowerOn` by instructions, interrupts, resets and `SetRegister` in which emulation mode is
entered only while SP is in page 1. -/
theorem stackPage_of_run (start : Machine β) {m : Machine β}
    (h : Run Machine.step
      (fun m i => i.Driven ∧ (m.EntersEmulation i → hi m.core.sp = 1)) (powerOn start).2 m)
    (he : m.core.modeEmulation = true) : hi m.core.sp = 1 ∧ ∀ vs, m.PushesLand vs := by
  have hp := Run.invariant (P := fun m => m.core.Coherent ∧ m.core.StackPage)
    ⟨Core.coherent_onUpdateMode _,
      fun _ => stackPage_powerOn start⟩
    (fun _ _ _ hm hok hs => ⟨coherent_step hm.1 hs, stackPage_step hm.1 hm.2 hok.1 hok.2 hs⟩) h
  exact ⟨hp.2 he, hp.2.pushesLand he⟩

/-- `JSR` after `PowerOn`. -/
theorem stackPage_jsr : ∃ m,
    Machine.step .emulateInstruction (running [0x20, 0x00, 0x02]) = some m ∧
      m.core.sp = 0x01FB ∧ hi m.core.sp = 1 ∧ ∀ vs, m.PushesLand vs := by
  have hs : ((running [0x20, 0x00, 0x02]).emulateInstruction.map
      fun m => (m.core.sp, m.core.modeEmulation)) = some (0x01FB, true) := by decide +kernel
  obtain ⟨m, hm, hx⟩ := Option.map_eq_some_iff.mp hs
  obtain ⟨hsp, he⟩ := Prod.mk.inj hx
  exact ⟨m, hm, hsp, stackPage_of_run _ (.tail .emulateInstruction .refl
    ⟨trivial, fun h => absurd h.1 (by decide +kernel)⟩ hm) he⟩

/-- `CLC`, `XCE`, `TCS`, `SEC`, `XCE`: SP is 0 in emulation mode. -/
theorem stackPage_fails : ∃ m, Run Machine.step (fun _ i => i.Driven)
    (running [0x18, 0xFB, 0x1B, 0x38, 0xFB]) m ∧ m.core.modeEmulation = true ∧
      hi m.core.sp ≠ 1 := by
  have hs : (runList Machine.step (List.replicate 5 .emulateInstruction)
      (running [0x18, 0xFB, 0x1B, 0x38, 0xFB])).map (fun m => (m.core.modeEmulation, m.core.sp)) =
        some (true, 0) := by decide +kernel
  obtain ⟨m, hm, hx⟩ := Option.map_eq_some_iff.mp hs
  obtain ⟨he, hsp⟩ := Prod.mk.inj hx
  refine ⟨m, Run.of_runList (by simp [Stimulus.Driven]) hm, he, ?_⟩
  rw [hsp]
  decide

end RetroCpu
