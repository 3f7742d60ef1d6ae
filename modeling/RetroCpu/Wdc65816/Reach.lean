import RetroCpu.Lib.Run
import RetroCpu.Wdc65816.SaveState
import RetroCpu.Wdc65816.Spends

/-!
# Runs of the CPU

`Stimulus` lists what can happen to a CPU object between two instructions: the
calls its owners make, and a change of memory or of a device, which may be
anything.  `Machine.step` gives the state after it.

The lemmas say what a stimulus does to the CPU in the terms of footprints, so
that an invariant of the runs is a property of footprints and of the few
transitions that have none: `XCE`, `Reset` and `SetRegister`.
-/

namespace RetroCpu

open WordBytes Machine StateFn

/-- What can happen to a CPU object. -/
inductive Stimulus (β : Type)
  | powerOn
  | reset
  | emulateInstruction
  | interrupt (param : BitVec 32)
  | loadState (inData : List Byte)
  | setRegister (reg : String) (value : BitVec 64)
  /-- Memory or a device changes. -/
  | world (bus : β)

variable {β : Type} [Bus β]

def Machine.step : Stimulus β → Machine β → Option (Machine β)
  | .powerOn, m => some (powerOn m).2
  | .reset, m => some (reset m).2
  | .emulateInstruction, m => m.emulateInstruction
  | .interrupt param, m => some (interrupt param m).2
  | .loadState inData, m => some (m.loadState inData).2.2
  | .setRegister reg value, m => some (m.setRegister reg value).2
  | .world bus, m => some { m with bus := bus }

/-- A CPU over a simple bus that holds a program, after `PowerOn`. -/
def Machine.running (code : List Byte) : Machine (SystemBus Unit) :=
  (powerOn (construct default (SystemBus.simple 24 (SystemBus.program code)))).2

/-- A console's CPU before `PowerOn`. -/
def Machine.nes (code : List Byte) : Machine (SystemBus Unit) :=
  let m := construct default (SystemBus.simple 24 (SystemBus.program code))
  { m with core := { m.core with modeNative6502 := true } }

/-! ### Instructions -/

theorem InstructionSet.mem_of_at {row : InstructionSet} {opcode : Byte} {op : Op}
    (h : row.at opcode = some op) : some op ∈ row := by
  rw [InstructionSet.at, List.getD_eq_getElem?_getD] at h
  cases he : row[opcode.toNat]? with
  | none =>
    rw [he] at h
    exact absurd h nofun
  | some o =>
    rw [he] at h
    have ho : o = some op := h
    exact ho ▸ List.mem_of_getElem? he

/-- The handler comes from the row of the mode. -/
theorem mem_execOps_of_handler {m : Machine β} (hc : m.core.Coherent) {op : Op}
    (h : m.handler = some op) : some op ∈ execOps m.core.mode := by
  rw [← hc.instructionSet]
  exact InstructionSet.mem_of_at h

/-- A check of every entry of a row holds of the handler. -/
theorem of_handler {m : Machine β} (hc : m.core.Coherent) {p : Op → Bool}
    (hp : (execOps m.core.mode).all (fun o => o.all p) = true) {op : Op}
    (h : m.handler = some op) : p op = true :=
  List.all_eq_true.mp hp _ (mem_execOps_of_handler hc h)

theorem spends_fetch {f : Footprint} : Within (Spends (β := β) f) 1 fetch :=
  spends_of_course course_fetch

theorem spends_perform {op : Op} (hop : op ≠ .xce) :
    Within (Spends (β := β) op.footprint) Op.budget (perform op) :=
  graded_spends.bind (n := 0) (Op.exec_spends op hop) fun _ => spends_of_course course_count

def Core.afterXce (c : Core) : Core :=
  { (c.addIp 1).xce with numEmulatedInstructions := (c.addIp 1).xce.numEmulatedInstructions + 1 }

theorem perform_xce (m : Machine β) :
    (perform .xce (fetch m).2).2 = { (fetch m).2 with core := m.core.afterXce } := rfl

/-- What an instruction does: it stays within its footprint, or it is `XCE`. -/
theorem emulateInstruction_cases {m m' : Machine β} (h : m.emulateInstruction = some m') :
    (∃ op, m.handler = some op ∧ op ≠ .xce ∧ Spends op.footprint (1 + Op.budget) m m') ∨
      (m.handler = some .xce ∧ Advances 1 m m' ∧ m'.core = m.core.afterXce) := by
  obtain ⟨op, hop, rfl⟩ := Option.map_eq_some_iff.mp h
  by_cases hx : op = .xce
  · subst hx
    refine Or.inr ⟨hop, ?_, ?_⟩
    · rw [perform_xce]
      exact (spends_fetch (f := {}) m).toAdvances.trans (Advances.core _ _)
    · rw [perform_xce]
  · exact Or.inl ⟨op, hop, hx, graded_spends.trans (spends_fetch m) (spends_perform hx _)⟩

/-- `XCE` does nothing or flips the emulation bit. -/
theorem Core.xce_cases (c : Core) :
    c.xce = c ∨ c.xce = ({ c with modeEmulation := !c.modeEmulation }).onUpdateMode := by
  rw [xce]
  split
  · exact Or.inl rfl
  · exact Or.inr rfl

theorem Core.modeNative6502_afterXce (c : Core) :
    c.afterXce.modeNative6502 = c.modeNative6502 := by
  have h : (c.addIp 1).xce.modeNative6502 = c.modeNative6502 := by
    rcases (c.addIp 1).xce_cases with h | h
    · rw [h]
      rfl
    · rw [h, onUpdateMode_eq]
      rfl
  exact h

/-! ### Interrupts and resets -/

def interruptFootprint : Footprint := { programBank := .zero }

theorem spends_interrupt (param : BitVec 32) :
    Within (Spends (β := β) interruptFootprint) 6 (interrupt param) :=
  spends_of_course (course_interrupt rfl param)

theorem core_reset (m : Machine β) : ∃ ip, (reset m).2.core = m.core.resetSp.resetMode ip :=
  ⟨_, rfl⟩

theorem bus_reset (m : Machine β) : ∃ t t', (reset m).2.bus =
    (Bus.readByte (Bus.readByte m.bus t 0xFFFC).bus t' 0xFFFD).bus := ⟨_, _, rfl⟩

/-! ### The bus -/

/-- A stimulus that is no change of the world keeps the properties of the bus that accesses
keep. -/
theorem Machine.bus_step {P : β → Prop} (hP : Bus.Invariant P) {i : Stimulus β}
    {m m' : Machine β} (hb : P m.bus) (hworld : ∀ bus, i = .world bus → P bus)
    (h : Machine.step i m = some m') : P m'.bus := by
  have hreset : ∀ m : Machine β, P m.bus → P (reset m).2.bus := by
    intro m hm
    obtain ⟨t, t', hbus⟩ := bus_reset m
    rw [hbus]
    exact hP.read (hP.read hm _ _) _ _
  cases i with
  | powerOn =>
    cases h
    exact hreset _ hb
  | reset =>
    cases h
    exact hreset m hb
  | emulateInstruction =>
    rcases emulateInstruction_cases h with ⟨op, -, -, hs⟩ | ⟨-, hs, -⟩
    · exact hs.bus P hP hb
    · exact hs.bus P hP hb
  | interrupt param =>
    cases h
    exact (spends_interrupt param m).bus P hP hb
  | loadState inData =>
    cases h
    have hbus : (m.loadState inData).2.2.bus = m.bus := by
      unfold loadState
      split <;> rfl
    show P (m.loadState inData).2.2.bus
    rw [hbus]
    exact hb
  | setRegister reg value =>
    cases h
    exact hb
  | world bus =>
    cases h
    exact hworld bus rfl

/-! ### `SetRegister` -/

theorem Footprint.rel_programBank {f : Footprint} {c : Core} (hc : c.Coherent)
    (hf : f.programBank = .full) (ip bank : CpuAddr) :
    f.Rel c { c with ip := ip, codeSegmentBase := bank } := by
  have h : f.Rel c { c with sp := c.sp, codeSegmentBase := bank } :=
    rel_stack hc (fun _ => SpUse.Rel.of_hi rfl) fun _ => by
      rw [hf]
      trivial
  exact h.trans (rel_flags h.coherent _ _ _ _ _ _ _)

/-- A write of A, X or Y in the width in force. -/
theorem Footprint.rel_setSized {c : Core} (hc : c.Coherent) (r : Reg) (long : Bool)
    (v : BitVec 64) : (touch r (if long then .u16 else .u8)).Rel c
      (if long then c.set r (s := .u16) (v.setWidth 16)
        else c.set r (s := .u8) (v.setWidth 8)) := by
  cases long
  · exact rel_set hc (touch_allows r .u8) (by cases r <;> rfl) _
  · exact rel_set hc (touch_allows r .u16) (by cases r <;> rfl) _

/-- What `SetRegister` does to the CPU: it stays within a footprint that leaves the high bytes
of 8-bit index registers and the page of SP alone. -/
def Footprint.OfSetRegister (c c' : Core) : Prop :=
  ∃ f : Footprint, f.Rel c c' ∧ (c.modeLongXy = false → f.x ≠ .full ∧ f.y ≠ .full) ∧ f.sp ≠ .full

theorem rel_setRegister {c : Core} (hc : c.Coherent) (reg : String) (value : BitVec 64) :
    Footprint.OfSetRegister c (c.setRegister reg value).2 := by
  have hlow : ∀ long : Bool, long = false → Level.ofSize (if long then .u16 else .u8) ≠ .full := by
    decide
  have cases : ∀ {p : Prop} [Decidable p] {t e : Bool × Core},
      Footprint.OfSetRegister c t.2 → Footprint.OfSetRegister c e.2 →
        Footprint.OfSetRegister c (if p then t else e).2 := by
    intro p _ t e ht he
    split
    · exact ht
    · exact he
  refine cases ⟨{ programBank := .full }, ?_, fun _ => by decide, by decide⟩
    (cases ?_ (cases ?_ (cases ?_ (cases ?_ (cases ?_ (cases ?_ (cases ?_ (cases ?_
      (cases ?_ ?_)))))))))
  · split
    · exact Footprint.rel_programBank hc rfl _ _
    · exact Footprint.rel_flags hc _ _ _ _ _ _ _
  · exact ⟨_, Footprint.rel_setSized hc .a c.modeLongA value, fun _ => ⟨nofun, nofun⟩, nofun⟩
  · exact ⟨_, Footprint.rel_setSized hc .x c.modeLongXy value,
      fun h => ⟨hlow _ h, nofun⟩, nofun⟩
  · exact ⟨_, Footprint.rel_setSized hc .y c.modeLongXy value,
      fun h => ⟨nofun, hlow _ h⟩, nofun⟩
  · exact ⟨_, Footprint.rel_setSized hc .a true value, fun _ => ⟨nofun, nofun⟩, nofun⟩
  · exact ⟨_, Footprint.rel_setSized hc .d true value, fun _ => ⟨nofun, nofun⟩, nofun⟩
  · refine ⟨{ sp := .page }, ?_, fun _ => by decide, by decide⟩
    refine Footprint.rel_stack hc (fun he => ?_) fun _ => BankUse.Rel.refl _ _
    rw [he, if_pos rfl]
    exact Or.inr (hi_append _ _)
  · exact ⟨{ x := .low, y := .low, widths := true },
      Footprint.rel_setStatusRegister hc ⟨rfl, rfl, rfl⟩ _, fun _ => by decide, by decide⟩
  · exact ⟨{ programBank := .full }, Footprint.rel_programBank hc rfl _ _,
      fun _ => by decide, by decide⟩
  · exact ⟨{ dataBank := true }, Footprint.rel_registers hc (Level.Rel.refl _ _)
      (Level.Rel.refl _ _) (Level.Rel.refl _ _) (fun _ => rfl) nofun rfl,
      fun _ => by decide, by decide⟩
  · exact ⟨{}, Footprint.rel_refl hc, fun _ => by decide, by decide⟩

end RetroCpu
