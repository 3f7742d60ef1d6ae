import RetroCpu.Wdc65816.Cpu

/-!
# What an instruction may touch

`Op.footprint` says, from the operation and its template arguments alone, how far
an instruction may change each register, and `Footprint.Rel` reads that as a
relation between the state before and after.  What follows about the opcode tables
is a matter of looking at the footprints of their entries.

`XCE` is left out: it alone changes the emulation bit.
-/

namespace RetroCpu

open WordBytes Machine StateFn

/-- How far a register may change. -/
inductive Level
  | keep
  /-- The high byte is kept or cleared. -/
  | low
  | full
  deriving DecidableEq

namespace Level

def Rel : Level → Word → Word → Prop
  | keep, v, v' => v' = v
  | low, v, v' => hi v' = hi v ∨ hi v' = 0
  | full, _, _ => True

def ofSize : Size → Level
  | .u8 => low
  | .u16 => full

def allows : Level → Size → Bool
  | full, _ => true
  | low, .u8 => true
  | _, _ => false

theorem allows_ofSize (s : Size) : (ofSize s).allows s = true := by cases s <;> rfl

theorem ofSize_allows_u8 (s : Size) : (ofSize s).allows .u8 = true := by cases s <;> rfl

theorem Rel.refl (l : Level) (v : Word) : l.Rel v v := by
  cases l
  · rfl
  · exact Or.inl rfl
  · trivial

theorem Rel.trans {l : Level} {v v' v'' : Word} (h : l.Rel v v') (h' : l.Rel v' v'') :
    l.Rel v v'' := by
  cases l
  · exact Eq.trans h' h
  · rcases h' with h' | h'
    · rcases h with h | h
      · exact Or.inl (h'.trans h)
      · exact Or.inr (h'.trans h)
    · exact Or.inr h'
  · trivial

theorem rel_setLo {l : Level} (h : l.allows .u8 = true) (v : Word) (b : Byte) :
    l.Rel v (setLo v b) := by
  cases l
  · exact absurd h (by decide)
  · exact Or.inl (hi_setLo v b)
  · trivial

theorem rel_any {l : Level} (h : l.allows .u16 = true) (v v' : Word) : l.Rel v v' := by
  cases l
  · exact absurd h (by decide)
  · exact absurd h (by decide)
  · trivial

end Level

/-- How far SP may change in emulation mode. -/
inductive SpUse
  /-- It stays in its page. -/
  | within
  /-- It stays in its page or goes to page 1. -/
  | page
  | full
  deriving DecidableEq

def SpUse.Rel : SpUse → Word → Word → Prop
  | within, v, v' => hi v' = hi v
  | page, v, v' => hi v' = hi v ∨ hi v' = 1
  | full, _, _ => True

theorem SpUse.Rel.of_hi {l : SpUse} {v v' : Word} (h : hi v' = hi v) : l.Rel v v' := by
  cases l
  · exact h
  · exact Or.inl h
  · trivial

theorem SpUse.Rel.trans {l : SpUse} {v v' v'' : Word} (h : l.Rel v v') (h' : l.Rel v' v'') :
    l.Rel v v'' := by
  cases l
  · exact Eq.trans h' h
  · rcases h' with h' | h'
    · rcases h with h | h
      · exact Or.inl (h'.trans h)
      · exact Or.inr (h'.trans h)
    · exact Or.inr h'
  · trivial

/-- How far the program bank may change in emulation mode. -/
inductive BankUse
  | keep
  | zero
  | full
  deriving DecidableEq

def BankUse.Rel : BankUse → CpuAddr → CpuAddr → Prop
  | keep, v, v' => v' = v
  | zero, v, v' => v' = v ∨ v' = 0
  | full, _, _ => True

theorem BankUse.Rel.refl (l : BankUse) (v : CpuAddr) : l.Rel v v := by
  cases l
  · rfl
  · exact Or.inl rfl
  · trivial

theorem BankUse.Rel.trans {l : BankUse} {v v' v'' : CpuAddr} (h : l.Rel v v')
    (h' : l.Rel v' v'') : l.Rel v v'' := by
  cases l
  · exact Eq.trans h' h
  · rcases h' with h' | h'
    · rcases h with h | h
      · exact Or.inl (h'.trans h)
      · exact Or.inr (h'.trans h)
    · exact Or.inr h'
  · trivial

/-- The reach of an instruction: each register, the two banks, and the width bits. -/
structure Footprint where
  a : Level := .keep
  x : Level := .keep
  y : Level := .keep
  d : Bool := false
  sp : SpUse := .within
  dataBank : Bool := false
  programBank : BankUse := .keep
  widths : Bool := false
  deriving DecidableEq

namespace Footprint

def allows (f : Footprint) (r : Reg) (s : Size) : Bool :=
  match r with
  | .a => f.a.allows s
  | .x => f.x.allows s
  | .y => f.y.allows s
  | .d => f.d
  | .sp => f.sp = .full

def touch (r : Reg) (s : Size) : Footprint :=
  match r with
  | .a => { a := .ofSize s }
  | .x => { x := .ofSize s }
  | .y => { y := .ofSize s }
  | .d => { d := true }
  | .sp => { sp := .full }

theorem touch_allows (r : Reg) (s : Size) : (touch r s).allows r s = true := by
  cases r <;> simp [touch, allows, Level.allows_ofSize]

structure Rel (f : Footprint) (c c' : Core) : Prop where
  coherent : c'.Coherent
  modeNative6502 : c'.modeNative6502 = c.modeNative6502
  modeEmulation : c'.modeEmulation = c.modeEmulation
  modeLongXy : f.widths = false → c'.modeLongXy = c.modeLongXy
  index : f.widths = true → c.IndexFits → c'.IndexFits
  a : f.a.Rel c.a c'.a
  x : f.x.Rel c.x c'.x
  y : f.y.Rel c.y c'.y
  d : f.d = false → c'.d = c.d
  dataBank : f.dataBank = false → c'.dataSegmentBase = c.dataSegmentBase
  sp : c.modeEmulation = true → f.sp.Rel c.sp c'.sp
  programBank : c.modeEmulation = true → f.programBank.Rel c.codeSegmentBase c'.codeSegmentBase

variable {f : Footprint}

theorem Rel.trans {c c' c'' : Core} (h : f.Rel c c') (h' : f.Rel c' c'') : f.Rel c c'' where
  coherent := h'.coherent
  modeNative6502 := h'.modeNative6502.trans h.modeNative6502
  modeEmulation := h'.modeEmulation.trans h.modeEmulation
  modeLongXy hw := (h'.modeLongXy hw).trans (h.modeLongXy hw)
  index hw hi := h'.index hw (h.index hw hi)
  a := h.a.trans h'.a
  x := h.x.trans h'.x
  y := h.y.trans h'.y
  d hd := (h'.d hd).trans (h.d hd)
  dataBank hb := (h'.dataBank hb).trans (h.dataBank hb)
  sp he := (h.sp he).trans (h'.sp (h.modeEmulation.trans he))
  programBank he := (h.programBank he).trans (h'.programBank (h.modeEmulation.trans he))

/-- Every footprint lets `ip`, the flags and the instruction count change. -/
theorem rel_flags {c : Core} (hc : c.Coherent) (ip : CpuAddr)
    (zero negative interrupts carry otherFlags : BitVec 32) (num : BitVec 64) :
    f.Rel c { c with
      ip := ip, zero := zero, negative := negative, interrupts := interrupts, carry := carry
      otherFlags := otherFlags, numEmulatedInstructions := num } where
  coherent := ⟨hc.native6502, hc.emulation, hc.mode, hc.instructionSet⟩
  modeNative6502 := rfl
  modeEmulation := rfl
  modeLongXy _ := rfl
  index _ hi := hi
  a := Level.Rel.refl _ _
  x := Level.Rel.refl _ _
  y := Level.Rel.refl _ _
  d _ := rfl
  dataBank _ := rfl
  sp _ := SpUse.Rel.of_hi rfl
  programBank _ := BankUse.Rel.refl _ _

theorem rel_refl {c : Core} (hc : c.Coherent) : f.Rel c c := rel_flags hc _ _ _ _ _ _ _

/-- A write of the accumulator, an index register, D or the data bank. -/
theorem rel_registers {c : Core} (hc : c.Coherent) {a x y d : Word} {bank : CpuAddr}
    (ha : f.a.Rel c.a a) (hx : f.x.Rel c.x x) (hy : f.y.Rel c.y y) (hd : f.d = false → d = c.d)
    (hb : f.dataBank = false → bank = c.dataSegmentBase) (hw : f.widths = false) :
    f.Rel c { c with a := a, x := x, y := y, d := d, dataSegmentBase := bank } where
  coherent := ⟨hc.native6502, hc.emulation, hc.mode, hc.instructionSet⟩
  modeNative6502 := rfl
  modeEmulation := rfl
  modeLongXy _ := rfl
  index h := absurd (hw.symm.trans h) Bool.false_ne_true
  a := ha
  x := hx
  y := hy
  d := hd
  dataBank := hb
  sp _ := SpUse.Rel.of_hi rfl
  programBank _ := BankUse.Rel.refl _ _

/-- A write of SP or of the program bank. -/
theorem rel_stack {c : Core} (hc : c.Coherent) {sp : Word} {bank : CpuAddr}
    (hs : c.modeEmulation = true → f.sp.Rel c.sp sp)
    (hb : c.modeEmulation = true → f.programBank.Rel c.codeSegmentBase bank) :
    f.Rel c { c with sp := sp, codeSegmentBase := bank } where
  coherent := ⟨hc.native6502, hc.emulation, hc.mode, hc.instructionSet⟩
  modeNative6502 := rfl
  modeEmulation := rfl
  modeLongXy _ := rfl
  index _ hi := hi
  a := Level.Rel.refl _ _
  x := Level.Rel.refl _ _
  y := Level.Rel.refl _ _
  d _ := rfl
  dataBank _ := rfl
  sp := hs
  programBank := hb

theorem rel_set {c : Core} (hc : c.Coherent) {r : Reg} {s : Size} (hr : f.allows r s = true)
    (hw : f.widths = false) (v : Val s) : f.Rel c (c.set r v) := by
  have hx := Level.Rel.refl f.x c.x
  have hy := Level.Rel.refl f.y c.y
  have ha := Level.Rel.refl f.a c.a
  have key : ∀ {l : Level}, l.allows s = true → ∀ w : Word, l.Rel w
      (match s, v with | .u8, v => setLo w v | .u16, v => v) := by
    intro l hl w
    cases s
    · exact Level.rel_setLo hl w v
    · exact Level.rel_any hl w v
  cases r
  case a => cases s <;> exact rel_registers hc (key hr c.a) hx hy (fun _ => rfl) (fun _ => rfl) hw
  case x => cases s <;> exact rel_registers hc ha (key hr c.x) hy (fun _ => rfl) (fun _ => rfl) hw
  case y => cases s <;> exact rel_registers hc ha hx (key hr c.y) (fun _ => rfl) (fun _ => rfl) hw
  case d =>
    have hd : f.d = true := hr
    cases s <;>
      exact rel_registers hc ha hx hy (fun h => absurd (h.symm.trans hd) Bool.false_ne_true)
        (fun _ => rfl) hw
  case sp =>
    have hs : f.sp = .full := of_decide_eq_true hr
    have hfull : ∀ w w' : Word, f.sp.Rel w w' := fun w w' => by rw [hs]; trivial
    cases s <;> exact rel_stack hc (fun _ => hfull _ _) (fun _ => BankUse.Rel.refl _ _)

/-- The instructions that change the widths: the widths, and the high bytes of X and Y. -/
structure Widths (f : Footprint) : Prop where
  widths : f.widths = true
  x : f.x = .low
  y : f.y = .low

/-- A change of the widths followed by `OnUpdateMode`. -/
theorem rel_onUpdateMode {c : Core} (hc : c.Coherent) (hf : f.Widths)
    (zero negative interrupts carry otherFlags : BitVec 32) (longA longXy : Bool) :
    f.Rel c ({ c with
      zero := zero, negative := negative, interrupts := interrupts, carry := carry
      otherFlags := otherFlags, modeLongA := longA, modeLongXy := longXy }).onUpdateMode := by
  generalize hu : ({ c with
      zero := zero, negative := negative, interrupts := interrupts, carry := carry
      otherFlags := otherFlags, modeLongA := longA, modeLongXy := longXy } : Core) = u
  have h6 : u.modeNative6502 = c.modeNative6502 := by rw [← hu]
  have he : (u.modeNative6502 || u.modeEmulation) = c.modeEmulation := by
    rw [← hu]
    cases h6 : c.modeNative6502
    · rfl
    · exact (hc.native6502 h6).symm
  have hux : u.x = c.x := by rw [← hu]
  have huy : u.y = c.y := by rw [← hu]
  have hx' := u.hi_onUpdateMode_x
  have hy' := u.hi_onUpdateMode_y
  have hi' := u.indexFits_onUpdateMode
  have hc' := u.coherent_onUpdateMode
  rw [hux] at hx'
  rw [huy] at hy'
  have ha : u.onUpdateMode.a = c.a := by rw [Core.onUpdateMode_eq, ← hu]
  have hd : u.onUpdateMode.d = c.d := by rw [Core.onUpdateMode_eq, ← hu]
  have hs : u.onUpdateMode.sp = c.sp := by rw [Core.onUpdateMode_eq, ← hu]
  have hb : u.onUpdateMode.dataSegmentBase = c.dataSegmentBase := by
    rw [Core.onUpdateMode_eq, ← hu]
  have hp : u.onUpdateMode.codeSegmentBase = c.codeSegmentBase := by
    rw [Core.onUpdateMode_eq, ← hu]
  exact
    { coherent := hc'
      modeNative6502 := by rw [Core.onUpdateMode_eq, ← h6]
      modeEmulation := by rw [Core.onUpdateMode_eq, ← he]
      modeLongXy := fun h => absurd (h.symm.trans hf.widths) Bool.false_ne_true
      index := fun _ _ => hi'
      a := by rw [ha]; exact Level.Rel.refl _ _
      x := by rw [hf.x]; exact hx'
      y := by rw [hf.y]; exact hy'
      d := fun _ => hd
      dataBank := fun _ => hb
      sp := fun _ => by rw [hs]; exact SpUse.Rel.of_hi rfl
      programBank := fun _ => by rw [hp]; exact BankUse.Rel.refl _ _ }

theorem rel_setStatusRegister {c : Core} (hc : c.Coherent) (hf : f.Widths) (v : Byte) :
    f.Rel c (c.setStatusRegister v) := by
  simp only [Core.setStatusRegister]
  split
  · exact rel_onUpdateMode hc hf _ _ _ _ _ _ _
  · next h =>
    rw [Bool.not_eq_true, Bool.or_eq_false_iff, bne_eq_false_iff_eq, bne_eq_false_iff_eq] at h
    rw [← h.1, ← h.2]
    exact rel_flags hc _ _ _ _ _ _ _

theorem rel_rep {c : Core} (hc : c.Coherent) (hf : f.Widths) (flags : Byte) :
    f.Rel c (c.rep flags) := by
  simp only [Core.rep]
  split
  · split <;> split <;> exact rel_onUpdateMode hc hf _ _ _ _ _ _ _
  · exact rel_flags hc _ _ _ _ _ _ _

theorem rel_sep {c : Core} (hc : c.Coherent) (hf : f.Widths) (flags : Byte) :
    f.Rel c (c.sep flags) := by
  simp only [Core.sep]
  split
  · split <;> split <;> exact rel_onUpdateMode hc hf _ _ _ _ _ _ _
  · exact rel_flags hc _ _ _ _ _ _ _

end Footprint

/-- What a store of width `s` through the addressing mode does to the accumulator. -/
def AddrMode.writeLevel (m : AddrMode) (s : Size) : Level :=
  if m.kind = .a then .ofSize s else .keep

/-- The footprint of an operation.  That of `XCE` is not stated here. -/
def Op.footprint : Op → Footprint
  | tsb m | trb m | asl m | lsr m | ror m | rol m | incMem m | decMem m | stz m =>
    { a := m.writeLevel m.A }
  | bit _ | bitImm _ | cmp _ | cpx _ | cpy _ => {}
  | alu _ m | adc m | sbc m => { a := .ofSize m.A }
  | clc | sec | cli | sei | cld | sed | clv => {}
  | rep | sep | plp | rti => { x := .low, y := .low, widths := true }
  | push _ _ | php | phk | phb | pea | pei | per => {}
  | pop kReg size => .touch kReg size
  | plb => { dataBank := true }
  | jmp _ _ isLongJump => { programBank := if isLongJump then .full else .keep }
  | rts isLong => { programBank := if isLong then .full else .keep }
  | branch _ | brl => {}
  | incDecReg effectiveSize kReg _ => .touch kReg effectiveSize
  | load _ kReg effectiveSize => .touch kReg effectiveSize
  | store m _ effectiveSize => { a := m.writeLevel effectiveSize }
  | txs emulation | tcs emulation => { sp := if emulation then .page else .full }
  | moveReg effectiveSize _ dest => .touch dest effectiveSize
  | mvn | mvp => { a := .full, x := .full, y := .full, dataBank := true }
  | xba => { a := .full }
  | xce | nop _ _ | wdm | wai | stp => {}
  | brk | cop => { programBank := .zero }
  | alr | anc => { a := .low }
  | lax m => { a := .ofSize m.A, x := .low }
  | sax m => { a := .ofSize m.A }

end RetroCpu
