import Mathlib.Tactic.Ring
import RetroCpu.Wdc65816.Footprint

/-!
# Courses

What the code of the CPU does is a sequence of accesses, internal cycles and changes of the CPU's
own state.  `Core.Change f` are the changes that a footprint permits, and `Course A n` is a
sequence with at most `n` accesses and internal cycles in which everything else is permitted by
`A`.

* `Core.Change.rel`: a change that is permitted stays within the footprint.
* `Course.related`: **a relation that the parts of a course respect holds along it.**

The lemmas follow the code from the bus up, one for each function, and each is the composition of
those of the functions it calls.
-/

namespace RetroCpu

open WordBytes Machine StateFn

/-! ### Changes of the CPU -/

/-- The changes of the CPU's own state that a footprint permits. -/
inductive Core.Change (f : Footprint) : Core → Core → Prop
  /-- `ip`, the flags but I, and the instruction count may always change. -/
  | flags {c c' : Core} (h : c' = { c with
      ip := c'.ip, zero := c'.zero, negative := c'.negative, carry := c'.carry
      otherFlags := c'.otherFlags, numEmulatedInstructions := c'.numEmulatedInstructions }) :
      Change f c c'
  | mask (c : Core) {v : BitVec 32} (h : v = 0 ∨ v = 1) : Change f c { c with interrupts := v }
  | set (c : Core) {r : Reg} {s : Size} (hr : f.allows r s = true) (hw : f.widths = false)
      (v : Val s) : Change f c (c.set r v)
  | stack (c : Core) {sp : Word} (h : c.modeEmulation = true → f.sp.Rel c.sp sp) :
      Change f c { c with sp := sp }
  | programBank (c : Core) {bank : CpuAddr}
      (h : c.modeEmulation = true → f.programBank.Rel c.codeSegmentBase bank) :
      Change f c { c with codeSegmentBase := bank }
  | dataBank (c : Core) (hb : f.dataBank = true) (hw : f.widths = false) (bank : CpuAddr) :
      Change f c { c with dataSegmentBase := bank }
  | status (c : Core) (hf : f.Widths) (v : Byte) : Change f c (c.setStatusRegister v)
  | rep (c : Core) (hf : f.Widths) (flags : Byte) : Change f c (c.rep flags)
  | sep (c : Core) (hf : f.Widths) (flags : Byte) : Change f c (c.sep flags)
  | trans {c c' c'' : Core} (h : Change f c c') (h' : Change f c' c'') : Change f c c''

namespace Core.Change

variable {f : Footprint} {c c' : Core}

/-- **A change that is permitted stays within the footprint.** -/
theorem rel (h : Change f c c') (hc : c.Coherent) : f.Rel c c' := by
  induction h with
  | flags h =>
    rw [h]
    exact Footprint.rel_flags hc _ _ _ _ _ _ _
  | mask c => exact Footprint.rel_flags hc _ _ _ _ _ _ _
  | set c hr hw v => exact Footprint.rel_set hc hr hw v
  | stack c h => exact Footprint.rel_stack hc h fun _ => BankUse.Rel.refl _ _
  | programBank c h => exact Footprint.rel_stack hc (fun _ => SpUse.Rel.of_hi rfl) h
  | dataBank c hb hw bank =>
    exact Footprint.rel_registers hc (Level.Rel.refl _ _) (Level.Rel.refl _ _)
      (Level.Rel.refl _ _) (fun _ => rfl) (fun h => absurd (h.symm.trans hb) Bool.false_ne_true) hw
  | status c hf v => exact Footprint.rel_setStatusRegister hc hf v
  | rep c hf flags => exact Footprint.rel_rep hc hf flags
  | sep c hf flags => exact Footprint.rel_sep hc hf flags
  | trans _ _ ih ih' =>
    have h := ih hc
    exact h.trans (ih' h.coherent)

theorem timing_onUpdateMode (c : Core) :
    c.onUpdateMode.internalCycleTiming = c.internalCycleTiming := by
  rw [onUpdateMode_eq]

/-- No instruction changes the length of an internal cycle. -/
theorem internalCycleTiming (h : Change f c c') :
    c'.internalCycleTiming = c.internalCycleTiming := by
  induction h with
  | flags h => rw [h]
  | mask c => rfl
  | @set c r s hr hw v => cases s <;> cases r <;> rfl
  | stack c h => rfl
  | programBank c h => rfl
  | dataBank c hb hw bank => rfl
  | status c hf v =>
    simp only [setStatusRegister]
    split
    · exact timing_onUpdateMode _
    · rfl
  | rep c hf flags =>
    simp only [Core.rep]
    split
    · rw [timing_onUpdateMode]
      split <;> split <;> rfl
    · rfl
  | sep c hf flags =>
    simp only [Core.sep]
    split
    · rw [timing_onUpdateMode]
      split <;> split <;> rfl
    · rfl
  | trans _ _ ih ih' => exact ih'.trans ih

/-- The flags of an addition are set, then A is written. -/
theorem accumulate (c : Core) {s : Size} (ha : f.allows .a s = true) (hw : f.widths = false)
    (v : Val s) {zero negative carry otherFlags : BitVec 32}
    (h : c' = ({ c with
      zero := zero, carry := carry, negative := negative, otherFlags := otherFlags }).set .a v) :
    Change f c c' := by
  subst h
  exact (flags rfl).trans (set (r := .a) _ ha hw v)

end Core.Change

/-! ### Courses -/

/-- What may happen in a course, but for reads and internal cycles. -/
structure Allowance where
  core : Core → Core → Prop
  write : Prop
  irqTaken : Prop

/-- Nothing but reads and internal cycles. -/
def Allowance.quiet : Allowance := ⟨fun _ _ => False, False, False⟩

/-- Everything that an instruction with the footprint `f` may do, and `irq_taken` where the code
of an interrupt is entered. -/
def Footprint.allowance (f : Footprint) (irqTaken : Prop) : Allowance :=
  ⟨Core.Change f, True, irqTaken⟩

variable {β : Type} [Bus β]

/-- The machine goes from `m` to `m'` by at most `n` accesses and internal cycles, and by what
`A` permits. -/
inductive Course (A : Allowance) : ℕ → Machine β → Machine β → Prop
  | nil (m : Machine β) : Course A 0 m m
  | core (m : Machine β) {c : Core} (h : A.core m.core c) : Course A 0 m { m with core := c }
  | internal (m : Machine β) (n : BitVec 32) : Course A n.toNat m (internalOp n m).2
  | read (m : Machine β) (addr : CpuAddr) : Course A 1 m (readU8 addr m).2
  | write (m : Machine β) (h : A.write) (addr : CpuAddr) (v : Byte) :
      Course A 1 m (writeU8 addr v m).2
  | irqTaken (m : Machine β) (h : A.irqTaken) (type : BitVec 32) :
      Course A 0 m { m with bus := Bus.irqTaken m.bus type }
  | trans {j k : ℕ} {m m' m'' : Machine β} (h : Course A j m m') (h' : Course A k m' m'') :
      Course A (j + k) m m''
  | mono {j k : ℕ} {m m' : Machine β} (hjk : j ≤ k) (h : Course A j m m') : Course A k m m'

variable {A : Allowance}

/-- **What holds along a course.** -/
theorem Course.related {R : ℕ → Machine β → Machine β → Prop} (hR : Graded R)
    (hcore : ∀ (m : Machine β) (c : Core), A.core m.core c → R 0 m { m with core := c })
    (hinternal : ∀ (m : Machine β) (n : BitVec 32), R n.toNat m (internalOp n m).2)
    (hread : ∀ (m : Machine β) addr, R 1 m (readU8 addr m).2)
    (hwrite : A.write → ∀ (m : Machine β) addr v, R 1 m (writeU8 addr v m).2)
    (hirq : A.irqTaken → ∀ (m : Machine β) type, R 0 m { m with bus := Bus.irqTaken m.bus type })
    {n : ℕ} {m m' : Machine β} (h : Course A n m m') : R n m m' := by
  induction h with
  | nil m => exact hR.refl m
  | core m h => exact hcore m _ h
  | internal m n => exact hinternal m n
  | read m addr => exact hread m addr
  | write m h addr v => exact hwrite h m addr v
  | irqTaken m h type => exact hirq h m type
  | trans _ _ ih ih' => exact hR.trans ih ih'
  | mono hjk _ ih => exact hR.mono hjk ih

theorem graded_course : Graded (Course (β := β) A) where
  refl := .nil
  trans h h' := .trans h h'
  mono hjk h := .mono hjk h

/-! ### Reads -/

theorem course_getCore {α : Type} (g : Core → α) : Within (Course (β := β) A) 0 (getCore g) :=
  graded_course.get _

theorem course_internalOp (n : BitVec 32) : Within (Course (β := β) A) n.toNat (internalOp n) :=
  fun m => .internal m n

theorem course_readU8 (addr : CpuAddr) : Within (Course (β := β) A) 1 (readU8 addr) :=
  fun m => .read m addr

theorem course_readLoHi (addrLo addrHi : CpuAddr) :
    Within (Course (β := β) A) 2 (readLoHi addrLo addrHi) :=
  graded_course.bind (course_readU8 _) fun _ =>
    graded_course.bind (course_readU8 _) fun _ => graded_course.pure _

theorem course_readRaw (s : Size) (addr : CpuAddr) :
    Within (Course (β := β) A) 2 (readRaw s addr) := by
  cases s
  · exact graded_course.le (course_readU8 _) (by decide)
  · exact course_readLoHi _ _

theorem course_readPBR (s : Size) (addr : CpuAddr) :
    Within (Course (β := β) A) 2 (readPBR s addr) :=
  graded_course.bind (course_getCore _) fun _ => course_readRaw _ _

/-- A read at an address that comes from the registers. -/
theorem course_readOperand {α γ : Type} {g : Core → α} {s : Size} {addr : α → CpuAddr}
    {k : α → Val s → Exec β γ} {n : ℕ} (hk : ∀ a v, Within (Course A) n (k a v)) :
    Within (Course (β := β) A) (2 + n)
      (do let a ← getCore g; let v ← readPBR s (addr a); k a v) :=
  graded_course.le
    (graded_course.bind (course_getCore _) fun a =>
      graded_course.bind (course_readPBR _ _) fun v => hk a v)
    (Nat.zero_add _).le

theorem course_readZero (s : Size) (addr : CpuAddr) :
    Within (Course (β := β) A) 2 (readZero s addr) := by
  cases s
  · exact graded_course.le (course_readU8 _) (by decide)
  · exact course_readLoHi _ _

theorem course_fetch : Within (Course (β := β) A) 1 fetch :=
  graded_course.bind (course_getCore _) fun _ => course_readU8 _

/-! ### Addressing -/

namespace AddrKind

theorem course_calcAbs (offsetReg : Option Reg) (check : Bool) :
    Within (Course (β := β) A) 3 (calcAbs offsetReg check) :=
  course_readOperand fun _ _ =>
    graded_course.bind (course_getCore _) fun _ =>
    graded_course.bind (graded_course.when fun _ => course_internalOp 1) fun _ =>
    graded_course.bind (course_getCore _) fun _ => graded_course.pure _

theorem course_calcAbsLong : Within (Course (β := β) A) 4 calcAbsLong :=
  course_readOperand fun _ _ => course_readOperand fun _ _ => graded_course.pure _

theorem course_calcAbsLongX : Within (Course (β := β) A) 4 calcAbsLongX :=
  course_readOperand fun _ _ => course_readOperand fun _ _ =>
    graded_course.bind (course_getCore _) fun _ => graded_course.pure _

theorem course_calcDirect (offsetReg : Option Reg) (emulation : Bool) :
    Within (Course (β := β) A) 5 (calcDirect offsetReg emulation) :=
  graded_course.bind (graded_course.when fun _ => course_internalOp 1) fun _ =>
    course_readOperand fun _ _ =>
    graded_course.bind (course_getCore _) fun _ => graded_course.bind (course_getCore _) fun _ =>
    graded_course.bind (graded_course.when fun _ => course_internalOp 1) fun _ =>
    graded_course.ite _ (fun _ => graded_course.pure _) fun _ =>
      graded_course.bind (graded_course.when fun _ => course_internalOp 1) fun _ =>
        graded_course.pure _

theorem course_readZeroOp (emulation : Bool) (s : Size) (addr : CpuAddr) :
    Within (Course (β := β) A) 4 (readZeroOp emulation s addr) := by
  cases s
  · exact graded_course.le (course_readZero .u8 _) (by decide)
  · exact graded_course.le
      (graded_course.ite _
        (fun _ => graded_course.bind (course_readZero .u8 _) fun _ =>
          graded_course.bind (course_readZero .u8 _) fun _ => graded_course.pure _)
        fun _ => course_readZero .u16 _)
      (by decide)

theorem course_calcDirectIndirect : Within (Course (β := β) A) 4 calcDirectIndirect :=
  course_readOperand fun _ _ =>
    graded_course.bind (course_getCore _) fun _ =>
    graded_course.bind (course_readZero .u16 _) fun _ =>
    graded_course.bind (course_getCore _) fun _ => graded_course.pure _

theorem course_calcDirectIndirectX (emulation : Bool) :
    Within (Course (β := β) A) 9 (calcDirectIndirectX emulation) :=
  graded_course.bind (course_calcDirect _ _) fun _ =>
    graded_course.bind (course_readZeroOp _ .u16 _) fun _ =>
    graded_course.bind (course_getCore _) fun _ => graded_course.pure _

theorem course_calcDirectIndirectY (check emulation : Bool) :
    Within (Course (β := β) A) 10 (calcDirectIndirectY check emulation) :=
  graded_course.bind (course_calcDirect _ _) fun _ =>
    graded_course.bind (course_readZeroOp _ .u16 _) fun _ =>
    graded_course.bind (course_getCore _) fun _ => graded_course.bind (course_getCore _) fun _ =>
    graded_course.bind (graded_course.when fun _ => course_internalOp 1) fun _ =>
    graded_course.bind (course_getCore _) fun _ => graded_course.pure _

theorem course_calcDirectIndirectLong : Within (Course (β := β) A) 6 calcDirectIndirectLong :=
  course_readOperand fun _ _ =>
    graded_course.bind (course_getCore _) fun _ =>
    graded_course.bind (course_readZero .u16 _) fun _ =>
    graded_course.bind (course_readZero .u8 _) fun _ => graded_course.pure _

theorem course_calcDirectIndirectLongY : Within (Course (β := β) A) 6 calcDirectIndirectLongY :=
  graded_course.bind course_calcDirectIndirectLong fun _ =>
    graded_course.bind (course_getCore _) fun _ => graded_course.pure _

theorem course_calcStack : Within (Course (β := β) A) 2 calcStack :=
  course_readOperand fun _ _ =>
    graded_course.bind (course_getCore _) fun _ => graded_course.pure _

theorem course_calcStackY : Within (Course (β := β) A) 4 calcStackY :=
  course_readOperand fun _ _ =>
    graded_course.bind (course_getCore _) fun _ =>
    graded_course.bind (course_readZero .u16 _) fun _ =>
    graded_course.bind (course_getCore _) fun _ => graded_course.bind (course_getCore _) fun _ =>
      graded_course.pure _

theorem course_calcEffectiveAddress (k : AddrKind) :
    Within (Course (β := β) A) 10 k.calcEffectiveAddress := by
  cases k with
  | a => exact graded_course.le (graded_course.pure _) (by decide)
  | imm => exact graded_course.le (graded_course.bind (course_getCore _) fun _ =>
      graded_course.pure _) (by decide)
  | abs => exact graded_course.le (course_calcAbs _ _) (by decide)
  | absX => exact graded_course.le (course_calcAbs _ _) (by decide)
  | absY => exact graded_course.le (course_calcAbs _ _) (by decide)
  | absLong => exact graded_course.le course_calcAbsLong (by decide)
  | absLongX => exact graded_course.le course_calcAbsLongX (by decide)
  | direct => exact graded_course.le (course_calcDirect _ _) (by decide)
  | directX => exact graded_course.le (course_calcDirect _ _) (by decide)
  | directY => exact graded_course.le (course_calcDirect _ _) (by decide)
  | directIndirect => exact graded_course.le course_calcDirectIndirect (by decide)
  | directIndirectX => exact graded_course.le (course_calcDirectIndirectX _) (by decide)
  | directIndirectY => exact course_calcDirectIndirectY _ _
  | directIndirectLong => exact graded_course.le course_calcDirectIndirectLong (by decide)
  | directIndirectLongY => exact graded_course.le course_calcDirectIndirectLongY (by decide)
  | stack => exact graded_course.le course_calcStack (by decide)
  | stackY => exact graded_course.le course_calcStackY (by decide)

end AddrKind

namespace AddrMode

theorem course_read (m : AddrMode) (s : Size) : Within (Course (β := β) A) 14 (m.read s) := by
  have hk : Within (Course (β := β) A) 10 m.kind.calcEffectiveAddress :=
    AddrKind.course_calcEffectiveAddress m.kind
  unfold read
  cases m.kind.access with
  | accumulator => exact graded_course.le (course_getCore _) (by decide)
  | immediate =>
    exact graded_course.le (graded_course.bind hk fun _ => course_readPBR _ _) (by decide)
  | raw => exact graded_course.le (graded_course.bind hk fun _ => course_readRaw _ _) (by decide)
  | zero emulation => exact graded_course.bind hk fun _ => AddrKind.course_readZeroOp _ _ _

end AddrMode

theorem JmpAddr.course_calcEffectiveAddress (j : JmpAddr) :
    Within (Course (β := β) A) 6 j.calcEffectiveAddress := by
  cases j with
  | abs => exact graded_course.le (AddrKind.course_calcAbs _ _) (by decide)
  | absLong => exact graded_course.le AddrKind.course_calcAbsLong (by decide)
  | ind isLong wrap =>
    exact course_readOperand fun _ _ =>
      graded_course.bind (course_readLoHi _ _) fun _ =>
      graded_course.ite _
        (fun _ => graded_course.bind (course_readZero .u8 _) fun _ => graded_course.pure _)
        fun _ => graded_course.pure _
  | indAbsX =>
    exact graded_course.le
      (course_readOperand fun _ _ => course_readOperand fun _ _ => graded_course.pure _)
      (by decide)

/-! ### Writes and changes of the CPU -/

variable {f : Footprint} {I : Prop}

theorem course_update {g : Core → Core} (hg : ∀ c, Core.Change f c (g c)) :
    Within (Course (β := β) (f.allowance I)) 0 (update g) :=
  fun m => .core m (hg m.core)

/-- An update of flags and `ip`. -/
theorem course_flags {g : Core → Core} (hg : ∀ c, g c = { c with
      ip := (g c).ip, zero := (g c).zero, negative := (g c).negative, carry := (g c).carry
      otherFlags := (g c).otherFlags
      numEmulatedInstructions := (g c).numEmulatedInstructions }) :
    Within (Course (β := β) (f.allowance I)) 0 (update g) :=
  course_update fun c => .flags (hg c)

theorem course_addIp (n : CpuAddr) : Within (Course (β := β) (f.allowance I)) 0 (addIp n) :=
  course_flags fun _ => rfl

theorem course_setNZ {n : ℕ} (v : BitVec n) :
    Within (Course (β := β) (f.allowance I)) 0 (setNZ v) :=
  course_flags fun _ => rfl

/-- The instruction count. -/
theorem course_count : Within (Course (β := β) (f.allowance I)) 0
    (update fun c => { c with numEmulatedInstructions := c.numEmulatedInstructions + 1 }) :=
  course_flags fun _ => rfl

theorem course_set {r : Reg} {s : Size} (hr : f.allows r s = true) (hw : f.widths = false)
    (v : Val s) : Within (Course (β := β) (f.allowance I)) 0 (update (·.set r v)) :=
  course_update fun c => .set c hr hw v

/-- A write of a register that is computed from the CPU. -/
theorem course_setCore {r : Reg} {s : Size} (hr : f.allows r s = true) (hw : f.widths = false)
    (g : Core → Val s) :
    Within (Course (β := β) (f.allowance I)) 0 (update fun c => c.set r (g c)) :=
  course_update fun c => .set c hr hw (g c)

theorem course_programBank (hf : f.programBank = .full) (g : Core → CpuAddr) :
    Within (Course (β := β) (f.allowance I)) 0
      (update fun c => { c with codeSegmentBase := g c }) :=
  course_update fun c => .programBank c fun _ => by
    rw [hf]
    trivial

theorem course_dataBank (hb : f.dataBank = true) (hw : f.widths = false) (bank : CpuAddr) :
    Within (Course (β := β) (f.allowance I)) 0
      (update fun c => { c with dataSegmentBase := bank }) :=
  course_update fun c => .dataBank c hb hw bank

theorem course_setStatusRegister (hf : f.Widths) (v : Byte) :
    Within (Course (β := β) (f.allowance I)) 0 (update (·.setStatusRegister v)) :=
  course_update fun c => .status c hf v

theorem course_writeU8 (addr : CpuAddr) (v : Byte) :
    Within (Course (β := β) (f.allowance I)) 1 (writeU8 addr v) :=
  fun m => .write m trivial addr v

theorem course_writeRaw {s : Size} (addr : CpuAddr) (v : Val s) :
    Within (Course (β := β) (f.allowance I)) 2 (writeRaw addr v) := by
  cases s
  · exact graded_course.le (course_writeU8 _ _) (by decide)
  · exact graded_course.bind (course_writeU8 _ _) fun _ => course_writeU8 _ _

theorem course_writeZero {s : Size} (addr : CpuAddr) (v : Val s) :
    Within (Course (β := β) (f.allowance I)) 2 (writeZero addr v) := by
  cases s
  · exact graded_course.le (course_writeU8 _ _) (by decide)
  · exact graded_course.bind (course_writeU8 _ _) fun _ => course_writeU8 _ _

/-! ### The stack -/

/-- A step of SP that stays in its page in emulation mode. -/
theorem Core.Change.step {c : Core} {sp sp' : Word} (hs : hi sp = hi c.sp) :
    Change f c { c with sp := if c.modeEmulation then sp else sp' } := by
  refine .stack c fun he => SpUse.Rel.of_hi ?_
  rw [he, if_pos rfl]
  exact hs

theorem course_decSp : Within (Course (β := β) (f.allowance I)) 0 (update (·.decSp)) :=
  course_update fun _ => .step (hi_setLo _ _)

theorem course_incSp : Within (Course (β := β) (f.allowance I)) 0 (update (·.incSp)) :=
  course_update fun _ => .step (hi_setLo _ _)

theorem course_pushU8 (v : Byte) : Within (Course (β := β) (f.allowance I)) 1 (pushU8 v) :=
  graded_course.bind (course_getCore _) fun _ =>
    graded_course.bind (course_writeU8 _ _) fun _ => course_decSp

theorem course_push {s : Size} (v : Val s) :
    Within (Course (β := β) (f.allowance I)) 2 (push v) := by
  cases s
  · exact graded_course.le (course_pushU8 _) (by decide)
  · exact graded_course.bind (course_pushU8 _) fun _ => course_pushU8 _

theorem course_popU8 : Within (Course (β := β) (f.allowance I)) 1 popU8 :=
  graded_course.bind (course_getCore _) fun _ => graded_course.bind (course_readU8 _) fun _ =>
    graded_course.bind course_incSp fun _ => graded_course.pure _

theorem course_popU16 : Within (Course (β := β) (f.allowance I)) 2 popU16 :=
  graded_course.bind course_popU8 fun _ => graded_course.bind course_popU8 fun _ =>
    graded_course.pure _

theorem course_pop (s : Size) : Within (Course (β := β) (f.allowance I)) 2 (pop s) := by
  cases s
  · exact graded_course.le course_popU8 (by decide)
  · exact course_popU16

theorem course_popOld (s : Size) : Within (Course (β := β) (f.allowance I)) 2 (popOld s) := by
  cases s
  · exact graded_course.le (graded_course.bind course_incSp fun _ =>
      graded_course.bind (course_getCore _) fun _ => course_readU8 _) (by decide)
  · exact course_popU16

/-! ### Block moves -/

/-- The footprint of a block move: A, X, Y and the data bank. -/
structure Footprint.Moves (f : Footprint) : Prop where
  a : f.a = .full
  x : f.x = .full
  y : f.y = .full
  dataBank : f.dataBank = true
  widths : f.widths = false

theorem course_blockMoveByte (hf : f.Moves) (srcBank destBank : CpuAddr) (increment : Word) :
    Within (Course (β := β) (f.allowance I)) 2 (blockMoveByte srcBank destBank increment) := by
  have hall {r : Reg} {l : Level} (hl : l = .full) (hr : f.allows r .u16 = l.allows .u16) :
      f.allows r .u16 = true := by
    rw [hr, hl]
    rfl
  refine graded_course.bind (course_getCore _) fun _ => graded_course.bind (course_getCore _)
    fun _ => graded_course.bind (course_update fun c => ?_) fun _ =>
    graded_course.bind (course_readU8 _) fun _ => course_writeU8 _ _
  -- X, Y and A change in one line of the code
  exact ((Core.Change.set (r := .x) (s := .u16) c (hall hf.x rfl) hf.widths
      (c.x + increment : Word)).trans
    (.set (r := .y) (s := .u16) _ (hall hf.y rfl) hf.widths (c.y + increment : Word))).trans
    (.set (r := .a) (s := .u16) _ (hall hf.a rfl) hf.widths (c.a - 1 : Word))

theorem course_fastBlockMoveLoop (hf : f.Moves) (srcBank destBank : CpuAddr) (increment : Word)
    (fuel : ℕ) : Within (Course (β := β) (f.allowance I)) (2 * fuel)
      (fastBlockMoveLoop srcBank destBank increment fuel) := by
  induction fuel with
  | zero => exact graded_course.pure _
  | succ fuel ih =>
    refine graded_course.le (graded_course.bind (course_getCore _) fun _ =>
      graded_course.when fun _ => graded_course.bind
        (course_blockMoveByte hf _ _ _) fun _ => ih) ?_
    omega

theorem course_fastBlockMove (hf : f.Moves) (srcBank destBank : BitVec 32) (increment : Word) :
    Within (Course (β := β) (f.allowance I)) (2 ^ 17)
      (fastBlockMove srcBank destBank increment) := by
  refine graded_course.le (graded_course.bind (course_getCore _) fun a =>
    graded_course.le (graded_course.bind (course_fastBlockMoveLoop hf _ _ _ _) fun _ =>
      course_dataBank hf.dataBank hf.widths _) ?_) (Nat.zero_add _).le
  have := a.isLt
  omega

theorem course_blockMove (hf : f.Moves) (srcBank destBank : BitVec 32) (increment : Word) :
    Within (Course (β := β) (f.allowance I)) (2 ^ 17) (blockMove srcBank destBank increment) :=
  graded_course.le
    (graded_course.bind (course_getCore _) fun _ => graded_course.ite _
      (fun _ => graded_course.pure _)
      fun _ => graded_course.bind (course_getCore _) fun _ => graded_course.ite _
        (fun _ => graded_course.bind (course_fastBlockMove hf _ _ _) fun _ => graded_course.pure _)
        (fun _ => graded_course.bind (course_blockMoveByte hf _ _ _) fun _ =>
          graded_course.bind (course_dataBank hf.dataBank hf.widths _) fun _ =>
            graded_course.pure _))
    (by decide)

/-! ### Operands -/

namespace AddrMode

theorem kind_of_access {k : AddrKind} (h : k.access = .accumulator) : k = .a := by
  cases k <;> first | rfl | exact absurd h nofun

/-- `writeLevel` lets the accumulator be stored to where the operand is the accumulator. -/
theorem writeLevel_allows {m : AddrMode} (s : Size) (h : m.kind = .a) :
    (m.writeLevel s).allows s = true := by
  rw [writeLevel, if_pos h]
  exact Level.allows_ofSize s

theorem course_write {m : AddrMode} {s : Size} (hf : m.kind = .a → f.allows .a s = true)
    (hw : f.widths = false) (v : Val s) :
    Within (Course (β := β) (f.allowance I)) 12 (m.write v) := by
  have hk : Within (Course (β := β) (f.allowance I)) 10 m.kind.calcEffectiveAddress :=
    AddrKind.course_calcEffectiveAddress m.kind
  unfold write
  cases h : m.kind.access with
  | accumulator => exact graded_course.le (course_set (hf (kind_of_access h)) hw v) (by decide)
  | immediate => exact graded_course.le (graded_course.pure _) (by decide)
  | raw => exact graded_course.bind hk fun _ => course_writeRaw _ _
  | zero emulation => exact graded_course.bind hk fun _ => course_writeZero _ _

theorem course_modify {m : AddrMode} (hf : m.kind = .a → f.allows .a m.A = true)
    (hw : f.widths = false) {fn : Val m.A → Exec β (Val m.A)}
    (hfn : ∀ v, Within (Course (f.allowance I)) 2 (fn v)) :
    Within (Course (β := β) (f.allowance I)) 16 (m.modify fn) := by
  have hk : Within (Course (β := β) (f.allowance I)) 10 m.kind.calcEffectiveAddress :=
    AddrKind.course_calcEffectiveAddress m.kind
  unfold modify
  cases h : m.kind.access with
  | accumulator =>
    exact graded_course.le (graded_course.bind (course_getCore _) fun _ =>
      graded_course.bind (hfn _) fun _ => course_set (hf (kind_of_access h)) hw _) (by decide)
  | immediate => exact graded_course.le (graded_course.pure _) (by decide)
  | raw =>
    exact graded_course.bind hk fun _ => graded_course.bind (course_readRaw _ _) fun _ =>
      graded_course.bind (hfn _) fun _ => course_writeRaw _ _
  | zero emulation =>
    exact graded_course.bind hk fun _ => graded_course.bind (course_readZero _ _) fun _ =>
      graded_course.bind (hfn _) fun _ => course_writeZero _ _

end AddrMode

/-! ### Interrupts -/

theorem course_pushInterruptFrame (type : InterruptType) :
    Within (Course (β := β) (f.allowance I)) 4 (pushInterruptFrame type) :=
  graded_course.bind (course_getCore _) fun _ =>
    graded_course.bind (graded_course.when fun _ =>
      graded_course.bind (course_getCore _) fun _ => course_pushU8 _) fun _ =>
    graded_course.bind (course_getCore _) fun _ =>
    graded_course.bind (course_push (s := .u16) _) fun _ =>
    graded_course.bind (course_getCore _) fun _ => course_pushU8 _

/-- The jump to a handler. -/
theorem course_enter (hf : f.programBank = .zero) (pc : Val .u16) :
    Within (Course (β := β) (f.allowance I)) 0 (update fun c =>
      { c with
        ip := pc.toU32
        codeSegmentBase := 0
        interrupts := 0
        otherFlags := if c.modeNative6502 then c.otherFlags else c.otherFlags &&& 0xFFF7 }) := by
  refine course_update fun c => ?_
  have hbank : Core.Change f c { c with codeSegmentBase := 0 } := .programBank c fun _ => by
    rw [hf]
    exact Or.inr rfl
  exact (hbank.trans (.mask _ (.inl rfl))).trans (.flags rfl)

theorem course_enterHandler (hf : f.programBank = .zero) {t : InterruptType}
    (hirq : (t == .irq || t == .nmi) = true → I) :
    Within (Course (β := β) (f.allowance I)) 2 (enterHandler t) :=
  graded_course.bind (course_getCore _) fun _ =>
    graded_course.bind (course_readRaw .u16 _) fun _ =>
    graded_course.bind (course_enter hf _) fun _ =>
    graded_course.when (n := 0) fun h m => .irqTaken m (hirq h) _

theorem course_doInterrupt (hf : f.programBank = .zero) {t : InterruptType}
    (hirq : (t == .irq || t == .nmi) = true → I) :
    Within (Course (β := β) (f.allowance I)) 6 (doInterrupt t) :=
  graded_course.bind (course_pushInterruptFrame t) fun _ => course_enterHandler hf hirq

theorem course_interrupt (hf : f.programBank = .zero) (param : BitVec 32) :
    Within (Course (β := β) (f.allowance True)) 6 (interrupt param) := by
  rw [interrupt]
  split
  · exact course_doInterrupt hf fun _ => trivial
  · exact course_doInterrupt hf fun _ => trivial

end RetroCpu
