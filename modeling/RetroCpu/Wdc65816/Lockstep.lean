import RetroCpu.Lib.Coupled
import RetroCpu.Wdc65816.Alike
import RetroCpu.Wdc65816.Reach

/-!
# Two machines in lockstep

An `Accord` relates two buses with their clocks: the reads of related buses give the same bytes,
and accesses keep them related.  `InStep A mixed x y` says that the programs `x` and `y` give the
same value on two machines that a program cannot tell apart, and leave two such machines.

The lemmas follow the code from the bus up, one for each function.

* `Op.exec_inStep`: **every instruction agrees with itself**, but `XCE`, `BRK` and `COP` on the two
  kinds of CPU at once.
-/

namespace RetroCpu

open WordBytes Machine StateFn

/-- Two buses, each with a clock, that answer a program alike. -/
structure Accord (β γ : Type) [Bus β] [Bus γ] where
  rel : BitVec 64 → β → BitVec 64 → γ → Prop
  /-- How the prices of an internal cycle are related. -/
  timing : BitVec 32 → BitVec 32 → Prop
  read_data : ∀ {t b t' b'}, rel t b t' b' → ∀ a,
    (Bus.readByte b t a).data = (Bus.readByte b' t' a).data
  read : ∀ {t b t' b'}, rel t b t' b' → ∀ a,
    rel (t + (Bus.readByte b t a).cycles.setWidth 64) (Bus.readByte b t a).bus
      (t' + (Bus.readByte b' t' a).cycles.setWidth 64) (Bus.readByte b' t' a).bus
  write : ∀ {t b t' b'}, rel t b t' b' → ∀ a v,
    rel (t + (Bus.writeByte b t a v).stall.setWidth 64 +
        (Bus.writeByte b t a v).cycles.setWidth 64) (Bus.writeByte b t a v).bus
      (t' + (Bus.writeByte b' t' a v).stall.setWidth 64 +
        (Bus.writeByte b' t' a v).cycles.setWidth 64) (Bus.writeByte b' t' a v).bus
  irqTaken : ∀ {t b t' b'}, rel t b t' b' → ∀ type,
    rel t (Bus.irqTaken b type) t' (Bus.irqTaken b' type)
  internal : ∀ {t b t' b' k k'}, timing k k' → rel t b t' b' → ∀ n : BitVec 32,
    rel (t + (k * n).setWidth 64) b (t' + (k' * n).setWidth 64) b'

def Accord.refl (β : Type) [Bus β] : Accord β β where
  rel t b t' b' := t = t' ∧ b = b'
  timing := Eq
  read_data := by
    rintro t b _ _ ⟨rfl, rfl⟩ a
    rfl
  read := by
    rintro t b _ _ ⟨rfl, rfl⟩ a
    exact ⟨rfl, rfl⟩
  write := by
    rintro t b _ _ ⟨rfl, rfl⟩ a v
    exact ⟨rfl, rfl⟩
  irqTaken := by
    rintro t b _ _ ⟨rfl, rfl⟩ type
    exact ⟨rfl, rfl⟩
  internal := by
    rintro t b _ _ k _ rfl ⟨rfl, rfl⟩ n
    exact ⟨rfl, rfl⟩

variable {β γ : Type} [Bus β] [Bus γ]

/-- A program cannot tell the two machines apart. -/
structure Machine.Alike (A : Accord β γ) (mixed : Prop) (m : Machine β) (m' : Machine γ) :
    Prop where
  core : Core.Alike A.timing mixed m.core m'.core
  bus : A.rel m.cycle m.bus m'.cycle m'.bus

/-- The two programs do the same on machines that a program cannot tell apart. -/
abbrev InStep (A : Accord β γ) (mixed : Prop) {α : Type} (x : Exec β α) (y : Exec γ α) : Prop :=
  Coupled (Machine.Alike A mixed) Eq x y

variable {A : Accord β γ} {mixed : Prop} {α δ : Type}

theorem inStep_pure (a : α) : InStep A mixed (pure a) (pure a) := Coupled.pure rfl

theorem inStep_getCore {f g : Core → α}
    (h : ∀ c c', Core.Alike A.timing mixed c c' → f c = g c') :
    InStep A mixed (getCore f) (getCore g) :=
  Coupled.get fun _ _ hm => h _ _ hm.core

theorem inStep_update {f g : Core → Core}
    (h : ∀ c c', Core.Alike A.timing mixed c c' → Core.Alike A.timing mixed (f c) (g c')) :
    InStep A mixed (update f) (update g) :=
  Coupled.modify fun _ _ hm => ⟨h _ _ hm.core, hm.bus⟩

theorem inStep_internalOp (n : BitVec 32) : InStep A mixed (internalOp n) (internalOp n) := by
  intro m m' hm
  exact ⟨rfl, hm.core, A.internal hm.core.internalCycleTiming hm.bus n⟩

theorem inStep_addIp (n : CpuAddr) : InStep A mixed (addIp n) (addIp n) :=
  inStep_update fun _ _ h => h.addIp n

theorem inStep_setNZ {n : ℕ} (v : BitVec n) : InStep A mixed (setNZ v) (setNZ v) :=
  inStep_update fun _ _ h => h.setNZ v

theorem inStep_set (r : Reg) {s : Size} (v : Val s) :
    InStep A mixed (update (·.set r v)) (update (·.set r v)) :=
  inStep_update fun _ _ h => h.set r v

theorem inStep_get (r : Reg) (s : Size) :
    InStep A mixed (getCore (·.get r s)) (getCore (·.get r s)) :=
  inStep_getCore fun _ _ h => h.get r s

/-! ### The bus -/

theorem inStep_readU8 (addr : CpuAddr) : InStep A mixed (readU8 addr) (readU8 addr) := by
  intro m m' hm
  exact ⟨A.read_data hm.bus addr, hm.core, A.read hm.bus addr⟩

theorem inStep_writeU8 (addr : CpuAddr) (v : Byte) :
    InStep A mixed (writeU8 addr v) (writeU8 addr v) := by
  intro m m' hm
  exact ⟨rfl, hm.core, A.write hm.bus addr v⟩

theorem inStep_readLoHi (addrLo addrHi : CpuAddr) :
    InStep A mixed (readLoHi addrLo addrHi) (readLoHi addrLo addrHi) :=
  (inStep_readU8 _).seq fun _ => (inStep_readU8 _).seq fun _ => inStep_pure _

theorem inStep_readRaw (s : Size) (addr : CpuAddr) :
    InStep A mixed (readRaw s addr) (readRaw s addr) := by
  cases s with
  | u8 => exact inStep_readU8 _
  | u16 => exact inStep_readLoHi _ _

theorem inStep_writeRaw {s : Size} (addr : CpuAddr) (v : Val s) :
    InStep A mixed (writeRaw addr v) (writeRaw addr v) := by
  cases s with
  | u8 => exact inStep_writeU8 _ _
  | u16 => exact (inStep_writeU8 _ _).seq fun _ => inStep_writeU8 _ _

/-- The low 16 bits of an address. -/
theorem and_ffff_of_eq {a b : CpuAddr} (h : a.setWidth 16 = b.setWidth 16) :
    a &&& 0xFFFF = b &&& 0xFFFF := by
  rw [and_wordMask, and_wordMask, h]

/-- A read in the program bank looks at 16 bits of the address. -/
theorem inStep_readPBR (s : Size) {a b : CpuAddr} (h : a.setWidth 16 = b.setWidth 16) :
    InStep A mixed (readPBR s a) (readPBR s b) := by
  have hab := and_ffff_of_eq h
  refine (inStep_getCore fun _ _ hc => hc.codeSegmentBase).seq fun base => ?_
  rw [hab]
  exact inStep_readRaw _ _

/-- `g` looks at the low 16 bits for those of its result. -/
def LowBits (g : CpuAddr → CpuAddr) : Prop :=
  ∀ a b : CpuAddr, a.setWidth 16 = b.setWidth 16 → (g a).setWidth 16 = (g b).setWidth 16

theorem lowBits_add (n : CpuAddr) : LowBits (· + n) := by
  intro a b h
  show (a + n).setWidth 16 = (b + n).setWidth 16
  rw [BitVec.setWidth_add _ _ (by decide), BitVec.setWidth_add _ _ (by decide), h]

/-- A read at a place that is counted from `ip`. -/
theorem inStep_operand {s : Size} {g : CpuAddr → CpuAddr} (hg : LowBits g)
    {k : Val s → Exec β δ} {k' : Val s → Exec γ δ} (hk : ∀ v, InStep A mixed (k v) (k' v)) :
    InStep A mixed (do let ip ← getCore (·.ip); let v ← readPBR s (g ip); k v)
      (do let ip ← getCore (·.ip); let v ← readPBR s (g ip); k' v) :=
  (Coupled.get fun _ _ hm => hm.core.pc).bind fun _ _ hip =>
    (inStep_readPBR s (hg _ _ hip)).seq hk

theorem inStep_readZero (s : Size) (addr : CpuAddr) :
    InStep A mixed (readZero s addr) (readZero s addr) := by
  cases s with
  | u8 => exact inStep_readU8 _
  | u16 => exact inStep_readLoHi _ _

theorem inStep_writeZero {s : Size} (addr : CpuAddr) (v : Val s) :
    InStep A mixed (writeZero addr v) (writeZero addr v) := by
  cases s with
  | u8 => exact inStep_writeU8 _ _
  | u16 => exact (inStep_writeU8 _ _).seq fun _ => inStep_writeU8 _ _

/-! ### The stack -/

theorem inStep_pushU8 (v : Byte) : InStep A mixed (pushU8 v) (pushU8 v) :=
  (inStep_getCore fun _ _ h => h.sp).seq fun _ =>
    (inStep_writeZero (s := .u8) _ _).seq fun _ => inStep_update fun _ _ h => h.decSp

theorem inStep_push {s : Size} (v : Val s) : InStep A mixed (push v) (push v) := by
  cases s with
  | u8 => exact inStep_pushU8 _
  | u16 => exact (inStep_pushU8 _).seq fun _ => inStep_pushU8 _

theorem inStep_popU8 : InStep A mixed popU8 popU8 :=
  (inStep_getCore fun _ _ h => h.sp).seq fun _ => (inStep_readZero .u8 _).seq fun _ =>
    (inStep_update fun _ _ h => h.incSp).seq fun _ => inStep_pure _

theorem inStep_popU16 : InStep A mixed popU16 popU16 :=
  inStep_popU8.seq fun _ => inStep_popU8.seq fun _ => inStep_pure _

theorem inStep_pop (s : Size) : InStep A mixed (pop s) (pop s) := by
  cases s with
  | u8 => exact inStep_popU8
  | u16 => exact inStep_popU16

theorem inStep_popOld (s : Size) : InStep A mixed (popOld s) (popOld s) := by
  cases s with
  | u8 =>
    exact (inStep_update fun _ _ h => h.incSp).seq fun _ =>
      (inStep_getCore fun _ _ h => h.sp).seq fun _ => inStep_readZero .u8 _
  | u16 => exact inStep_popU16

/-! ### Block moves -/

theorem inStep_blockMoveByte (srcBank destBank : CpuAddr) (increment : Word) :
    InStep A mixed (blockMoveByte srcBank destBank increment)
      (blockMoveByte srcBank destBank increment) :=
  (inStep_getCore fun _ _ h => h.x).seq fun _ => (inStep_getCore fun _ _ h => h.y).seq fun _ =>
    (inStep_update fun _ _ h => h.registers (congrArg (· - 1) h.a) (congrArg (· + increment) h.x)
      (congrArg (· + increment) h.y)).seq fun _ =>
    (inStep_readU8 _).seq fun _ => inStep_writeU8 _ _

theorem inStep_fastBlockMoveLoop (srcBank destBank : CpuAddr) (increment : Word) (fuel : ℕ) :
    InStep A mixed (fastBlockMoveLoop srcBank destBank increment fuel)
      (fastBlockMoveLoop srcBank destBank increment fuel) := by
  induction fuel with
  | zero => exact inStep_pure _
  | succ fuel ih =>
    exact (inStep_getCore fun _ _ h => h.a).seq fun _ => Coupled.when fun _ =>
      (inStep_blockMoveByte _ _ _).seq fun _ => ih

theorem inStep_dataBank (bank : Byte) :
    InStep A mixed (update fun c => { c with dataSegmentBase := bank.setWidth 32 <<< 16 })
      (update fun c => { c with dataSegmentBase := bank.setWidth 32 <<< 16 }) :=
  inStep_update fun _ _ h => h.setDataSegmentBase (Core.isBank_shift bank)

theorem inStep_fastBlockMove (srcBank : BitVec 32) (dest : Byte) (increment : Word) :
    InStep A mixed (fastBlockMove srcBank (dest.setWidth 32) increment)
      (fastBlockMove srcBank (dest.setWidth 32) increment) :=
  (inStep_getCore fun _ _ h => h.a).seq fun _ =>
    (inStep_fastBlockMoveLoop _ _ _ _).seq fun _ => inStep_dataBank dest

theorem inStep_blockMove (srcBank : BitVec 32) (dest : Byte) (increment : Word) :
    InStep A mixed (blockMove srcBank (dest.setWidth 32) increment)
      (blockMove srcBank (dest.setWidth 32) increment) :=
  (inStep_getCore fun _ _ h => h.a).seq fun _ => Coupled.ite (fun _ => inStep_pure _) fun _ =>
    (inStep_getCore fun _ _ h => h.fastBlockMoves).seq fun _ => Coupled.ite
      (fun _ => (inStep_fastBlockMove _ dest _).seq fun _ => inStep_pure _)
      fun _ => (inStep_blockMoveByte _ _ _).seq fun _ =>
        (inStep_dataBank dest).seq fun _ => inStep_pure _

/-! ### Addressing -/

namespace AddrKind

theorem inStep_calcAbs (offsetReg : Option Reg) (check : Bool) :
    InStep A mixed (calcAbs offsetReg check) (calcAbs offsetReg check) :=
  inStep_operand (lowBits_add 1) fun _ =>
    (inStep_getCore fun _ _ h => h.toNear.offset offsetReg).seq fun _ =>
    (Coupled.when fun _ => inStep_internalOp _).seq fun _ =>
    (inStep_getCore fun _ _ h => h.dataSegmentBase).seq fun _ => inStep_pure _

theorem inStep_calcAbsLong : InStep A mixed calcAbsLong calcAbsLong :=
  inStep_operand (lowBits_add 1) fun _ => inStep_operand (lowBits_add 3) fun _ => inStep_pure _

theorem inStep_calcAbsLongX : InStep A mixed calcAbsLongX calcAbsLongX :=
  inStep_operand (lowBits_add 1) fun _ => inStep_operand (lowBits_add 3) fun _ =>
    (inStep_getCore fun _ _ h => h.x).seq fun _ => inStep_pure _

theorem inStep_calcDirect (offsetReg : Option Reg) (emulation : Bool) :
    InStep A mixed (calcDirect offsetReg emulation) (calcDirect offsetReg emulation) :=
  (Coupled.when fun _ => inStep_internalOp _).seq fun _ =>
    inStep_operand (lowBits_add 1) fun _ =>
    (inStep_getCore fun _ _ h => h.d).seq fun _ =>
    (inStep_getCore fun _ _ h => h.toNear.offset offsetReg).seq fun _ =>
    (Coupled.when fun _ => inStep_internalOp _).seq fun _ =>
    Coupled.ite (fun _ => inStep_pure _) fun _ =>
      (Coupled.when fun _ => inStep_internalOp _).seq fun _ => inStep_pure _

theorem inStep_readZeroOp (emulation : Bool) (s : Size) (addr : CpuAddr) :
    InStep A mixed (readZeroOp emulation s addr) (readZeroOp emulation s addr) := by
  cases s with
  | u8 => exact inStep_readZero .u8 _
  | u16 =>
    exact Coupled.ite
      (fun _ => (inStep_readZero .u8 _).seq fun _ => (inStep_readZero .u8 _).seq fun _ =>
        inStep_pure _)
      fun _ => inStep_readZero .u16 _

theorem inStep_calcDirectIndirect : InStep A mixed calcDirectIndirect calcDirectIndirect :=
  inStep_operand (lowBits_add 1) fun _ => (inStep_getCore fun _ _ h => h.d).seq fun _ =>
    (inStep_readZero .u16 _).seq fun _ =>
    (inStep_getCore fun _ _ h => h.dataSegmentBase).seq fun _ => inStep_pure _

theorem inStep_calcDirectIndirectX (emulation : Bool) :
    InStep A mixed (calcDirectIndirectX emulation) (calcDirectIndirectX emulation) :=
  (inStep_calcDirect _ _).seq fun _ => (inStep_readZeroOp _ .u16 _).seq fun _ =>
    (inStep_getCore fun _ _ h => h.dataSegmentBase).seq fun _ => inStep_pure _

theorem inStep_calcDirectIndirectY (check emulation : Bool) :
    InStep A mixed (calcDirectIndirectY check emulation) (calcDirectIndirectY check emulation) :=
  (inStep_calcDirect _ _).seq fun _ => (inStep_readZeroOp _ .u16 _).seq fun _ =>
    (inStep_getCore fun _ _ h => h.y).seq fun _ =>
    (inStep_getCore fun _ _ h => h.modeLongXy).seq fun _ =>
    (Coupled.when fun _ => inStep_internalOp _).seq fun _ =>
    (inStep_getCore fun _ _ h => h.dataSegmentBase).seq fun _ => inStep_pure _

theorem inStep_calcDirectIndirectLong :
    InStep A mixed calcDirectIndirectLong calcDirectIndirectLong :=
  inStep_operand (lowBits_add 1) fun _ => (inStep_getCore fun _ _ h => h.d).seq fun _ =>
    (inStep_readZero .u16 _).seq fun _ => (inStep_readZero .u8 _).seq fun _ => inStep_pure _

theorem inStep_calcDirectIndirectLongY :
    InStep A mixed calcDirectIndirectLongY calcDirectIndirectLongY :=
  inStep_calcDirectIndirectLong.seq fun _ => (inStep_getCore fun _ _ h => h.y).seq fun _ =>
    inStep_pure _

theorem inStep_calcStack : InStep A mixed calcStack calcStack :=
  inStep_operand (lowBits_add 1) fun _ => (inStep_getCore fun _ _ h => h.sp).seq fun _ =>
    inStep_pure _

theorem inStep_calcStackY : InStep A mixed calcStackY calcStackY :=
  inStep_operand (lowBits_add 1) fun _ => (inStep_getCore fun _ _ h => h.sp).seq fun _ =>
    (inStep_readZero .u16 _).seq fun _ =>
    (inStep_getCore fun _ _ h => h.dataSegmentBase).seq fun _ =>
    (inStep_getCore fun _ _ h => h.y).seq fun _ => inStep_pure _

theorem inStep_calcEffectiveAddress (k : AddrKind) (hk : k.access ≠ .immediate) :
    InStep A mixed k.calcEffectiveAddress k.calcEffectiveAddress := by
  cases k with
  | a => exact inStep_pure _
  | imm => exact absurd rfl hk
  | abs => exact inStep_calcAbs _ _
  | absX => exact inStep_calcAbs _ _
  | absY => exact inStep_calcAbs _ _
  | absLong => exact inStep_calcAbsLong
  | absLongX => exact inStep_calcAbsLongX
  | direct => exact inStep_calcDirect _ _
  | directX => exact inStep_calcDirect _ _
  | directY => exact inStep_calcDirect _ _
  | directIndirect => exact inStep_calcDirectIndirect
  | directIndirectX => exact inStep_calcDirectIndirectX _
  | directIndirectY => exact inStep_calcDirectIndirectY _ _
  | directIndirectLong => exact inStep_calcDirectIndirectLong
  | directIndirectLongY => exact inStep_calcDirectIndirectLongY
  | stack => exact inStep_calcStack
  | stackY => exact inStep_calcStackY

/-- The address of an immediate operand is counted from `ip`, of which only 16 bits are known. -/
theorem coupled_imm (size : Size) : Coupled (Machine.Alike A mixed)
    (fun a b : CpuAddr => a.setWidth 16 = b.setWidth 16)
    (imm size).calcEffectiveAddress (imm size).calcEffectiveAddress := by
  intro m m' hm
  exact ⟨lowBits_add 1 _ _ hm.core.pc, hm⟩

end AddrKind

namespace AddrMode

theorem kind_of_immediate {k : AddrKind} (h : k.access = .immediate) : ∃ s, k = .imm s := by
  cases k <;> first | exact ⟨_, rfl⟩ | exact absurd h nofun

theorem inStep_read (m : AddrMode) (s : Size) : InStep A mixed (m.read s) (m.read s) := by
  have hk : m.kind.access ≠ .immediate → InStep A mixed m.kind.calcEffectiveAddress
      m.kind.calcEffectiveAddress := AddrKind.inStep_calcEffectiveAddress m.kind
  unfold read
  cases ha : m.kind.access with
  | accumulator => exact inStep_get .a s
  | immediate =>
    obtain ⟨size, hm⟩ := kind_of_immediate ha
    rw [hm]
    exact (AddrKind.coupled_imm size).bind fun _ _ hip => inStep_readPBR s hip
  | raw =>
    rw [ha] at hk
    exact (hk nofun).seq fun _ => inStep_readRaw _ _
  | zero emulation =>
    rw [ha] at hk
    exact (hk nofun).seq fun _ => AddrKind.inStep_readZeroOp _ _ _

theorem inStep_write (m : AddrMode) {s : Size} (v : Val s) :
    InStep A mixed (m.write v) (m.write v) := by
  have hk : m.kind.access ≠ .immediate → InStep A mixed m.kind.calcEffectiveAddress
      m.kind.calcEffectiveAddress := AddrKind.inStep_calcEffectiveAddress m.kind
  unfold write
  cases ha : m.kind.access with
  | accumulator => exact inStep_set .a v
  | immediate => exact inStep_pure _
  | raw =>
    rw [ha] at hk
    exact (hk nofun).seq fun _ => inStep_writeRaw _ _
  | zero emulation =>
    rw [ha] at hk
    exact (hk nofun).seq fun _ => inStep_writeZero _ _

theorem inStep_modify (m : AddrMode) {fn : Val m.A → Exec β (Val m.A)}
    {fn' : Val m.A → Exec γ (Val m.A)} (hfn : ∀ v, InStep A mixed (fn v) (fn' v)) :
    InStep A mixed (m.modify fn) (m.modify fn') := by
  have hk : m.kind.access ≠ .immediate → InStep A mixed m.kind.calcEffectiveAddress
      m.kind.calcEffectiveAddress := AddrKind.inStep_calcEffectiveAddress m.kind
  unfold modify
  cases ha : m.kind.access with
  | accumulator => exact (inStep_get .a _).seq fun _ => (hfn _).seq fun _ => inStep_set .a _
  | immediate => exact inStep_pure _
  | raw =>
    rw [ha] at hk
    exact (hk nofun).seq fun _ => (inStep_readRaw _ _).seq fun _ => (hfn _).seq fun _ =>
      inStep_writeRaw _ _
  | zero emulation =>
    rw [ha] at hk
    exact (hk nofun).seq fun _ => (inStep_readZero _ _).seq fun _ => (hfn _).seq fun _ =>
      inStep_writeZero _ _

end AddrMode

theorem JmpAddr.inStep_calcEffectiveAddress (j : JmpAddr) :
    InStep A mixed j.calcEffectiveAddress j.calcEffectiveAddress := by
  cases j with
  | abs => exact AddrKind.inStep_calcAbs _ _
  | absLong => exact AddrKind.inStep_calcAbsLong
  | ind isLong wrap =>
    exact inStep_operand (lowBits_add 1) fun _ => (inStep_readLoHi _ _).seq fun _ =>
      Coupled.ite (fun _ => (inStep_readZero .u8 _).seq fun _ => inStep_pure _) fun _ =>
        inStep_pure _
  | indAbsX =>
    exact inStep_operand (lowBits_add 1) fun _ => (inStep_getCore fun _ _ h => h.x).seq fun _ =>
      (inStep_readPBR .u16 rfl).seq fun _ => inStep_pure _

end RetroCpu
