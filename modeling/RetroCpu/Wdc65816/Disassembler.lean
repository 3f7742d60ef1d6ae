import RetroCpu.Wdc65816.Cpu
import RetroCpu.Wdc65816.Mnemonics

/-!
# The disassembler

`DisassembleOneInstruction` reads the opcode, has the operation template write its text and
then reads the three bytes that follow, whatever the instruction's length.  The templates look
at their operand through `PeekU8` and `PeekU16`.  These call `sys->ReadByte` and leave the
clock alone, so a call moves the bus and nothing else: `disassembleOneInstruction_eq` says
which addresses it reads.

The order in which C++ evaluates the two peeks of `MVN` and `MVP` is open; here the first
operand comes first.
-/

namespace RetroCpu

open StateFn Machine

/-- `Disassembler::Config`. -/
structure Disassembler.Config where
  maxInstructionCount : BitVec 32 := 32
  includeAddr : Bool := true
  includeBytes : Bool := true

/-- `CpuInstruction`, with the four bytes of `bytes` that are written. -/
structure CpuInstruction where
  canonicalAddress : CpuAddr
  length : BitVec 32
  bytes : List Byte
  asmString : CString

variable {β : Type} [Bus β]

namespace Machine

/-- `PeekU8`. -/
def peekU8 (addr : CpuAddr) : Exec β Byte := fun m =>
  let r := Bus.readByte m.bus m.cycle addr
  (r.data, { m with bus := r.bus })

/-- `PeekU16`. -/
def peekU16 (addr : CpuAddr) : Exec β Word := do
  let lo ← peekU8 addr
  let hi ← peekU8 (addr + 1)
  return hi ++ lo

end Machine

/-- A number as `%0*X` prints it. -/
def formatX (width v : Nat) : CString :=
  List.leftpad width '0' ((Nat.toDigits 16 v).map Char.toUpper)

/-- `PeekU8` of an operand, as `%02X`. -/
def operandU8 (addr : CpuAddr) : Exec β CString := do
  let v ← peekU8 addr
  return formatX 2 v.toNat

/-- `PeekU16` of an operand, as `%0*X`. -/
def operandU16 (width : Nat) (addr : CpuAddr) : Exec β CString := do
  let v ← peekU16 addr
  return formatX width v.toNat

/-- `PeekU16` and `PeekU8` of a long address, as `%06X`. -/
def operandU24 (addr : CpuAddr) : Exec β CString := do
  let v ← peekU16 addr
  let bank ← peekU8 (addr + 2)
  return formatX 6 (bank ++ v).toNat

/-- What an addressing template writes around its operand. -/
def around (operand : Exec β CString) (mnemonic before after : CString) : Exec β CString := do
  let s ← operand
  return mnemonic ++ before ++ s ++ after

/-- `AddrMode::Disassemble`. -/
def AddrKind.disassemble (kind : AddrKind) (addr : CpuAddr) (mnemonic : CString) :
    Exec β CString :=
  match kind with
  | a => return mnemonic ++ " A".toList
  | imm .u8 => around (operandU8 (addr + 1)) mnemonic " #$".toList []
  | imm .u16 => around (operandU16 4 (addr + 1)) mnemonic " #$".toList []
  | abs => around (operandU16 4 (addr + 1)) mnemonic " $".toList []
  | absX _ => around (operandU16 4 (addr + 1)) mnemonic " $".toList ", X".toList
  | absY _ => around (operandU16 4 (addr + 1)) mnemonic " $".toList ", Y".toList
  | absLong => around (operandU24 (addr + 1)) mnemonic " $".toList []
  | absLongX => around (operandU24 (addr + 1)) mnemonic " $".toList ", X".toList
  | direct _ => around (operandU8 (addr + 1)) mnemonic " $".toList []
  | directX _ => around (operandU8 (addr + 1)) mnemonic " $".toList ", X".toList
  | directY _ => around (operandU8 (addr + 1)) mnemonic " $".toList ", Y".toList
  | directIndirect => around (operandU8 (addr + 1)) mnemonic " ($".toList ")".toList
  | directIndirectX _ => around (operandU8 (addr + 1)) mnemonic " ($".toList ", X)".toList
  | directIndirectY _ _ => around (operandU8 (addr + 1)) mnemonic " ($".toList "), Y".toList
  | directIndirectLong => around (operandU8 (addr + 1)) mnemonic " [$".toList "]".toList
  | directIndirectLongY => around (operandU8 (addr + 1)) mnemonic " [$".toList "], Y".toList
  | stack => around (operandU8 (addr + 1)) mnemonic " $".toList ", S".toList
  | stackY => around (operandU8 (addr + 1)) mnemonic " ($".toList ", S), Y".toList

/-- `Disassemble` of the addressing of `OpJmp`. -/
def JmpAddr.disassemble (mode : JmpAddr) (addr : CpuAddr) (mnemonic : CString) :
    Exec β CString :=
  match mode with
  | abs => AddrKind.abs.disassemble addr mnemonic
  | absLong => AddrKind.absLong.disassemble addr mnemonic
  | ind _ _ => around (operandU16 6 (addr + 1)) mnemonic " ($".toList ")".toList
  | indAbsX => around (operandU16 6 (addr + 1)) mnemonic " ($".toList "), X".toList

/-- `CondBranch::Disassemble`. -/
def BranchImpl.disassemble (impl : BranchImpl) (addr : CpuAddr) : Exec β CString := do
  let offset ← peekU8 (addr + 1)
  let target := (addr + 2 + (getOffset offset).setWidth 32) &&& 0xFFFF
  let taken ← getCore impl.doBranch
  return impl.kMnemonic ++ " ".toList ++ formatX 2 offset.toNat ++ " ($".toList ++
    formatX 4 target.toNat ++ (if taken then " +)".toList else " -)".toList)

/-- `Disassemble` of `MVN` and `MVP`. -/
def blockMoveDisassemble (addr : CpuAddr) (mnemonic : CString) : Exec β CString := do
  let first ← operandU8 (addr + 1)
  let second ← operandU8 (addr + 2)
  return mnemonic ++ " #$".toList ++ first ++ ",#$".toList ++ second

/-- `Disassemble` of an operation template, but for the step of `addr`. -/
def Op.disassemble (op : Op) (addr : CpuAddr) : Exec β CString :=
  match op with
  | tsb m | trb m | bit m | bitImm m | alu _ m | asl m | lsr m | ror m | rol m
  | incMem m | decMem m | load m _ _ | store m _ _ | stz m | adc m | sbc m | cmp m | cpx m
  | cpy m => m.kind.disassemble addr op.kMnemonic
  | jmp mode _ _ => mode.disassemble addr op.kMnemonic
  | rep => around (operandU8 (addr + 1)) "REP".toList " #$".toList []
  | sep => around (operandU8 (addr + 1)) "SEP".toList " #$".toList []
  | branch impl => impl.disassemble addr
  | brl => around (operandU16 4 (addr + 1)) "BRL".toList " $".toList []
  | incDecReg _ kReg _ =>
    return if kReg = .x ∨ kReg = .y then op.kMnemonic else "INC A".toList
  | mvn => blockMoveDisassemble addr "MVN".toList
  | mvp => blockMoveDisassemble addr "MVP".toList
  | pea => around (operandU16 4 (addr + 1)) "PEA".toList " #$".toList []
  | pei => around (operandU16 4 (addr + 1)) "PEI".toList " $".toList []
  | per => around (operandU16 4 (addr + 1)) "PER".toList " ".toList []
  | clc | sec | cli | sei | cld | sed | clv | push _ _ | pop _ _ | php | plp | phk | phb | plb
  | rts _ | rti | txs _ | tcs _ | moveReg _ _ _ | xba | xce | nop _ _ | wdm | wai | stp | brk
  | cop | alr | anc | lax _ | sax _ => return op.kMnemonic

namespace Machine

/-- `disassemble_fns[cpu_state.mode][opcode]`, for the opcode at an address. -/
def disassembleFn (m : Machine β) (addr : CpuAddr) : Option Op :=
  (execOps m.core.mode).at (peekU8 addr m).1

/-- The text of an instruction of `length` bytes at `start`. -/
def asmString (config : Disassembler.Config) (start : CpuAddr) (length : BitVec 32)
    (bytes : List Byte) (str : CString) : CString :=
  let addr := if config.includeAddr then formatX 6 start.toNat ++ ": ".toList else []
  let hex := bytes.flatMap fun b => formatX 2 b.toNat ++ " ".toList
  -- the bytes after the instruction are blanked
  let hex := hex.take (3 * length.toNat) ++ List.replicate (12 - 3 * length.toNat) ' '
  addr ++ (if config.includeBytes then hex else []) ++ str

/-- `DisassembleOneInstruction` with the function `op` of the table: the instruction, and the
address after it. -/
def disassembleOp (config : Disassembler.Config) (start : CpuAddr) (op : Op) :
    Exec β (CpuInstruction × CpuAddr) := do
  let opcode ← peekU8 start
  let str ← op.disassemble start
  let canonicalAddress := start + BitVec.ofNat 32 op.kBytes
  let length := canonicalAddress - start
  let b1 ← peekU8 (start + 1)
  let b2 ← peekU8 (start + 2)
  let b3 ← peekU8 (start + 3)
  let bytes := [opcode, b1, b2, b3]
  return (⟨start, length, bytes, asmString config start length bytes str⟩, canonicalAddress)

/-- `DisassembleOneInstruction`, or `none` where the table holds a null pointer. -/
def disassembleOneInstruction (config : Disassembler.Config) (canonicalAddress : CpuAddr)
    (m : Machine β) : Option ((CpuInstruction × CpuAddr) × Machine β) :=
  (m.disassembleFn canonicalAddress).map fun op => disassembleOp config canonicalAddress op m

/-- The loop of `Disassemble`, for `n` more rounds. -/
def disassembleLoop (config : Disassembler.Config) :
    Nat → CpuAddr → Machine β → Option ((List CpuInstruction × CpuAddr) × Machine β)
  | 0, addr, m => some (([], addr), m)
  | n + 1, addr, m => do
    let ((insn, addr), m) ← m.disassembleOneInstruction config addr
    let ((insns, addr), m) ← disassembleLoop config n addr m
    return ((insn :: insns, addr), m)

/-- `Disassembler::Disassemble`. -/
def disassemble (config : Disassembler.Config) (canonicalAddress : CpuAddr) (m : Machine β) :
    Option ((List CpuInstruction × CpuAddr) × Machine β) :=
  disassembleLoop config config.maxInstructionCount.toNat canonicalAddress m

/-! ### What is read -/

/-- The machine after reads that the clock does not notice. -/
def afterReads (m : Machine β) (addrs : List CpuAddr) : Machine β :=
  { m with bus := addrs.foldl (fun b a => (Bus.readByte b m.cycle a).bus) m.bus }

theorem afterReads_append (m : Machine β) (l l' : List CpuAddr) :
    m.afterReads (l ++ l') = (m.afterReads l).afterReads l' := by
  simp only [afterReads, List.foldl_append]

/-- `x` reads the addresses of `l` and does nothing else. -/
def Reads {α : Type} (l : List CpuAddr) (x : Exec β α) : Prop := ∀ m, (x m).2 = m.afterReads l

theorem reads_pure {α : Type} (a : α) : Reads [] (pure a : Exec β α) := fun _ => rfl

theorem reads_getCore {α : Type} (f : Core → α) : Reads [] (getCore (β := β) f) := fun _ => rfl

theorem reads_peekU8 (addr : CpuAddr) : Reads [addr] (peekU8 (β := β) addr) := fun _ => rfl

theorem Reads.bind {α γ : Type} {l l' : List CpuAddr} {x : Exec β α} {f : α → Exec β γ}
    (hx : Reads l x) (hf : ∀ a, Reads l' (f a)) : Reads (l ++ l') (x >>= f) := by
  intro m
  rw [bind_apply, hf, hx, afterReads_append]

/-- The value is only put into other words. -/
theorem Reads.map {α γ : Type} {l : List CpuAddr} {x : Exec β α} {f : α → γ} (hx : Reads l x) :
    Reads l (x >>= fun a => pure (f a)) := hx

theorem reads_peekU16 (addr : CpuAddr) : Reads [addr, addr + 1] (peekU16 (β := β) addr) :=
  (reads_peekU8 addr).bind fun _ => (reads_peekU8 (addr + 1)).map

theorem reads_around {l : List CpuAddr} {operand : Exec β CString} (h : Reads l operand)
    (mnemonic before after : CString) : Reads l (around operand mnemonic before after) := h.map

end Machine

/-- The addresses of `n` operand bytes. -/
def operandAddrs (n : Nat) (addr : CpuAddr) : List CpuAddr :=
  [addr + 1, addr + 2, addr + 3].take n

theorem reads_operandU8 (addr : CpuAddr) : Reads [addr] (operandU8 (β := β) addr) :=
  (reads_peekU8 addr).map

theorem add_one_add_one (addr : CpuAddr) : addr + 1 + 1 = addr + 2 := by
  rw [BitVec.add_assoc]
  rfl

theorem reads_operandU16 (width : Nat) (addr : CpuAddr) :
    Reads (operandAddrs 2 addr) (operandU16 (β := β) width (addr + 1)) := by
  have h := (reads_peekU16 (β := β) (addr + 1)).map (f := fun v => formatX width v.toNat)
  rw [add_one_add_one] at h
  exact h

theorem reads_operandU24 (addr : CpuAddr) :
    Reads (operandAddrs 3 addr) (operandU24 (β := β) (addr + 1)) := by
  have hbank : addr + 1 + 2 = addr + 3 := by
    rw [BitVec.add_assoc]
    rfl
  have hbind : operandU24 (β := β) (addr + 1) = peekU16 (addr + 1) >>= fun v =>
      peekU8 (addr + 3) >>= fun bank => pure (formatX 6 (bank ++ v).toNat) := by
    rw [operandU24, hbank]
  have haddrs : operandAddrs 3 addr = [addr + 1, addr + 1 + 1] ++ [addr + 3] := by
    rw [add_one_add_one]
    rfl
  rw [hbind, haddrs]
  exact (reads_peekU16 (addr + 1)).bind fun v => (reads_peekU8 (addr + 3)).map

/-- A template looks at the bytes of its operand. -/
theorem AddrKind.reads_disassemble (kind : AddrKind) (addr : CpuAddr) (mnemonic : CString) :
    Reads (operandAddrs kind.bytes addr) (kind.disassemble (β := β) addr mnemonic) := by
  cases kind with
  | a => exact reads_pure _
  | imm effectiveSize =>
    cases effectiveSize with
    | u8 => exact reads_around (reads_operandU8 (addr + 1)) _ _ _
    | u16 => exact reads_around (reads_operandU16 4 addr) _ _ _
  | abs | absX | absY => exact reads_around (reads_operandU16 4 addr) _ _ _
  | absLong | absLongX => exact reads_around (reads_operandU24 addr) _ _ _
  | _ => exact reads_around (reads_operandU8 (addr + 1)) _ _ _

/-- The operand bytes that `Disassemble` of the addressing of `OpJmp` looks at. -/
def JmpAddr.peeked : JmpAddr → Nat
  | abs | ind _ _ | indAbsX => 2
  | absLong => 3

theorem JmpAddr.reads_disassemble (mode : JmpAddr) (addr : CpuAddr) (mnemonic : CString) :
    Reads (operandAddrs mode.peeked addr) (mode.disassemble (β := β) addr mnemonic) := by
  cases mode with
  | abs => exact AddrKind.reads_disassemble .abs addr mnemonic
  | absLong => exact AddrKind.reads_disassemble .absLong addr mnemonic
  | ind | indAbsX => exact reads_around (reads_operandU16 6 addr) _ _ _

theorem BranchImpl.reads_disassemble (impl : BranchImpl) (addr : CpuAddr) :
    Reads (operandAddrs 1 addr) (impl.disassemble (β := β) addr) :=
  (reads_peekU8 (addr + 1)).bind fun _ => (reads_getCore impl.doBranch).map

theorem reads_blockMoveDisassemble (addr : CpuAddr) (mnemonic : CString) :
    Reads (operandAddrs 2 addr) (blockMoveDisassemble (β := β) addr mnemonic) :=
  (reads_operandU8 (addr + 1)).bind fun _ => (reads_operandU8 (addr + 2)).map

namespace Op

/-- How many bytes of its operand `Disassemble` looks at. -/
def peeked : Op → Nat
  | tsb m | trb m | bit m | bitImm m | alu _ m | asl m | lsr m | ror m | rol m
  | incMem m | decMem m | load m _ _ | store m _ _ | stz m | adc m | sbc m | cmp m | cpx m
  | cpy m => m.kind.bytes
  | jmp mode _ _ => mode.peeked
  | rep | sep | branch _ => 1
  | brl | mvn | mvp | pea | pei | per => 2
  | clc | sec | cli | sei | cld | sed | clv | push _ _ | pop _ _ | php | plp | phk | phb | plb
  | rts _ | rti | incDecReg _ _ _ | txs _ | tcs _ | moveReg _ _ _ | xba | xce | nop _ _ | wdm
  | wai | stp | brk | cop | alr | anc | lax _ | sax _ => 0

theorem reads_disassemble (op : Op) (addr : CpuAddr) :
    Reads (operandAddrs op.peeked addr) (op.disassemble (β := β) addr) := by
  cases op with
  | tsb m | trb m | bit m | bitImm m | asl m | lsr m | ror m | rol m | incMem m | decMem m
  | stz m | adc m | sbc m | cmp m | cpx m | cpy m => exact m.kind.reads_disassemble addr _
  | alu _ m => exact m.kind.reads_disassemble addr _
  | load m | store m => exact m.kind.reads_disassemble addr _
  | jmp mode => exact mode.reads_disassemble addr _
  | rep | sep => exact reads_around (reads_operandU8 (addr + 1)) _ _ _
  | branch impl => exact impl.reads_disassemble addr
  | brl | pea | pei | per => exact reads_around (reads_operandU16 4 addr) _ _ _
  | mvn | mvp => exact reads_blockMoveDisassemble addr _
  | _ => exact reads_pure _

/-- The addresses that `DisassembleOneInstruction` reads, in order. -/
def peekAddrs (op : Op) (start : CpuAddr) : List CpuAddr :=
  [start] ++ (operandAddrs op.peeked start ++ [start + 1, start + 2, start + 3])

end Op

namespace Machine

theorem reads_disassembleOp (config : Disassembler.Config) (start : CpuAddr) (op : Op) :
    Reads (op.peekAddrs start) (disassembleOp (β := β) config start op) :=
  (reads_peekU8 start).bind fun _ => (op.reads_disassemble start).bind fun _ =>
    (reads_peekU8 (start + 1)).bind fun _ => (reads_peekU8 (start + 2)).bind fun _ =>
      (reads_peekU8 (start + 3)).map

/-- **`DisassembleOneInstruction` reads and does nothing else**, in the machine that it leaves
behind as in the length that it finds. -/
theorem disassembleOneInstruction_eq (config : Disassembler.Config) (start : CpuAddr)
    (m : Machine β) {op : Op} (h : m.disassembleFn start = some op) :
    ∃ insn, m.disassembleOneInstruction config start =
      some ((insn, start + BitVec.ofNat 32 op.kBytes), m.afterReads (op.peekAddrs start)) := by
  refine ⟨(disassembleOp config start op m).1.1, ?_⟩
  rw [disassembleOneInstruction, h, ← reads_disassembleOp config start op m]
  rfl

end Machine

end RetroCpu
