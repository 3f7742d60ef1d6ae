import RetroCpu.Wdc65816.Addressing

/-!
# Executing an instruction

`Op.exec` is the `Exec` function of each operation template, in the order of
`cpu_65c816_instructions.inl`, and `doInterrupt` is the sequence that `BRK` and
`COP` share with the interrupt lines.
-/

namespace RetroCpu

open WordBytes Machine StateFn

/-- `WDC65C816::InterruptType`. -/
inductive InterruptType
  | brk
  | cop
  | irq
  | nmi
  deriving DecidableEq, Repr

/-- The vector `DoInterrupt` reads. -/
def InterruptType.vector (type : InterruptType) (emulation : Bool) : CpuAddr :=
  match type with
  | brk => if emulation then 0xFFFE else 0xFFE6
  | cop => if emulation then 0xFFF4 else 0xFFE4
  | irq => if emulation then 0xFFFE else 0xFFEE
  | nmi => if emulation then 0xFFFA else 0xFFEA

/-- The status byte `DoInterrupt` pushes for the status register `status`. -/
def InterruptType.pushedStatus (type : InterruptType) (emulation : Bool) (status : Byte) : Byte :=
  if emulation then
    match type with
    | irq => (status &&& 0xCF) ||| 0x10
    | brk | nmi => (status &&& 0xCF) ||| 0x30
    | cop => (status &&& 0xCF) ||| 0x20
  else status

namespace Core

/-- `code_segment_base >> 16` as a byte, and a byte shifted back into a bank. -/
def setProgramBank (c : Core) (bank : Byte) : Core :=
  { c with codeSegmentBase := bank.setWidth 32 <<< 16 }

/-- The result and the carries of a decimal adjustment, shared by `AddDec` and `SubDec`. -/
def decimalAdjust (result reg data : BitVec 32) : BitVec 32 :=
  let carries := ((result ^^^ reg ^^^ data) >>> 1) &&& 0x88888888
  let adjInd := carries ||| ((result &&& ((result ||| (result <<< 1)) <<< 1)) &&& 0x88888888)
  let adj := (adjInd ||| (adjInd >>> 1)) >>> 1
  result + adj

/-- `OpAdc::AddDec`. -/
def addDec (c : Core) {s : Size} (data : Val s) : Core :=
  let reg := c.get .a s
  let result := reg.toU32 + data.toU32 + ((c.carry >>> 1) &&& 1)
  let result := decimalAdjust result reg.toU32 data.toU32
  let cn := result >>> (8 * s.bytes - 1)
  let c := { c with zero := (Val.ofBits s result).toU32, carry := cn, negative := cn }
  c.set .a (Val.ofBits s result)

/-- `other_flags` with the overflow bit replaced. -/
def setOverflow (c : Core) (v : Bool) : Core :=
  { c with otherFlags := (c.otherFlags &&& 0xFFBF) ||| if v then 0x40 else 0 }

/-- `OpAdc::AddBin`. -/
def addBin (c : Core) {s : Size} (data : Val s) : Core :=
  let kHighBit : BitVec 32 := 1 <<< (8 * s.bytes - 1)
  let reg := c.get .a s
  let result := reg.toU32 + data.toU32 + ((c.carry >>> 1) &&& 1)
  let cn := result >>> (8 * s.bytes - 1)
  let c := { c with zero := (Val.ofBits s result).toU32, carry := cn, negative := cn }
  let c := c.setOverflow
    ((reg.toU32 ^^^ result) &&& ~~~(reg.toU32 ^^^ data.toU32) &&& kHighBit != 0)
  c.set .a (Val.ofBits s result)

/-- `OpSbc::SubDec`. -/
def subDec (c : Core) {s : Size} (data : Val s) : Core :=
  let reg := c.get .a s
  let result := reg.toU32 + Val.toU32 (data ^^^ BitVec.allOnes _) + ((c.carry >>> 1) &&& 1)
  let result := decimalAdjust result reg.toU32 data.toU32
  let cn := result >>> (8 * s.bytes - 1)
  let c := { c with zero := (Val.ofBits s result).toU32, carry := cn, negative := cn }
  c.set .a (Val.ofBits s result)

/-- `OpSbc::SubBin`. -/
def subBin (c : Core) {s : Size} (data : Val s) : Core :=
  let kHighBit : BitVec 32 := 1 <<< (8 * s.bytes - 1)
  let reg := c.get .a s
  let result := reg.toU32 - data.toU32 - 1 + ((c.carry >>> 1) &&& 1)
  let cn := result >>> (8 * s.bytes - 1)
  let c := { c with zero := result, carry := ~~~cn, negative := cn }
  let c := c.setOverflow
    ((reg.toU32 ^^^ result) &&& (reg.toU32 ^^^ data.toU32) &&& kHighBit != 0)
  c.set .a (Val.ofBits s result)

/-- `OpCmp::DoCmp`. -/
def doCmp (c : Core) {s : Size} (reg data : Val s) : Core :=
  let c := c.setNZ (reg - data)
  { c with carry := if data ≤ reg then 2 else 0 }

/-- `OpLsr::SetFlags`. -/
def lsrSetFlags (c : Core) {s : Size} (v : Val s) : Core :=
  { c with zero := Val.toU32 (v >>> 1), negative := 0, carry := Val.toU32 (v &&& 1) <<< 1 }

/-- The flags and widths part of `REP`. -/
def rep (c : Core) (flags : Byte) : Core :=
  let c := { c with
    otherFlags := c.otherFlags &&& ~~~(flags.setWidth 32)
    zero := c.zero ||| (flags &&& 2).setWidth 32
    carry := if flags &&& 1 ≠ 0 then 0 else c.carry
    interrupts := if flags &&& 4 ≠ 0 then 1 else c.interrupts
    negative := if flags &&& 0x80 ≠ 0 then 0 else c.negative }
  if (flags &&& 0x10 ≠ 0 ∧ !c.modeLongXy) ∨ (flags &&& 0x20 ≠ 0 ∧ !c.modeLongA) then
    let c := if flags &&& 0x10 ≠ 0 then { c with modeLongXy := true } else c
    let c := if flags &&& 0x20 ≠ 0 then { c with modeLongA := true } else c
    c.onUpdateMode
  else c

/-- The flags and widths part of `SEP`. -/
def sep (c : Core) (flags : Byte) : Core :=
  let c := { c with
    otherFlags := c.otherFlags ||| flags.setWidth 32
    carry := if flags &&& 1 ≠ 0 then 2 else c.carry
    zero := if flags &&& 2 ≠ 0 then 0 else c.zero
    interrupts := if flags &&& 4 ≠ 0 then 0 else c.interrupts
    negative := if flags &&& 0x80 ≠ 0 then 1 else c.negative }
  if (flags &&& 0x10 ≠ 0 ∧ c.modeLongXy) ∨ (flags &&& 0x20 ≠ 0 ∧ c.modeLongA) then
    let c := if flags &&& 0x10 ≠ 0 then { c with modeLongXy := false } else c
    let c := if flags &&& 0x20 ≠ 0 then { c with modeLongA := false } else c
    c.onUpdateMode
  else c

/-- `XCE`, after the opcode byte. -/
def xce (c : Core) : Core :=
  if (c.carry &&& 2 != 0) = c.modeEmulation then c
  else ({ c with modeEmulation := !c.modeEmulation }).onUpdateMode

end Core

/-- `DoBranch`. -/
def BranchImpl.doBranch (impl : BranchImpl) (c : Core) : Bool :=
  match impl with
  | bcc => c.carry &&& 2 == 0
  | bcs => c.carry &&& 2 != 0
  | beq => c.zero == 0
  | bmi => c.negative &&& 1 != 0
  | bne => c.zero != 0
  | bpl => c.negative &&& 1 == 0
  | bra => true
  | bvc => c.otherFlags &&& 0x40 == 0
  | bvs => c.otherFlags &&& 0x40 != 0

/-- `CondBranch::GetOffset`. -/
def BranchImpl.getOffset (offset : Byte) : Word :=
  if offset &&& 0x80 ≠ 0 then offset.setWidth 16 ||| 0xFF00 else offset.setWidth 16

/-- `DoAluOp`. -/
def AluImpl.doAluOp (impl : AluImpl) {s : Size} (a v : Val s) : Val s :=
  match impl with
  | or => a ||| v
  | and => a &&& v
  | xor => a ^^^ v

variable {β : Type} [Bus β]

/-- The first half of `DoInterrupt`: the frame on the stack. -/
def Machine.pushInterruptFrame (type : InterruptType) : Exec β Unit := do
  let emulation ← getCore (·.modeEmulation)
  when (!emulation) do
    push (s := .u8) (← getCore (·.programBank))
  let pc ← getCore (·.pc)
  push (s := .u16) pc
  let status ← getCore (·.getStatusRegister)
  push (s := .u8) (type.pushedStatus emulation status)

/-- The second half of `DoInterrupt`: the jump to the handler. -/
def Machine.enterHandler (type : InterruptType) : Exec β Unit := do
  let emulation ← getCore (·.modeEmulation)
  let pc ← readRaw .u16 (type.vector emulation)
  update fun c =>
    { c with
      ip := pc.toU32
      codeSegmentBase := 0
      interrupts := 0
      otherFlags := if c.modeNative6502 then c.otherFlags else c.otherFlags &&& 0xFFF7 }
  when (type == .irq || type == .nmi) do
    modify fun m => { m with bus := Bus.irqTaken m.bus (if type = .irq then 1 else 2) }

/-- `DoInterrupt`. -/
def Machine.doInterrupt (type : InterruptType) : Exec β Unit := do
  pushInterruptFrame type
  enterHandler type

/-- `CalcEffectiveAddress` of the addressing of a jump. -/
def JmpAddr.calcEffectiveAddress : JmpAddr → Exec β CpuAddr
  | abs => AddrKind.calcAbs none false
  | absLong => AddrKind.calcAbsLong
  | ind isLong emulationWrapAddr => do
    let v ← readPBR .u16 ((← getCore (·.ip)) + 1)
    let addr : CpuAddr := v.toU32
    let newPc ← readLoHi (addr &&& 0xFFFF)
      (if emulationWrapAddr then (addr &&& 0xFF00) ||| ((addr + 1) &&& 0xFF)
        else (addr + 1) &&& 0xFFFF)
    let ret : CpuAddr := newPc.setWidth 32
    if isLong then
      let bank ← readZero .u8 (addr + 2)
      return ret + bank.toU32 <<< 16
    else return ret
  | indAbsX => do
    let v ← readPBR .u16 ((← getCore (·.ip)) + 1)
    let newPc ← readPBR .u16 (v.toU32 + (← getCore (·.x)).setWidth 32)
    return newPc.toU32

namespace Op

/-- The cycles a read-modify-write instruction spends between its read and its write. -/
def modifyCycles (m : AddrMode) : Exec β Unit := do
  internalOp
  when m.kind.maybeHasConditionalCycle internalOp

/-- `OpJmp::Exec`. -/
def execJmp (addrMode : JmpAddr) (pushPc isLongJump : Bool) : Exec β Unit := do
  let addr ← addrMode.calcEffectiveAddress
  when pushPc do
    when isLongJump do
      Machine.push (s := .u8) (← getCore (·.programBank))
    let ip ← getCore (·.ip)
    Machine.push (s := .u16)
      ((ip + BitVec.ofNat 32 (jmp addrMode pushPc isLongJump).kBytes - 1).setWidth 16)
  when isLongJump do
    update fun c => { c with codeSegmentBase := addr &&& 0xFF0000 }
  internalOp (if pushPc then 1 else 0)
  update fun c => { c with ip := addr }

/-- `OpRts::Exec`. -/
def execRts (isLong : Bool) : Exec β Unit := do
  let v ← Machine.pop .u16
  update fun c => { c with ip := v.toU32 + 1 }
  when isLong do
    let p ← Machine.pop .u8
    update (·.setProgramBank p)
  internalOp (if isLong then 2 else 3)

/-- `RTI::Exec`. -/
def execRti : Exec β Unit := do
  let flags ← Machine.pop .u8
  update (·.setStatusRegister flags)
  let pc ← Machine.pop .u16
  internalOp 2
  update fun c => { c with ip := pc.toU32 }
  let emulation ← getCore (·.modeEmulation)
  when (!emulation) do
    let bank ← Machine.pop .u8
    update (·.setProgramBank bank)

/-- `OpPop::Exec`. -/
def execPop (kReg : Reg) (size : Size) : Exec β Unit := do
  let v ← (if kReg = .a then popOld size else Machine.pop size)
  internalOp 2
  update (·.set kReg v)
  setNZ v
  addIp 1

/-- `PLP::Exec`. -/
def execPlp : Exec β Unit := do
  let v ← popOld .u8
  internalOp 2
  addIp 1
  update (·.setStatusRegister v)

/-- `CondBranch::Exec`. -/
def execBranch (impl : BranchImpl) : Exec β Unit := do
  let offset ← readPBR .u8 ((← getCore (·.ip)) + 1)
  let taken ← getCore impl.doBranch
  when taken do
    internalOp
    addIp ((BranchImpl.getOffset offset).setWidth 32)
  addIp 2

/-- `OpLoad::Exec`. -/
def execLoad (m : AddrMode) (kReg : Reg) (effectiveSize : Size) : Exec β Unit := do
  let reg ← m.read effectiveSize
  update (·.set kReg reg)
  setNZ reg
  addIp (BitVec.ofNat 32 (load m kReg effectiveSize).kBytes)

/-- `OpStore::Exec`. -/
def execStore (m : AddrMode) (kReg : Reg) (effectiveSize : Size) : Exec β Unit := do
  let reg ← getCore (·.get kReg effectiveSize)
  m.write reg
  -- Stores always execute their conditional cycle
  when m.kind.maybeHasConditionalCycle internalOp
  addIp (BitVec.ofNat 32 (store m kReg effectiveSize).kBytes)

/-- `MVN::Exec` and `MVP::Exec`, which differ in the increment. -/
def execBlockMove (increment : Word) : Exec β Unit := do
  let arg ← readPBR .u16 ((← getCore (·.ip)) + 1)
  let done ← blockMove ((hi arg).setWidth 32) ((lo arg).setWidth 32) increment
  when done (addIp 3)

/-- `Exec` of each operation template. -/
def exec (op : Op) : Exec β Unit := do
  let kBytes : CpuAddr := BitVec.ofNat 32 op.kBytes
  match op with
  | tsb m =>
    m.modify fun mem => do
      let a ← getCore (·.get .a m.A)
      update fun c => { c with zero := Val.toU32 (a &&& mem) }
      return mem ||| a
    addIp kBytes
  | trb m =>
    m.modify fun mem => do
      let a ← getCore (·.get .a m.A)
      update fun c => { c with zero := Val.toU32 (a &&& mem) }
      return mem &&& ~~~a
    addIp kBytes
  | bit m =>
    let mem ← m.read m.A
    let a ← getCore (·.get .a m.A)
    update fun c => { c with zero := Val.toU32 (a &&& mem) }
    let mem := if 1 < m.A.bytes then mem >>> 8 else mem
    update fun c =>
      { c with
        negative := Val.toU32 (mem >>> 7)
        otherFlags := (c.otherFlags &&& 0xFFBF) ||| Val.toU32 (mem &&& 0x40) }
    addIp kBytes
  | bitImm m =>
    let mem ← m.read m.A
    let a ← getCore (·.get .a m.A)
    update fun c => { c with zero := Val.toU32 (a &&& mem) }
    addIp kBytes
  | alu impl m =>
    let mem ← m.read m.A
    let a ← getCore (·.get .a m.A)
    let a := impl.doAluOp a mem
    update (·.set .a a)
    setNZ a
    addIp kBytes
  | asl m =>
    m.modify fun a => do
      let b := a <<< 1
      setNZ b
      update fun c => { c with carry := Val.toU32 (a >>> (8 * m.A.bytes - 2)) }
      modifyCycles m
      return b
    addIp kBytes
  | lsr m =>
    m.modify fun a => do
      update (·.lsrSetFlags a)
      modifyCycles m
      return a >>> 1
    addIp kBytes
  | ror m =>
    m.modify fun a => do
      let carry ← getCore (·.carry)
      let b := Val.ofBits m.A (Val.toU32 (a >>> 1) ||| ((carry &&& 2) <<< (8 * m.A.bytes - 2)))
      setNZ b
      update fun c => { c with carry := Val.toU32 (a &&& 1) <<< 1 }
      modifyCycles m
      return b
    addIp kBytes
  | rol m =>
    m.modify fun a => do
      let carry ← getCore (·.carry)
      let b := Val.ofBits m.A (Val.toU32 a <<< 1 ||| ((carry &&& 2) >>> 1))
      setNZ b
      update fun c => { c with carry := Val.toU32 (a >>> (8 * m.A.bytes - 2)) }
      modifyCycles m
      return b
    addIp kBytes
  | clc => do update fun c => { c with carry := 0 }; addIp kBytes; internalOp
  | sec => do update fun c => { c with carry := 2 }; addIp kBytes; internalOp
  | cli => do update fun c => { c with interrupts := 1 }; addIp kBytes; internalOp
  | sei => do update fun c => { c with interrupts := 0 }; addIp kBytes; internalOp
  | cld => do
    update fun c => { c with otherFlags := c.otherFlags &&& 0xFFF7 }; addIp kBytes; internalOp
  | sed => do
    update fun c => { c with otherFlags := c.otherFlags ||| 0x8 }; addIp kBytes; internalOp
  | clv => do
    update fun c => { c with otherFlags := c.otherFlags &&& 0xFFBF }; addIp kBytes; internalOp
  | rep =>
    let flags ← readPBR .u8 ((← getCore (·.ip)) + 1)
    addIp kBytes
    update (·.rep flags)
  | sep =>
    let flags ← readPBR .u8 ((← getCore (·.ip)) + 1)
    addIp kBytes
    update (·.sep flags)
  | push kReg size =>
    Machine.push (← getCore (·.get kReg size))
    internalOp
    addIp kBytes
  | pop kReg size => execPop kReg size
  | php =>
    Machine.push (s := .u8) (← getCore (·.getStatusRegister))
    internalOp
    addIp kBytes
  | plp => execPlp
  | phk =>
    Machine.push (s := .u8) (← getCore (·.programBank))
    internalOp
    addIp kBytes
  | phb =>
    Machine.push (s := .u8) (← getCore (·.dataBank))
    addIp kBytes
  | plb =>
    let v ← Machine.pop .u8
    update fun c => { c with dataSegmentBase := v.toU32 <<< 16 }
    internalOp 2
    setNZ v
    addIp kBytes
  | jmp addr pushPc isLongJump => execJmp addr pushPc isLongJump
  | rts isLong => execRts isLong
  | rti => execRti
  | branch impl => execBranch impl
  | brl =>
    let offset ← readPBR .u16 ((← getCore (·.ip)) + 1)
    addIp (offset.toU32 + 3)
  | incMem m =>
    m.modify fun v => do
      modifyCycles m
      setNZ (v + 1)
      return v + 1
    addIp kBytes
  | decMem m =>
    m.modify fun v => do
      modifyCycles m
      setNZ (v - 1)
      return v - 1
    addIp kBytes
  | incDecReg effectiveSize kReg delta =>
    let reg ← getCore (·.get kReg effectiveSize)
    let reg := reg + BitVec.ofInt _ delta
    update (·.set kReg reg)
    internalOp
    setNZ reg
    addIp kBytes
  | load m kReg effectiveSize => execLoad m kReg effectiveSize
  | store m kReg effectiveSize => execStore m kReg effectiveSize
  | stz m =>
    m.write (0 : Val m.A)
    addIp kBytes
  | adc m =>
    let v ← m.read m.A
    update fun c =>
      if c.supportsDecimal && c.otherFlags &&& 0x8 != 0 then c.addDec v else c.addBin v
    addIp kBytes
  | sbc m =>
    let v ← m.read m.A
    update fun c =>
      if c.supportsDecimal && c.otherFlags &&& 0x8 != 0 then c.subDec v else c.subBin v
    addIp kBytes
  | cmp m =>
    let v ← m.read m.A
    addIp kBytes
    update fun c => c.doCmp (c.get .a m.A) v
  | cpx m =>
    let v ← m.read m.XY
    addIp kBytes
    update fun c => c.doCmp (c.get .x m.XY) v
  | cpy m =>
    let v ← m.read m.XY
    addIp kBytes
    update fun c => c.doCmp (c.get .y m.XY) v
  | txs emulation =>
    update fun c => { c with sp := if emulation then (1 : Byte) ++ lo c.x else c.x }
    addIp kBytes
    internalOp
  | tcs emulation =>
    update fun c => { c with sp := if emulation then (1 : Byte) ++ lo c.a else c.a }
    addIp kBytes
    internalOp
  | moveReg effectiveSize source dest =>
    let v ← getCore (·.get source effectiveSize)
    update (·.set dest v)
    setNZ v
    addIp kBytes
    internalOp
  | mvn => execBlockMove 1
  | mvp => execBlockMove 0xFFFF
  | xba =>
    addIp kBytes
    update fun c => { c with a := lo c.a ++ hi c.a }
    setNZ (lo (← getCore (·.a)))
  | xce =>
    addIp kBytes
    update (·.xce)
  | nop n _ =>
    internalOp (BitVec.ofNat 32 n)
    addIp kBytes
  | wdm => addIp kBytes
  | pea =>
    let v ← readPBR .u16 ((← getCore (·.ip)) + 1)
    Machine.push v
    addIp kBytes
  | pei =>
    let addr ← (addrDirect .u16 .u16).read .u16
    addIp kBytes
    Machine.push addr
  | per =>
    let v : Word ← readPBR .u16 ((← getCore (·.ip)) + 1)
    addIp kBytes
    let pc ← getCore (·.pc)
    Machine.push (s := .u16) (v + pc)
  | wai => addIp kBytes
  | stp => addIp kBytes
  | brk => do addIp kBytes; doInterrupt .brk
  | cop => do addIp kBytes; doInterrupt .cop
  | alr =>
    let v : Byte ← readPBR .u8 (← getCore (·.ip))
    update fun c => c.set .a (s := .u8) (lo c.a &&& v)
    update fun c => c.lsrSetFlags (s := .u8) (lo c.a)
    update fun c => c.set .a (s := .u8) (lo c.a >>> 1)
    addIp kBytes
  | anc =>
    let v : Byte ← readPBR .u8 (← getCore (·.ip))
    update fun c => c.set .a (s := .u8) (lo c.a &&& v)
    update fun c => c.setNZ (lo c.a)
    update fun c => { c with carry := c.negative <<< 1 }
    addIp kBytes
  | lax m =>
    execLoad m .a m.A
    update fun c => c.set .x (s := .u8) (lo c.a)
  | sax m =>
    let old ← getCore (·.get .a .u8)
    update fun c => c.set .a (s := .u8) (lo c.a &&& lo c.x)
    execStore m .a m.A
    update (·.set .a old)

end Op

end RetroCpu
