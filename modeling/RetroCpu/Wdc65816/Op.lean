/-!
# Instructions of the 65816 and the 6502

The C++ instruction set is a family of class templates: an operation template
applied to an addressing-mode template applied to the widths of the
accumulator and of the index registers.  `Op` has one constructor for each
operation template and `AddrMode` one form for each addressing template, so a
template instance of the source is a term here, and the abbreviations at the
end give the instances the names the opcode tables use.

`Op.kBytes` is the template's `kBytes`.
-/

namespace RetroCpu

/-- The type argument of a template: `uint8_t` or `uint16_t`. -/
inductive Size
  | u8
  | u16
  deriving DecidableEq, Repr

namespace Size

/-- `sizeof`. -/
def bytes : Size → Nat
  | u8 => 1
  | u16 => 2

def bits : Size → Nat
  | u8 => 8
  | u16 => 16

end Size

/-- The rows of `CpuStateImpl::Registers`, in the order of `RA, RX, RY, RD, RSP`. -/
inductive Reg
  | a
  | x
  | y
  | d
  | sp
  deriving DecidableEq, Repr

/-- The addressing templates, less their two width arguments. -/
inductive AddrKind
  | a
  | imm (effectiveSize : Size)
  | abs
  | absX (checkExtraCycle : Bool)
  | absY (checkExtraCycle : Bool)
  | absLong
  | absLongX
  | direct (emulation : Bool)
  | directX (emulation : Bool)
  | directY (emulation : Bool)
  | directIndirect
  | directIndirectX (emulation : Bool)
  | directIndirectY (checkExtraCycle emulation : Bool)
  | directIndirectLong
  | directIndirectLongY
  | stack
  | stackY
  deriving DecidableEq, Repr

/-- `Bytes()`: the operand bytes of an addressing template. -/
def AddrKind.bytes : AddrKind → Nat
  | a => 0
  | imm effectiveSize => effectiveSize.bytes
  | abs | absX _ | absY _ => 2
  | absLong | absLongX => 3
  | direct _ | directX _ | directY _ => 1
  | directIndirect | directIndirectX _ | directIndirectY _ _ => 1
  | directIndirectLong | directIndirectLongY => 1
  | stack | stackY => 1

/-- `kMaybeHasConditionalCycle`.  `AddrAbsBase` sets it for every offset register,
whether or not the instance checks for the extra cycle. -/
def AddrKind.maybeHasConditionalCycle : AddrKind → Bool
  | absX _ | absY _ | directIndirectY _ _ => true
  | _ => false

/-- An addressing template with its `AType` and `XYType`. -/
structure AddrMode where
  A : Size
  XY : Size
  kind : AddrKind
  deriving DecidableEq, Repr

/-- `OrImpl`, `AndImpl`, `XorImpl`. -/
inductive AluImpl
  | or
  | and
  | xor
  deriving DecidableEq, Repr

/-- The addressing of `OpJmp`: `AddrAbs`, `AddrAbsLong`, `JmpAddrModeInd` and
`JmpAddrModeIndAbsX`. -/
inductive JmpAddr
  | abs
  | absLong
  | ind (isLong emulationWrapAddr : Bool)
  | indAbsX
  deriving DecidableEq, Repr

/-- The `Impl` argument of `CondBranch`. -/
inductive BranchImpl
  | bcc
  | bcs
  | beq
  | bmi
  | bne
  | bpl
  | bra
  | bvc
  | bvs
  deriving DecidableEq, Repr

/-- The operation templates. -/
inductive Op
  | tsb (m : AddrMode)
  | trb (m : AddrMode)
  | bit (m : AddrMode)
  | bitImm (m : AddrMode)
  | alu (impl : AluImpl) (m : AddrMode)
  | asl (m : AddrMode)
  | lsr (m : AddrMode)
  | ror (m : AddrMode)
  | rol (m : AddrMode)
  | clc
  | sec
  | cli
  | sei
  | cld
  | sed
  | clv
  | rep
  | sep
  | push (kReg : Reg) (size : Size)
  | pop (kReg : Reg) (size : Size)
  | php
  | plp
  | phk
  | phb
  | plb
  | jmp (addr : JmpAddr) (pushPc isLongJump : Bool)
  | rts (isLong : Bool)
  | rti
  | branch (impl : BranchImpl)
  | brl
  | incMem (m : AddrMode)
  | decMem (m : AddrMode)
  | incDecReg (effectiveSize : Size) (kReg : Reg) (delta : Int)
  | load (m : AddrMode) (kReg : Reg) (effectiveSize : Size)
  | store (m : AddrMode) (kReg : Reg) (effectiveSize : Size)
  | stz (m : AddrMode)
  | adc (m : AddrMode)
  | sbc (m : AddrMode)
  | cmp (m : AddrMode)
  | cpx (m : AddrMode)
  | cpy (m : AddrMode)
  | txs (emulation : Bool)
  | tcs (emulation : Bool)
  | moveReg (effectiveSize : Size) (source dest : Reg)
  | mvn
  | mvp
  | xba
  | xce
  | nop (n b : Nat)
  | wdm
  | pea
  | pei
  | per
  | wai
  | stp
  | brk
  | cop
  | alr
  | anc
  | lax (m : AddrMode)
  | sax (m : AddrMode)
  deriving DecidableEq, Repr

/-- `kBytes`: opcode and operand bytes. -/
def Op.kBytes : Op → Nat
  | tsb m | trb m | bit m | bitImm m | alu _ m | asl m | lsr m | ror m | rol m
  | incMem m | decMem m | load m _ _ | store m _ _ | stz m | adc m | sbc m | cmp m | cpx m
  | cpy m | lax m | sax m => 1 + m.kind.bytes
  | clc | sec | cli | sei | cld | sed | clv | push _ _ | pop _ _ | php | plp | phk | phb | plb
  | rts _ | rti | incDecReg _ _ _ | txs _ | tcs _ | moveReg _ _ _ | xba | xce | wai | stp => 1
  | rep | sep | branch _ | wdm | pei | brk | cop | alr | anc => 2
  | brl | mvn | mvp | pea | per => 3
  | jmp _ _ isLongJump => 3 + if isLongJump then 1 else 0
  | nop _ b => b

/-! ### The addressing instances -/

def addrA (A XY : Size) : AddrMode := ⟨A, XY, .a⟩
def addrImm (A XY effectiveSize : Size) : AddrMode := ⟨A, XY, .imm effectiveSize⟩
def addrAbs (A XY : Size) : AddrMode := ⟨A, XY, .abs⟩
def addrAbsX (A XY : Size) (checkExtraCycle : Bool := true) : AddrMode :=
  ⟨A, XY, .absX checkExtraCycle⟩
def addrAbsY (A XY : Size) (checkExtraCycle : Bool := true) : AddrMode :=
  ⟨A, XY, .absY checkExtraCycle⟩
def addrAbsLong (A XY : Size) : AddrMode := ⟨A, XY, .absLong⟩
def addrAbsLongX (A XY : Size) : AddrMode := ⟨A, XY, .absLongX⟩
def addrDirect (A XY : Size) (emulation : Bool := false) : AddrMode := ⟨A, XY, .direct emulation⟩
def addrDirectX (A XY : Size) (emulation : Bool := false) : AddrMode := ⟨A, XY, .directX emulation⟩
def addrDirectY (A XY : Size) (emulation : Bool := false) : AddrMode := ⟨A, XY, .directY emulation⟩
def addrDirectIndirect (A XY : Size) : AddrMode := ⟨A, XY, .directIndirect⟩
def addrDirectIndirectX (A XY : Size) (emulation : Bool := false) : AddrMode :=
  ⟨A, XY, .directIndirectX emulation⟩
def addrDirectIndirectY (A XY : Size) (checkExtraCycle : Bool) (emulation : Bool := false) :
    AddrMode := ⟨A, XY, .directIndirectY checkExtraCycle emulation⟩
def addrDirectIndirectLong (A XY : Size) : AddrMode := ⟨A, XY, .directIndirectLong⟩
def addrDirectIndirectLongY (A XY : Size) : AddrMode := ⟨A, XY, .directIndirectLongY⟩
def addrStack (A XY : Size) : AddrMode := ⟨A, XY, .stack⟩
def addrStackY (A XY : Size) : AddrMode := ⟨A, XY, .stackY⟩

/-! ### The operation instances -/

namespace Op

def opOr (m : AddrMode) : Op := alu .or m
def opAnd (m : AddrMode) : Op := alu .and m
def opXor (m : AddrMode) : Op := alu .xor m

def pha (T : Size) : Op := push .a T
def phd : Op := push .d .u16
def phx (T : Size) : Op := push .x T
def phy (T : Size) : Op := push .y T
def pla (T : Size) : Op := pop .a T
def pld : Op := pop .d .u16
def plx (T : Size) : Op := pop .x T
def ply (T : Size) : Op := pop .y T

def jmpAbs : Op := jmp .abs false false
def jmpLong : Op := jmp .absLong false true
def jmpIndabs : Op := jmp (.ind false false) false false
def jmpIndabsLegacy : Op := jmp (.ind false true) false false
def jmpIndabsx : Op := jmp .indAbsX false false
def jmpIndlong : Op := jmp (.ind true false) false true
def jsrAbs : Op := jmp .abs true false
def jsrLong : Op := jmp .absLong true true
def jsrIndabsx : Op := jmp .indAbsX true false
def rtl : Op := rts true

def bcc : Op := branch .bcc
def bcs : Op := branch .bcs
def beq : Op := branch .beq
def bmi : Op := branch .bmi
def bne : Op := branch .bne
def bpl : Op := branch .bpl
def bra : Op := branch .bra
def bvc : Op := branch .bvc
def bvs : Op := branch .bvs

def inx (_ XY : Size) : Op := incDecReg XY .x 1
def iny (_ XY : Size) : Op := incDecReg XY .y 1
def ina (A _ : Size) : Op := incDecReg A .a 1
def dex (_ XY : Size) : Op := incDecReg XY .x (-1)
def dey (_ XY : Size) : Op := incDecReg XY .y (-1)
def dea (A _ : Size) : Op := incDecReg A .a (-1)

def lda (m : AddrMode) : Op := load m .a m.A
def ldx (m : AddrMode) : Op := load m .x m.XY
def ldy (m : AddrMode) : Op := load m .y m.XY
def sta (m : AddrMode) : Op := store m .a m.A
def stx (m : AddrMode) : Op := store m .x m.XY
def sty (m : AddrMode) : Op := store m .y m.XY

def tax (_ XY : Size) : Op := moveReg XY .a .x
def tay (_ XY : Size) : Op := moveReg XY .a .y
def tsx (_ XY : Size) : Op := moveReg XY .sp .x
def txa (A _ : Size) : Op := moveReg A .x .a
def txy (_ XY : Size) : Op := moveReg XY .x .y
def tya (A _ : Size) : Op := moveReg A .y .a
def tyx (_ XY : Size) : Op := moveReg XY .y .x
def tcd (_ _ : Size) : Op := moveReg .u16 .a .d
def tdc (_ _ : Size) : Op := moveReg .u16 .d .a
def tsc (_ _ : Size) : Op := moveReg .u16 .sp .a

end Op

end RetroCpu
