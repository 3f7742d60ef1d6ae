import RetroCpu.Wdc65816.InterruptMask
import RetroCpu.Wdc65816.Lockstep

/-!
# Instructions and interrupts in lockstep

* `Op.exec_inStep`: **every instruction agrees with itself**, but `XCE`, `BRK` and `COP` on the two
  kinds of CPU at once.
* `alike_doInterrupt`: an interrupt, on the two kinds at once where the decimal flag is clear.
-/

namespace RetroCpu

open WordBytes Machine StateFn

variable {β γ : Type} [Bus β] [Bus γ] {A : Accord β γ} {mixed : Prop}

/-! ### Interrupts -/

theorem inStep_programBank :
    InStep A mixed (getCore (·.programBank)) (getCore (·.programBank)) :=
  inStep_getCore fun c c' h => by rw [Core.programBank, Core.programBank, h.codeSegmentBase]

theorem inStep_pushInterruptFrame (type : InterruptType) :
    InStep A mixed (pushInterruptFrame type) (pushInterruptFrame type) :=
  (inStep_getCore fun _ _ h => h.modeEmulation).seq fun _ =>
    (Coupled.when fun _ => inStep_programBank.seq fun _ => inStep_push (s := .u8) _).seq fun _ =>
    (inStep_getCore fun _ _ h => h.pc).seq fun _ => (inStep_push (s := .u16) _).seq fun _ =>
    (inStep_getCore fun _ _ h => h.toNear.getStatusRegister).seq fun _ => inStep_push (s := .u8) _

/-- The frame is all that goes to the stack. -/
theorem otherFlags_pushInterruptFrame (type : InterruptType) (m : Machine β) :
    (pushInterruptFrame type m).2.core.otherFlags = m.core.otherFlags := by
  unfold pushInterruptFrame
  simp only [bind_apply]
  generalize (getCore (·.modeEmulation) m).1 = emulation
  cases emulation <;> rfl

/-- `DoInterrupt` after it has read the vector. -/
def Machine.enterAt (type : InterruptType) (pc : Word) : Exec β Unit := do
  update fun c =>
    { c with
      ip := Val.toU32 (s := .u16) pc
      codeSegmentBase := 0
      interrupts := 0
      otherFlags := if c.modeNative6502 then c.otherFlags else c.otherFlags &&& 0xFFF7 }
  when (type == .irq || type == .nmi) do
    modify fun m => { m with bus := Bus.irqTaken m.bus (if type = .irq then 1 else 2) }

theorem enterHandler_eq (type : InterruptType) (m : Machine β) : enterHandler type m =
    enterAt type (readRaw .u16 (type.vector m.core.modeEmulation) m).1
      (readRaw .u16 (type.vector m.core.modeEmulation) m).2 := rfl

theorem core_readRaw (s : Size) (addr : CpuAddr) (m : Machine β) :
    (readRaw s addr m).2.core = m.core := by
  cases s <;> rfl

theorem alike_enterAt (type : InterruptType) (pc : Word) {m : Machine β} {m' : Machine γ}
    (h : Machine.Alike A mixed m m') (hd : ¬mixed ∨ m.core.otherFlags &&& 8 = 0) :
    Machine.Alike A mixed (enterAt type pc m).2 (enterAt type pc m').2 := by
  have htail : InStep A mixed
      (when (type == .irq || type == .nmi) (modify fun m => { m with
        bus := Bus.irqTaken m.bus (if type = .irq then 1 else 2) }))
      (when (type == .irq || type == .nmi) (modify fun m => { m with
        bus := Bus.irqTaken m.bus (if type = .irq then 1 else 2) })) :=
    Coupled.when fun _ => Coupled.modify fun _ _ hm => ⟨hm.core, A.irqTaken hm.bus _⟩
  exact (htail { m with core := _ } { m' with core := _ }
    ⟨h.core.handler (Val.toU32 (s := .u16) pc) hd, h.bus⟩).2

theorem alike_enterHandler (type : InterruptType) {m : Machine β} {m' : Machine γ}
    (h : Machine.Alike A mixed m m') (hd : ¬mixed ∨ m.core.otherFlags &&& 8 = 0) :
    Machine.Alike A mixed (enterHandler type m).2 (enterHandler type m').2 := by
  have hread : InStep A mixed (readRaw .u16 (type.vector m.core.modeEmulation))
      (readRaw .u16 (type.vector m.core.modeEmulation)) := inStep_readRaw _ _
  obtain ⟨hv, hr⟩ := hread m m' h
  rw [enterHandler_eq, enterHandler_eq, ← h.core.modeEmulation, ← hv]
  refine alike_enterAt type _ hr (hd.imp id fun hd => ?_)
  rw [core_readRaw]
  exact hd

/-- **An interrupt, where the decimal flag is clear or the two are of one kind.** -/
theorem alike_doInterrupt (type : InterruptType) {m : Machine β} {m' : Machine γ}
    (h : Machine.Alike A mixed m m') (hd : ¬mixed ∨ m.core.otherFlags &&& 8 = 0) :
    Machine.Alike A mixed (doInterrupt type m).2 (doInterrupt type m').2 := by
  have hf := (inStep_pushInterruptFrame type m m' h).2
  refine alike_enterHandler type hf (hd.imp id fun hd => ?_)
  rw [otherFlags_pushInterruptFrame]
  exact hd

/-! ### Instructions -/

namespace Op

theorem inStep_modifyCycles (m : AddrMode) :
    InStep A mixed (modifyCycles m) (modifyCycles m) :=
  (inStep_internalOp _).seq fun _ => Coupled.when fun _ => inStep_internalOp _

/-- What `TSB` and `TRB` do with their operand. -/
theorem inStep_tested {s : Size} {δ : Type} (v : Val s → BitVec 32) (w : Val s → δ) :
    InStep A mixed
      (do let a ← getCore (·.get .a s); update (fun c => { c with zero := v a }); return w a)
      (do let a ← getCore (·.get .a s); update (fun c => { c with zero := v a }); return w a) :=
  (inStep_get .a s).seq fun _ => (inStep_update fun _ _ h => h.setZero _).seq fun _ =>
    inStep_pure _

theorem inStep_setCarry (v : BitVec 32) :
    InStep A mixed (update fun c => { c with carry := v })
      (update fun c => { c with carry := v }) :=
  inStep_update fun _ _ h => h.setCarry rfl

/-- How a shift ends. -/
theorem inStep_shifted {δ : Type} (m : AddrMode) (v : δ) :
    InStep A mixed (do modifyCycles m; return v) (do modifyCycles m; return v) :=
  (inStep_modifyCycles m).seq fun _ => inStep_pure _

/-- What `INC` and `DEC` do with their operand. -/
theorem inStep_counted {δ : Type} {n : ℕ} (m : AddrMode) (w : BitVec n) (v : δ) :
    InStep A mixed (do modifyCycles m; setNZ w; return v) (do modifyCycles m; setNZ w; return v) :=
  (inStep_modifyCycles m).seq fun _ => (inStep_setNZ w).seq fun _ => inStep_pure _

/-- A rotation takes one bit of the carry. -/
theorem inStep_rotated (m : AddrMode) {n : ℕ} (v : BitVec 32 → BitVec n) (carry : BitVec 32) :
    InStep A mixed
      (do
        let k ← getCore (·.carry)
        setNZ (v (k &&& 2))
        update fun c => { c with carry := carry }
        modifyCycles m
        return v (k &&& 2))
      (do
        let k ← getCore (·.carry)
        setNZ (v (k &&& 2))
        update fun c => { c with carry := carry }
        modifyCycles m
        return v (k &&& 2)) := by
  have hk : Coupled (Machine.Alike A mixed) (fun k k' : BitVec 32 => k &&& 2 = k' &&& 2)
      (getCore (·.carry)) (getCore (·.carry)) := Coupled.get fun _ _ h => h.core.carry
  refine hk.bind fun k k' h => ?_
  rw [h]
  exact (inStep_setNZ _).seq fun _ => (inStep_setCarry _).seq fun _ => inStep_shifted m _

theorem inStep_setIp (ip : CpuAddr) :
    InStep A mixed (update fun c => { c with ip := ip }) (update fun c => { c with ip := ip }) :=
  inStep_update fun _ _ h => h.setIp rfl

theorem inStep_setProgramBank (bank : Byte) :
    InStep A mixed (update (·.setProgramBank bank)) (update (·.setProgramBank bank)) :=
  inStep_update fun _ _ h => h.setProgramBank bank

theorem inStep_execJmp (j : JmpAddr) (pushPc isLongJump : Bool) :
    InStep A mixed (execJmp j pushPc isLongJump) (execJmp j pushPc isLongJump) := by
  have hpush : ∀ n : BitVec 32, InStep A mixed
      (do let ip ← getCore (·.ip); Machine.push (s := .u16) ((ip + n - 1).setWidth 16))
      (do let ip ← getCore (·.ip); Machine.push (s := .u16) ((ip + n - 1).setWidth 16)) := by
    intro n
    have hip : Coupled (Machine.Alike A mixed)
        (fun a b : CpuAddr => a.setWidth 16 = b.setWidth 16)
        (getCore (·.ip)) (getCore (·.ip)) := Coupled.get fun _ _ h => h.core.pc
    refine hip.bind fun a b h => ?_
    have hassoc : ∀ a : CpuAddr, a + n - 1 = a + (n - 1) := fun a => by
      rw [BitVec.sub_eq_add_neg, BitVec.sub_eq_add_neg, BitVec.add_assoc]
    have hab : (a + (n - 1)).setWidth 16 = (b + (n - 1)).setWidth 16 := lowBits_add (n - 1) a b h
    rw [hassoc, hassoc, hab]
    exact inStep_push _
  exact (JmpAddr.inStep_calcEffectiveAddress j).seq fun addr =>
    (Coupled.when fun _ =>
      (Coupled.when fun _ => inStep_programBank.seq fun _ => inStep_push (s := .u8) _).seq fun _ =>
        hpush _).seq fun _ =>
    (Coupled.when fun _ => inStep_update fun _ _ h =>
      h.setCodeSegmentBase (Core.isBank_and _)).seq fun _ =>
    (inStep_internalOp _).seq fun _ => inStep_setIp _

theorem inStep_execRts (isLong : Bool) : InStep A mixed (execRts isLong) (execRts isLong) :=
  (inStep_pop .u16).seq fun _ => (inStep_setIp _).seq fun _ =>
    (Coupled.when fun _ => (inStep_pop .u8).seq fun _ =>
      inStep_setProgramBank _).seq fun _ => inStep_internalOp _

theorem inStep_execRti : InStep A mixed execRti execRti :=
  (inStep_pop .u8).seq fun _ => (inStep_update fun _ _ h => h.setStatusRegister _).seq fun _ =>
    (inStep_pop .u16).seq fun _ => (inStep_internalOp _).seq fun _ =>
    (inStep_setIp _).seq fun _ =>
    (inStep_getCore fun _ _ h => h.modeEmulation).seq fun _ => Coupled.when fun _ =>
      (inStep_pop .u8).seq fun _ => inStep_setProgramBank _

theorem inStep_execPop (r : Reg) (s : Size) : InStep A mixed (execPop r s) (execPop r s) :=
  (Coupled.ite (fun _ => inStep_popOld s) fun _ => inStep_pop s).seq fun _ =>
    (inStep_internalOp _).seq fun _ => (inStep_set r _).seq fun _ =>
    (inStep_setNZ _).seq fun _ => inStep_addIp _

theorem inStep_execPlp : InStep A mixed execPlp execPlp :=
  (inStep_popOld .u8).seq fun _ => (inStep_internalOp _).seq fun _ =>
    (inStep_addIp _).seq fun _ => inStep_update fun _ _ h => h.setStatusRegister _

theorem inStep_execBranch (impl : BranchImpl) :
    InStep A mixed (execBranch impl) (execBranch impl) :=
  inStep_operand (lowBits_add 1) fun _ =>
    (inStep_getCore fun _ _ h => h.toNear.doBranch impl).seq fun _ =>
    (Coupled.when fun _ => (inStep_internalOp _).seq fun _ => inStep_addIp _).seq fun _ =>
    inStep_addIp _

theorem inStep_execLoad (m : AddrMode) (r : Reg) (s : Size) :
    InStep A mixed (execLoad m r s) (execLoad m r s) :=
  (m.inStep_read s).seq fun _ => (inStep_set r _).seq fun _ => (inStep_setNZ _).seq fun _ =>
    inStep_addIp _

theorem inStep_execStore (m : AddrMode) (r : Reg) (s : Size) :
    InStep A mixed (execStore m r s) (execStore m r s) :=
  (inStep_get r s).seq fun _ => (m.inStep_write _).seq fun _ =>
    (Coupled.when fun _ => inStep_internalOp _).seq fun _ => inStep_addIp _

theorem inStep_execBlockMove (increment : Word) :
    InStep A mixed (execBlockMove increment) (execBlockMove increment) :=
  inStep_operand (lowBits_add 1) fun _ => (inStep_blockMove _ _ _).seq fun _ =>
    Coupled.when fun _ => inStep_addIp _

/-- A read-modify-write instruction. -/
theorem inStep_modifyOp (m : AddrMode) {fn : Val m.A → Exec β (Val m.A)}
    {fn' : Val m.A → Exec γ (Val m.A)} (hfn : ∀ v, InStep A mixed (fn v) (fn' v)) (n : CpuAddr) :
    InStep A mixed (do m.modify fn; addIp n) (do m.modify fn'; addIp n) :=
  (m.inStep_modify hfn).seq fun _ => inStep_addIp _

/-- An instruction that only changes a flag. -/
theorem inStep_flag {g : Core → Core}
    (hg : ∀ c c', Core.Alike A.timing mixed c c' → Core.Alike A.timing mixed (g c) (g c'))
    (n : CpuAddr) :
    InStep A mixed (do update g; addIp n; internalOp) (do update g; addIp n; internalOp) :=
  (inStep_update hg).seq fun _ => (inStep_addIp _).seq fun _ => inStep_internalOp _

/-- A comparison with a register. -/
theorem inStep_compared (m : AddrMode) (r : Reg) (s : Size) (n : CpuAddr) :
    InStep A mixed
      (do let v ← m.read s; addIp n; update fun c => c.doCmp (c.get r s) v)
      (do let v ← m.read s; addIp n; update fun c => c.doCmp (c.get r s) v) :=
  (m.inStep_read s).seq fun v => (inStep_addIp _).seq fun _ => inStep_update fun c c' h => by
    rw [h.toNear.get]
    exact h.doCmp _ _

/-- `TXS` and `TCS`. -/
theorem inStep_setSp (emulation : Bool) (r : Reg) (n : CpuAddr) :
    InStep A mixed
      (do
        update fun c => { c with sp := if emulation then (1 : Byte) ++ lo (c.reg r) else c.reg r }
        addIp n
        internalOp)
      (do
        update fun c => { c with sp := if emulation then (1 : Byte) ++ lo (c.reg r) else c.reg r }
        addIp n
        internalOp) :=
  inStep_flag (fun _ _ h => h.setSp (by rw [h.toNear.reg])) n

/-- **Every instruction does the same on two machines that a program cannot tell apart**, on the
two kinds of CPU at once if it is not `XCE`, `BRK` or `COP`. -/
theorem exec_inStep (op : Op) (hop : mixed → op ≠ .xce ∧ op ≠ .brk ∧ op ≠ .cop) :
    InStep A mixed op.exec op.exec := by
  have hint : ∀ type, ¬mixed → InStep A mixed (doInterrupt type) (doInterrupt type) :=
    fun type hm m m' h => ⟨rfl, alike_doInterrupt type h (Or.inl hm)⟩
  cases op with
  | tsb m => exact inStep_modifyOp m (fun v => inStep_tested _ _) _
  | trb m => exact inStep_modifyOp m (fun v => inStep_tested _ _) _
  | bit m =>
    exact (m.inStep_read _).seq fun _ => (inStep_get .a _).seq fun _ =>
      (inStep_update fun _ _ h => h.setZero _).seq fun _ =>
      (inStep_update fun _ _ h => h.flags h.pc h.zero rfl h.interrupts h.carry
        (Core.or_and_of_eq _ (Core.and_and_of_eq _ h.otherFlags))
        h.numEmulatedInstructions).seq fun _ => inStep_addIp _
  | bitImm m =>
    exact (m.inStep_read _).seq fun _ => (inStep_get .a _).seq fun _ =>
      (inStep_update fun _ _ h => h.setZero _).seq fun _ => inStep_addIp _
  | alu impl m =>
    exact (m.inStep_read _).seq fun _ => (inStep_get .a _).seq fun _ =>
      (inStep_set .a _).seq fun _ => (inStep_setNZ _).seq fun _ => inStep_addIp _
  | asl m =>
    exact inStep_modifyOp m (fun v => (inStep_setNZ _).seq fun _ =>
      (inStep_setCarry _).seq fun _ => inStep_shifted m _) _
  | lsr m =>
    exact inStep_modifyOp m (fun v => (inStep_update fun _ _ h => h.lsrSetFlags v).seq fun _ =>
      inStep_shifted m _) _
  | ror m =>
    exact inStep_modifyOp m (fun v => inStep_rotated m (fun k =>
      Val.ofBits m.A (Val.toU32 (v >>> 1) ||| (k <<< (8 * m.A.bytes - 2)))) _) _
  | rol m =>
    exact inStep_modifyOp m (fun v => inStep_rotated m (fun k =>
      Val.ofBits m.A (Val.toU32 v <<< 1 ||| (k >>> 1))) _) _
  | clc => exact inStep_flag (fun _ _ h => h.setCarry rfl) _
  | sec => exact inStep_flag (fun _ _ h => h.setCarry rfl) _
  | cli => exact inStep_flag (fun _ _ h => h.setInterrupts _) _
  | sei => exact inStep_flag (fun _ _ h => h.setInterrupts _) _
  | cld =>
    exact inStep_flag (fun _ _ h => h.setOther (Core.and_and_of_eq _ h.otherFlags)) _
  | sed => exact inStep_flag (fun _ _ h => h.setOther (Core.or_and_of_eq _ h.otherFlags)) _
  | clv =>
    exact inStep_flag (fun _ _ h => h.setOther (Core.and_and_of_eq _ h.otherFlags)) _
  | rep =>
    exact inStep_operand (lowBits_add 1) fun _ => (inStep_addIp _).seq fun _ =>
      inStep_update fun _ _ h => h.rep _
  | sep =>
    exact inStep_operand (lowBits_add 1) fun _ => (inStep_addIp _).seq fun _ =>
      inStep_update fun _ _ h => h.sep _
  | push r s =>
    exact (inStep_get r s).seq fun _ => (inStep_push _).seq fun _ =>
      (inStep_internalOp _).seq fun _ => inStep_addIp _
  | pop r s => exact inStep_execPop r s
  | php =>
    exact (inStep_getCore fun _ _ h => h.toNear.getStatusRegister).seq fun _ =>
      (inStep_push (s := .u8) _).seq fun _ => (inStep_internalOp _).seq fun _ => inStep_addIp _
  | plp => exact inStep_execPlp
  | phk =>
    exact inStep_programBank.seq fun _ => (inStep_push (s := .u8) _).seq fun _ =>
      (inStep_internalOp _).seq fun _ => inStep_addIp _
  | phb =>
    exact (inStep_getCore fun c c' h => by
      rw [Core.dataBank, Core.dataBank, h.dataSegmentBase]).seq fun _ =>
      (inStep_push (s := .u8) _).seq fun _ => inStep_addIp _
  | plb =>
    exact (inStep_pop .u8).seq fun _ => (inStep_dataBank _).seq fun _ =>
      (inStep_internalOp _).seq fun _ => (inStep_setNZ _).seq fun _ => inStep_addIp _
  | jmp j pushPc isLongJump => exact inStep_execJmp j pushPc isLongJump
  | rts isLong => exact inStep_execRts isLong
  | rti => exact inStep_execRti
  | branch impl => exact inStep_execBranch impl
  | brl => exact inStep_operand (lowBits_add 1) fun _ => inStep_addIp _
  | incMem m => exact inStep_modifyOp m (fun v => inStep_counted m _ _) _
  | decMem m => exact inStep_modifyOp m (fun v => inStep_counted m _ _) _
  | incDecReg s r delta =>
    exact (inStep_get r s).seq fun _ => (inStep_set r _).seq fun _ =>
      (inStep_internalOp _).seq fun _ => (inStep_setNZ _).seq fun _ => inStep_addIp _
  | load m r s => exact inStep_execLoad m r s
  | store m r s => exact inStep_execStore m r s
  | stz m => exact (m.inStep_write _).seq fun _ => inStep_addIp _
  | adc m =>
    exact (m.inStep_read _).seq fun v => (inStep_update fun _ _ h => h.adc v).seq fun _ =>
      inStep_addIp _
  | sbc m =>
    exact (m.inStep_read _).seq fun v => (inStep_update fun _ _ h => h.sbc v).seq fun _ =>
      inStep_addIp _
  | cmp m => exact inStep_compared m .a _ _
  | cpx m => exact inStep_compared m .x _ _
  | cpy m => exact inStep_compared m .y _ _
  | txs emulation => exact inStep_setSp emulation .x _
  | tcs emulation => exact inStep_setSp emulation .a _
  | moveReg s src dest =>
    exact (inStep_get src s).seq fun _ => (inStep_set dest _).seq fun _ =>
      (inStep_setNZ _).seq fun _ => (inStep_addIp _).seq fun _ => inStep_internalOp _
  | mvn => exact inStep_execBlockMove _
  | mvp => exact inStep_execBlockMove _
  | xba =>
    exact (inStep_addIp _).seq fun _ =>
      (inStep_update fun _ _ h => h.registers (by rw [h.a]) h.x h.y).seq fun _ =>
      (inStep_getCore fun _ _ h => congrArg lo h.a).seq fun _ => inStep_setNZ _
  | xce =>
    exact (inStep_addIp _).seq fun _ =>
      inStep_update fun _ _ h => h.xce fun hm => (hop hm).1 rfl
  | nop n b => exact (inStep_internalOp _).seq fun _ => inStep_addIp _
  | wdm => exact inStep_addIp _
  | pea =>
    exact inStep_operand (lowBits_add 1) fun _ => (inStep_push _).seq fun _ => inStep_addIp _
  | pei =>
    exact (AddrMode.inStep_read _ .u16).seq fun _ => (inStep_addIp _).seq fun _ => inStep_push _
  | per =>
    exact inStep_operand (lowBits_add 1) fun _ => (inStep_addIp _).seq fun _ =>
      (inStep_getCore fun _ _ h => h.pc).seq fun _ => inStep_push (s := .u16) _
  | wai => exact inStep_addIp _
  | stp => exact inStep_addIp _
  | brk => exact (inStep_addIp _).seq fun _ => hint .brk fun hm => (hop hm).2.1 rfl
  | cop => exact (inStep_addIp _).seq fun _ => hint .cop fun hm => (hop hm).2.2 rfl
  | alr =>
    exact inStep_operand (fun _ _ h => h) fun _ =>
      (inStep_update fun _ _ h => by rw [h.a]; exact h.set .a _).seq fun _ =>
      (inStep_update fun _ _ h => by rw [h.a]; exact h.lsrSetFlags _).seq fun _ =>
      (inStep_update fun _ _ h => by rw [h.a]; exact h.set .a _).seq fun _ => inStep_addIp _
  | anc =>
    exact inStep_operand (fun _ _ h => h) fun _ =>
      (inStep_update fun _ _ h => by rw [h.a]; exact h.set .a _).seq fun _ =>
      (inStep_update fun _ _ h => by rw [h.a]; exact h.setNZ _).seq fun _ =>
      (inStep_update fun _ _ h => h.setCarry (Core.shift_and_of_eq h.negative)).seq fun _ =>
      inStep_addIp _
  | lax m =>
    exact (inStep_execLoad m .a _).seq fun _ =>
      inStep_update fun _ _ h => by rw [h.a]; exact h.set .x _
  | sax m =>
    exact (inStep_get .a _).seq fun _ =>
      (inStep_update fun _ _ h => by rw [h.a, h.x]; exact h.set .a _).seq fun _ =>
      (inStep_execStore m .a _).seq fun _ => inStep_set .a _

end Op

end RetroCpu
