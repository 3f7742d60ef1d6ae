import RetroCpu.Wdc65816.LockstepOps

/-!
# Machines that a program cannot tell apart

Whatever happens to two such machines, they stay so.

* `alike_emulateInstruction`: `EmulateInstruction`, on the 6502 and the 65816 at once where both
  have the instruction.
* `alike_step`: **anything that can happen to a CPU object**.
-/

namespace RetroCpu

open WordBytes Machine StateFn

variable {β γ : Type} [Bus β] [Bus γ] {A : Accord β γ} {mixed : Prop} {m : Machine β}
  {m' : Machine γ}

/-! ### `EmulateInstruction` -/

theorem inStep_fetch : InStep A mixed fetch fetch := by
  refine (inStep_getCore fun c c' h => ?_).seq fun _ => inStep_readU8 _
  rw [Core.getCanonicalAddress, Core.getCanonicalAddress, h.codeSegmentBase]
  exact congrArg (c'.codeSegmentBase + ·) (and_ffff_of_eq h.pc)

theorem alike_perform {op op' : Op}
    (h : Machine.Alike A mixed (op.exec m).2 (op'.exec m').2) :
    Machine.Alike A mixed (perform op m).2 (perform op' m').2 :=
  ⟨h.core.flags h.core.pc h.core.zero h.core.negative h.core.interrupts h.core.carry
    h.core.otherFlags (congrArg (· + 1) h.core.numEmulatedInstructions), h.bus⟩

/-- The two rows of the CPUs that emulate a 6502. -/
theorem Core.Coherent.emulating {c : Core} (h : c.Coherent) (he : c.modeEmulation = true) :
    c.currentInstructionSet = execOps .emulation ∨
      c.currentInstructionSet = execOps .native6502 := by
  rw [h.instructionSet, h.mode, he]
  cases c.modeNative6502 with
  | false => exact Or.inl rfl
  | true => exact Or.inr rfl

/-- The opcode `JMP ($xxxx)`. -/
def jmpIndirect : Byte := 0x6C

/-- Where `JMP ($xxxx)` finds the address it jumps to. -/
def Machine.pointer (m : Machine β) : Word :=
  (readPBR .u16 ((fetch m).2.core.ip + 1) (fetch m).2).1

def Machine.PortableInstruction (m : Machine β) : Prop :=
  ((execOps .emulation).at (fetch m).1 = (execOps .native6502).at (fetch m).1 ∧
      (m.handler = some .brk → m.core.otherFlags &&& 8 = 0)) ∨
    ((fetch m).1 = jmpIndirect ∧ lo m.pointer ≠ 0xFF)

/-- The 6502 has no `XCE` and no `COP`. -/
theorem native6502_handler {b : Byte} {op : Op} (h : (execOps .native6502).at b = some op) :
    op ≠ .xce ∧ op ≠ .cop := by
  have hrow : (execOps .native6502).all
      (fun o => o.all fun op => decide (op ≠ .xce ∧ op ≠ .cop)) = true := by decide +kernel
  exact of_decide_eq_true (List.all_eq_true.mp hrow _ (InstructionSet.mem_of_at h))

theorem alike_brk (h : Machine.Alike A mixed m m') (hd : ¬mixed ∨ m.core.otherFlags &&& 8 = 0) :
    Machine.Alike A mixed (Op.brk.exec m).2 (Op.brk.exec m').2 :=
  alike_doInterrupt .brk (inStep_addIp 2 m m' h).2 hd

/-- The place of the high byte of a pointer, where the 6502 stays in its page and the 65816
does not have to leave it. -/
theorem wrapped_pointer {v : Word} (h : lo v ≠ 0xFF) :
    (v.setWidth 32 &&& 0xFF00#32) ||| ((v.setWidth 32 + 1) &&& 0xFF) =
      (v.setWidth 32 + 1) &&& 0xFFFF := by
  have hsum : v.setWidth 32 + 1 = (hi v ++ (lo v + 1)).setWidth 32 := by
    have hlo : (lo v).toNat ≠ 255 := fun hv => h (BitVec.eq_of_toNat_eq hv)
    apply BitVec.eq_of_toNat_eq
    rw [BitVec.toNat_add, BitVec.toNat_setWidth, BitVec.toNat_setWidth, toNat_append,
      BitVec.toNat_add, toNat_hi, toNat_lo]
    have := v.isLt
    have := toNat_lo v
    have h1 : (1 : CpuAddr).toNat = 1 := rfl
    have h1' : (1 : Byte).toNat = 1 := rfl
    rw [h1, h1']
    omega
  have hbytes : ∀ h l l' : Byte, ((h ++ l) &&& ((0xFF : Byte) ++ (0 : Byte))) |||
      ((h ++ l') &&& ((0 : Byte) ++ (0xFF : Byte))) =
        (h ++ l') &&& ((0xFF : Byte) ++ (0xFF : Byte)) := by
    intro h l l'
    rw [BitVec.and_append, BitVec.and_append, BitVec.and_append, BitVec.or_append]
    simp
  have hv := hbytes (hi v) (lo v) (lo v + 1)
  rw [hi_append_lo] at hv
  rw [hsum]
  exact congrArg (BitVec.setWidth 32) hv

/-- `JMP ($xxxx)` after it has read the pointer. -/
def jumpThrough (addrLo addrHi : CpuAddr) : Exec β Unit := do
  let pc ← readLoHi addrLo addrHi
  internalOp 0
  update fun c => { c with ip := pc.setWidth 32 }

def highPlace (wrap : Bool) (addr : CpuAddr) : CpuAddr :=
  if wrap then (addr &&& 0xFF00) ||| ((addr + 1) &&& 0xFF) else (addr + 1) &&& 0xFFFF

theorem highPlace_eq {v : Word} (h : lo v ≠ 0xFF) (wrap : Bool) :
    highPlace wrap (v.setWidth 32) = (v.setWidth 32 + 1) &&& 0xFFFF := by
  cases wrap with
  | false => rfl
  | true => exact wrapped_pointer h

theorem execJmp_ind (wrap : Bool) (m : Machine β) {v : Word} {n : Machine β}
    (h : readPBR .u16 (m.core.ip + 1) m = (v, n)) :
    (Op.execJmp (.ind false wrap) false false m).2 =
      (jumpThrough (v.setWidth 32 &&& 0xFFFF) (highPlace wrap (v.setWidth 32)) n).2 := by
  have hv : v = (readPBR .u16 (m.core.ip + 1) m).1 := by rw [h]
  have hn : n = (readPBR .u16 (m.core.ip + 1) m).2 := by rw [h]
  subst hv hn
  rfl

/-- `JMP ($xxxx)` of the two CPUs, through a pointer that does not cross a page. -/
theorem alike_jmpIndirect (h : Machine.Alike A mixed m m')
    (hp : lo (readPBR .u16 (m.core.ip + 1) m).1 ≠ 0xFF) (wrap wrap' : Bool) :
    Machine.Alike A mixed (Op.execJmp (.ind false wrap) false false m).2
      (Op.execJmp (.ind false wrap') false false m').2 := by
  have hthrough : ∀ a b : CpuAddr,
      InStep A mixed (jumpThrough (β := β) a b) (jumpThrough (β := γ) a b) := fun a b =>
    (inStep_readLoHi a b).seq fun _ => (inStep_internalOp 0).seq fun _ => Op.inStep_setIp _
  have hpc : (m.core.ip + 1).setWidth 16 = (m'.core.ip + 1).setWidth 16 :=
    lowBits_add 1 _ _ h.core.pc
  have hread : InStep A mixed (readPBR .u16 (m.core.ip + 1)) (readPBR .u16 (m'.core.ip + 1)) :=
    inStep_readPBR .u16 hpc
  obtain ⟨hv, hr⟩ := hread m m' h
  cases hm : readPBR .u16 (m.core.ip + 1) m with
  | mk v n =>
    cases hm' : readPBR .u16 (m'.core.ip + 1) m' with
    | mk v' n' =>
      rw [hm] at hv hr hp
      rw [hm'] at hv hr
      have hvv : v = v' := hv
      subst hvv
      rw [execJmp_ind wrap m hm, execJmp_ind wrap' m' hm', highPlace_eq hp, highPlace_eq hp]
      exact (hthrough _ _ _ _ hr).2

/-- The handlers, where both machines have a row of the 6502's kind. -/
theorem handler_of_emulating (hc : m.core.Coherent) (he : m.core.modeEmulation = true) :
    m.handler = (execOps .emulation).at (fetch m).1 ∨
      m.handler = (execOps .native6502).at (fetch m).1 :=
  (hc.emulating he).imp (fun h => by rw [handler, h]) fun h => by rw [handler, h]

/-- **`EmulateInstruction`**, on the 6502 and the 65816 at once where they have the instruction
in common. -/
theorem alike_emulateInstruction (h : Machine.Alike A mixed m m')
    (hp : mixed → m.PortableInstruction) :
    Option.Rel (Machine.Alike A mixed) m.emulateInstruction m'.emulateInstruction := by
  have hfetch : InStep A mixed fetch fetch := inStep_fetch
  obtain ⟨hb, hf⟩ := hfetch m m' h
  -- one handler for both
  have hsame : m.handler = m'.handler →
      (∀ op, m.handler = some op → Machine.Alike A mixed (op.exec (fetch m).2).2
        (op.exec (fetch m').2).2) →
      Option.Rel (Machine.Alike A mixed) m.emulateInstruction m'.emulateInstruction := by
    intro hh hop
    rw [emulateInstruction, emulateInstruction, ← hh]
    cases hm : m.handler with
    | none => exact .none
    | some op => exact .some (alike_perform (hop op hm))
  by_cases hmixed : mixed
  · have hl := handler_of_emulating h.core.left (h.core.emulated hmixed)
    have hr := handler_of_emulating h.core.right
      (h.core.modeEmulation.symm.trans (h.core.emulated hmixed))
    rw [← hb] at hr
    rcases hp hmixed with ⟨hrow, hd⟩ | ⟨hj, hlo⟩
    · rw [hrow, or_self] at hl hr
      refine hsame (hl.trans hr.symm) fun op hop => ?_
      obtain ⟨hxce, hcop⟩ := native6502_handler (hl.symm.trans hop)
      by_cases hbrk : op = .brk
      · subst hbrk
        exact alike_brk hf (Or.inr (hd hop))
      · exact (op.exec_inStep (fun _ => ⟨hxce, hbrk, hcop⟩) _ _ hf).2
    · rw [hj] at hl hr
      have hjmp : ∀ wrap wrap', Machine.Alike A mixed
          (Op.execJmp (.ind false wrap) false false (fetch m).2).2
          (Op.execJmp (.ind false wrap') false false (fetch m').2).2 :=
        alike_jmpIndirect hf hlo
      have hrows : ∀ h : Option Op, h = (execOps .emulation).at jmpIndirect ∨
          h = (execOps .native6502).at jmpIndirect →
          ∃ wrap, h = some (.jmp (.ind false wrap) false false) := by
        rintro h (rfl | rfl)
        · exact ⟨false, rfl⟩
        · exact ⟨true, rfl⟩
      obtain ⟨wrap, hw⟩ := hrows _ hl
      obtain ⟨wrap', hw'⟩ := hrows _ hr
      rw [emulateInstruction, emulateInstruction, hw, hw']
      exact .some (alike_perform (hjmp wrap wrap'))
  · have hmode : m.core.mode = m'.core.mode := by
      rw [h.core.left.mode, h.core.right.mode, h.core.native hmixed, h.core.modeEmulation,
        h.core.modeLongA, h.core.modeLongXy]
    have hh : m.handler = m'.handler := by
      rw [handler, handler, h.core.left.instructionSet, h.core.right.instructionSet, hmode, hb]
    exact hsame hh fun op _ => (op.exec_inStep (fun hm => absurd hm hmixed) _ _ hf).2

/-! ### Stimuli -/

/-- `Reset` looks at nothing that it sets. -/
theorem alike_reset_of_near (hn : Core.Near A.timing mixed m.core.resetSp m'.core.resetSp)
    (hb : A.rel m.cycle m.bus m'.cycle m'.bus) :
    Machine.Alike A mixed (reset m).2 (reset m').2 := by
  have h1 := A.read hb 0xFFFC
  have h2 := A.read h1 0xFFFD
  have hip : (readLoHi 0xFFFC 0xFFFD m).1 = (readLoHi 0xFFFC 0xFFFD m').1 :=
    congrArg₂ (fun hi lo : Byte => hi ++ lo) (A.read_data h1 0xFFFD) (A.read_data hb 0xFFFC)
  refine ⟨?_, A.internal hn.internalCycleTiming h2 4⟩
  show Core.Alike A.timing mixed (m.core.resetSp.resetMode (readLoHi 0xFFFC 0xFFFD m).1)
    (m'.core.resetSp.resetMode (readLoHi 0xFFFC 0xFFFD m').1)
  rw [hip]
  exact hn.resetMode _

theorem alike_reset (h : Machine.Alike A mixed m m') :
    Machine.Alike A mixed (reset m).2 (reset m').2 :=
  alike_reset_of_near h.core.toNear.resetSp h.bus

theorem alike_powerOn (h : Machine.Alike A mixed m m') :
    Machine.Alike A mixed (powerOn m).2 (powerOn m').2 :=
  alike_reset_of_near h.core.toNear.powerOn.resetSp h.bus

/-- The members that the owner of a CPU object sets before it calls `PowerOn`. -/
structure CpuSettings where
  modeNative6502 : Bool := false
  supportsDecimal : Bool := true
  fastBlockMoves : Bool := false
  internalCycleTiming : BitVec 32 := 1

def Machine.switchedOn (storage : Core) (bus : β) (o : CpuSettings) : Machine β :=
  let m := construct storage bus
  (powerOn { m with core := { m.core with
    modeNative6502 := o.modeNative6502
    supportsDecimal := o.supportsDecimal
    fastBlockMoves := o.fastBlockMoves
    internalCycleTiming := o.internalCycleTiming } }).2

theorem alike_switchedOn (storage : Core) {bus : β} {bus' : γ} {o o' : CpuSettings}
    (hb : A.rel 0 bus 0 bus') (hnative : ¬mixed → o.modeNative6502 = o'.modeNative6502)
    (hd : o.supportsDecimal = o'.supportsDecimal) (hf : o.fastBlockMoves = o'.fastBlockMoves)
    (ht : A.timing o.internalCycleTiming o'.internalCycleTiming) :
    Machine.Alike A mixed (switchedOn storage bus o) (switchedOn storage bus' o') := by
  have hemu : storage.construct.modeEmulation = true := by
    rw [Core.construct, Core.onUpdateMode_eq]
    rfl
  exact alike_reset_of_near
    { native := hnative, emulated := fun _ => hemu
      modeEmulation := rfl, modeLongA := rfl, modeLongXy := rfl, a := rfl, x := rfl, y := rfl
      d := rfl, sp := rfl, codeSegmentBase := rfl, dataSegmentBase := rfl
      codeBank := Core.isBank_zero, dataBank := Core.isBank_zero, pc := rfl, zero := Iff.rfl
      negative := rfl, interrupts := rfl, carry := rfl, otherFlags := rfl, supportsDecimal := hd
      fastBlockMoves := hf, numEmulatedInstructions := rfl, internalCycleTiming := ht } hb

theorem alike_interrupt (h : Machine.Alike A mixed m m')
    (hd : ¬mixed ∨ m.core.otherFlags &&& 8 = 0) (param : BitVec 32) :
    Machine.Alike A mixed (interrupt param m).2 (interrupt param m').2 := by
  rw [interrupt, interrupt]
  split
  · exact alike_doInterrupt .irq h hd
  · exact alike_doInterrupt .nmi h hd

def Core.wideRegister (reg : String) : Bool :=
  stricmp reg "c" || stricmp reg "d" || stricmp reg "pb" || stricmp reg "db"

def Core.BankFits (reg : String) (value : BitVec 64) : Prop :=
  stricmp reg "pb" = true ∨ stricmp reg "db" = true → value ≤ 0xFF

theorem Core.isBank_of_le {value : BitVec 64} (h : value ≤ 0xFF) :
    IsBank ((value <<< 16).setWidth 32) := by
  refine ⟨value.setWidth 8, BitVec.eq_of_toNat_eq ?_⟩
  have hv : value.toNat ≤ 255 := h
  rw [BitVec.toNat_setWidth, BitVec.toNat_shiftLeft, BitVec.toNat_shiftLeft, BitVec.toNat_setWidth,
    BitVec.toNat_setWidth, Nat.shiftLeft_eq, Nat.shiftLeft_eq]
  omega

theorem Core.Alike.setRegister {T : BitVec 32 → BitVec 32 → Prop} {c c' : Core}
    (h : Core.Alike T mixed c c') {reg : String} {value : BitVec 64}
    (hbank : Core.BankFits reg value) (hreg : mixed → Core.wideRegister reg = false) :
    Core.Alike T mixed (c.setRegister reg value).2 (c'.setRegister reg value).2 := by
  have cases : ∀ {p p' : Prop} [Decidable p] [Decidable p'] {t e t' e' : Bool × Core},
      p = p' → (p → Core.Alike T mixed t.2 t'.2) → Core.Alike T mixed e.2 e'.2 →
        Core.Alike T mixed (if p then t else e).2 (if p' then t' else e').2 := by
    rintro p p' _ _ t e t' e' rfl ht he
    by_cases hp : p
    · rw [if_pos hp, if_pos hp]
      exact ht hp
    · rw [if_neg hp, if_neg hp]
      exact he
  have hnames : mixed → Core.stricmp reg "c" = false ∧ Core.stricmp reg "d" = false ∧
      Core.stricmp reg "pb" = false ∧ Core.stricmp reg "db" = false := by
    intro hm
    have := hreg hm
    simpa only [Core.wideRegister, Bool.or_eq_false_iff, and_assoc] using this
  have hwide : ∀ b : Bool, (mixed → b = false) →
      ((!c.modeNative6502 && b) = true) = ((!c'.modeNative6502 && b) = true) := by
    intro b hb
    by_cases hm : mixed
    · rw [hb hm, Bool.and_false, Bool.and_false]
    · rw [h.native hm]
  have hset : ∀ (r : Reg) (long : Bool), Core.Alike T mixed
      (if long then c.set r (s := .u16) (value.setWidth 16)
        else c.set r (s := .u8) (value.setWidth 8))
      (if long then c'.set r (s := .u16) (value.setWidth 16)
        else c'.set r (s := .u8) (value.setWidth 8)) := by
    intro r long
    split
    · exact h.set r _
    · exact h.set r _
  refine cases rfl (fun _ => ?_) (cases rfl (fun _ => ?_) (cases rfl (fun _ => ?_)
    (cases rfl (fun _ => ?_) (cases (hwide _ fun hm => (hnames hm).1) (fun _ => ?_)
      (cases (hwide _ fun hm => (hnames hm).2.1) (fun _ => ?_) (cases rfl (fun _ => ?_)
        (cases rfl (fun _ => ?_) (cases (hwide _ fun hm => (hnames hm).2.2.1) (fun hp => ?_)
          (cases (hwide _ fun hm => (hnames hm).2.2.2) (fun hp => ?_) h)))))))))
  · have hip : Core.Alike _ _ { c with ip := value.setWidth 32 &&& 0xFFFF }
        { c' with ip := value.setWidth 32 &&& 0xFFFF } := h.setIp rfl
    dsimp only
    split
    · rw [BitVec.setWidth_and]
      exact hip.setCodeSegmentBase (Core.isBank_and _)
    · exact hip
  · dsimp only
    rw [h.modeLongA]
    exact hset .a _
  · dsimp only
    rw [h.modeLongXy]
    exact hset .x _
  · dsimp only
    rw [h.modeLongXy]
    exact hset .y _
  · exact h.set .a (s := .u16) _
  · exact h.set .d (s := .u16) _
  · exact h.setSp (by rw [h.modeEmulation])
  · exact h.setStatusRegister _
  · rw [Bool.and_eq_true] at hp
    exact h.setCodeSegmentBase (Core.isBank_of_le (hbank (Or.inl hp.2)))
  · rw [Bool.and_eq_true] at hp
    exact h.setDataSegmentBase (Core.isBank_of_le (hbank (Or.inr hp.2)))

theorem Core.Near.loadMode {T : BitVec 32 → BitVec 32 → Prop} {c c' : Core}
    (h : Core.Near T mixed c c') (hm : ¬mixed) (s : SaveData) :
    Core.Alike T mixed (c.loadMode s) (c'.loadMode s) := by
  rw [Core.loadMode, Core.loadMode, Core.onUpdateMode_setStatusRegister,
    Core.onUpdateMode_setStatusRegister]
  have hn : Core.Near T mixed
      { c with modeEmulation := s.emulation != 0, modeNative6502 := s.native6502 != 0 }
      { c' with modeEmulation := s.emulation != 0, modeNative6502 := s.native6502 != 0 } :=
    { h with native := fun _ => rfl, emulated := fun h => absurd h hm, modeEmulation := rfl }
  exact Core.Near.onUpdateMode
    { hn.setFlags s.flags with modeLongA := rfl, modeLongXy := rfl }

theorem Core.Alike.loadRegisters {T : BitVec 32 → BitVec 32 → Prop} {c c' : Core}
    (h : Core.Alike T mixed c c') (s : SaveData) :
    Core.Alike T mixed (c.loadRegisters s) (c'.loadRegisters s) :=
  h.of_near
    { h.toNear with
      a := rfl, x := rfl, y := rfl, d := rfl, sp := rfl, pc := rfl, codeSegmentBase := rfl
      dataSegmentBase := rfl, codeBank := Core.isBank_shift _, dataBank := Core.isBank_shift _
      numEmulatedInstructions := rfl }
    rfl rfl

def Machine.Portable (m : Machine β) : Stimulus β → Prop
  | .powerOn => True
  | .reset => True
  | .emulateInstruction => m.PortableInstruction
  | .interrupt _ => m.core.otherFlags &&& 8 = 0
  | .loadState _ => False
  | .setRegister reg _ => Core.wideRegister reg = false
  | .world _ => True

def Stimulus.Fits : Stimulus β → Prop
  | .setRegister reg value => Core.BankFits reg value
  | _ => True

/-- **Two machines that a program cannot tell apart stay so**, whatever happens to both.  `hworld`
says that a bus is in accord with itself, and `hclock` that the clocks may be set. -/
theorem alike_step {A : Accord β β} {m m' : Machine β} (i : Stimulus β)
    (h : Machine.Alike A mixed m m') (hi : i.Fits)
    (hclock : ∀ {t b t' b'}, A.rel t b t' b' → ∀ c, A.rel c b c b')
    (hworld : ∀ bus, i = .world bus → A.rel m.cycle bus m'.cycle bus)
    (hp : mixed → m.Portable i) :
    Option.Rel (Machine.Alike A mixed) (Machine.step i m) (Machine.step i m') := by
  have hnot : ∀ {p : Prop}, (mixed → p) → ¬mixed ∨ p := by
    intro p h
    by_cases hm : mixed
    · exact Or.inr (h hm)
    · exact Or.inl hm
  cases i with
  | powerOn => exact .some (alike_powerOn h)
  | reset => exact .some (alike_reset h)
  | emulateInstruction => exact alike_emulateInstruction h hp
  | interrupt param => exact .some (alike_interrupt h (hnot hp) param)
  | loadState inData =>
    refine .some ?_
    have hm : ¬mixed := fun hm => hp hm
    unfold loadState
    split
    · exact h
    · exact ⟨(h.core.toNear.loadMode hm _).loadRegisters _, hclock h.bus _⟩
  | setRegister reg value => exact .some ⟨h.core.setRegister hi hp, h.bus⟩
  | world bus => exact .some ⟨h.core, hworld bus rfl⟩

end RetroCpu
