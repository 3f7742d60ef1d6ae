import RetroCpu.Wdc65816.PushPull

/-!
# Return from an interrupt in native mode

`DoInterrupt` pushes the program bank, the program counter and the status register,
and `RTI` pulls them in the opposite order.  The status comes first, so the widths
are those of the interrupted program before anything else is restored.

The handler may do whatever it likes: `rti_returns` asks only that the SP, the
emulation bit and the four bytes of the frame are what the interrupt left.
-/

namespace RetroCpu

open WordBytes Machine StateFn

variable {β : Type} [Bus β] {R : CpuAddr → Prop} {ram : PlainRam β R} {base : Word}

def Core.nativeFrame (c : Core) : List Byte :=
  [c.getStatusRegister, lo c.pc, hi c.pc, c.programBank]

theorem Core.decSp_native {c : Core} (he : c.modeEmulation = false) : c.decSp.sp = c.sp - 1 := by
  rw [decSp, he]
  rfl

theorem triple_pushNativeFrame {c : Core} (he : c.modeEmulation = false)
    (hR : ∀ i < 4, R ((c.sp - BitVec.ofNat 16 i).setWidth 32)) (type : InterruptType) :
    Triple (At .native ram base c []) (pushInterruptFrame type)
      fun _ => At .native ram base c.decSp.decSp.decSp.decSp c.nativeFrame := by
  have h1 : c.decSp.sp = c.sp - 1 := Core.decSp_native he
  have h2 : c.decSp.decSp.sp = c.sp - 2 := by
    rw [Core.decSp_native (by exact he), h1]
    bv_omega
  have h3 : c.decSp.decSp.decSp.sp = c.sp - 3 := by
    rw [Core.decSp_native (by exact he), h2]
    bv_omega
  have hR0 : R (StackView.native.addr c.sp) := by
    have h := hR 0 (by decide)
    rwa [BitVec.sub_zero] at h
  have hR1 : R (StackView.native.addr c.decSp.sp) := h1 ▸ hR 1 (by decide)
  have hR2 : R (StackView.native.addr c.decSp.decSp.sp) := h2 ▸ hR 2 (by decide)
  have hR3 : R (StackView.native.addr c.decSp.decSp.decSp.sp) := h3 ▸ hR 3 (by decide)
  have hst : type.pushedStatus c.modeEmulation c.getStatusRegister = c.getStatusRegister := by
    rw [he]
    rfl
  have hbank : [c.programBank].length + 2 ≤ 2 ^ 16 := by simp
  have hframe : (lo c.pc :: hi c.pc :: [c.programBank]).length < 2 ^ 16 := by simp
  refine bind_getCore _ (Triple.bind (Triple.when (by rw [he]; rfl) (bind_getCore _
    (triple_pushU8 (by decide) hR0 _))) fun _ => bind_getCore _ ?_)
  refine Triple.bind (triple_pushWord hbank hR1 hR2 _) fun _ => bind_getCore _ ?_
  rw [Core.nativeFrame, ← hst]
  exact triple_pushU8 hframe hR3 _

/-- The CPU after an `RTI` in native mode that pulls `status`, `pc` and `bank`. -/
def Core.afterRti (c : Core) (status : Byte) (pc : Word) (bank : Byte) : Core :=
  (((c.incSp.setStatusRegister status).incSp.incSp.setIp (pc.setWidth 32)).incSp.setProgramBank
    bank).count

theorem triple_rti {c : Core} (hc : c.Coherent) (he : c.modeEmulation = false) {vs : List Byte}
    (status : Byte) (pc : Word) (bank : Byte) :
    Triple (At .native ram base c (status :: lo pc :: hi pc :: bank :: vs)) (perform .rti)
      fun _ => At .native ram base (c.afterRti status pc bank) vs := by
  have he1 : (c.incSp.setStatusRegister status).modeEmulation = false :=
    (Core.modeEmulation_setStatusRegister hc.incSp status).trans he
  refine triple_perform (triple_opRti status pc trivial (StackView.fits_native _ _) ?_)
  generalize c.incSp.setStatusRegister status = u at he1 ⊢
  have he2 : (u.incSp.incSp.setIp (pc.setWidth 32)).modeEmulation = false := he1
  refine bind_getCore _ (Triple.when (by rw [he2]; rfl) (bind_popU8 trivial ?_))
  exact triple_update (Core.control_setProgramBank _ bank)

/-- What `RTI` gives back to the interrupted program. -/
structure Core.Returned (c c' : Core) : Prop where
  pc : c'.pc = c.pc
  programBank : c'.programBank = c.programBank
  status : c'.getStatusRegister = c.getStatusRegister
  modeLongA : c'.modeLongA = c.modeLongA
  modeLongXy : c'.modeLongXy = c.modeLongXy
  mode : c'.mode = c.mode
  sp : c'.sp = c.sp

namespace Core

/-- In native mode the mode is that of the widths. -/
theorem Coherent.mode_native {c : Core} (hc : c.Coherent) (he : c.modeEmulation = false) :
    c.mode = .ofWidths c.modeLongA c.modeLongXy := by
  have h6 : c.modeNative6502 = false :=
    Bool.eq_false_iff.mpr fun h => Bool.false_ne_true (he.symm.trans (hc.native6502 h))
  rw [hc.mode, h6, he]
  rfl

/-- The widths are bits of the status register. -/
theorem Coherent.widths_eq {c c' : Core} (hc : c.Coherent) (hc' : c'.Coherent)
    (h : c'.getStatusRegister = c.getStatusRegister) :
    c'.modeLongA = c.modeLongA ∧ c'.modeLongXy = c.modeLongXy := by
  obtain ⟨ha, hx⟩ := getStatusRegister_and hc
  obtain ⟨ha', hx'⟩ := getStatusRegister_and hc'
  rw [h] at ha' hx'
  exact ⟨ha'.symm.trans ha, hx'.symm.trans hx⟩

theorem getStatusRegister_setStatusRegister_native {c : Core} (hc : c.Coherent)
    (he : c.modeEmulation = false) (v : Byte) : (c.setStatusRegister v).getStatusRegister = v := by
  rw [getStatusRegister_setStatusRegister hc, he, if_neg Bool.false_ne_true]

variable (c : Core) (status : Byte) (pc : Word) (bank : Byte)

theorem pc_afterRti : (c.afterRti status pc bank).pc = pc := by
  simp [afterRti, count, setProgramBank, incSp, setIp, Core.pc]

theorem programBank_afterRti : (c.afterRti status pc bank).programBank = bank := by
  simp [afterRti, count, setProgramBank, Core.programBank, bank_shift]

theorem getStatusRegister_afterRti (hc : c.Coherent) (he : c.modeEmulation = false) :
    (c.afterRti status pc bank).getStatusRegister = status := by
  have h := getStatusRegister_setStatusRegister_native hc.incSp he status
  unfold afterRti setProgramBank
  generalize bank.setWidth 32 <<< 16 = b
  generalize c.incSp.setStatusRegister status = u at h ⊢
  exact h

end Core

def Core.frameAddr (c : Core) (i : ℕ) : CpuAddr := (c.sp - BitVec.ofNat 16 i).setWidth 32

theorem at_rti (mode : Mode) : (execOps mode).at 0x40 = some .rti := by
  cases mode <;> rfl

/-- What an interrupt in native mode leaves: the frame on the stack. -/
theorem doInterrupt_native {m : Machine β} (type : InterruptType) (hc : m.core.Coherent)
    (he : m.core.modeEmulation = false) (hok : ram.ok m.bus)
    (hR : ∀ i < 4, R (m.core.frameAddr i)) :
    At .native ram m.core.sp (doInterrupt type m).2.core m.core.nativeFrame
      (doInterrupt type m).2 :=
  Triple.bind (triple_pushNativeFrame he hR type) (fun _ => triple_enterHandler type) m
    ⟨rfl, hok, ⟨hc, he, trivial⟩, trivial, BitVec.add_zero _⟩

/-- **`RTI` undoes an interrupt in native mode.**  The handler may have made any calls and met
any memory; it ends in native mode with the SP that the interrupt left and with the frame as
the interrupt left it. -/
theorem rti_returns (ram : PlainRam β R) {m m' : Machine β} (type : InterruptType)
    (hc : m.core.Coherent) (he : m.core.modeEmulation = false) (hok : ram.ok m.bus)
    (hR : ∀ i < 4, R (m.core.frameAddr i))
    (hrun : Run Machine.step (fun _ _ => True) (doInterrupt type m).2 m')
    (hsp : m'.core.sp = (doInterrupt type m).2.core.sp) (he' : m'.core.modeEmulation = false)
    (hok' : ram.ok m'.bus)
    (hframe : ∀ i < 4, ram.peek m'.bus (m.core.frameAddr i) =
      ram.peek (doInterrupt type m).2.bus (m.core.frameAddr i))
    (hrti : (fetch m').1 = 0x40) :
    ∃ m'', m'.emulateInstruction = some m'' ∧ m.core.Returned m''.core := by
  have h1 := doInterrupt_native type hc he hok hR
  have hc' : m'.core.Coherent := Run.invariant (P := fun m : Machine β => m.core.Coherent)
    h1.good.coherent (fun _ _ _ hm _ hs => coherent_step hm hs) hrun
  have hsp1 : (doInterrupt type m).2.core.sp + 4 = m.core.sp := h1.base
  have hAt : At .native ram m.core.sp m'.core m.core.nativeFrame m' := by
    refine ⟨rfl, hok', ⟨hc', he', trivial⟩, ?_, ?_⟩
    · rw [hsp]
      refine h1.holds.of_agree fun i hi v hv => ⟨hv.1, ?_⟩
      have hi4 : i < 4 := hi
      have haddr : StackView.native.addr (StackView.native.pos (doInterrupt type m).2.core.sp + 1 +
          BitVec.ofNat 16 i) = m.core.frameAddr (3 - i) := by
        show ((doInterrupt type m).2.core.sp + 1 + BitVec.ofNat 16 i).setWidth 32 =
          (m.core.sp - BitVec.ofNat 16 (3 - i)).setWidth 32
        rw [← hsp1]
        congr 1
        bv_omega
      rw [haddr, hframe (3 - i) (by omega), ← haddr]
      exact hv.2
    · rw [hsp]
      exact h1.base
  have hop : m'.handler = some .rti := by
    rw [handler, hc'.instructionSet, hrti]
    exact at_rti _
  have hend := triple_rti hc' he' m.core.getStatusRegister m.core.pc m.core.programBank
    (fetch m').2 (hAt.quiet (quiet_fetch m'))
  have hstart : At .native ram m.core.sp m.core [] m :=
    ⟨rfl, hok, ⟨hc, he, trivial⟩, trivial, BitVec.add_zero _⟩
  have hstatus := Core.getStatusRegister_afterRti m'.core m.core.getStatusRegister m.core.pc
    m.core.programBank hc' he'
  obtain ⟨ha, hx⟩ := hc.widths_eq hend.good.coherent hstatus
  refine ⟨(perform .rti (fetch m').2).2, ?_, ?_⟩
  · rw [emulateInstruction, hop]
    rfl
  · rw [hend.core]
    refine ⟨Core.pc_afterRti .., Core.programBank_afterRti .., hstatus, ha, hx, ?_,
      hstart.sp_eq hend rfl⟩
    rw [hend.good.coherent.mode_native hend.good.modeEmulation, hc.mode_native he, ha, hx]

/-- A CPU in native mode over a memory with `PHA`, `INC $10`, `PLA` and `RTI` as the handler of the
IRQ vector. -/
def Machine.handling : Machine (SystemBus Unit) :=
  let m := construct default (SystemBus.simple 24 fun a =>
    if a = 0xFFEF then 2 else if 0x200 ≤ a then [0x48, 0xE6, 0x10, 0x68, 0x40].getD (a - 0x200) 0
    else 0)
  { m with core := ({ m.core with sp := 0x01FF, modeEmulation := false }).onUpdateMode }

/-- The state before `RTI`. -/
def Machine.handled : Option (Machine (SystemBus Unit)) :=
  runList Machine.step [.emulateInstruction, .emulateInstruction, .emulateInstruction]
    (doInterrupt .irq handling).2

theorem rti_returns_handled : ∃ m' m'', handled = some m' ∧ m'.bus.host 0x10 = 1 ∧
    m'.emulateInstruction = some m'' ∧ handling.core.Returned m''.core := by
  have hc : handling.core.Coherent := Core.coherent_onUpdateMode _
  have he : handling.core.modeEmulation = false := by decide +kernel
  have hok : SystemBus.simpleRam.ok handling.bus := SystemBus.ok_simpleRam _
  have hR : ∀ i < 4, handling.core.frameAddr i < 0x1000000 := by
    intro i _
    rw [Core.frameAddr]
    bv_omega
  have h := doInterrupt_native .irq hc he hok hR
  have hs : handled.map (fun m => (m.core.sp, m.core.modeEmulation, (fetch m).1, m.bus.host 0x10)) =
      some ((doInterrupt .irq handling).2.core.sp, false, 0x40, 1) := by decide +kernel
  have hframe : ∀ i < 4, handled.map (fun m => SystemBus.simpleRam.peek m.bus
      (handling.core.frameAddr i)) =
      some (SystemBus.simpleRam.peek (doInterrupt .irq handling).2.bus
        (handling.core.frameAddr i)) := by decide +kernel
  obtain ⟨m', hm', hend⟩ := Option.map_eq_some_iff.mp hs
  simp only [Prod.mk.injEq] at hend
  obtain ⟨hsp, he', hrti, hcount⟩ := hend
  have hinstructions : Run Machine.step (fun _ i => i = .emulateInstruction)
      (doInterrupt .irq handling).2 m' := Run.of_runList (by simp) hm'
  have hok' : SystemBus.simpleRam.ok m'.bus :=
    Run.invariant (P := fun m => SystemBus.simpleRam.ok m.bus) h.ok
      (fun _ _ _ hm hi hs => bus_step SystemBus.simpleRam.invariant hm
        (fun _ hbus => by rw [hi] at hbus; cases hbus) hs)
      hinstructions
  obtain ⟨m'', hm'', hreturned⟩ := rti_returns SystemBus.simpleRam .irq hc he hok hR
    (Run.of_runList (by simp) hm') hsp he' hok' (fun i hi => by simpa [hm'] using hframe i hi) hrti
  exact ⟨m', m'', hm', hcount, hm'', hreturned⟩
end RetroCpu
