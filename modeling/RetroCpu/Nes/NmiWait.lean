import RetroCpu.Nes.DarkFrame
import RetroCpu.Nes.Fetching
import RetroCpu.Nes.NmiLoop
import RetroCpu.Wdc65816.Alike
import RetroCpu.Wdc65816.StackPage

/-!
# A program that waits for the NMI

A program that draws nothing writes to `$2000` to turn the NMI on, and jumps to itself.

* `waits_emulate`: a jump leaves it waiting, or the picture processor has called `AssertNMI`.
* `taken_of_waits`, `taken_of_program`: the run loop comes to the NMI and takes it.
-/

namespace RetroCpu.Nes

open WordBytes StateFn Machine NesBus

variable {m : Machine NesBus}

/-! ### Catching up -/

theorem NesBus.exists_catchUp {b : NesBus} {cycle : BitVec 64} (hb : Ticks 12 4 b)
    (hroom : cycle.toNat + 4 ≤ 2 ^ 64) :
    ∃ q, b.catchUp cycle = .ok (b.setPpu q) ∧ Ppu.CatchesUp cycle b.ppu q := by
  have hsize : b.ppu.ppuClockSize = 4 := hb.ppuClockSize
  have hfuel : cycle.toNat < catchUpFuel := Nat.lt_succ_of_lt cycle.isLt
  obtain ⟨q, hq⟩ := Ppu.exists_catchUpToCpu (p := b.ppu) (by rw [hsize]; decide)
    (by rw [hsize]; exact hroom) hfuel
  exact ⟨q, by rw [catchUp, hq], _, hq⟩

/-! ### The interrupt -/

/-- A CPU on whose stack an interrupt may be pushed. -/
structure Interruptible (m : Machine NesBus) : Prop where
  decodes : m.bus.Decodes
  fault : m.bus.fault = none
  emulation : m.core.modeEmulation = true
  stack : hi m.core.sp = 1

theorem isIo_of_memory {b : NesBus} (hd : b.Decodes) {addr : CpuAddr}
    (h : addr &&& b.main.memMask < 0x2000 ∨ 0x8000 ≤ addr &&& b.main.memMask) :
    (b.main.memory.page (addr &&& b.main.memMask)).isIo (addr &&& b.main.memMask) = false := by
  rw [Bool.eq_false_iff]
  intro hio
  have hrange := (hd.isIo _).mp hio
  bv_omega

theorem Interruptible.frame {m' : Machine NesBus} (h : Interruptible m)
    (hcore : m'.core = m.core) (hb : Frame m.bus m'.bus) : Interruptible m' :=
  ⟨hb.decodes h.decodes, hb.fault.trans h.fault,
    (congrArg Core.modeEmulation hcore).trans h.emulation, by rw [hcore]; exact h.stack⟩

theorem interruptible_read {addr : CpuAddr}
    (haddr : addr < 0x2000 ∨ 0x8000 ≤ addr ∧ addr < 0x10000) :
    Triple Interruptible (readU8 addr) fun _ m => Interruptible m := by
  intro m hm
  have hmask : addr &&& m.bus.main.memMask = addr := by
    rw [hm.decodes.memMask]
    exact and_eq_self (n := 16) rfl (by bv_omega)
  have hread : (m.bus.read m.cycle addr) =
      .ok ((m.bus.main.readByte m.cycle addr).data,
        m.bus.setMain (m.bus.main.readByte m.cycle addr).bus) := by
    have hplace := haddr.imp_right (·.1)
    rw [← hmask] at hplace
    have hio := isIo_of_memory hm.decodes hplace
    unfold NesBus.read
    simp only [hio]
    rfl
  have hbus : (readU8 addr m).2.bus =
      m.bus.setMain (m.bus.main.readByte m.cycle addr).bus := by
    show (Bus.readByte m.bus m.cycle addr).bus = _
    rw [readByte_of_ok hread, ended, hm.fault]
    rfl
  refine hm.frame rfl ?_
  rw [hbus]
  exact frame_setMain (SystemBus.frame_readByte m.bus.main m.cycle addr)

theorem interruptible_write {addr : CpuAddr} (haddr : addr < 0x2000) (v : Byte) :
    Triple Interruptible (writeU8 addr v) fun _ m => Interruptible m := by
  intro m hm
  have hmask : addr &&& m.bus.main.memMask = addr := by
    rw [hm.decodes.memMask]
    exact and_eq_self (n := 16) rfl (by bv_omega)
  have hwrite : m.bus.write m.cycle addr v =
      .ok (0, m.bus.setMain (m.bus.main.writeByte m.cycle addr v).bus) := by
    rw [← hmask] at haddr
    have hio := isIo_of_memory hm.decodes (.inl haddr)
    unfold NesBus.write
    simp only [hio]
    rfl
  have hbus : (writeU8 addr v m).2.bus =
      m.bus.setMain (m.bus.main.writeByte m.cycle addr v).bus := by
    show (Bus.writeByte m.bus m.cycle addr v).bus = _
    simp only [Bus.writeByte, hwrite, ended, hm.fault]
    rfl
  refine hm.frame rfl ?_
  rw [hbus]
  exact frame_setMain (SystemBus.frame_writeByte m.bus.main m.cycle addr v)

theorem interruptible_pushU8 (v : Byte) :
    Triple Interruptible (pushU8 v) fun _ m => Interruptible m := by
  intro m hm
  have haddr : m.core.sp.setWidth 32 &&& 0xFFFF < (0x2000 : CpuAddr) := by
    have hle := (addr_of_hi hm.stack).2
    bv_omega
  have hwrite := interruptible_write haddr v m hm
  refine ⟨hwrite.decodes, hwrite.fault, hwrite.emulation, ?_⟩
  show hi (if m.core.modeEmulation then setLo m.core.sp (lo m.core.sp - 1) else _) = 1
  rw [hm.emulation, if_pos rfl, hi_setLo]
  exact hm.stack

theorem interruptible_pushInterruptFrame (type : InterruptType) :
    Triple Interruptible (pushInterruptFrame type) fun _ m => Interruptible m := by
  intro m hm
  have hpc : Triple Interruptible (push (s := .u16) m.core.pc) fun _ m => Interruptible m :=
    (interruptible_pushU8 _).bind fun _ => interruptible_pushU8 _
  simp only [pushInterruptFrame, bind_apply, getCore, get_apply, hm.emulation, Bool.not_true,
    when_false, pure_apply]
  exact interruptible_pushU8 _ _ (hpc m hm)

/-- **The CPU survives the interrupt.** -/
theorem fault_interrupt (hm : Interruptible m) : (interrupt 1 m).2.bus.fault = none := by
  have hpush := interruptible_pushInterruptFrame .nmi m hm
  have hvector : Triple Interruptible (readRaw .u16 (InterruptType.nmi.vector true))
      fun _ m => Interruptible m :=
    (interruptible_read (.inr (by decide))).bind fun _ =>
      (interruptible_read (.inr (by decide))).bind fun _ => Triple.pure fun _ h => h
  have hread := hvector _ hpush
  rw [← hpush.emulation] at hread
  exact hread.fault

/-! ### The loop of the program -/

/-- There is a jump to `pc` at `pc`. -/
def NesBus.Loops (b : NesBus) (pc : CpuAddr) : Prop :=
  b.Reads pc 0x4C ∧ ∃ l u, b.Reads ((pc + 1) &&& 0xFFFF) l ∧
    b.Reads (((pc + 1) &&& 0xFFFF) + 1) u ∧ (u ++ l : Word).setWidth 32 = pc

theorem NesBus.Loops.same {b b' : NesBus} {pc : CpuAddr} (h : b.Loops pc)
    (hs : b.SameMemory b') : b'.Loops pc := by
  obtain ⟨h0, l, u, h1, h2, hpc⟩ := h
  exact ⟨h0.same hs, l, u, h1.same hs, h2.same hs, hpc⟩

/-- A CPU that jumps to where it is, while the NMI is on. -/
structure Waits (due : ℕ) (m : Machine NesBus) : Prop extends Fetches m where
  pc : m.core.ip &&& ipMask = m.core.ip
  loops : m.bus.Loops m.core.ip
  stack : hi m.core.sp = 1
  ppu : m.bus.ppu.Dark due
  control : m.bus.ppu.control &&& 0x80 = 0x80
  caughtUp : m.cycle.toNat ≤ m.bus.ppu.lastPpuCycle.toNat

theorem Ppu.Dark.le {due : ℕ} {p : Ppu} (h : p.Dark due) : p.lastPpuCycle.toNat ≤ due := by
  have hclock := h.clock
  have hdot := h.dot
  omega

variable {due : ℕ}

/-- `PostCpuCycle` of a CPU that fetches. -/
theorem postCpuCycle_eq (h : Fetches m) (hroom : m.cycle.toNat + 4 ≤ 2 ^ 64) :
    ∃ q, postCpuCycle m = { m with bus := m.bus.setPpu q } ∧
      Ppu.CatchesUp m.cycle m.bus.ppu q := by
  obtain ⟨q, hq, hcatch⟩ := exists_catchUp h.ticks hroom
  refine ⟨q, ?_, hcatch⟩
  have hended : m.bus.ended (.ok ((), m.bus.setPpu q)) = m.bus.setPpu q := by
    rw [ended, h.fault]
    rfl
  rw [postCpuCycle, hq]
  exact congrArg (fun b => { m with bus := b }) hended

/-- The console after `PostCpuCycle` in the dark. -/
theorem Fetches.darker (h : Fetches m) {q : Ppu} (hq : Ppu.Darker due m.bus.ppu q) :
    Fetches { m with bus := m.bus.setPpu q } ∧ m.bus.SameMemory (m.bus.setPpu q) := by
  have hhost : q.bus.host = m.bus.main.host := by rw [hq.bus, ← h.synced]
  have hticks : Ticks 12 4 (m.bus.setPpu q) := stable_ticks.frame h.ticks
    (frame_setPpu (hq.dark.ppuClockSize.trans h.ticks.ppuClockSize.symm))
  exact ⟨⟨h.coherent, h.native, h.codeBank, h.dataBank, hticks, h.fault, rfl⟩, rfl, rfl, hhost⟩

/-- **An instruction of the loop, with `PostCpuCycle` after it.** -/
theorem waits_emulate (h : Waits due m) (hroom : m.cycle.toNat + 40 ≤ 2 ^ 64) :
    ∃ m', m.emulateInstruction = some m' ∧
      (postCpuCycle m').cycle.toNat = m.cycle.toNat + 36 ∧ Interruptible (postCpuCycle m') ∧
      (Waits due (postCpuCycle m') ∨ m.bus.ppu.nmis < (postCpuCycle m').bus.ppu.nmis) := by
  obtain ⟨h0, l, u, h1, h2, hpc⟩ := h.loops
  have hemulate := emulate_jmp h.toFetches (l := l) (u := u) (by rw [h.pc]; exact h0) h1 h2
  rw [hpc] at hemulate
  refine ⟨_, hemulate, ?_⟩
  have hcycle : (m.cycle + 36).toNat = m.cycle.toNat + 36 := by bv_omega
  have hcoherent : Core.Coherent { m.core with
      ip := m.core.ip, numEmulatedInstructions := m.core.numEmulatedInstructions + 1 } :=
    h.coherent.of_modes rfl
  have hnext := h.toFetches.next hcoherent rfl rfl rfl (m.cycle + 36) u
  obtain ⟨q, hpost, hcatch⟩ := postCpuCycle_eq hnext (by rw [hcycle]; omega)
  have hticks : Ticks 12 4 (m.bus.setPpu q) := stable_ticks.frame h.ticks
    (frame_setPpu hcatch.bounds.1)
  rw [hpost]
  refine ⟨hcycle, ⟨hticks.decodes, h.fault, h.coherent.native6502 h.native, h.stack⟩, ?_⟩
  rcases h.ppu.catchesUp (by rw [hcycle]; omega) hcatch with hq | ⟨-, hn⟩
  · obtain ⟨hfetches, hsame⟩ := hnext.darker hq
    exact .inl ⟨hfetches, h.pc, h.loops.same ⟨hsame.memory, hsame.memMask, hsame.host⟩, h.stack,
      hq.dark, (congrArg (· &&& 0x80) hq.control).trans h.control, hcatch.bounds.2.1⟩
  · exact .inr (hn h.control)

/-! ### The run loop -/

section Loop

variable {ε φ : Type} (hit : φ → Machine NesBus → List (Effect ε φ))
  (call : ε → Machine NesBus → List (Effect ε φ)) (H : StdHeap ε) {bound : BitVec 64}
  {l : Running (Machine NesBus) ε φ} {taken : ℕ}

/-- The run loop after an instruction. -/
def emulated (l : Running (Machine NesBus) ε φ) (m : Machine NesBus) :
    Running (Machine NesBus) ε φ :=
  { l with state := m, pc := .test, actions := l.actions ++ [.invoke .emu] }

theorem nmiCalls_emulated (l : Running (Machine NesBus) ε φ) (m : Machine NesBus) :
    nmiCalls (emulated l m).actions = nmiCalls l.actions := nmiCalls_append _ _

theorem maskIp_of_pc (h : m.core.ip &&& ipMask = m.core.ip) :
    (consoleCpu hit call).maskIp m = m := by
  show { m with core := { m.core with ip := m.core.ip &&& ipMask } } = m
  rw [h]

/-- An iteration of the run loop that runs an instruction. -/
theorem stepN_emulate {m' : Machine NesBus} (hpc : l.pc = .test) (hlt : l.state.cycle < bound)
    (hmask : (consoleCpu hit call).maskIp l.state = l.state)
    (htype : (consoleCpu hit call).interruptType l.state = none)
    (hb : ∀ addr, l.breakpoints.find addr = none) (hm : l.state.emulateInstruction = some m') :
    stepN (EmulateWithCycleProcessing.step (consoleCpu hit call) H id postCpuCycle) 2 (l, bound) =
      some (emulated l (postCpuCycle m'), l.pointee bound) := by
  have hcycle : (consoleCpu hit call).cycle l.state < bound := hlt
  have henter : EmulateWithCycleProcessing.step (consoleCpu hit call) H id postCpuCycle (l, bound) =
      some ((l.mask (consoleCpu hit call)).calls .emu, bound) := by
    simp only [EmulateWithCycleProcessing.step, hpc, if_pos hcycle]
    simp only [EmulateWithCycleProcessing.enter, Running.mask, hmask, htype, id_eq, hb]
  have hinvoke : (consoleCpu hit call).invoke .emu ((consoleCpu hit call).maskIp l.state) =
      some (m', []) := by
    show (Machine.emulateInstruction _).map _ = _
    rw [hmask, hm]
    rfl
  rw [stepN, henter]
  refine (Option.bind_fun_some _).trans ?_
  show ((consoleCpu hit call).invoke .emu ((consoleCpu hit call).maskIp l.state)).map _ = _
  rw [hinvoke]
  rfl

/-- An iteration that takes the NMI. -/
theorem stepN_interrupt (hpc : l.pc = .test) (hlt : l.state.cycle < bound)
    (htype : (consoleCpu hit call).interruptType ((consoleCpu hit call).maskIp l.state) = some 1) :
    stepN (EmulateWithCycleProcessing.step (consoleCpu hit call) H id postCpuCycle) 2 (l, bound) =
      some ({ l with
        state := (interrupt 1 ((consoleCpu hit call).maskIp l.state)).2, pc := .test
        actions := l.actions ++ [.invoke (.interrupt 1)] }, l.pointee bound) := by
  have hcycle : (consoleCpu hit call).cycle l.state < bound := hlt
  have henter : EmulateWithCycleProcessing.step (consoleCpu hit call) H id postCpuCycle (l, bound) =
      some ((l.mask (consoleCpu hit call)).calls (.interrupt 1), bound) := by
    simp only [EmulateWithCycleProcessing.step, hpc, if_pos hcycle]
    simp only [EmulateWithCycleProcessing.enter, Running.mask, htype]
  rw [stepN, henter]
  rfl

/-- **A program that waits for the NMI gets it.** -/
theorem taken_of_waits (hbound : due + 36 < bound.toNat) (hroom : bound.toNat + 2 ^ 18 ≤ 2 ^ 64)
    (hpc : l.pc = .test) (hpointee : l.pointee bound = bound)
    (hb : ∀ addr, l.breakpoints.find addr = none) (hw : Waits due l.state)
    (hs : Steady taken l.state) (hline : l.state.bus.latch.line = false) :
    ∃ steps s, stepN (EmulateWithCycleProcessing.step (consoleCpu hit call) H id postCpuCycle)
      steps (l, bound) = some s ∧ s.1.pc = .test ∧ s.1.state.bus.fault = none ∧
      nmiCalls s.1.actions = nmiCalls l.actions + 1 := by
  generalize hn : due - l.state.cycle.toNat = n
  induction n using Nat.strong_induction_on generalizing l with
  | _ n ih =>
    have hup := hw.caughtUp
    have hdue := hw.ppu.le
    have hmask : (consoleCpu hit call).maskIp l.state = l.state :=
      maskIp_of_pc hit call hw.pc
    have htype : (consoleCpu hit call).interruptType l.state = none := by
      rw [hs.interruptType, hline]
      rfl
    obtain ⟨m', hm, hcycle, hable, hnext⟩ := waits_emulate hw (by omega)
    have hsteady : Steady taken (postCpuCycle m') :=
      steady_emulate hs hline (by show _ ≤ _; omega) hm hable.fault
    have hlt : l.state.cycle < bound := show l.state.cycle.toNat < bound.toNat by omega
    have hstep := stepN_emulate hit call H hpc hlt hmask htype hb hm
    rw [hpointee] at hstep
    cases hline' : (postCpuCycle m').bus.latch.line with
    | false =>
      rcases hnext with hw' | hraised
      · have hup' := hw'.caughtUp
        have hdue' := hw'.ppu.le
        obtain ⟨steps, s, hsteps, hend, hfault, hactions⟩ := ih
          (due - (postCpuCycle m').cycle.toNat) (by omega)
          (l := emulated l (postCpuCycle m')) rfl hpointee hb hw' hsteady hline' rfl
        rw [nmiCalls_emulated] at hactions
        refine ⟨2 + steps, s, ?_, hend, hfault, hactions⟩
        rw [stepN_add, hstep]
        exact hsteps
      · have hbefore := hs.counted.raised
        have hafter := hsteady.counted.raised
        rw [hline] at hbefore
        rw [hline'] at hafter
        exact absurd (hbefore.trans hafter.symm) (Nat.ne_of_lt hraised)
    | true =>
      have hlt' : (emulated l (postCpuCycle m')).state.cycle < bound :=
        show (postCpuCycle m').cycle.toNat < bound.toNat by omega
      have htype' : (consoleCpu hit call).interruptType
          ((consoleCpu hit call).maskIp (emulated l (postCpuCycle m')).state) = some 1 :=
        hsteady.maskIp.interruptType.trans (if_pos hline')
      have htaken := stepN_interrupt hit call H rfl hlt' htype'
      have hrun := stepN_add (EmulateWithCycleProcessing.step (consoleCpu hit call) H id
        postCpuCycle) 2 2 (l, bound)
      rw [hstep] at hrun
      refine ⟨_, _, hrun.trans htaken, rfl, fault_interrupt ⟨hable.decodes, hable.fault,
        hable.emulation, hable.stack⟩, ?_⟩
      rw [nmiCalls_append, nmiCalls_emulated]
      rfl

end Loop

/-! ### The program before its loop -/

theorem Ppu.Dark.writeControl {p : Ppu} (h : p.Dark due) (v : Byte) :
    (p.writeReg 0 v).Dark due ∧ (p.writeReg 0 v).control = v ∧ (p.writeReg 0 v).bus = p.bus :=
  ⟨⟨h.valid, h.ppuClockSize, h.rendering, h.state, h.dot, h.clock, h.status⟩, rfl, rfl⟩

/-- What a write to `$2000` leaves. -/
structure NesBus.Controls (due : ℕ) (b b' : NesBus) (v : Byte) : Prop where
  ticks : Ticks 12 4 b'
  fault : b'.fault = b.fault
  synced : b'.Synced
  same : b.SameMemory b'
  dark : b'.ppu.Dark due
  control : b'.ppu.control = v
  nmis : b'.ppu.nmis = b.ppu.nmis

theorem NesBus.write_control {b : NesBus} {cycle : BitVec 64} (hb : Ticks 12 4 b)
    (hs : b.Synced) (hp : b.ppu.Dark due) (hdue : cycle.toNat ≤ due)
    (hroom : cycle.toNat + 4 ≤ 2 ^ 64) (v : Byte) :
    ∃ b', b.write cycle 0x2000 v = .ok (0, b') ∧ b.Controls due b' v := by
  obtain ⟨q, hcatch, hq⟩ := exists_catchUp hb hroom
  have hdarker : Ppu.Darker due b.ppu q := by
    rcases hp.catchesUp hroom hq with h | ⟨h, -⟩
    · exact h
    · omega
  have hmask : (0x2000 : CpuAddr) &&& b.main.memMask = 0x2000 := by
    rw [hb.decodes.memMask]
    rfl
  have hio : (b.main.memory.page 0x2000).isIo 0x2000 = true :=
    (hb.decodes.isIo _).mpr ⟨by decide, by decide⟩
  have hwrite : b.write cycle 0x2000 v = .ok (0, ((b.setPpu q).writePpuReg 0 v).setOpenBus
      (if b.main.openBusIsData then v else (0x2000 : CpuAddr).setWidth 8)) := by
    unfold NesBus.write
    simp only [hmask, hio, if_true]
    rw [ioWrite, if_pos (by decide), if_pos (by decide), hcatch]
    rfl
  obtain ⟨hdark, hcontrol, hbus⟩ := hdarker.dark.writeControl v
  have hhost : (q.writeReg 0 v).bus.host = b.main.host := by
    rw [hbus, hdarker.bus]
    exact hs.symm
  have hframe : Frame b ((b.setPpu q).writePpuReg 0 v) :=
    (frame_setPpu hq.bounds.1).trans (frame_writePpuReg _ _ _)
  exact ⟨_, hwrite, stable_ticks.frame hb ⟨hframe.memory, hframe.memMask, hframe.cpuClockSize,
    hframe.ppuClockSize, hframe.fault⟩, rfl, rfl, ⟨rfl, rfl, hhost⟩, hdark, hcontrol, hdarker.nmis⟩

/-- `LDA #v`, `STA $2000`, and a jump to itself. -/
structure NesBus.Program (b : NesBus) (pc : CpuAddr) (v : Byte) : Prop where
  fits : pc.toNat + 8 ≤ 0x10000
  lda : b.Reads pc 0xA9
  value : b.Reads (pc + 1) v
  sta : b.Reads (pc + 2) 0x8D
  low : b.Reads (pc + 3) 0
  high : b.Reads (pc + 4) 0x20
  loops : b.Loops (pc + 5)

theorem and_ipMask {pc : CpuAddr} (h : pc.toNat < 0x10000) : pc &&& ipMask = pc :=
  and_eq_self (n := 16) rfl (by omega)

/-- A CPU that runs the program, before it is at the loop. -/
structure Prepares (due : ℕ) (pc : CpuAddr) (v : Byte) (m : Machine NesBus) : Prop
    extends Fetches m where
  program : m.bus.Program pc v
  stack : hi m.core.sp = 1
  ppu : m.bus.ppu.Dark due

variable {pc : CpuAddr} {v : Byte}

theorem NesBus.Program.same {b b' : NesBus} (h : b.Program pc v) (hs : b.SameMemory b') :
    b'.Program pc v :=
  ⟨h.fits, h.lda.same hs, h.value.same hs, h.sta.same hs, h.low.same hs, h.high.same hs,
    h.loops.same hs⟩

theorem Prepares.postCpuCycle (h : Prepares due pc v m) (hdue : m.cycle.toNat ≤ due)
    (hroom : due + 4 ≤ 2 ^ 64) :
    Prepares due pc v (postCpuCycle m) ∧ (Nes.postCpuCycle m).core = m.core ∧
      (Nes.postCpuCycle m).cycle = m.cycle ∧
      (Nes.postCpuCycle m).bus.ppu.nmis = m.bus.ppu.nmis ∧
      (Nes.postCpuCycle m).bus.ppu.control = m.bus.ppu.control ∧
      m.cycle.toNat ≤ (Nes.postCpuCycle m).bus.ppu.lastPpuCycle.toNat := by
  obtain ⟨q, hpost, hcatch⟩ := postCpuCycle_eq h.toFetches (by omega)
  have hdarker : Ppu.Darker due m.bus.ppu q := by
    rcases h.ppu.catchesUp (by omega) hcatch with hq | ⟨hlt, -⟩
    · exact hq
    · omega
  obtain ⟨hfetches, hsame⟩ := h.toFetches.darker hdarker
  rw [hpost]
  exact ⟨⟨hfetches, h.program.same hsame, h.stack, hdarker.dark⟩, rfl, rfl, hdarker.nmis,
    hdarker.control, hcatch.bounds.2.1⟩

theorem emulate_program_lda (h : Prepares due pc v m) (hip : m.core.ip = pc)
    (hdue : m.cycle.toNat + 24 ≤ due) (hroom : due + 4 ≤ 2 ^ 64) :
    ∃ m', m.emulateInstruction = some m' ∧ Prepares due pc v (Nes.postCpuCycle m') ∧
      (Nes.postCpuCycle m').cycle.toNat = m.cycle.toNat + 24 ∧
      (Nes.postCpuCycle m').bus.ppu.nmis = m.bus.ppu.nmis ∧
      (Nes.postCpuCycle m').core.ip = pc + 2 ∧ lo (Nes.postCpuCycle m').core.a = v := by
  have hfits := h.program.fits
  have hopcode : m.core.ip &&& ipMask = pc := by rw [hip, and_ipMask (by omega)]
  have hnext : (m.core.ip + 1) &&& 0xFFFF = pc + 1 := by
    rw [hip]
    exact and_ipMask (by bv_omega)
  have hlda := emulate_lda h.toFetches (v := v) (by rw [hopcode]; exact h.program.lda)
    (by rw [hnext]; exact h.program.value)
  have hcycle : (m.cycle + 24).toNat = m.cycle.toNat + 24 := by bv_omega
  have hcoherent : Core.Coherent { ((m.core.set .a (s := .u8) v).setNZ v).addIp 2 with
      numEmulatedInstructions := m.core.numEmulatedInstructions + 1 } :=
    h.coherent.of_modes rfl
  have hfetches := h.toFetches.next hcoherent rfl rfl rfl (m.cycle + 24) v
  have hprep : Prepares due pc v { m with
      core := { ((m.core.set .a (s := .u8) v).setNZ v).addIp 2 with
        numEmulatedInstructions := m.core.numEmulatedInstructions + 1 }
      cycle := m.cycle + 24, bus := m.bus.setOpenBus v } :=
    ⟨hfetches, h.program.same ⟨rfl, rfl, rfl⟩, h.stack, h.ppu⟩
  have hdue24 : (m.cycle + 24).toNat ≤ due := by omega
  obtain ⟨hprepares, hcore, hclock, hnmis, -, -⟩ := hprep.postCpuCycle hdue24 hroom
  refine ⟨_, hlda, hprepares, ?_, hnmis, ?_, ?_⟩
  · rw [hclock]
    exact hcycle
  · rw [hcore]
    show m.core.ip + 2 = pc + 2
    rw [hip]
  · rw [hcore]
    exact lo_setLo _ _

theorem emulate_program_sta (h : Prepares due pc v m) (hip : m.core.ip = pc + 2)
    (ha : lo m.core.a = v) (hv : v &&& 0x80 = 0x80) (hdue : m.cycle.toNat + 48 ≤ due)
    (hroom : due + 4 ≤ 2 ^ 64) :
    ∃ m', m.emulateInstruction = some m' ∧ Waits due (Nes.postCpuCycle m') ∧
      (Nes.postCpuCycle m').bus.ppu.nmis = m.bus.ppu.nmis := by
  have hfits := h.program.fits
  have hopcode : m.core.ip &&& ipMask = pc + 2 := by
    rw [hip]
    exact and_ipMask (by bv_omega)
  have hnext : (m.core.ip + 1) &&& 0xFFFF = pc + 3 := by
    have hadd : pc + 2 + 1 = pc + 3 := by bv_omega
    rw [hip, hadd]
    exact and_ipMask (by bv_omega)
  have hadd : pc + 3 + 1 = pc + 4 := by bv_omega
  have hcycle : (m.cycle + 36).toNat = m.cycle.toNat + 36 := by bv_omega
  have hcycle' : (m.cycle + 48).toNat = m.cycle.toNat + 48 := by bv_omega
  have hfetches := h.toFetches.next h.coherent rfl rfl rfl m.cycle 0x20
  have hdue36 : (m.cycle + 36).toNat ≤ due := by omega
  have hdue48 : (m.cycle + 48).toNat ≤ due := by omega
  obtain ⟨b', hwrite, hb'⟩ :=
    write_control hfetches.ticks hfetches.synced h.ppu hdue36 (by omega) v
  have haddr : ((0x20 : Byte) ++ (0 : Byte) : Word).setWidth 32 = (0x2000 : CpuAddr) := by decide
  have hsta := emulate_sta h.toFetches (l := 0) (u := 0x20)
    (by rw [hopcode]; exact h.program.sta) (by rw [hnext]; exact h.program.low)
    (by rw [hnext, hadd]; exact h.program.high) (by rw [haddr, ha]; exact hwrite)
  have hcoherent : Core.Coherent { m.core.addIp 3 with
      numEmulatedInstructions := m.core.numEmulatedInstructions + 1 } :=
    h.coherent.of_modes rfl
  have hsame : m.bus.SameMemory b' := ⟨hb'.same.memory, hb'.same.memMask, hb'.same.host⟩
  have hprep : Prepares due pc v { m with
      core := { m.core.addIp 3 with
        numEmulatedInstructions := m.core.numEmulatedInstructions + 1 }
      cycle := m.cycle + 48, bus := b' } :=
    ⟨⟨hcoherent, h.native, h.codeBank, h.dataBank, hb'.ticks, hb'.fault.trans h.fault, hb'.synced⟩,
      h.program.same hsame, h.stack, hb'.dark⟩
  obtain ⟨hprepares, hcore, hclock, hnmis, hcontrol, hup⟩ := hprep.postCpuCycle hdue48 hroom
  have hpc : (Nes.postCpuCycle { m with
      core := { m.core.addIp 3 with
        numEmulatedInstructions := m.core.numEmulatedInstructions + 1 }
      cycle := m.cycle + 48, bus := b' }).core.ip = pc + 5 := by
    rw [hcore]
    show m.core.ip + 3 = pc + 5
    rw [hip]
    bv_omega
  refine ⟨_, hsta, ⟨hprepares.toFetches, ?_, ?_, hprepares.stack, hprepares.ppu, ?_, ?_⟩,
    hnmis.trans hb'.nmis⟩
  · rw [hpc]
    exact and_ipMask (by bv_omega)
  · rw [hpc]
    exact hprepares.program.loops
  · rw [hcontrol, hb'.control]
    exact hv
  · rw [hclock]
    exact hup

theorem line_of_nmis {taken : ℕ} {m' : Machine NesBus} (hs : Steady taken m)
    (hs' : Steady taken m') (hn : m'.bus.ppu.nmis = m.bus.ppu.nmis)
    (hline : m.bus.latch.line = false) : m'.bus.latch.line = false := by
  have hbefore : m.bus.ppu.nmis = _ := hs.counted.raised
  have hafter : m'.bus.ppu.nmis = _ := hs'.counted.raised
  rw [hline] at hbefore
  cases hline' : m'.bus.latch.line with
  | false => rfl
  | true =>
    rw [hline', hn, hbefore] at hafter
    exact absurd hafter (Nat.ne_of_lt (Nat.lt_succ_self _))

section Loop

variable {ε φ : Type} (hit : φ → Machine NesBus → List (Effect ε φ))
  (call : ε → Machine NesBus → List (Effect ε φ)) (H : StdHeap ε) {bound : BitVec 64}
  {l : Running (Machine NesBus) ε φ} {taken : ℕ}

/-- **A program that turns the NMI on and waits for it gets it.** -/
theorem taken_of_program (hv : v &&& 0x80 = 0x80) (hdue : l.state.cycle.toNat + 72 ≤ due)
    (hbound : due + 36 < bound.toNat) (hroom : bound.toNat + 2 ^ 18 ≤ 2 ^ 64)
    (hpc : l.pc = .test) (hpointee : l.pointee bound = bound)
    (hb : ∀ addr, l.breakpoints.find addr = none) (hp : Prepares due pc v l.state)
    (hip : l.state.core.ip = pc) (hs : Steady taken l.state)
    (hline : l.state.bus.latch.line = false) :
    ∃ steps s, stepN (EmulateWithCycleProcessing.step (consoleCpu hit call) H id postCpuCycle)
      steps (l, bound) = some s ∧ s.1.pc = .test ∧ s.1.state.bus.fault = none ∧
      nmiCalls s.1.actions = nmiCalls l.actions + 1 := by
  have hfits := hp.program.fits
  have hmask : (consoleCpu hit call).maskIp l.state = l.state := by
    refine maskIp_of_pc hit call ?_
    rw [hip]
    exact and_ipMask (by omega)
  have htype : (consoleCpu hit call).interruptType l.state = none := by
    rw [hs.interruptType, hline]
    rfl
  obtain ⟨m₁, hm₁, hp₁, hcycle₁, hnmis₁, hip₁, ha₁⟩ :=
    emulate_program_lda hp hip (by omega) (by omega)
  have hs₁ : Steady taken (postCpuCycle m₁) :=
    steady_emulate hs hline (by show _ ≤ _; omega) hm₁ hp₁.fault
  have hline₁ := line_of_nmis hs hs₁ hnmis₁ hline
  have hlt : l.state.cycle < bound := show l.state.cycle.toNat < bound.toNat by omega
  have hstep₁ := stepN_emulate hit call H hpc hlt hmask htype hb hm₁
  rw [hpointee] at hstep₁
  have hmask₁ : (consoleCpu hit call).maskIp (postCpuCycle m₁) = postCpuCycle m₁ := by
    refine maskIp_of_pc hit call ?_
    rw [hip₁]
    exact and_ipMask (by bv_omega)
  have htype₁ : (consoleCpu hit call).interruptType (postCpuCycle m₁) = none := by
    rw [hs₁.interruptType, hline₁]
    rfl
  obtain ⟨m₂, hm₂, hw, hnmis₂⟩ := emulate_program_sta hp₁ hip₁ ha₁ hv (by omega) (by omega)
  have hs₂ : Steady taken (postCpuCycle m₂) :=
    steady_emulate hs₁ hline₁ (by show _ ≤ _; omega) hm₂ hw.fault
  have hline₂ := line_of_nmis hs₁ hs₂ hnmis₂ hline₁
  let l₁ := emulated l (postCpuCycle m₁)
  let l₂ := emulated l₁ (postCpuCycle m₂)
  have hlt₁ : l₁.state.cycle < bound := show (postCpuCycle m₁).cycle.toNat < bound.toNat by omega
  have hstep₂ : stepN (EmulateWithCycleProcessing.step (consoleCpu hit call) H id postCpuCycle) 2
      (l₁, bound) = some (l₂, l.pointee bound) :=
    stepN_emulate hit call H rfl hlt₁ hmask₁ htype₁ hb hm₂
  obtain ⟨steps, s, hsteps, hend, hfault, hactions⟩ :=
    taken_of_waits hit call H (l := l₂) hbound hroom rfl hpointee hb hw hs₂ hline₂
  rw [nmiCalls_emulated, nmiCalls_emulated] at hactions
  refine ⟨2 + (2 + steps), s, ?_, hend, hfault, hactions⟩
  rw [stepN_add, hstep₁, Option.bind_some, stepN_add, hstep₂]
  show stepN _ steps (_, l.pointee bound) = _
  rw [hpointee]
  exact hsteps

end Loop

end RetroCpu.Nes
