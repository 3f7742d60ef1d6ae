import RetroCpu.Nes.Clocks
import RetroCpu.Nes.ReadLines

/-!
# Instructions from memory

What an instruction of the CPU of a console does, as an equation, where the bytes of the
instruction are in memory: a jump, a load and a store.
-/

namespace RetroCpu.Nes

open WordBytes StateFn Machine NesBus

namespace NesBus

variable {b b' : NesBus} {cycle : BitVec 64} {addr : CpuAddr} {v : Byte}

/-- The CPU finds `v` in memory. -/
def Reads (b : NesBus) (addr : CpuAddr) (v : Byte) : Prop :=
  ∃ n readonly, SystemBus.Backed b.main.memory b.main.memMask addr n readonly ∧
    b.main.host n = v

theorem read_of_reads (hs : b.Synced) (h : b.Reads addr v) :
    b.read cycle addr = .ok (v, b.setOpenBus v) := by
  obtain ⟨n, readonly, hbacked, hv⟩ := h
  obtain ⟨base, hbase, hn⟩ := hbacked.ptr
  have hbus : (b.main.readByte cycle addr).data = v ∧
      (b.main.readByte cycle addr).bus = { b.main with openBus := v } := by
    simp [SystemBus.readByte, hbacked.io, hbase, hn, hv]
  unfold read
  simp only [hbacked.io, hbus.1, hbus.2]
  exact congrArg (fun b => Except.ok (v, b)) (setMain_openBus hs v)

/-- The memory of the CPU is as it was. -/
structure SameMemory (b b' : NesBus) : Prop where
  memory : b'.main.memory = b.main.memory
  memMask : b'.main.memMask = b.main.memMask
  host : b'.main.host = b.main.host

theorem Reads.same (h : b.Reads addr v) (hs : b.SameMemory b') : b'.Reads addr v := by
  obtain ⟨n, readonly, hbacked, hv⟩ := h
  refine ⟨n, readonly, ?_, ?_⟩
  · rw [hs.memory, hs.memMask]
    exact hbacked
  · rw [hs.host]
    exact hv

end NesBus

variable {m : Machine NesBus}

theorem readU8_of_reads (hticks : Ticks 12 4 m.bus) (hf : m.bus.fault = none) (hs : m.bus.Synced)
    {addr : CpuAddr} {v : Byte} (h : m.bus.Reads addr v) :
    readU8 addr m = (v, { m with cycle := m.cycle + 12, bus := m.bus.setOpenBus v }) := by
  have hprice : m.bus.price addr = 12 := hticks.price addr
  have hended : m.bus.ended (.ok (v, m.bus.setOpenBus v)) = m.bus.setOpenBus v := by
    rw [ended, hf]
    rfl
  show ((Bus.readByte m.bus m.cycle addr).data, _) = _
  rw [readByte_of_ok (read_of_reads hs h), hprice, hended]
  rfl

/-- The CPU of a console that reads its program. -/
structure Fetches (m : Machine NesBus) : Prop where
  coherent : m.core.Coherent
  native : m.core.modeNative6502 = true
  codeBank : m.core.codeSegmentBase = 0
  dataBank : m.core.dataSegmentBase = 0
  ticks : Ticks 12 4 m.bus
  fault : m.bus.fault = none
  synced : m.bus.Synced

theorem Fetches.next (h : Fetches m) {c : Core} (hc : c.Coherent)
    (hn : c.modeNative6502 = m.core.modeNative6502)
    (hp : c.codeSegmentBase = m.core.codeSegmentBase)
    (hd : c.dataSegmentBase = m.core.dataSegmentBase) (cycle : BitVec 64) (v : Byte) :
    Fetches { m with core := c, cycle, bus := m.bus.setOpenBus v } where
  coherent := hc
  native := hn.trans h.native
  codeBank := hp.trans h.codeBank
  dataBank := hd.trans h.dataBank
  ticks := stable_ticks.frame h.ticks ⟨rfl, rfl, rfl, rfl, rfl⟩
  fault := h.fault
  synced := h.synced

/-! ### Instructions -/

theorem readLoHi_of_reads (h : Fetches m) {a a' : CpuAddr} {l u : Byte} (hl : m.bus.Reads a l)
    (hu : m.bus.Reads a' u) :
    readLoHi a a' m = (u ++ l, { m with cycle := m.cycle + 24, bus := m.bus.setOpenBus u }) := by
  have hnext := h.next h.coherent rfl rfl rfl (m.cycle + 12) l
  have hsecond : readU8 a' { m with cycle := m.cycle + 12, bus := m.bus.setOpenBus l } =
      (u, { m with cycle := m.cycle + 12 + 12, bus := m.bus.setOpenBus u }) :=
    readU8_of_reads hnext.ticks h.fault h.synced hu
  have hcycle : m.cycle + 12 + 12 = m.cycle + 24 := by bv_omega
  simp only [readLoHi, bind_apply, pure_apply, readU8_of_reads h.ticks h.fault h.synced hl,
    hsecond, hcycle]

theorem handler_of_reads (h : Fetches m) {v : Byte}
    (hv : m.bus.Reads (m.core.ip &&& ipMask) v) :
    m.handler = (execOps .native6502).at v ∧
      (fetch m).2 = { m with cycle := m.cycle + 12, bus := m.bus.setOpenBus v } := by
  have hmode : m.core.mode = .native6502 := by rw [h.coherent.mode, if_pos h.native]
  have haddr : m.core.getCanonicalAddress = m.core.ip &&& ipMask := by
    rw [Core.getCanonicalAddress, h.codeBank]
    exact BitVec.zero_add _
  have hfetch : fetch m = readU8 (m.core.ip &&& ipMask) m := by
    rw [← haddr]
    rfl
  rw [handler, hfetch, readU8_of_reads h.ticks h.fault h.synced hv, h.coherent.instructionSet,
    hmode]
  exact ⟨rfl, rfl⟩

theorem calcAbs_of_reads (h : Fetches m) {l u : Byte}
    (h1 : m.bus.Reads ((m.core.ip + 1) &&& 0xFFFF) l)
    (h2 : m.bus.Reads (((m.core.ip + 1) &&& 0xFFFF) + 1) u) :
    AddrKind.calcAbs none false m = ((u ++ l : Word).setWidth 32,
      { m with cycle := m.cycle + 24, bus := m.bus.setOpenBus u }) := by
  have hword : readPBR .u16 (m.core.ip + 1) m =
      (u ++ l, { m with cycle := m.cycle + 24, bus := m.bus.setOpenBus u }) := by
    have hbase : m.core.codeSegmentBase ||| ((m.core.ip + 1) &&& 0xFFFF) =
        (m.core.ip + 1) &&& 0xFFFF := by
      rw [h.codeBank]
      exact BitVec.zero_or
    show readLoHi (m.core.codeSegmentBase ||| ((m.core.ip + 1) &&& 0xFFFF))
      ((m.core.codeSegmentBase ||| ((m.core.ip + 1) &&& 0xFFFF)) + 1) m = _
    rw [hbase]
    exact readLoHi_of_reads h h1 h2
  show (Val.toU32 (s := .u16) (readPBR .u16 (m.core.ip + 1) m).1 + 0 +
    (readPBR .u16 (m.core.ip + 1) m).2.core.dataSegmentBase, (readPBR .u16 (m.core.ip + 1) m).2) = _
  rw [hword]
  have hzero : ∀ w : CpuAddr, w + 0 + m.core.dataSegmentBase = w := by
    intro w
    rw [h.dataBank]
    bv_omega
  exact congrArg (·, _) (hzero _)

theorem emulate_jmp (h : Fetches m) {l u : Byte} (h0 : m.bus.Reads (m.core.ip &&& ipMask) 0x4C)
    (h1 : m.bus.Reads ((m.core.ip + 1) &&& 0xFFFF) l)
    (h2 : m.bus.Reads (((m.core.ip + 1) &&& 0xFFFF) + 1) u) :
    m.emulateInstruction = some { m with
      core := { m.core with
        ip := (u ++ l : Word).setWidth 32
        numEmulatedInstructions := m.core.numEmulatedInstructions + 1 }
      cycle := m.cycle + 36
      bus := m.bus.setOpenBus u } := by
  obtain ⟨hhandler, hfetch⟩ := handler_of_reads h h0
  have hcalc := calcAbs_of_reads (h.next h.coherent rfl rfl rfl (m.cycle + 12) 0x4C) (l := l)
    (u := u) h1 h2
  have hop : (execOps .native6502).at 0x4C = some (.jmp .abs false false) := rfl
  have hcycle : m.cycle + 12 + 24 + (m.core.internalCycleTiming * 0).setWidth 64 =
      m.cycle + 36 := by
    have hzero : m.core.internalCycleTiming * 0 = 0 := BitVec.mul_zero
    rw [hzero]
    bv_omega
  rw [emulateInstruction, hhandler, hfetch, hop]
  show some (perform (.jmp .abs false false) _).2 = _
  simp only [perform, Op.exec, Op.execJmp, JmpAddr.calcEffectiveAddress, bind_apply, hcalc,
    StateFn.when_false, pure_apply]
  show some (Machine.mk _ _ _ _) = _
  rw [← hcycle]
  rfl

theorem emulate_lda (h : Fetches m) {v : Byte} (h0 : m.bus.Reads (m.core.ip &&& ipMask) 0xA9)
    (h1 : m.bus.Reads ((m.core.ip + 1) &&& 0xFFFF) v) :
    m.emulateInstruction = some { m with
      core := { ((m.core.set .a (s := .u8) v).setNZ v).addIp 2 with
        numEmulatedInstructions := m.core.numEmulatedInstructions + 1 }
      cycle := m.cycle + 24
      bus := m.bus.setOpenBus v } := by
  obtain ⟨hhandler, hfetch⟩ := handler_of_reads h h0
  have hnext := h.next h.coherent rfl rfl rfl (m.cycle + 12) 0xA9
  have hread : readPBR .u8 (m.core.ip + 1)
      { m with cycle := m.cycle + 12, bus := m.bus.setOpenBus 0xA9 } =
      (v, { m with cycle := m.cycle + 12 + 12, bus := m.bus.setOpenBus v }) := by
    have hbase : m.core.codeSegmentBase ||| ((m.core.ip + 1) &&& 0xFFFF) =
        (m.core.ip + 1) &&& 0xFFFF := by
      rw [h.codeBank]
      exact BitVec.zero_or
    show readU8 (m.core.codeSegmentBase ||| ((m.core.ip + 1) &&& 0xFFFF)) _ = _
    rw [hbase]
    exact readU8_of_reads hnext.ticks h.fault h.synced h1
  have hop : (execOps .native6502).at 0xA9 =
      some (.load (addrImm .u8 .u8 .u8) .a .u8) := rfl
  have hcycle : m.cycle + 12 + 12 = m.cycle + 24 := by bv_omega
  rw [emulateInstruction, hhandler, hfetch, hop, ← hcycle]
  show some (perform (.load _ .a .u8) _).2 = _
  have hmode : (addrImm .u8 .u8 .u8).read .u8
      { m with cycle := m.cycle + 12, bus := m.bus.setOpenBus 0xA9 } =
      (v, { m with cycle := m.cycle + 12 + 12, bus := m.bus.setOpenBus v }) := hread
  simp only [perform, Op.exec, Op.execLoad, bind_apply, hmode]
  rfl

theorem emulate_sta (h : Fetches m) {l u : Byte} {b' : NesBus}
    (h0 : m.bus.Reads (m.core.ip &&& ipMask) 0x8D)
    (h1 : m.bus.Reads ((m.core.ip + 1) &&& 0xFFFF) l)
    (h2 : m.bus.Reads (((m.core.ip + 1) &&& 0xFFFF) + 1) u)
    (hw : (m.bus.setOpenBus u).write (m.cycle + 36) ((u ++ l : Word).setWidth 32) (lo m.core.a) =
      .ok (0, b')) :
    m.emulateInstruction = some { m with
      core := { m.core.addIp 3 with
        numEmulatedInstructions := m.core.numEmulatedInstructions + 1 }
      cycle := m.cycle + 48
      bus := b' } := by
  obtain ⟨hhandler, hfetch⟩ := handler_of_reads h h0
  have hcalc := calcAbs_of_reads (h.next h.coherent rfl rfl rfl (m.cycle + 12) 0x8D) (l := l)
    (u := u) h1 h2
  have hop : (execOps .native6502).at 0x8D = some (.store (addrAbs .u8 .u8) .a .u8) := rfl
  have h36 : m.cycle + 12 + 24 = m.cycle + 36 := by bv_omega
  have h48 : m.cycle + 36 + (0 : BitVec 32).setWidth 64 + 12 = m.cycle + 48 := by bv_omega
  have hwrite : writeU8 ((u ++ l : Word).setWidth 32) (lo m.core.a)
      { m with cycle := m.cycle + 36, bus := m.bus.setOpenBus u } =
      ((), { m with cycle := m.cycle + 48, bus := b' }) := by
    have hprice : (m.bus.setOpenBus u).price ((u ++ l : Word).setWidth 32) = 12 :=
      h.ticks.price _
    have hended : (m.bus.setOpenBus u).ended (.ok ((0 : BitVec 32), b')) = b' := by
      have hf : (m.bus.setOpenBus u).fault = none := h.fault
      rw [ended, hf]
      rfl
    show ((), Machine.mk _ _ _ _) = _
    simp only [Bus.writeByte, hw, hprice, hended]
    rw [← h48]
    rfl
  rw [emulateInstruction, hhandler, hfetch, hop]
  show some (perform (.store (addrAbs .u8 .u8) .a .u8) _).2 = _
  have hmode : (addrAbs .u8 .u8).write (s := .u8) (lo m.core.a)
      { m with cycle := m.cycle + 12, bus := m.bus.setOpenBus 0x8D } =
      ((), { m with cycle := m.cycle + 48, bus := b' }) := by
    show writeU8 (AddrKind.calcAbs none false _).1 _ (AddrKind.calcAbs none false _).2 = _
    rw [hcalc]
    dsimp only
    rw [h36]
    exact hwrite
  have hget : m.core.get .a .u8 = lo m.core.a := rfl
  simp only [perform, Op.exec, Op.execStore, bind_apply, getCore, get_apply, hget, hmode]
  rfl

end RetroCpu.Nes
