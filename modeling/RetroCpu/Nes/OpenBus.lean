import RetroCpu.Lib.Outcome
import RetroCpu.Nes.Cells
import RetroCpu.Nes.MainBus
import RetroCpu.Wdc65816.Reach

/-!
# Where the main bus has no memory

`LoadRom` leaves the pages from `0x4400` to `0x7FFF` without memory and without I/O, and an
access there meets the open bus.  Page 16 has no memory either, but its `io_mask` of zero sends
every access to the callbacks, and those fall back to the routines that do not look at `ptr`.

`access_defined_iff` says which accesses that ends.
-/

namespace RetroCpu.Nes

/-! ### The page table of a loaded ROM -/

/-- How `LoadRom` has the main bus decode an address. -/
structure Decoder (cpuClockSize : BitVec 32) (memory : MemoryMap) (memMask : BitVec 32) : Prop
    where
  memMask : memMask = 0xFFFF
  pageShift : memory.pageShift = 10
  ioMask : ∀ j, (memory.pages j).ioMask = 0
  ioEq : ∀ j, (memory.pages j).ioEq = if j < 8 ∨ 17 ≤ j then 1 else 0
  cycles : ∀ j, (memory.pages j).cyclesPerAccess = cpuClockSize
  ptr : (memory.pages 16).ptr = none
  flags : (memory.pages 16).flags = 0

theorem pageAfter_eq (layout : HostLayout) (bus : MapBus) (j : Nat) (p : Page) (c : BusCall) :
    (pageAfter layout bus j p c).ioMask = p.ioMask ∧ (pageAfter layout bus j p c).ioEq = p.ioEq ∧
      (pageAfter layout bus j p c).cyclesPerAccess = p.cyclesPerAccess := by
  unfold pageAfter
  split <;> exact ⟨rfl, rfl, rfl⟩

theorem foldl_pageAfter (layout : HostLayout) (bus : MapBus) (j : Nat) (calls : List BusCall)
    (p : Page) : (calls.foldl (pageAfter layout bus j) p).ioMask = p.ioMask ∧
      (calls.foldl (pageAfter layout bus j) p).ioEq = p.ioEq ∧
      (calls.foldl (pageAfter layout bus j) p).cyclesPerAccess = p.cyclesPerAccess := by
  induction calls generalizing p with
  | nil => exact ⟨rfl, rfl, rfl⟩
  | cons c calls ih =>
    obtain ⟨hmask, heq, hcycles⟩ := ih (pageAfter layout bus j p c)
    obtain ⟨hmask', heq', hcycles'⟩ := pageAfter_eq layout bus j p c
    exact ⟨hmask.trans hmask', heq.trans heq', hcycles.trans hcycles'⟩

/-- The calls of a mirroring loop. -/
theorem mirrorLoop_spec {bus : MapBus} {ptr : MapSource} {size : BitVec 32} {limit addr : CpuAddr}
    {fuel : Nat} {calls : List BusCall}
    (h : mirrorLoop bus ptr size limit fuel addr = some calls) : ∀ c ∈ calls,
      c.bus = bus ∧ (limit.toNat + size.toNat < 2 ^ 32 → addr.toNat ≤ c.call.addr.toNat) := by
  induction fuel generalizing addr calls with
  | zero => cases h
  | succ fuel ih =>
    rw [mirrorLoop] at h
    by_cases hlt : addr < limit
    · rw [if_pos hlt] at h
      obtain ⟨rest, hrest, rfl⟩ := Option.map_eq_some_iff.mp h
      intro c hc
      rcases List.mem_cons.mp hc with rfl | hc
      · exact ⟨rfl, fun _ => Nat.le_refl _⟩
      · obtain ⟨hbus, hle⟩ := ih hrest c hc
        refine ⟨hbus, fun hsize => ?_⟩
        have hnext : (addr + size).toNat = addr.toNat + size.toNat := by
          have hlt' : addr.toNat < limit.toNat := hlt
          rw [BitVec.toNat_add]
          exact Nat.mod_eq_of_lt (by omega)
        have := hle hsize
        omega
    · rw [if_neg hlt] at h
      cases h
      intro c hc
      cases hc

theorem prgRomSize_lt {image : List Byte} {rom : RomInes} (h : RomInes.parse image = some rom) :
    rom.prgRomSize.toNat < 2 ^ 27 := by
  have h4 := (image.getD 4 0).isLt
  rw [(RomInes.placed_parse h).prgRomSize, RomInes.prgLength]
  split <;> omega

/-- No call of `LoadRom` puts memory under page 16. -/
theorem mainPage_hole (layout : HostLayout) {rom : RomInes} {fuel : Nat} {calls : List BusCall}
    (hprg : rom.prgRomSize.toNat < 2 ^ 27) (hsetup : Mapper0.setup rom fuel = some (true, calls))
    (p : Page) : (Console.sysramCalls ++ calls).foldl (pageAfter layout .main 16) p = p := by
  obtain ⟨chr, prg, hchr, hloop, heq⟩ := setup_eq_some hsetup
  obtain rfl : calls = vramCalls rom.vramConfig.toU32 ++ chr ++ prg := (Prod.mk.inj heq).2
  have hsysram : ∀ c ∈ Console.sysramCalls,
      ¬(c.call.addr.toNat / 0x400 ≤ 16 ∧
        16 < c.call.addr.toNat / 0x400 + c.call.len.toNat / 0x400) := by decide
  apply foldl_pageAfter_eq_self
  intro c hc hbus
  rcases List.mem_append.mp hc with hc | hc
  · exact hsysram c hc
  rcases List.mem_append.mp hc with hc | hc
  · rcases List.mem_append.mp hc with hc | hc
    · exact absurd (hbus.symm.trans (vramCalls_spec _ c hc).1) (by decide)
    · exact absurd (hbus.symm.trans (mirrorLoop_spec hchr c hc).1) (by decide)
  · have hle : 0x8000 ≤ c.call.addr.toNat := (mirrorLoop_spec hloop c hc).2 (by
      show 65536 + rom.prgRomSize.toNat < 2 ^ 32
      omega)
    omega

theorem Tables.decoder {γ : Type} {layout : HostLayout} {rom : RomInes} {fuel : Nat}
    {calls : List BusCall} {cpuClockSize : BitVec 32} {n : Console γ}
    (hprg : rom.prgRomSize.toNat < 2 ^ 27) (hsetup : Mapper0.setup rom fuel = some (true, calls))
    (h : Tables layout (Console.sysramCalls ++ calls) cpuClockSize n) :
    Decoder cpuClockSize n.cpu.bus.memory n.cpu.bus.memMask := by
  have hpage := fun j => foldl_pageAfter layout .main j (Console.sysramCalls ++ calls)
    (Console.mainPages cpuClockSize j)
  have hhole := mainPage_hole layout hprg hsetup (Console.mainPages cpuClockSize 16)
  rw [h.main]
  refine ⟨h.mainMask, rfl, fun j => (hpage j).1, fun j => (hpage j).2.1, fun j => (hpage j).2.2,
    ?_, ?_⟩
  · exact congrArg Page.ptr hhole
  · exact congrArg Page.flags hhole

/-! ### Decoding -/

/-- The addresses of page 16 that are not registers. -/
def Hole (a : CpuAddr) : Prop := 0x4020 ≤ a ∧ a < 0x4400

instance : DecidablePred Hole := fun a =>
  inferInstanceAs (Decidable (0x4020 ≤ a ∧ a < 0x4400))

variable {cpuClockSize : BitVec 32} {memory : MemoryMap} {memMask : BitVec 32}

theorem Decoder.page_eq (h : Decoder cpuClockSize memory memMask) (a : CpuAddr) :
    memory.page a = memory.pages (a.toNat / 0x400) := by
  rw [MemoryMap.page, h.pageShift]
  show memory.pages (a.toNat >>> 10) = _
  rw [Nat.shiftRight_eq_div_pow]

/-- The addresses that go to the callbacks. -/
theorem Decoder.isIo (h : Decoder cpuClockSize memory memMask) (a : CpuAddr) :
    (memory.page a).isIo a = true ↔ 0x2000 ≤ a ∧ a < 0x4400 := by
  have hzero : (0 : CpuAddr) &&& a = 0 := BitVec.zero_and
  rw [h.page_eq, Page.isIo, h.ioMask, h.ioEq, beq_iff_eq, hzero]
  have hiff : (0x2000 ≤ a ∧ a < 0x4400) ↔ ¬(a.toNat / 0x400 < 8 ∨ 17 ≤ a.toNat / 0x400) := by
    rw [BitVec.le_def, BitVec.lt_def]
    show 8192 ≤ a.toNat ∧ a.toNat < 17408 ↔ _
    omega
  rw [hiff]
  split
  · next hout => simp [hout]
  · next hin => simp [hin]

theorem Decoder.hole_page (h : Decoder cpuClockSize memory memMask) {a : CpuAddr} (ha : Hole a) :
    (memory.page a).ptr = none ∧ (memory.page a).flags = 0 := by
  obtain ⟨hlo, hhi⟩ := ha
  have h16 : a.toNat / 0x400 = 16 := by
    rw [BitVec.le_def] at hlo
    rw [BitVec.lt_def] at hhi
    change 16416 ≤ a.toNat at hlo
    change a.toNat < 17408 at hhi
    omega
  rw [h.page_eq, h16]
  exact ⟨h.ptr, h.flags⟩

namespace NesBus

/-- The bus decodes addresses the way `LoadRom` has it. -/
def Decodes (b : NesBus) : Prop := Decoder b.cpuClockSize b.main.memory b.main.memMask

theorem Frame.decodes {b b' : NesBus} (h : Frame b b') (hb : b.Decodes) : b'.Decodes := by
  unfold Decodes
  rw [h.cpuClockSize, h.memory, h.memMask]
  exact hb

/-! ### The accesses that use a null pointer -/

/-- How a read may end the program. -/
def ReadFault (addr : CpuAddr) : Fault → Prop
  | .nullPage => Hole addr
  | .hang => addr < 0x4000
  | .divideByZero => False

variable {b : NesBus} {cycle : BitVec 64}

theorem outcome_ioRead {addr : CpuAddr} (hlt : addr < 0x4400) (data : Byte) :
    Outcome (fun r => Frame b r.2) (ReadFault addr) (b.ioRead cycle addr data) := by
  unfold ioRead
  split
  · split
    · rename_i hppu
      refine ((outcome_catchUp cycle b).mono (fun _ h => h) ?_).bind fun b' hb' => ?_
      · rintro _ rfl
        exact hppu
      · exact hb'.trans (frame_setPpu (ppuClockSize_readReg _ _))
    · exact frame_readReg b _ _
  · rename_i hdevice
    have hhole : Hole addr := ⟨by bv_omega, hlt⟩
    split
    · exact hhole
    · exact Frame.refl b

theorem outcome_read (cycle : BitVec 64) (hb : b.Decodes) (addr : CpuAddr) :
    Outcome (fun r => Frame b r.2) (ReadFault (addr &&& b.main.memMask)) (b.read cycle addr) := by
  unfold read
  dsimp only
  split
  · rename_i hio
    refine (outcome_ioRead ((hb.isIo _).mp hio).2 _).bind fun r hr => ?_
    exact hr.trans ⟨rfl, rfl, rfl, rfl, rfl⟩
  · exact frame_setMain (SystemBus.frame_readByte _ _ _)

theorem masked_masked (b : NesBus) (addr : CpuAddr) :
    addr &&& b.main.memMask &&& b.main.memMask = addr &&& b.main.memMask := by
  rw [BitVec.and_assoc, BitVec.and_self]

/-- The callbacks get the addresses of the hole. -/
theorem isIo_hole (hb : b.Decodes) {addr : CpuAddr} (h : Hole addr) :
    (b.main.memory.page addr).isIo addr = true ∧ ¬addr ≤ 0x401F := by
  obtain ⟨hlo, hhi⟩ := h
  exact ⟨(hb.isIo _).mpr ⟨by bv_omega, hhi⟩, by bv_omega⟩

theorem readByteNoIo_hole (hb : b.Decodes) {addr : CpuAddr} (h : Hole (addr &&& b.main.memMask)) :
    b.main.readByteNoIo (addr &&& b.main.memMask) = none := by
  simp only [SystemBus.readByteNoIo, masked_masked, (hb.hole_page h).1, Option.map_none]

theorem writeByteNoIo_hole (hb : b.Decodes) {addr : CpuAddr}
    (h : Hole (addr &&& b.main.memMask)) (v : Byte) :
    b.main.writeByteNoIo (addr &&& b.main.memMask) v = none := by
  have hwritable : (b.main.memory.page (addr &&& b.main.memMask)).readOnly = false := by
    rw [Page.readOnly, (hb.hole_page h).2]
    rfl
  simp only [SystemBus.writeByteNoIo, masked_masked, hwritable, (hb.hole_page h).1,
    Option.map_none]
  rfl

theorem read_hole (hb : b.Decodes) {addr : CpuAddr} (h : Hole (addr &&& b.main.memMask)) :
    b.read cycle addr = .error .nullPage := by
  obtain ⟨hio, hdevice⟩ := isIo_hole hb h
  unfold read
  simp only [hio, if_true]
  rw [ioRead, if_neg hdevice, readByteNoIo_hole hb h]
  rfl

/-! ### Sprite memory from page 16 -/

/-- The address that a round of `OamDma` reads. -/
theorem toNat_dmaAddr (v : Byte) {i : Nat} (hi : i < 256) :
    ((v.setWidth 16 <<< 8 : Word).setWidth 32 + BitVec.ofNat 32 i : CpuAddr).toNat =
      v.toNat * 256 + i := by
  have hv := v.isLt
  have hwide : (v.setWidth 16 : Word).toNat = v.toNat := BitVec.toNat_setWidth_of_le (by decide)
  have hshift : (v.setWidth 16 <<< 8 : Word).toNat = v.toNat * 256 := by
    rw [BitVec.toNat_shiftLeft, hwide, Nat.shiftLeft_eq]
    omega
  have hbase : ((v.setWidth 16 <<< 8 : Word).setWidth 32 : CpuAddr).toNat = v.toNat * 256 :=
    (BitVec.toNat_setWidth_of_le (by decide)).trans hshift
  rw [BitVec.toNat_add, hbase, BitVec.toNat_ofNat]
  omega

theorem toNat_masked (hb : b.Decodes) (v : Byte) {i : Nat} (hi : i < 256) :
    (((v.setWidth 16 <<< 8 : Word).setWidth 32 + BitVec.ofNat 32 i : CpuAddr) &&&
      b.main.memMask).toNat = v.toNat * 256 + i := by
  have hv := v.isLt
  rw [hb.memMask, toNat_and_mask (n := 16) (by decide), toNat_dmaAddr v hi]
  omega

theorem hole_dmaAddr (hb : b.Decodes) (v : Byte) {i : Nat} (hi : i < 256) :
    Hole (((v.setWidth 16 <<< 8 : Word).setWidth 32 + BitVec.ofNat 32 i : CpuAddr) &&&
      b.main.memMask) ↔ 0x4020 ≤ v.toNat * 256 + i ∧ v.toNat * 256 + i < 0x4400 := by
  rw [Hole, BitVec.le_def, BitVec.lt_def, toNat_masked hb v hi]
  exact Iff.rfl

/-- The pages that `OamDma` cannot read. -/
def HolePage (v : Byte) : Prop := 0x40 ≤ v ∧ v ≤ 0x43

instance : DecidablePred HolePage := fun v => inferInstanceAs (Decidable (0x40 ≤ v ∧ v ≤ 0x43))

theorem outcome_dmaStep (hb : b.Decodes) (base : Word) (i : Nat) :
    Outcome (Frame b)
      (ReadFault ((base.setWidth 32 + BitVec.ofNat 32 i) &&& b.main.memMask))
      (b.dmaStep cycle base i) :=
  (outcome_read cycle hb _).bind fun _ hr => hr.trans ⟨rfl, rfl, rfl, rfl, rfl⟩

/-- How the loop of `OamDma` may end the program. -/
def DmaFault (v : Byte) : Fault → Prop
  | .nullPage => HolePage v
  | .hang => v < 0x40
  | .divideByZero => False

theorem outcome_dmaLoop (hb : b.Decodes) (v : Byte) {l : List Nat} (hl : ∀ i ∈ l, i < 256) :
    Outcome (Frame b) (DmaFault v) (l.foldlM (dmaStep cycle (v.setWidth 16 <<< 8)) b) := by
  refine Outcome.foldlM (fun b' hb' i hi => ?_) (Frame.refl b)
  have hlt := hl i hi
  have hd := hb'.decodes hb
  refine (outcome_dmaStep hd _ i).mono (fun _ h => hb'.trans h) fun f hf => ?_
  cases f with
  | nullPage =>
    have hrange := (hole_dmaAddr hd v hlt).mp hf
    constructor <;> bv_omega
  | hang =>
    have hlow : v.toNat * 256 + i < 0x4000 := by
      rw [← toNat_masked hd v hlt]
      exact hf
    show v < 0x40
    bv_omega
  | divideByZero => exact hf

/-- Its last round is on page 16. -/
theorem dmaLoop_holePage (hb : b.Decodes) {v : Byte} (hv : HolePage v) :
    (List.range 256).foldlM (dmaStep cycle (v.setWidth 16 <<< 8)) b = .error .nullPage := by
  have hlast : ∀ b' : NesBus, b'.Decodes →
      b'.dmaStep cycle (v.setWidth 16 <<< 8) 255 = .error .nullPage := by
    intro b' hb'
    obtain ⟨hlo, hhi⟩ := hv
    have hhole := (hole_dmaAddr hb' v (i := 255) (by decide)).mpr ⟨by bv_omega, by bv_omega⟩
    unfold dmaStep
    rw [read_hole hb' hhole]
    rfl
  have hloop : Outcome (fun _ => False) (DmaFault v)
      ((List.range 256).foldlM (dmaStep cycle (v.setWidth 16 <<< 8)) b) := by
    rw [List.range_succ, List.foldlM_append]
    refine (outcome_dmaLoop hb v fun i hi => ?_).bind fun b' hb' => ?_
    · exact Nat.lt_succ_of_lt (List.mem_range.mp hi)
    · rw [List.foldlM_cons, hlast b' (hb'.decodes hb)]
      exact hv
  obtain ⟨f, hf, hfault⟩ := hloop.exists_error fun _ h => h
  rw [hf]
  cases f with
  | nullPage => rfl
  | hang =>
    have hlow : v < 0x40 := hfault
    have hge := hv.1
    bv_omega
  | divideByZero => exact hfault.elim

/-- `WriteReg` gets to the loop of `OamDma`. -/
def DmaStarts (b : NesBus) (cycle : BitVec 64) : Prop :=
  b.cpuClockSize ≠ 0 ∧
    (b.ppu.catchUpToCpu (cycle + (b.dmaWait cycle).setWidth 64) catchUpFuel).isSome = true

instance (b : NesBus) (cycle : BitVec 64) : Decidable (b.DmaStarts cycle) :=
  inferInstanceAs (Decidable (_ ∧ _))

theorem oamDma_of_none {base : Word} (h : b.ppu.catchUpToCpu cycle catchUpFuel = none) :
    b.oamDma cycle base = .error .hang := by
  rw [oamDma, catchUp, h]
  rfl

theorem oamDma_of_some {base : Word} {p : Ppu}
    (h : b.ppu.catchUpToCpu cycle catchUpFuel = some p) :
    b.oamDma cycle base = (List.range 256).foldlM (dmaStep cycle base) (b.setPpu p) := by
  rw [oamDma, catchUp, h]
  rfl

/-- A write to register `0x14`. -/
theorem outcome_writeDma (hb : b.Decodes) (v : Byte) :
    Outcome (fun r => Frame b r.2) (fun f => f = .nullPage → HolePage v ∧ b.DmaStarts cycle)
      (b.writeReg cycle 0x14 v) := by
  unfold writeReg
  rw [if_pos rfl]
  split
  · exact nofun
  · rename_i hclock
    refine Outcome.bind (P := Frame b) ?_ fun b' hb' => hb'
    cases hcatch : b.ppu.catchUpToCpu (cycle + (b.dmaWait cycle).setWidth 64) catchUpFuel with
    | none =>
      rw [oamDma_of_none hcatch]
      exact nofun
    | some p =>
      have hstarts : b.DmaStarts cycle := ⟨hclock, by rw [hcatch]; rfl⟩
      have hframe : Frame b (b.setPpu p) := frame_setPpu (Ppu.CatchesUp.bounds ⟨_, hcatch⟩).1
      rw [oamDma_of_some hcatch]
      refine (outcome_dmaLoop (hframe.decodes hb) v fun i hi => List.mem_range.mp hi).mono
        (fun _ h => hframe.trans h) fun f hf => ?_
      rintro rfl
      exact ⟨hf, hstarts⟩

theorem writeDma_holePage (hb : b.Decodes) {v : Byte} (hv : HolePage v)
    (hstarts : b.DmaStarts cycle) : b.writeReg cycle 0x14 v = .error .nullPage := by
  obtain ⟨hclock, hcatch⟩ := hstarts
  obtain ⟨p, hp⟩ := Option.isSome_iff_exists.mp hcatch
  have hframe : Frame b (b.setPpu p) := frame_setPpu (Ppu.CatchesUp.bounds ⟨_, hp⟩).1
  unfold writeReg
  rw [if_pos rfl, if_neg hclock]
  dsimp only
  rw [oamDma_of_some hp, dmaLoop_holePage (hframe.decodes hb) hv]
  rfl

/-! ### Writes -/

/-- The registers by their numbers. -/
theorem reg_eq {addr r k : CpuAddr} (hlo : 0x4000 ≤ addr) (hhi : addr ≤ 0x401F) (hk : k < 0x20)
    (hr : r = 0x4000 + k) : addr &&& 0x1F = k ↔ addr = r := by
  have hmod : (addr &&& 0x1F).toNat = addr.toNat % 32 := toNat_and_mask (n := 5) (by decide)
  rw [← BitVec.toNat_inj, hmod, hr]
  bv_omega

def WriteFaults (b : NesBus) (cycle : BitVec 64) (addr : CpuAddr) (v : Byte) : Prop :=
  Hole addr ∨ (addr = 0x4014 ∧ HolePage v ∧ b.DmaStarts cycle)

instance (b : NesBus) (cycle : BitVec 64) (addr : CpuAddr) (v : Byte) :
    Decidable (b.WriteFaults cycle addr v) := inferInstanceAs (Decidable (_ ∨ _))

theorem outcome_writeReg (hb : b.Decodes) {addr : CpuAddr} (hlo : 0x4000 ≤ addr)
    (hhi : addr ≤ 0x401F) (v : Byte) :
    Outcome (fun r => Frame b r.2) (fun f => f = .nullPage → b.WriteFaults cycle addr v)
      (b.writeReg cycle (addr &&& 0x1F) v) := by
  by_cases hreg : addr &&& 0x1F = 0x14
  · rw [hreg]
    exact (outcome_writeDma hb v).mono (fun _ h => h) fun f hf hnull =>
      Or.inr ⟨(reg_eq hlo hhi (by decide) rfl).mp hreg, hf hnull⟩
  · unfold writeReg
    rw [if_neg hreg]
    split
    · exact frame_writeController b v
    · exact Frame.refl b

theorem outcome_write (cycle : BitVec 64) (hb : b.Decodes) (addr : CpuAddr) (v : Byte) :
    Outcome (fun r => Frame b r.2)
      (fun f => f = .nullPage → b.WriteFaults cycle (addr &&& b.main.memMask) v)
      (b.write cycle addr v) := by
  unfold write
  dsimp only
  split
  · rename_i hio
    have hrange := (hb.isIo _).mp hio
    refine Outcome.bind (P := fun r => Frame b r.2) ?_ fun r hr =>
      hr.trans ⟨rfl, rfl, rfl, rfl, rfl⟩
    unfold ioWrite
    split
    · rename_i hdevice
      split
      · refine ((outcome_catchUp cycle b).mono (fun _ h => h) ?_).bind fun b' hb' => ?_
        · rintro _ rfl
          exact nofun
        · exact hb'.trans (frame_writePpuReg b' _ _)
      · exact outcome_writeReg hb (by bv_omega) hdevice v
    · rename_i hdevice
      have hhole : Hole (addr &&& b.main.memMask) := ⟨by bv_omega, hrange.2⟩
      rw [writeByteNoIo_hole hb hhole]
      exact fun _ => Or.inl hhole
  · exact frame_setMain (SystemBus.frame_writeByte _ _ _ _)

theorem write_hole (hb : b.Decodes) {addr : CpuAddr} (h : Hole (addr &&& b.main.memMask))
    (v : Byte) : b.write cycle addr v = .error .nullPage := by
  obtain ⟨hio, hdevice⟩ := isIo_hole hb h
  unfold write
  simp only [hio, if_true]
  rw [ioWrite, if_neg hdevice, writeByteNoIo_hole hb h]
  rfl

theorem write_faults (hb : b.Decodes) {addr : CpuAddr} {v : Byte}
    (h : b.WriteFaults cycle (addr &&& b.main.memMask) v) :
    b.write cycle addr v = .error .nullPage := by
  rcases h with h | ⟨haddr, hv, hstarts⟩
  · exact write_hole hb h v
  · have hio := (hb.isIo (addr &&& b.main.memMask)).mpr (by rw [haddr]; decide)
    unfold write
    simp only [hio, if_true]
    rw [haddr, ioWrite, if_pos (by decide), if_neg (by decide)]
    have hreg : (0x4014 : CpuAddr) &&& 0x1F = 0x14 := by decide
    rw [hreg, writeDma_holePage hb hv hstarts]
    rfl

/-! ### Defined accesses -/

def openBusByte (b : NesBus) (addr : CpuAddr) : Byte :=
  if b.main.openBusIsData then b.main.openBus else addr.setWidth 8

def Unmapped (b : NesBus) (addr : CpuAddr) : Prop :=
  ¬(0x2000 ≤ addr ∧ addr ≤ 0x401F) ∧ (b.main.memory.page addr).ptr = none

/-- A call of `ReadByte` or of `WriteByte`. -/
inductive Access
  | read (addr : Word)
  | write (addr : Word) (v : Byte)

/-- The access uses no null pointer.  An unmapped address is open bus and ignores writes. -/
def Defined (b : NesBus) (cycle : BitVec 64) : Access → Prop
  | .read a =>
    let r := Bus.readByte b cycle (a.setWidth 32)
    r.bus.fault ≠ some .nullPage ∧
      (b.Unmapped (a.setWidth 32) →
        r.data = b.openBusByte (a.setWidth 32) ∧ r.bus.main.host = b.main.host)
  | .write a v =>
    let r := Bus.writeByte b cycle (a.setWidth 32) v
    r.bus.fault ≠ some .nullPage ∧
      (b.Unmapped (a.setWidth 32) → r.bus.main.host = b.main.host)

/-- A read is not on page 16 above the registers, and a write is neither that nor a sprite DMA
from there. -/
def OffHole (b : NesBus) (cycle : BitVec 64) : Access → Prop
  | .read a => ¬Hole (a.setWidth 32)
  | .write a v => ¬b.WriteFaults cycle (a.setWidth 32) v

instance (b : NesBus) (cycle : BitVec 64) : DecidablePred (b.OffHole cycle)
  | .read a => inferInstanceAs (Decidable ¬Hole (a.setWidth 32))
  | .write a v => inferInstanceAs (Decidable ¬b.WriteFaults cycle (a.setWidth 32) v)

theorem masked_word (hb : b.Decodes) (a : Word) :
    a.setWidth 32 &&& b.main.memMask = a.setWidth 32 := by
  have ha := a.isLt
  apply BitVec.eq_of_toNat_eq
  rw [hb.memMask, toNat_and_mask (n := 16) (by decide), BitVec.toNat_setWidth_of_le (by decide)]
  omega

theorem isIo_unmapped (hb : b.Decodes) {addr : CpuAddr} (h : b.Unmapped addr) (hhole : ¬Hole addr) :
    (b.main.memory.page addr).isIo addr = false := by
  rw [Bool.eq_false_iff]
  intro hio
  have hrange := (hb.isIo addr).mp hio
  have hregister := h.1
  unfold Hole at hhole
  bv_omega

/-- The fault that the first one leaves. -/
theorem fault_ended {α : Type} {r : Except Fault (α × NesBus)} {Q : Fault → Prop} {f : Fault}
    (hb : b.fault = none) (hr : Outcome (fun r => Frame b r.2) Q r) :
    (b.ended r).fault = some f ↔ r = .error f := by
  unfold ended
  rw [hb]
  cases r with
  | error e => simp
  | ok r =>
    have hok : r.2.fault = none := (Frame.fault hr).trans hb
    simp [hok]

/-- An access that the program survives. -/
theorem of_fault_ended {α : Type} {b : NesBus} {r : Except Fault (α × NesBus)}
    (h : (b.ended r).fault = none) : b.fault = none ∧ ∃ a, r = .ok (a, b.ended r) := by
  have hb : b.fault = none := by
    unfold ended at h
    split at h
    · exact h
    · next hnone => exact Option.not_isSome_iff_eq_none.mp hnone
  refine ⟨hb, ?_⟩
  unfold ended at h ⊢
  rw [hb] at h ⊢
  cases r with
  | error f => cases h
  | ok r => exact ⟨r.1, rfl⟩

/-- A property of the members that no access writes, of a bus that decodes addresses the way
`LoadRom` has it. -/
structure Stable (P : NesBus → Prop) : Prop where
  decodes : ∀ {b}, P b → b.Decodes
  frame : ∀ {b b'}, P b → Frame b b' → P b'
  fault : ∀ {b} (f : Option Fault), P b → P { b with fault := f }

theorem stable_decodes : Stable Decodes := ⟨fun h => h, fun h hf => hf.decodes h, fun _ h => h⟩

theorem Stable.ended {P : NesBus → Prop} (hP : Stable P) {α : Type}
    {r : Except Fault (α × NesBus)} {Q : Fault → Prop} (hb : P b)
    (hr : Outcome (fun r => Frame b r.2) Q r) : P (b.ended r) := by
  unfold NesBus.ended
  split
  · exact hb
  · cases r with
    | error e => exact hP.fault _ hb
    | ok r => exact hP.frame hb hr

/-- **No access of the CPU changes a stable property.** -/
theorem Stable.invariant {P : NesBus → Prop} (hP : Stable P) : Bus.Invariant P where
  read hb t a := hP.ended hb (outcome_read t (hP.decodes hb) a)
  write hb t a v := hP.ended hb (outcome_write t (hP.decodes hb) a v)
  irqTaken hb _ := hP.frame hb ⟨rfl, rfl, rfl, rfl, rfl⟩

theorem read_unmapped (cycle : BitVec 64) (hb : b.Decodes) {addr : CpuAddr}
    (hmask : addr &&& b.main.memMask = addr) (h : b.Unmapped addr) (hhole : ¬Hole addr) :
    b.read cycle addr = .ok (b.openBusByte addr, b.setMain { b.main with
      openBus := b.openBusByte addr }) := by
  have hio := isIo_unmapped hb h hhole
  have hbus : b.main.readByte cycle addr = ⟨b.openBusByte addr,
      (b.main.memory.page addr).cyclesPerAccess,
      { b.main with openBus := b.openBusByte addr }⟩ := by
    simp only [SystemBus.readByte, hmask, hio, h.2]
    rfl
  unfold read
  simp only [hmask, hio, hbus]
  rfl

theorem host_write_unmapped (hb : b.Decodes) {addr : CpuAddr}
    (hmask : addr &&& b.main.memMask = addr) (h : b.Unmapped addr) (hhole : ¬Hole addr)
    (v : Byte) : (b.ended (b.write cycle addr v)).main.host = b.main.host := by
  have hio := isIo_unmapped hb h hhole
  have hbus : (b.main.writeByte cycle addr v).bus.host = b.main.host := by
    simp only [SystemBus.writeByte, hmask, hio, h.2]
    rfl
  unfold write
  simp only [hmask, hio]
  unfold ended
  split
  · rfl
  · exact hbus

/-- **The accesses of a bus that are defined.** -/
theorem defined_iff_offHole (hb : b.Decodes) (hfault : b.fault = none) (cycle : BitVec 64)
    (access : Access) : b.Defined cycle access ↔ b.OffHole cycle access := by
  cases access with
  | read a =>
    have hmask := masked_word hb a
    have hnull := fault_ended (f := .nullPage) hfault
      (outcome_read cycle hb (a.setWidth 32))
    constructor
    · rintro ⟨hdef, -⟩ hhole
      exact hdef (hnull.mpr (read_hole hb (by rwa [hmask])))
    · intro hhole
      refine ⟨fun hf => ?_, fun h => ?_⟩
      · have hout := outcome_read cycle hb (a.setWidth 32)
        rw [hnull.mp hf, hmask] at hout
        exact hhole hout
      · have hread := read_unmapped cycle hb hmask h hhole
        rw [readByte_of_ok hread, ended, hfault]
        exact ⟨rfl, rfl⟩
  | write a v =>
    have hmask := masked_word hb a
    have hnull := fault_ended (f := .nullPage) hfault
      (outcome_write cycle hb (a.setWidth 32) v)
    constructor
    · rintro ⟨hdef, -⟩ hfaults
      exact hdef (hnull.mpr (write_faults hb (by rwa [hmask])))
    · intro hfaults
      refine ⟨fun hf => ?_, fun h => ?_⟩
      · have hout := outcome_write cycle hb (a.setWidth 32) v
        rw [hnull.mp hf, hmask] at hout
        exact hfaults (hout rfl)
      · exact host_write_unmapped hb hmask h (fun hhole => hfaults (Or.inl hhole)) v

/-! ### Runs -/

inductive Touches (b : NesBus) : NesBus → Prop
  /-- A read, such as one of the debugger's. -/
  | read (cycle : BitVec 64) (addr : CpuAddr) : Touches b (Bus.readByte b cycle addr).bus
  | write (cycle : BitVec 64) (addr : CpuAddr) (v : Byte) :
    Touches b (Bus.writeByte b cycle addr v).bus
  /-- `PostCpuCycle`. -/
  | catchUp (cycle : BitVec 64) {b' : NesBus} (h : b.catchUp cycle = .ok b') : Touches b b'
  | setUpdateControllersFunc (fn : Option (InputData → InputData)) :
    Touches b { b with controllers := { b.controllers with updateControllers := fn } }

theorem Stable.touches {P : NesBus → Prop} (hP : Stable P) {b b' : NesBus} (h : Touches b b')
    (hb : P b) : P b' := by
  cases h with
  | read cycle addr => exact hP.invariant.read hb _ _
  | write cycle addr v => exact hP.invariant.write hb _ _ _
  | catchUp cycle h =>
    have hout := outcome_catchUp cycle b
    rw [h] at hout
    exact hP.frame hb hout
  | setUpdateControllersFunc fn => exact hP.frame hb ⟨rfl, rfl, rfl, rfl, rfl⟩

def Happens (m : Machine NesBus) : Stimulus NesBus → Prop
  | .world bus => Touches m.bus bus
  | _ => True

/-- **What is stable holds in every state of a run.** -/
theorem Stable.of_run {P : NesBus → Prop} (hP : Stable P) {m m' : Machine NesBus}
    (hrun : Run Machine.step Happens m m') (hm : P m.bus) : P m'.bus := by
  refine Run.invariant (P := fun m : Machine NesBus => P m.bus) hm (fun m i m' hm hi hstep => ?_)
    hrun
  refine Machine.bus_step hP.invariant hm ?_ hstep
  rintro bus rfl
  exact hP.touches hi hm

end NesBus

/-- The machine that `LoadRom` leaves. -/
def Console.boot (n : Console Unit) (controllers : Controllers) (pendingInterrupts : BitVec 32) :
    Machine NesBus where
  core := n.cpu.core
  cycle := n.cpu.cycle
  cycleStop := n.cpu.cycleStop
  bus :=
    { main := n.cpu.bus, ppu := n.ppu, cpuClockSize := n.cpuClockSize, controllers
      pendingInterrupts, fault := none }

section Loaded

variable {layout : HostLayout} {devices : IODevices Unit} {rom : RomInes} {fuel : Nat}
  {n loaded : Console Unit} {image : List Byte}

theorem decodes_boot (hparse : RomInes.parse image = some rom)
    (hload : Console.loadRom layout devices () rom fuel n = some (true, loaded))
    (controllers : Controllers) (pendingInterrupts : BitVec 32) :
    (loaded.boot controllers pendingInterrupts).bus.Decodes := by
  have hclock := (sameClocks_loadRom hload).cpuClockSize
  obtain ⟨-, calls, hsetup, rfl⟩ := loadRom_eq_some hload
  have htables := (tables_calls layout devices () calls (n.clocked rom.system)).1.powerOn (some rom)
  have hdecoder := htables.decoder (prgRomSize_lt hparse) hsetup
  unfold NesBus.Decodes
  rw [← hclock] at hdecoder
  exact hdecoder

/-- **In every state of a loaded console the accesses that are defined are those off page 16.**
The others use its null pointer. -/
theorem access_defined_iff (hparse : RomInes.parse image = some rom)
    (hload : Console.loadRom layout devices () rom fuel n = some (true, loaded))
    {controllers : Controllers} {pendingInterrupts : BitVec 32} {m : Machine NesBus}
    (hrun : Run Machine.step NesBus.Happens (loaded.boot controllers pendingInterrupts) m)
    (hfault : m.bus.fault = none) (cycle : BitVec 64) (access : NesBus.Access) :
    m.bus.Defined cycle access ↔ m.bus.OffHole cycle access :=
  NesBus.defined_iff_offHole
    (NesBus.stable_decodes.of_run hrun (decodes_boot hparse hload controllers pendingInterrupts))
    hfault cycle access

end Loaded

/-- An image of zeros with a bank of PRG ROM and one of CHR ROM.  As NES 2.0 it is for more than
one region. -/
def zerosImage (nes2 : Bool) : List Byte :=
  inesMagic ++ 1 :: 1 :: 0 :: (if nes2 then 8 else 0) :: 0 :: 0 :: 0 :: 0 ::
    (if nes2 then 2 else 0) :: List.replicate 24579 0

def HostLayout.apart : HostLayout := ⟨0x10000, 0x20000, 0, 0x30000⟩

theorem loadRom_zeros (nes2 : Bool) : ∃ (rom : RomInes) (loaded : Console Unit),
    RomInes.parse (zerosImage nes2) = some rom ∧ rom.system = (if nes2 then 2 else 0) ∧
      NromSizes rom ∧ Console.loadRom .apart (SystemBus.simple 16 fun _ => 0).ioDevices () rom 3
        (Console.zeroed fun _ => 0) = some (true, loaded) := by
  have hparse : ∃ rom, RomInes.parse (zerosImage nes2) = some rom ∧
      rom.chrRomSize = 0x2000 ∧ rom.prgRomSize = 0x4000 ∧
      rom.system = (if nes2 then 2 else 0) ∧ rom.mapperNum = 0 ∧
      rom.submapper = 0 ∧ rom.prgRom = 16 ∧ rom.chrRom = 16 + 0x4000 ∧
      rom.memory = zerosImage nes2 := by
    cases nes2 <;> exact ⟨_, rfl, rfl, rfl, rfl, rfl, rfl, rfl, rfl, rfl⟩
  obtain ⟨rom, hrom, hchr, hprg, hsystem, hmapper, hsubmapper, hprgAt, hchrAt, hmemory⟩ := hparse
  have hlength : rom.memory.length = 16 + 0x6000 := by
    rw [hmemory, zerosImage, List.length_append]
    simp only [List.length_cons, List.length_replicate]
    rfl
  have hsizes : NromSizes rom := nromSizes_of_one_bank hchr hprg hprgAt hchrAt hlength
  obtain ⟨loaded, hload⟩ := loadRom_nrom .apart (SystemBus.simple 16 fun _ => 0).ioDevices ()
    (Console.zeroed fun _ => 0) hsizes (by rw [hsystem]; cases nes2 <;> decide)
    (by rw [hmapper, hsubmapper]; decide)
  exact ⟨rom, loaded, hrom, hsystem, hsizes, hload⟩

def Controllers.idle : Controllers where
  latch := false
  latchedInputData := ⟨fun _ => ⟨fun _ => 0⟩⟩
  updateControllers := none

theorem access_defined_zeros : ∃ (rom : RomInes) (loaded : Console Unit),
    RomInes.parse (zerosImage false) = some rom ∧
      Console.loadRom .apart (SystemBus.simple 16 fun _ => 0).ioDevices () rom 3
        (Console.zeroed fun _ => 0) = some (true, loaded) ∧
      (loaded.boot .idle 0).bus.Defined 0 (.read 0x4400) := by
  obtain ⟨rom, loaded, hparse, -, -, hload⟩ := loadRom_zeros false
  have hoff : ¬Hole ((0x4400 : Word).setWidth 32) := by decide
  exact ⟨rom, loaded, hparse, hload,
    (access_defined_iff hparse hload .refl rfl 0 (.read 0x4400)).mpr hoff⟩

/-- A read of the first address above the registers. -/
theorem not_defined_zeros : ∃ (rom : RomInes) (loaded : Console Unit),
    RomInes.parse (zerosImage false) = some rom ∧
      Console.loadRom .apart (SystemBus.simple 16 fun _ => 0).ioDevices () rom 3
        (Console.zeroed fun _ => 0) = some (true, loaded) ∧
      ¬(loaded.boot .idle 0).bus.Defined 0 (.read 0x4020) := by
  obtain ⟨rom, loaded, hparse, -, -, hload⟩ := loadRom_zeros false
  refine ⟨rom, loaded, hparse, hload, fun h => ?_⟩
  have hdefined := NesBus.defined_iff_offHole (decodes_boot hparse hload .idle 0) rfl 0
    (.read 0x4020)
  have hhole : Hole ((0x4020 : Word).setWidth 32) := by decide
  exact hdefined.mp h hhole

end RetroCpu.Nes
