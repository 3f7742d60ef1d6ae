import Mathlib.Algebra.Group.Nat.Defs
import RetroCpu.C256.Bus
import RetroCpu.Lib.Run
import Mathlib.Tactic.SplitIfs

/-!
# The addresses of the C256

A C256 has RAM from address 0, video memory at `0xB00000` and two read-only flashes at
`0xF00000`.  In between are the registers of two devices, one of them in the middle of the
first page of RAM, and its page traps the rest of those 256 bytes too.

`cells_of_run` says what any reads and writes leave in all of them.
-/

namespace RetroCpu.C256

/-! ### Masks -/

theorem and_shiftLeft (a c k : Nat) : a &&& (c <<< k) = ((a >>> k) &&& c) <<< k := by
  apply Nat.eq_of_testBit_eq
  intro i
  by_cases h : k ≤ i
  · simp [h]
  · simp [h]

/-- The bits of a mask of eight bits. -/
theorem toNat_and_byteMask {a m : CpuAddr} {k : Nat} (hm : m.toNat = 0xFF <<< k) :
    (a &&& m).toNat = a.toNat / 2 ^ k % 256 * 2 ^ k := by
  rw [BitVec.toNat_and, hm, and_shiftLeft, Nat.shiftLeft_eq, Nat.shiftRight_eq_div_pow]
  congr 1
  exact Nat.and_two_pow_sub_one_eq_mod _ 8

theorem bank_iff {a : CpuAddr} (ha : a.toNat < 2 ^ 24) :
    a &&& 0xFF0000 = 0xAF0000 ↔ a.toNat / 0x10000 = 0xAF := by
  have hand := toNat_and_byteMask (a := a) (m := 0xFF0000) (k := 16) rfl
  rw [← BitVec.toNat_inj, hand]
  show a.toNat / 65536 % 256 * 65536 = 11468800 ↔ _
  omega

theorem low_iff {a : CpuAddr} (ha : a.toNat < 0x1000) :
    0xFF00 &&& a = 0x100 ↔ a.toNat / 0x100 = 1 := by
  have hand := toNat_and_byteMask (a := a) (m := 0xFF00) (k := 8) rfl
  rw [BitVec.and_comm, ← BitVec.toNat_inj, hand]
  show a.toNat / 256 % 256 * 256 = 256 ↔ _
  omega

/-! ### The page table -/

/-- Memory from page `first` on. -/
structure Region where
  first : Nat
  count : Nat
  ptr : Nat

def Region.over (j : Nat) (p : Page) (r : Region) : Page :=
  if r.first ≤ j ∧ j < r.first + r.count then
    SystemBus.mapTo p (r.ptr + (j - r.first) * 0x1000) false
  else p

variable {ramSize : BitVec 32} (blocks : Blocks ramSize)

def regions : List Region :=
  [⟨0, ramSize.toNat / 0x1000, blocks.ram⟩, ⟨0xB00, 0x400, blocks.vram⟩,
    ⟨0xF00, 0x80, blocks.sysflash⟩, ⟨0xF80, 0x80, blocks.userflash⟩, ⟨0xAF0, 0x10, blocks.io⟩]

theorem memory_map {s : SystemBus Devices} (hs : s.memory.pageSize = 0x1000) (addr : CpuAddr)
    (ptr : Nat) (len : BitVec 32) : (s.map addr ptr len).memory = { s.memory with
      pages := fun j =>
        Region.over j (s.memory.pages j) ⟨addr.toNat / 0x1000, len.toNat / 0x1000, ptr⟩ } := by
  have hfirst : (addr / 0x1000).toNat = addr.toNat / 0x1000 := BitVec.toNat_udiv
  have hlen : (len / 0x1000).toNat = len.toNat / 0x1000 := BitVec.toNat_udiv
  rw [SystemBus.map_eq, hs, hfirst, hlen]
  rfl

theorem pageSize_map (s : SystemBus Devices) (addr : CpuAddr) (ptr : Nat) (len : BitVec 32) :
    (s.map addr ptr len).memory.pageSize = s.memory.pageSize := by
  rw [SystemBus.map_eq]

theorem memory_mapAll {s : SystemBus Devices} (hs : s.memory.pageSize = 0x1000) :
    (mapAll blocks s).memory = { s.memory with
      pages := fun j => (regions blocks).foldl (Region.over j) (s.memory.pages j) } := by
  unfold mapAll
  dsimp only
  rw [memory_map, memory_map, memory_map, memory_map, memory_map hs]
  · rfl
  all_goals simp only [pageSize_map, hs]

def memoryMap : MemoryMap where
  pageSize := 0x1000
  pageShift := 12
  pageMask := 0xFFF
  pages j := (regions blocks).foldl (Region.over j) (pages j)

theorem memory_construct (gavinLowRegs : Registers) (s : SystemBus Devices) :
    (construct blocks gavinLowRegs s).memory = memoryMap blocks := by
  have h := memory_mapAll blocks
    (s := { s with memory := { s.memory with pages := pages, pageSize := 0x1000 } }) rfl
  have hpages := congrArg MemoryMap.pages h
  show ({ pageSize := _, pageShift := _, pageMask := _, pages := _ } : MemoryMap) = _
  rw [hpages]
  rfl

structure RamSize (ramSize : BitVec 32) : Prop where
  dvd : 0x1000 ∣ ramSize.toNat
  ge : 0x1000 ≤ ramSize.toNat
  le : ramSize.toNat ≤ 0x400000

def pointer (j : Nat) : Option Nat :=
  if j < ramSize.toNat / 0x1000 then some (blocks.ram + j * 0x1000)
  else if j < 0xAF0 then none
  else if j < 0xB00 then some (blocks.io + (j - 0xAF0) * 0x1000)
  else if j < 0xF00 then some (blocks.vram + (j - 0xB00) * 0x1000)
  else if j < 0xF80 then some (blocks.sysflash + (j - 0xF00) * 0x1000)
  else some (blocks.userflash + (j - 0xF80) * 0x1000)

theorem ptr_over (j : Nat) (p : Page) (r : Region) : (r.over j p).ptr =
    if r.first ≤ j ∧ j < r.first + r.count then some (r.ptr + (j - r.first) * 0x1000)
    else p.ptr := by
  unfold Region.over
  split <;> rfl

theorem ptr_pages (hsize : RamSize ramSize) {j : Nat} (hj : j < 0x1000) :
    ((memoryMap blocks).pages j).ptr = pointer blocks j := by
  have hle := hsize.le
  have hnone : (pages j).ptr = none := rfl
  have hptr : ((memoryMap blocks).pages j).ptr =
      ((regions blocks).foldl (Region.over j) (pages j)).ptr := rfl
  rw [hptr]
  simp only [regions, List.foldl_cons, List.foldl_nil, ptr_over, hnone, pointer, Nat.zero_le,
    true_and, Nat.zero_add, Nat.sub_zero]
  split_ifs <;> first | omega | rfl

theorem over_eq (j : Nat) (p : Page) (r : Region) :
    (r.over j p).flags = p.flags ∧ (r.over j p).ioMask = p.ioMask ∧ (r.over j p).ioEq = p.ioEq := by
  unfold Region.over
  split <;> exact ⟨rfl, rfl, rfl⟩

theorem foldl_over (j : Nat) (rs : List Region) (p : Page) :
    (rs.foldl (Region.over j) p).flags = p.flags ∧
      (rs.foldl (Region.over j) p).ioMask = p.ioMask ∧
      (rs.foldl (Region.over j) p).ioEq = p.ioEq := by
  induction rs generalizing p with
  | nil => exact ⟨rfl, rfl, rfl⟩
  | cons r rs ih =>
    obtain ⟨hflags, hmask, heq⟩ := ih (r.over j p)
    obtain ⟨hflags', hmask', heq'⟩ := over_eq j p r
    exact ⟨hflags.trans hflags', hmask.trans hmask', heq.trans heq'⟩

/-- The addresses that go to the callbacks. -/
theorem isIo_iff {a : CpuAddr} (ha : a.toNat < 2 ^ 24) :
    ((memoryMap blocks).pages (a.toNat / 0x1000)).isIo a = true ↔
      a.toNat / 0x100 = 1 ∨ a.toNat / 0x10000 = 0xAF := by
  obtain ⟨-, hmask, heq⟩ := foldl_over (a.toNat / 0x1000) (regions blocks)
    (pages (a.toNat / 0x1000))
  have hbank : a.toNat / 0x1000 / 16 = a.toNat / 0x10000 := Nat.div_div_eq_div_mul _ _ _
  have hzero : (0 : CpuAddr) &&& a = 0 := BitVec.zero_and
  rw [Page.isIo, beq_iff_eq]
  show ((memoryMap blocks).pages (a.toNat / 0x1000)).ioMask &&& a =
    ((memoryMap blocks).pages (a.toNat / 0x1000)).ioEq ↔ _
  change ((memoryMap blocks).pages (a.toNat / 0x1000)).ioMask = _ at hmask
  change ((memoryMap blocks).pages (a.toNat / 0x1000)).ioEq = _ at heq
  rw [hmask, heq]
  by_cases hfirst : a.toNat < 0x1000
  · have hpage : a.toNat / 0x1000 = 0 := by omega
    have hnot : a.toNat / 0x10000 ≠ 0xAF := by omega
    simp only [hpage, hnot, or_false]
    exact low_iff hfirst
  · have hpage : ¬(a.toNat / 0x1000 / 16 = 0 ∧ a.toNat / 0x1000 % 16 = 0) := by omega
    have hnot : a.toNat / 0x100 ≠ 1 := by omega
    have hioMask : (pages (a.toNat / 0x1000)).ioMask = 0 := if_neg hpage
    have hioEq : (pages (a.toNat / 0x1000)).ioEq =
        if a.toNat / 0x1000 / 16 = 0xAF then 0 else 1 := if_neg hpage
    rw [hioMask, hioEq, hzero, hbank]
    by_cases haf : a.toNat / 0x10000 = 0xAF
    · simp [haf]
    · simp [haf, hnot]

theorem readOnly_iff (j : Nat) :
    ((memoryMap blocks).pages j).readOnly = decide (0xF00 ≤ j) := by
  have hflags := (foldl_over j (regions blocks) (pages j)).1
  change ((memoryMap blocks).pages j).flags = _ at hflags
  rw [Page.readOnly, hflags]
  by_cases h : 0xF00 ≤ j
  · have hbank : 0xF0 ≤ j / 16 := by omega
    simp [pages, page, hbank, h, Page.kReadOnly]
  · have hbank : ¬0xF0 ≤ j / 16 := by omega
    simp [pages, page, hbank, h]

/-! ### Accesses -/

/-- The bus of a C256, whatever is in its memory and its registers. -/
structure Wired (s : SystemBus Devices) : Prop where
  memory : s.memory = memoryMap blocks
  memMask : s.memMask = 0xFFFFFF
  ioDevices : s.ioDevices = ioDevices
  ram : s.context.ram = blocks.ram
  io : s.context.io = blocks.io

theorem wired_construct (gavinLowRegs : Registers) (s : SystemBus Devices) :
    Wired blocks (construct blocks gavinLowRegs s) :=
  ⟨memory_construct blocks gavinLowRegs s, rfl, rfl, rfl, rfl⟩

/-- RAM, without the registers of Gavin. -/
def Ram (ramSize : BitVec 32) (a : CpuAddr) : Prop :=
  a.toNat < ramSize.toNat ∧ ¬(0x100 ≤ a.toNat ∧ a.toNat ≤ 0x19F)

def Vram (a : CpuAddr) : Prop := 0xB00000 ≤ a.toNat ∧ a.toNat ≤ 0xEFFFFF

def Flash (a : CpuAddr) : Prop := 0xF00000 ≤ a.toNat

def Register (a : CpuAddr) : Prop :=
  (0x100 ≤ a.toNat ∧ a.toNat ≤ 0x19F) ∨ a.toNat / 0x10000 = 0xAF

instance (a : CpuAddr) : Decidable (Ram ramSize a) := inferInstanceAs (Decidable (_ ∧ _))

instance : DecidablePred Vram := fun _ => inferInstanceAs (Decidable (_ ∧ _))

instance : DecidablePred Flash := fun a => inferInstanceAs (Decidable (0xF00000 ≤ a.toNat))

def cell (a : CpuAddr) : Nat :=
  if a.toNat < 0xB00000 then blocks.ram + a.toNat
  else if a.toNat < 0xF00000 then blocks.vram + (a.toNat - 0xB00000)
  else if a.toNat < 0xF80000 then blocks.sysflash + (a.toNat - 0xF00000)
  else blocks.userflash + (a.toNat - 0xF80000)

variable {blocks} {s : SystemBus Devices} {a : CpuAddr}

theorem Wired.masked (hs : Wired blocks s) (ha : a.toNat < 2 ^ 24) : a &&& s.memMask = a := by
  rw [hs.memMask]
  exact SystemBus.and_addressMask ha

theorem Wired.page (hs : Wired blocks s) (a : CpuAddr) :
    s.memory.page a = (memoryMap blocks).pages (a.toNat / 0x1000) := by
  rw [MemoryMap.page, hs.memory]
  show (memoryMap blocks).pages (a.toNat >>> 12) = _
  rw [Nat.shiftRight_eq_div_pow]

theorem Wired.offset (hs : Wired blocks s) (a : CpuAddr) :
    s.memory.offset a = a.toNat % 0x1000 := by
  rw [MemoryMap.offset, hs.memory, BitVec.toNat_and]
  exact Nat.and_two_pow_sub_one_eq_mod _ 12

/-- An address that is not trapped. -/
theorem Wired.backed (hs : Wired blocks s) (hsize : RamSize ramSize) (ha : a.toNat < 2 ^ 24)
    (h : Ram ramSize a ∨ Vram a ∨ Flash a) (htrap : a.toNat / 0x100 ≠ 1) :
    SystemBus.Backed s.memory s.memMask a (cell blocks a) (decide (0xF00000 ≤ a.toNat)) := by
  have hmask := hs.masked ha
  have hle := hsize.le
  unfold Ram Vram Flash at h
  refine ⟨?_, ?_, ?_⟩
  · rw [hmask, hs.page, Bool.eq_false_iff, ne_eq, isIo_iff blocks ha]
    omega
  · rw [hmask, hs.page, hs.offset, ptr_pages blocks hsize (by omega), pointer, cell]
    obtain ⟨k, hk⟩ := hsize.dvd
    split_ifs <;> first | omega | exact ⟨_, rfl, by omega⟩
  · rw [hmask, hs.page, readOnly_iff]
    congr 1
    exact propext (by omega)

theorem Wired.isIo (hs : Wired blocks s) (ha : a.toNat < 2 ^ 24) :
    (s.memory.page a).isIo a = true ↔ a.toNat / 0x100 = 1 ∨ a.toNat / 0x10000 = 0xAF := by
  rw [hs.page, isIo_iff blocks ha]

theorem gavin_iff (a : CpuAddr) :
    (0x100 ≤ a ∧ a < 0x1A0) ↔ 0x100 ≤ a.toNat ∧ a.toNat ≤ 0x19F := by
  rw [BitVec.le_def, BitVec.lt_def]
  show 256 ≤ a.toNat ∧ a.toNat < 416 ↔ _
  omega

theorem ioRead_trapped (d : Devices) (host : HostMemory) (ha : a.toNat < 2 ^ 24)
    (h : Ram ramSize a) (htrap : a.toNat / 0x100 = 1) :
    ioRead d host a = host (d.ram + a.toNat) := by
  have hbank : ¬a &&& 0xFF0000 = 0xAF0000 := by
    rw [bank_iff ha]
    omega
  rw [ioRead, if_neg hbank, if_neg (mt (gavin_iff a).mp h.2)]

/-- **A read gives the byte of memory behind its address.** -/
theorem Wired.readByte (hs : Wired blocks s) (hsize : RamSize ramSize) (ha : a.toNat < 2 ^ 24)
    (h : Ram ramSize a ∨ Vram a ∨ Flash a) (t : BitVec 64) :
    (s.readByte t a).data = s.host (cell blocks a) := by
  by_cases htrap : a.toNat / 0x100 = 1
  · have hram : Ram ramSize a := by
      unfold Vram Flash at h
      rcases h with h | h | h
      · exact h
      all_goals omega
    have hio := (hs.isIo ha).mpr (Or.inl htrap)
    have hdata : (s.readByte t a).data = ioRead s.context s.host a := by
      simp only [SystemBus.readByte, hs.masked ha, hio, if_true, hs.ioDevices]
      rfl
    rw [hdata, ioRead_trapped _ _ ha hram htrap, hs.ram, cell, if_pos (by omega)]
  · exact ((hs.backed hsize ha h htrap).readByte t).1

theorem Wired.read (hs : Wired blocks s) (t : BitVec 64) (a : CpuAddr) :
    Wired blocks (s.readByte t a).bus ∧ (s.readByte t a).bus.host = s.host := by
  obtain ⟨hmemory, hmask, hdevices⟩ := SystemBus.frame_readByte s t a
  have hrest : (s.readByte t a).bus.context = s.context ∧ (s.readByte t a).bus.host = s.host := by
    simp only [SystemBus.readByte, hs.ioDevices]
    split
    · exact ⟨rfl, rfl⟩
    · split <;> exact ⟨rfl, rfl⟩
  refine ⟨⟨hmemory.trans hs.memory, hmask.trans hs.memMask, hdevices.trans hs.ioDevices, ?_, ?_⟩,
    hrest.2⟩
  · rw [hrest.1, hs.ram]
  · rw [hrest.1, hs.io]

theorem context_ioWrite (d : Devices) (host : HostMemory) (addr : CpuAddr) (v : Byte) :
    (ioWrite d host addr v).1.ram = d.ram ∧ (ioWrite d host addr v).1.io = d.io := by
  unfold ioWrite
  split
  · exact ⟨rfl, rfl⟩
  · split <;> exact ⟨rfl, rfl⟩

theorem Wired.write (hs : Wired blocks s) (t : BitVec 64) (a : CpuAddr) (v : Byte) :
    Wired blocks (s.writeByte t a v).bus := by
  obtain ⟨hmemory, hmask, hdevices⟩ := SystemBus.frame_writeByte s t a v
  have hcontext : (s.writeByte t a v).bus.context.ram = s.context.ram ∧
      (s.writeByte t a v).bus.context.io = s.context.io := by
    simp only [SystemBus.writeByte, hs.ioDevices]
    split
    · exact context_ioWrite _ _ _ _
    · split
      · split <;> exact ⟨rfl, rfl⟩
      · exact ⟨rfl, rfl⟩
  refine ⟨hmemory.trans hs.memory, hmask.trans hs.memMask, hdevices.trans hs.ioDevices, ?_, ?_⟩
  · rw [hcontext.1, hs.ram]
  · rw [hcontext.2, hs.io]

def target (blocks : Blocks ramSize) (a : CpuAddr) : Option Nat :=
  if Ram ramSize a ∨ Vram a then some (cell blocks a)
  else if a.toNat / 0x10000 = 0xAF then some (blocks.io + a.toNat % 0x10000)
  else none

/-- A write to an address where there is no memory. -/
theorem host_write_unmapped (hs : Wired blocks s) (hsize : RamSize ramSize)
    (ha : a.toNat < 2 ^ 24) (h : ¬(Ram ramSize a ∨ Vram a ∨ Flash a)) (hreg : ¬Register a)
    (t : BitVec 64) (v : Byte) : (s.writeByte t a v).bus.host = s.host := by
  have hle := hsize.le
  have hge := hsize.ge
  unfold Ram Vram Flash at h
  unfold Register at hreg
  have hio : (s.memory.page a).isIo a = false := by
    rw [Bool.eq_false_iff, ne_eq, hs.isIo ha]
    omega
  have hptr : (s.memory.page a).ptr = none := by
    obtain ⟨k, hk⟩ := hsize.dvd
    rw [hs.page, ptr_pages blocks hsize (by omega), pointer, if_neg (by omega), if_pos (by omega)]
  simp only [SystemBus.writeByte, hs.masked ha, hio, hptr]
  rfl

theorem target_of_ram (h : Ram ramSize a ∨ Vram a) : target blocks a = some (cell blocks a) :=
  if_pos h

theorem target_of_bank (hsize : RamSize ramSize) (h : a.toNat / 0x10000 = 0xAF) :
    target blocks a = some (blocks.io + a.toNat % 0x10000) := by
  have hle := hsize.le
  have hnot : ¬(Ram ramSize a ∨ Vram a) := by
    unfold Ram Vram
    omega
  rw [target, if_neg hnot, if_pos h]

theorem target_eq_none (h : ¬(Ram ramSize a ∨ Vram a)) (hbank : a.toNat / 0x10000 ≠ 0xAF) :
    target blocks a = none := by
  rw [target, if_neg h, if_neg hbank]

theorem host_ioWrite (hs : Wired blocks s) (hsize : RamSize ramSize) (ha : a.toNat < 2 ^ 24)
    (hio : a.toNat / 0x100 = 1 ∨ a.toNat / 0x10000 = 0xAF) (v : Byte) :
    (ioWrite s.context s.host a v).2 =
      match target blocks a with
      | some n => Function.update s.host n v
      | none => s.host := by
  have hge := hsize.ge
  by_cases hbank : a.toNat / 0x10000 = 0xAF
  · have hlow : (a &&& 0xFFFF).toNat = a.toNat % 0x10000 := by
      rw [BitVec.toNat_and]
      exact Nat.and_two_pow_sub_one_eq_mod _ 16
    rw [ioWrite, if_pos ((bank_iff ha).mpr hbank), target_of_bank hsize hbank]
    dsimp only
    rw [afIoWrite, hs.io, hlow]
  · have htrap : a.toNat / 0x100 = 1 := hio.resolve_right hbank
    rw [ioWrite, if_neg (mt (bank_iff ha).mp hbank)]
    by_cases hgavin : 0x100 ≤ a.toNat ∧ a.toNat ≤ 0x19F
    · have hnot : ¬(Ram ramSize a ∨ Vram a) := by
        unfold Ram Vram
        omega
      rw [if_pos ((gavin_iff a).mpr hgavin), target_eq_none hnot hbank]
    · have hram : Ram ramSize a := ⟨by omega, hgavin⟩
      rw [if_neg (mt (gavin_iff a).mp hgavin), target_of_ram (Or.inl hram), hs.ram, cell,
        if_pos (by omega)]

/-- **What a write changes in memory.** -/
theorem Wired.host_write (hs : Wired blocks s) (hsize : RamSize ramSize)
    (ha : a.toNat < 2 ^ 24) (t : BitVec 64) (v : Byte) : (s.writeByte t a v).bus.host =
      match target blocks a with
      | some n => Function.update s.host n v
      | none => s.host := by
  have hle := hsize.le
  by_cases hio : a.toNat / 0x100 = 1 ∨ a.toNat / 0x10000 = 0xAF
  · have hhost : (s.writeByte t a v).bus.host = (ioWrite s.context s.host a v).2 := by
      simp only [SystemBus.writeByte, hs.masked ha, (hs.isIo ha).mpr hio, if_true, hs.ioDevices]
      rfl
    rw [hhost, host_ioWrite hs hsize ha hio]
  · have hbank : a.toNat / 0x10000 ≠ 0xAF := fun h => hio (Or.inr h)
    have htrap : a.toNat / 0x100 ≠ 1 := fun h => hio (Or.inl h)
    by_cases h : Ram ramSize a ∨ Vram a
    · have hflash : ¬0xF00000 ≤ a.toNat := by
        unfold Ram Vram at h
        omega
      have hback := hs.backed hsize ha (h.elim Or.inl fun h => Or.inr (Or.inl h)) htrap
      rw [hback.writeByte t v, target_of_ram h, decide_eq_false hflash]
      rfl
    · rw [target_eq_none h hbank]
      dsimp only
      by_cases hflash : Flash a
      · have hback := hs.backed hsize ha (Or.inr (Or.inr hflash)) htrap
        have hle : 0xF00000 ≤ a.toNat := hflash
        rw [hback.writeByte t v, decide_eq_true hle]
        rfl
      · refine host_write_unmapped hs hsize ha ?_ ?_ t v
        · rintro (hram | hvram | hfl)
          · exact h (Or.inl hram)
          · exact h (Or.inr hvram)
          · exact hflash hfl
        · rintro (hgavin | haf)
          · omega
          · exact hbank haf

/-! ### Runs -/

/-- A call of `ReadByte` or of `WriteByte`. -/
inductive Access
  | read (addr : BitVec 24)
  | write (addr : BitVec 24) (v : Byte)

def access (s : SystemBus Devices) : Access → SystemBus Devices
  | .read addr => (s.readByte 0 (addr.setWidth 32)).bus
  | .write addr v => (s.writeByte 0 (addr.setWidth 32) v).bus

/-- What an access writes to `a`. -/
def writtenTo (a : BitVec 24) : Access → Option Byte
  | .read _ => none
  | .write addr v => if addr = a then some v else none

/-- The byte that `ReadByte` gives. -/
def get (s : SystemBus Devices) (a : BitVec 24) : Byte := (s.readByte 0 (a.setWidth 32)).data

def Memory (blocks : Blocks ramSize) (n : Nat) : Prop :=
  (blocks.ram ≤ n ∧ n < blocks.ram + ramSize.toNat) ∨
    (blocks.vram ≤ n ∧ n < blocks.vram + 0x400000) ∨
    (blocks.sysflash ≤ n ∧ n < blocks.sysflash + 0x80000) ∨
    (blocks.userflash ≤ n ∧ n < blocks.userflash + 0x80000)

/-- What a C256 that began as `s` has made of accesses when it is `s'`. -/
structure Decodes (blocks : Blocks ramSize) (s : SystemBus Devices) (accesses : List Access)
    (s' : SystemBus Devices) : Prop where
  /-- RAM and video memory hold what was last written to them. -/
  stored : ∀ a : BitVec 24, Ram ramSize (a.setWidth 32) ∨ Vram (a.setWidth 32) →
    get s' a = (accesses.filterMap (writtenTo a)).getLastD (get s a)
  /-- The flashes are as they were. -/
  flash : ∀ a : BitVec 24, Flash (a.setWidth 32) → get s' a = get s a
  /-- A write to a register changes no memory. -/
  register : ∀ (a : BitVec 24) (v : Byte), Register (a.setWidth 32) → ∀ n, Memory blocks n →
    (access s' (.write a v)).host n = s'.host n

theorem toNat_addr (a : BitVec 24) : (a.setWidth 32 : CpuAddr).toNat = a.toNat :=
  BitVec.toNat_setWidth_of_le (by decide)

theorem toNat_addr_lt (a : BitVec 24) : (a.setWidth 32 : CpuAddr).toNat < 2 ^ 24 := by
  rw [toNat_addr]
  exact a.isLt

theorem addr_inj {a b : BitVec 24} (h : (a.setWidth 32 : CpuAddr).toNat = (b.setWidth 32).toNat) :
    a = b := by
  rw [toNat_addr, toNat_addr] at h
  exact BitVec.eq_of_toNat_eq h

theorem wired_access (hs : Wired blocks s) (w : Access) : Wired blocks (access s w) := by
  cases w with
  | read addr => exact (hs.read 0 _).1
  | write addr v => exact hs.write 0 _ v

/-- Two blocks that do not overlap have no byte in common. -/
theorem place_inj {l : List (Nat × Nat)}
    (h : l.Pairwise fun b c => b.1 + b.2 ≤ c.1 ∨ c.1 + c.2 ≤ b.1) {i j x y : Nat}
    (hi : i < l.length) (hj : j < l.length) (hx : x < l[i].2) (hy : y < l[j].2)
    (heq : l[i].1 + x = l[j].1 + y) : i = j ∧ x = y := by
  rcases Nat.lt_trichotomy i j with hlt | rfl | hlt
  · have := List.pairwise_iff_getElem.mp h i j hi hj hlt
    omega
  · exact ⟨rfl, by omega⟩
  · have := List.pairwise_iff_getElem.mp h j i hj hi hlt
    omega

def place (a : CpuAddr) : Nat × Nat :=
  if a.toNat < 0xB00000 then (0, a.toNat)
  else if a.toNat < 0xF00000 then (1, a.toNat - 0xB00000)
  else if a.toNat < 0xF80000 then (2, a.toNat - 0xF00000)
  else (3, a.toNat - 0xF80000)

def Blocks.list (blocks : Blocks ramSize) : List (Nat × Nat) :=
  [(blocks.ram, ramSize.toNat), (blocks.vram, 0x400000), (blocks.sysflash, 0x80000),
    (blocks.userflash, 0x80000), (blocks.io, 0x10000)]

theorem place_spec (blocks : Blocks ramSize) (ha : a.toNat < 2 ^ 24)
    (h : Ram ramSize a ∨ Vram a ∨ Flash a) :
    ∃ hi : (place a).1 < blocks.list.length, (place a).1 < 4 ∧
      (place a).2 < blocks.list[(place a).1].2 ∧
      cell blocks a = blocks.list[(place a).1].1 + (place a).2 := by
  unfold Ram Vram Flash at h
  simp only [place, cell]
  split_ifs
  · exact ⟨(by decide : 0 < 5), (by decide : 0 < 4), by show a.toNat < ramSize.toNat; omega, rfl⟩
  · refine ⟨(by decide : 1 < 5), (by decide : 1 < 4), ?_, rfl⟩
    show a.toNat - 0xB00000 < 0x400000
    omega
  · refine ⟨(by decide : 2 < 5), (by decide : 2 < 4), ?_, rfl⟩
    show a.toNat - 0xF00000 < 0x80000
    omega
  · refine ⟨(by decide : 3 < 5), (by decide : 3 < 4), ?_, rfl⟩
    show a.toNat - 0xF80000 < 0x80000
    omega

theorem addr_of_place {a b : CpuAddr} (h : place a = place b) : a.toNat = b.toNat := by
  unfold place at h
  split_ifs at h <;> simp only [Prod.mk.injEq] at h <;> omega

theorem cell_inj {a b : CpuAddr} (ha : a.toNat < 2 ^ 24) (hb : b.toNat < 2 ^ 24)
    (hsa : Ram ramSize a ∨ Vram a ∨ Flash a) (hsb : Ram ramSize b ∨ Vram b ∨ Flash b)
    (h : cell blocks a = cell blocks b) : a.toNat = b.toNat := by
  obtain ⟨hi, -, hx, hcell⟩ := place_spec blocks ha hsa
  obtain ⟨hj, -, hy, hcell'⟩ := place_spec blocks hb hsb
  obtain ⟨hblock, hplace⟩ := place_inj blocks.disjoint hi hj hx hy (hcell ▸ hcell' ▸ h)
  exact addr_of_place (Prod.ext hblock hplace)

theorem memory_spec {n : Nat} (hn : Memory blocks n) :
    ∃ (i x : Nat) (hi : i < blocks.list.length), i < 4 ∧ x < blocks.list[i].2 ∧
      n = blocks.list[i].1 + x := by
  rcases hn with ⟨hle, hlt⟩ | ⟨hle, hlt⟩ | ⟨hle, hlt⟩ | ⟨hle, hlt⟩
  · exact ⟨0, n - blocks.ram, (by decide : 0 < 5), by decide,
      by show _ < ramSize.toNat; omega,
      (Nat.add_sub_of_le hle).symm⟩
  · exact ⟨1, n - blocks.vram, (by decide : 1 < 5), by decide,
      by show _ < 0x400000; omega,
      (Nat.add_sub_of_le hle).symm⟩
  · exact ⟨2, n - blocks.sysflash, (by decide : 2 < 5), by decide,
      by show _ < 0x80000; omega,
      (Nat.add_sub_of_le hle).symm⟩
  · exact ⟨3, n - blocks.userflash, (by decide : 3 < 5), by decide,
      by show _ < 0x80000; omega,
      (Nat.add_sub_of_le hle).symm⟩

/-- The registers of bank `0xAF` are apart from the rest. -/
theorem io_ne {i x k : Nat} (hi : i < blocks.list.length) (hlt : i < 4)
    (hx : x < blocks.list[i].2) (hk : k < 0x10000) : blocks.list[i].1 + x ≠ blocks.io + k := by
  intro heq
  have h4 : 4 < blocks.list.length := (by decide : 4 < 5)
  have hblock := (place_inj blocks.disjoint hi h4 hx hk heq).1
  omega

/-- No write but one to the address itself changes its byte. -/
theorem target_eq_cell {a b : CpuAddr} (ha : a.toNat < 2 ^ 24)
    (hb : b.toNat < 2 ^ 24) (h : Ram ramSize a ∨ Vram a ∨ Flash a)
    (ht : target blocks b = some (cell blocks a)) :
    b.toNat = a.toNat ∧ (Ram ramSize b ∨ Vram b) := by
  unfold target at ht
  split_ifs at ht with hstored hbank
  · have hcell := Option.some.inj ht
    exact ⟨cell_inj hb ha (hstored.elim Or.inl fun h => Or.inr (Or.inl h)) h hcell, hstored⟩
  · obtain ⟨hi, hlt, hx, hcell⟩ := place_spec blocks ha h
    have hio := io_ne hi hlt hx (Nat.mod_lt b.toNat (by decide : 0 < 0x10000))
    exact absurd (hcell ▸ (Option.some.inj ht).symm) hio

/-- **What an access leaves at an address.** -/
theorem get_access (hs : Wired blocks s) (hsize : RamSize ramSize) {a : BitVec 24}
    (h : Ram ramSize (a.setWidth 32) ∨ Vram (a.setWidth 32) ∨ Flash (a.setWidth 32)) (w : Access) :
    get (access s w) a =
      if Flash (a.setWidth 32) then get s a else (writtenTo a w).getD (get s a) := by
  have ha := toNat_addr_lt a
  have hget : get s a = s.host (cell blocks (a.setWidth 32)) := hs.readByte hsize ha h 0
  have hget' : get (access s w) a = (access s w).host (cell blocks (a.setWidth 32)) :=
    (wired_access hs w).readByte hsize ha h 0
  rw [hget, hget']
  cases w with
  | read addr =>
    have hhost := (hs.read 0 (addr.setWidth 32)).2
    show (s.readByte 0 (addr.setWidth 32)).bus.host _ = _
    rw [hhost]
    exact (ite_self _).symm
  | write addr v =>
    have hb := toNat_addr_lt addr
    show (s.writeByte 0 (addr.setWidth 32) v).bus.host _ = _
    rw [hs.host_write hsize hb]
    by_cases hflash : Flash (a.setWidth 32)
    · rw [if_pos hflash]
      cases ht : target blocks (addr.setWidth 32) with
      | none => rfl
      | some n =>
        refine Function.update_of_ne ?_ _ _
        rintro rfl
        obtain ⟨heq, hstored⟩ := target_eq_cell ha hb h ht
        have hle := hsize.le
        unfold Ram Vram at hstored
        unfold Flash at hflash
        omega
    · rw [if_neg hflash, writtenTo]
      by_cases heq : addr = a
      · subst heq
        have hstored : Ram ramSize (addr.setWidth 32) ∨ Vram (addr.setWidth 32) := by
          rcases h with h | h | h
          · exact Or.inl h
          · exact Or.inr h
          · exact absurd h hflash
        rw [target_of_ram hstored, if_pos rfl]
        exact Function.update_self _ _ _
      · rw [if_neg heq]
        cases ht : target blocks (addr.setWidth 32) with
        | none => rfl
        | some n =>
          refine Function.update_of_ne ?_ _ _
          rintro rfl
          exact heq (addr_inj (target_eq_cell ha hb h ht).1)

theorem host_write_register (hs : Wired blocks s) (hsize : RamSize ramSize) {a : BitVec 24}
    (h : Register (a.setWidth 32)) (v : Byte) {n : Nat} (hn : Memory blocks n) :
    (access s (.write a v)).host n = s.host n := by
  have hle := hsize.le
  show (s.writeByte 0 (a.setWidth 32) v).bus.host n = s.host n
  rw [hs.host_write hsize (toNat_addr_lt a)]
  by_cases hbank : (a.setWidth 32 : CpuAddr).toNat / 0x10000 = 0xAF
  · rw [target_of_bank hsize hbank]
    obtain ⟨i, x, hi, hlt, hx, rfl⟩ := memory_spec hn
    exact Function.update_of_ne (io_ne hi hlt hx (Nat.mod_lt _ (by decide))) _ _
  · have hgavin := h.resolve_right hbank
    have hnot : ¬(Ram ramSize (a.setWidth 32) ∨ Vram (a.setWidth 32)) := by
      unfold Ram Vram
      omega
    rw [target_eq_none hnot hbank]

/-- **After any reads and writes RAM and video memory hold what was last written to them, the
flashes are as they were, and a write to a register changes none of these.** -/
theorem cells_of_run (blocks : Blocks ramSize) (hsize : RamSize ramSize) (gavinLowRegs : Registers)
    (bus : SystemBus Devices) (accesses : List Access) :
    Decodes blocks (construct blocks gavinLowRegs bus) accesses
      (accesses.foldl access (construct blocks gavinLowRegs bus)) := by
  have hstart := wired_construct blocks gavinLowRegs bus
  have hstep : ∀ s w, Wired blocks s → Wired blocks (access s w) := fun s w hs => wired_access hs w
  have hend : Wired blocks (accesses.foldl access (construct blocks gavinLowRegs bus)) :=
    List.foldlRecOn accesses access hstart fun s hs w _ => hstep s w hs
  refine ⟨fun a h => ?_, fun a h => ?_, fun a v h n hn => host_write_register hend hsize h v hn⟩
  · have hflash : ¬Flash (a.setWidth 32) := by
      have hle := hsize.le
      unfold Ram Vram at h
      unfold Flash
      omega
    refine foldl_eq_getLastD_of (get · a) hstep (fun s w hs => ?_) accesses hstart
    rw [get_access hs hsize (h.elim Or.inl fun h => Or.inr (Or.inl h)), if_neg hflash]
  · have hnone : accesses.filterMap (fun _ => (none : Option Byte)) = [] :=
      List.filterMap_eq_nil_iff.mpr fun _ _ => rfl
    have hlast := foldl_eq_getLastD_of (get · a) (f := fun _ => none) hstep
      (fun s w hs => ?_) accesses hstart
    · rw [hnone] at hlast
      exact hlast
    · rw [get_access hs hsize (Or.inr (Or.inr h)), if_pos h]
      rfl

/-- A C256 with 2 MB of RAM in zeroed memory that is written to on both sides of the end of the
registers. -/
theorem cells_of_run_twoMegabytes :
    let blocks : Blocks 0x200000 := ⟨0, 0x200000, 0x600000, 0x680000, 0x700000, by decide⟩
    let bus : SystemBus Devices :=
      { ioDevices, context := ⟨fun _ => 0, 0, 0⟩, memory := memoryMap blocks, host := fun _ => 0
        memMask := 0 }
    let accesses : List Access := [.write 0x19F 9, .write 0x1A0 7]
    Decodes blocks (construct blocks (fun _ => 0) bus) accesses
      (accesses.foldl access (construct blocks (fun _ => 0) bus)) :=
  cells_of_run _ ⟨by decide, by decide, by decide⟩ _ _ _

end RetroCpu.C256
