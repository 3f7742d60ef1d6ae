import Mathlib.Logic.Function.Basic
import RetroCpu.Bus

/-!
# The paged system bus

`SystemBus` of `cpu.h`: a table of pages, each with a host pointer, a read-only
flag, a window of I/O addresses and a price in cycles.  Host memory is one array
of bytes, so that two pages may share it.  The I/O callbacks are parameters: they
work on the context they are registered with and on host memory, and see the page
table but do not write it.

`charges` says that a page table whose pages all cost at least a cycle is a bus
that charges for every access.  `plainRam` says when a set of addresses is plain
memory on such a bus.
-/

namespace RetroCpu

abbrev HostMemory := Nat → Byte

/-- `Page`.  A null `ptr` is `none`. -/
structure Page where
  ptr : Option Nat
  flags : BitVec 32
  ioMask : CpuAddr
  ioEq : CpuAddr
  cyclesPerAccess : BitVec 32

/-- `Page::kReadOnly`. -/
def Page.kReadOnly : BitVec 32 := 1

/-- `flags & Page::kReadOnly`. -/
def Page.readOnly (p : Page) : Bool := p.flags &&& Page.kReadOnly != 0

/-- `MemoryMap`. -/
structure MemoryMap where
  pageSize : BitVec 32
  pageShift : BitVec 32
  pageMask : BitVec 32
  pages : Nat → Page

/-- `pages[addr >> page_shift]`. -/
def MemoryMap.page (map : MemoryMap) (addr : CpuAddr) : Page :=
  map.pages (addr >>> map.pageShift).toNat

/-- `addr & page_mask`, the place of an address in its page. -/
def MemoryMap.offset (map : MemoryMap) (addr : CpuAddr) : Nat := (addr &&& map.pageMask).toNat

/-- `SystemBus::IODevices`, for callbacks registered with a context of type `γ`.  `read`
is given the open-bus byte its `data` argument points to. -/
structure IODevices (γ : Type) where
  isIoDeviceAddress : γ → CpuAddr → Bool
  read : γ → MemoryMap → HostMemory → BitVec 64 → CpuAddr → Byte → Byte × γ × HostMemory
  write : γ → MemoryMap → HostMemory → BitVec 64 → CpuAddr → Byte → BitVec 32 × γ × HostMemory
  irqTaken : γ → BitVec 32 → γ
  pendingInterrupts : γ → BitVec 32

/-- `SystemBus`. -/
structure SystemBus (γ : Type) where
  ioDevices : IODevices γ
  context : γ
  memory : MemoryMap
  host : HostMemory
  memMask : BitVec 32
  openBusIsData : Bool := true
  openBus : Byte := 0

/-- The arguments of `SystemBus::Map`, whose `ptr` is a place of type `ρ`. -/
structure MapCall (ρ : Type) where
  addr : CpuAddr
  ptr : ρ
  len : BitVec 32
  readonly : Bool := false
  deriving DecidableEq

/-- `(p.io_mask & addr) == p.io_eq`. -/
def Page.isIo (p : Page) (addr : CpuAddr) : Bool := p.ioMask &&& addr == p.ioEq

/-- A page that no address makes an I/O page. -/
theorem Page.isIo_eq_false {p : Page} (hmask : p.ioMask = 0) (heq : p.ioEq = 1) (a : CpuAddr) :
    p.isIo a = false := by
  rw [isIo, hmask, heq]
  show ((0#32 &&& a) == 1) = false
  rw [BitVec.zero_and]
  rfl

namespace SystemBus

variable {γ : Type}

/-- `SystemBus::Init`. -/
def init (s : SystemBus γ) (sizeShift addrBusBits : BitVec 32) (pages : Nat → Page) :
    SystemBus γ :=
  { s with
    memory :=
      { pageShift := sizeShift
        pageSize := (1 : BitVec 32) <<< sizeShift
        pageMask := (1 : BitVec 32) <<< sizeShift - 1
        pages := pages }
    memMask := (1 : BitVec 32) <<< addrBusBits - 1 }

/-- The `i`th round of the loop in `SystemBus::Map`. -/
def mapPage (memory : MemoryMap) (firstPage ptr : Nat) (readonly : Bool) (i : Nat) : MemoryMap :=
  let p := memory.pages (firstPage + i)
  { memory with
    pages := Function.update memory.pages (firstPage + i)
      { p with
        ptr := some (ptr + i * memory.pageSize.toNat)
        flags := if readonly then p.flags ||| Page.kReadOnly else p.flags } }

/-- `SystemBus::Map`. -/
def map (s : SystemBus γ) (addr : CpuAddr) (ptr : Nat) (len : BitVec 32)
    (readonly : Bool := false) : SystemBus γ :=
  let firstPage := (addr / s.memory.pageSize).toNat
  { s with
    memory := (List.range (len / s.memory.pageSize).toNat).foldl
      (fun memory i => mapPage memory firstPage ptr readonly i) s.memory }

/-- `SystemBus::QueryIo`. -/
def queryIo (s : SystemBus γ) (addr : CpuAddr) : Bool :=
  let addr := addr &&& s.memMask
  if (s.memory.page addr).isIo addr then s.ioDevices.isIoDeviceAddress s.context addr else false

/-- `SystemBus::ReadByte`. -/
def readByte (s : SystemBus γ) (cycle : BitVec 64) (addr : CpuAddr) : ReadResult (SystemBus γ) :=
  let openBus := if s.openBusIsData then s.openBus else addr.setWidth 8
  let addr := addr &&& s.memMask
  let p := s.memory.page addr
  if p.isIo addr then
    let r := s.ioDevices.read s.context s.memory s.host cycle addr openBus
    ⟨r.1, p.cyclesPerAccess, { s with openBus := r.1, context := r.2.1, host := r.2.2 }⟩
  else
    match p.ptr with
    | some ptr =>
      let v := s.host (ptr + s.memory.offset addr)
      ⟨v, p.cyclesPerAccess, { s with openBus := v }⟩
    | none => ⟨openBus, p.cyclesPerAccess, { s with openBus := openBus }⟩

/-- `SystemBus::ReadByteNoIo`.  It reads through `ptr` without looking whether it is null. -/
def readByteNoIo (s : SystemBus γ) (addr : CpuAddr) : Option (Byte × BitVec 32) :=
  let addr := addr &&& s.memMask
  let p := s.memory.page addr
  p.ptr.map fun ptr => (s.host (ptr + s.memory.offset addr), p.cyclesPerAccess)

/-- `SystemBus::WriteByte`. -/
def writeByte (s : SystemBus γ) (cycle : BitVec 64) (addr : CpuAddr) (v : Byte) :
    WriteResult (SystemBus γ) :=
  let addr := addr &&& s.memMask
  let p := s.memory.page addr
  let openBus := if s.openBusIsData then v else addr.setWidth 8
  if p.isIo addr then
    let r := s.ioDevices.write s.context s.memory s.host cycle addr v
    ⟨p.cyclesPerAccess, r.1, { s with openBus := openBus, context := r.2.1, host := r.2.2 }⟩
  else
    match p.ptr with
    | some ptr =>
      if p.readOnly then ⟨p.cyclesPerAccess, 0, { s with openBus := openBus }⟩
      else
        ⟨p.cyclesPerAccess, 0,
          { s with
            openBus := openBus
            host := Function.update s.host (ptr + s.memory.offset addr) v }⟩
    | none => ⟨p.cyclesPerAccess, 0, { s with openBus := openBus }⟩

/-- `SystemBus::WriteByteNoIo`.  It writes through `ptr` without looking whether it is null. -/
def writeByteNoIo (s : SystemBus γ) (addr : CpuAddr) (v : Byte) :
    Option (BitVec 32 × SystemBus γ) :=
  let addr := addr &&& s.memMask
  let p := s.memory.page addr
  if p.readOnly then some (p.cyclesPerAccess, s)
  else p.ptr.map fun ptr =>
    (p.cyclesPerAccess,
      { s with host := Function.update s.host (ptr + s.memory.offset addr) v })

instance : Bus (SystemBus γ) where
  readByte := readByte
  writeByte := writeByte
  irqTaken s type := { s with context := s.ioDevices.irqTaken s.context type }
  pendingInterrupts s := s.ioDevices.pendingInterrupts s.context

/-- `SimpleSystemBus<AddressBusBits>` without I/O functions: one page over the whole
address space.  Its `io_eq` is 1 under an `io_mask` of 0, so no address is an I/O address. -/
def simple (addressBusBits : BitVec 32) (mem : HostMemory) : SystemBus Unit :=
  let page : Page := { ptr := some 0, flags := 0, ioMask := 0, ioEq := 1, cyclesPerAccess := 1 }
  let s : SystemBus Unit :=
    { ioDevices :=
        { isIoDeviceAddress := fun _ _ => false
          read := fun c _ host _ _ v => (v, c, host)
          write := fun c _ host _ _ _ => (0, c, host)
          irqTaken := fun c _ => c
          pendingInterrupts := fun _ => 0 }
      context := ()
      memory := { pageSize := 0, pageShift := 0, pageMask := 0, pages := fun _ => page }
      host := mem
      memMask := 0 }
  s.init addressBusBits addressBusBits fun _ => page

/-! ### What an access leaves alone -/

structure Frame (s s' : SystemBus γ) : Prop where
  memory : s'.memory = s.memory
  memMask : s'.memMask = s.memMask
  ioDevices : s'.ioDevices = s.ioDevices

theorem frame_readByte (s : SystemBus γ) (t : BitVec 64) (a : CpuAddr) :
    Frame s (s.readByte t a).bus := by
  simp only [readByte]
  split
  · exact ⟨rfl, rfl, rfl⟩
  · split <;> exact ⟨rfl, rfl, rfl⟩

theorem frame_writeByte (s : SystemBus γ) (t : BitVec 64) (a : CpuAddr) (v : Byte) :
    Frame s (s.writeByte t a v).bus := by
  simp only [writeByte]
  split
  · exact ⟨rfl, rfl, rfl⟩
  · split
    · split <;> exact ⟨rfl, rfl, rfl⟩
    · exact ⟨rfl, rfl, rfl⟩

theorem readByte_cycles (s : SystemBus γ) (t : BitVec 64) (a : CpuAddr) :
    (s.readByte t a).cycles = (s.memory.page (a &&& s.memMask)).cyclesPerAccess := by
  simp only [readByte]
  split
  · rfl
  · split <;> rfl

theorem writeByte_cycles (s : SystemBus γ) (t : BitVec 64) (a : CpuAddr) (v : Byte) :
    (s.writeByte t a v).cycles = (s.memory.page (a &&& s.memMask)).cyclesPerAccess := by
  simp only [writeByte]
  split
  · rfl
  · split
    · split <;> rfl
    · rfl

def Paged (s : SystemBus γ) : Prop := ∀ i, 1 ≤ (s.memory.pages i).cyclesPerAccess.toNat

/-- **A bus whose pages all cost a cycle charges for every access.** -/
theorem charges : Bus.Charges (Paged (γ := γ)) where
  read h t a := by
    intro i
    show 1 ≤ ((readByte _ t a).bus.memory.pages i).cyclesPerAccess.toNat
    rw [(frame_readByte _ t a).memory]
    exact h i
  write h t a v := by
    intro i
    show 1 ≤ ((writeByte _ t a v).bus.memory.pages i).cyclesPerAccess.toNat
    rw [(frame_writeByte _ t a v).memory]
    exact h i
  irqTaken h _ := h
  read_pos h t a := by
    show 1 ≤ (readByte _ t a).cycles.toNat
    rw [readByte_cycles]
    exact h _
  write_pos h t a v := by
    show 1 ≤ (writeByte _ t a v).cycles.toNat
    rw [writeByte_cycles]
    exact h _

/-- Host memory with a program at `0x200` and the reset vector pointing at it. -/
def program (code : List Byte) : HostMemory := fun a =>
  if a = 0xFFFD then 2 else if 0x200 ≤ a then code.getD (a - 0x200) 0 else 0

theorem paged_simple (addressBusBits : BitVec 32) (mem : HostMemory) :
    Paged (simple addressBusBits mem) := fun _ => Nat.le_refl 1

/-! ### Plain memory on the bus -/

/-- Where a page table keeps the byte of an address that is memory: not in an I/O window,
not null and not read-only. -/
def ramAddr (memory : MemoryMap) (memMask : BitVec 32) (addr : CpuAddr) : Option Nat :=
  let addr := addr &&& memMask
  let p := memory.page addr
  if p.isIo addr || p.readOnly then none else p.ptr.map (· + memory.offset addr)

/-- `R` is memory in the page table, no two of its addresses share a host byte, and the
devices leave its host bytes alone. -/
structure RamMap (devices : IODevices γ) (memory : MemoryMap) (memMask : BitVec 32)
    (R : CpuAddr → Prop) : Prop where
  isSome : ∀ a, R a → (ramAddr memory memMask a).isSome
  inj : ∀ a a', R a → R a' → ramAddr memory memMask a = ramAddr memory memMask a' → a = a'
  read : ∀ a n, R a → ramAddr memory memMask a = some n → ∀ c h t a' v,
    (devices.read c memory h t a' v).2.2 n = h n
  write : ∀ a n, R a → ramAddr memory memMask a = some n → ∀ c h t a' v,
    (devices.write c memory h t a' v).2.2 n = h n

theorem ramAddr_eq_some {memory : MemoryMap} {memMask : BitVec 32} {a : CpuAddr} {n : Nat}
    (h : ramAddr memory memMask a = some n) :
    (memory.page (a &&& memMask)).isIo (a &&& memMask) = false ∧
      (memory.page (a &&& memMask)).readOnly = false ∧
      ∃ ptr, (memory.page (a &&& memMask)).ptr = some ptr ∧
        ptr + memory.offset (a &&& memMask) = n := by
  simp only [ramAddr] at h
  split at h
  · cases h
  · next hio =>
    rw [Bool.or_eq_true, not_or, Bool.not_eq_true, Bool.not_eq_true] at hio
    exact ⟨hio.1, hio.2, Option.map_eq_some_iff.mp h⟩

theorem readByte_of_ramAddr {s : SystemBus γ} {a : CpuAddr} {n : Nat}
    (h : ramAddr s.memory s.memMask a = some n) (t : BitVec 64) :
    (s.readByte t a).data = s.host n := by
  obtain ⟨hio, -, ptr, hptr, rfl⟩ := ramAddr_eq_some h
  simp [readByte, hio, hptr]

theorem host_readByte {s : SystemBus γ} {n : Nat}
    (h : ∀ t a v, (s.ioDevices.read s.context s.memory s.host t a v).2.2 n = s.host n)
    (t : BitVec 64) (a : CpuAddr) : (s.readByte t a).bus.host n = s.host n := by
  simp only [readByte]
  split
  · exact h _ _ _
  · split <;> rfl

theorem host_writeByte {s : SystemBus γ} {a : CpuAddr} {n : Nat}
    (h : ramAddr s.memory s.memMask a = some n) (t : BitVec 64) (v : Byte) :
    (s.writeByte t a v).bus.host = Function.update s.host n v := by
  obtain ⟨hio, hro, ptr, hptr, rfl⟩ := ramAddr_eq_some h
  simp [writeByte, hio, hro, hptr]

/-- **Memory pages that devices leave alone are plain memory**, as long as the page table
stays in place. -/
def RamMap.plainRam {devices : IODevices γ} {memory : MemoryMap} {memMask : BitVec 32}
    {R : CpuAddr → Prop} (hR : RamMap devices memory memMask R) : PlainRam (SystemBus γ) R where
  ok s := s.memory = memory ∧ s.memMask = memMask ∧ s.ioDevices = devices
  peek s a := s.host ((ramAddr memory memMask a).getD 0)
  invariant :=
    { read := fun {s} h t a =>
        have f := frame_readByte s t a
        ⟨f.memory.trans h.1, f.memMask.trans h.2.1, f.ioDevices.trans h.2.2⟩
      write := fun {s} h t a v =>
        have f := frame_writeByte s t a v
        ⟨f.memory.trans h.1, f.memMask.trans h.2.1, f.ioDevices.trans h.2.2⟩
      irqTaken := fun h _ => h }
  read_data := by
    rintro s ⟨rfl, rfl, rfl⟩ t a ha
    obtain ⟨n, hn⟩ := Option.isSome_iff_exists.mp (hR.isSome a ha)
    rw [hn]
    exact readByte_of_ramAddr hn t
  peek_read := by
    rintro s ⟨rfl, rfl, rfl⟩ t a' a ha
    obtain ⟨n, hn⟩ := Option.isSome_iff_exists.mp (hR.isSome a ha)
    rw [hn]
    exact host_readByte (fun t a' v => hR.read a n ha hn _ _ t a' v) t a'
  peek_write := by
    rintro s ⟨rfl, rfl, rfl⟩ t a' v a ha' ha
    obtain ⟨n, hn⟩ := Option.isSome_iff_exists.mp (hR.isSome a ha)
    obtain ⟨n', hn'⟩ := Option.isSome_iff_exists.mp (hR.isSome a' ha')
    show (writeByte s t a' v).bus.host _ = _
    rw [host_writeByte hn', hn]
    by_cases h : a = a'
    · subst h
      rw [hn] at hn'
      cases hn'
      simp
    · have hne : n ≠ n' := fun e => h (hR.inj a a' ha ha' (by rw [hn, hn', e]))
      simp [h, hne]
  peek_irqTaken := fun _ _ _ _ => rfl

/-! ### Memory behind an address -/

/-- The page table keeps the byte of `addr` in the host byte `n`; `readonly` says that no
write reaches it. -/
structure Backed (memory : MemoryMap) (memMask : BitVec 32) (addr : CpuAddr) (n : Nat)
    (readonly : Bool) : Prop where
  io : (memory.page (addr &&& memMask)).isIo (addr &&& memMask) = false
  ptr : ∃ base, (memory.page (addr &&& memMask)).ptr = some base ∧
    base + memory.offset (addr &&& memMask) = n
  flags : (memory.page (addr &&& memMask)).readOnly = readonly

section Backed

variable {s : SystemBus γ} {a : CpuAddr} {n : Nat} {readonly : Bool}

theorem Backed.readByte (h : Backed s.memory s.memMask a n readonly) (t : BitVec 64) :
    (s.readByte t a).data = s.host n ∧ (s.readByte t a).bus.host = s.host := by
  obtain ⟨base, hbase, rfl⟩ := h.ptr
  simp [SystemBus.readByte, h.io, hbase]

theorem Backed.writeByte (h : Backed s.memory s.memMask a n readonly) (t : BitVec 64)
    (v : Byte) : (s.writeByte t a v).bus.host =
      if readonly then s.host else Function.update s.host n v := by
  obtain ⟨base, hbase, rfl⟩ := h.ptr
  cases readonly with
  | true => simp [SystemBus.writeByte, h.io, hbase, h.flags]
  | false => simp [SystemBus.writeByte, h.io, hbase, h.flags]

end Backed

/-- A page after `Map` has put memory under it. -/
def mapTo (p : Page) (ptr : Nat) (readonly : Bool) : Page :=
  { p with ptr := some ptr, flags := if readonly then p.flags ||| Page.kReadOnly else p.flags }

theorem pages_foldl_mapPage (memory : MemoryMap) (firstPage ptr : Nat) (readonly : Bool)
    (n : Nat) :
    (List.range n).foldl (fun memory i => mapPage memory firstPage ptr readonly i) memory =
      { memory with
        pages := fun j =>
          if firstPage ≤ j ∧ j < firstPage + n then
            mapTo (memory.pages j) (ptr + (j - firstPage) * memory.pageSize.toNat) readonly
          else memory.pages j } := by
  induction n with
  | zero =>
    have hnone : ∀ j, ¬(firstPage ≤ j ∧ j < firstPage + 0) := by
      intro j
      omega
    simp only [List.range_zero, List.foldl_nil, hnone, if_false]
  | succ n ih =>
    rw [List.range_succ, List.foldl_append, ih, List.foldl_cons, List.foldl_nil, mapPage]
    congr 1
    funext j
    by_cases hj : j = firstPage + n
    · subst hj
      simp [mapTo]
    · have hiff : firstPage ≤ j ∧ j < firstPage + (n + 1) ↔
          firstPage ≤ j ∧ j < firstPage + n := by omega
      simp [Function.update_of_ne hj, hiff]

/-- **What `Map` does to the page table**: it puts memory under the pages of its range. -/
theorem map_eq (s : SystemBus γ) (addr : CpuAddr) (ptr : Nat) (len : BitVec 32)
    (readonly : Bool) :
    s.map addr ptr len readonly =
      { s with
        memory :=
          { s.memory with
            pages := fun j =>
              if (addr / s.memory.pageSize).toNat ≤ j ∧
                  j < (addr / s.memory.pageSize).toNat + (len / s.memory.pageSize).toNat then
                mapTo (s.memory.pages j)
                  (ptr + (j - (addr / s.memory.pageSize).toNat) * s.memory.pageSize.toNat) readonly
              else s.memory.pages j } } := by
  rw [map, pages_foldl_mapPage]

/-! ### The simple bus -/

theorem and_addressMask {a : CpuAddr} (h : a < 0x1000000) : a &&& 0xFFFFFF = a := by
  have hm : (0xFFFFFF : CpuAddr).toNat = 2 ^ 24 - 1 := by decide
  apply BitVec.eq_of_toNat_eq
  rw [BitVec.toNat_and, hm, Nat.and_two_pow_sub_one_eq_mod]
  exact Nat.mod_eq_of_lt h

theorem ramAddr_simple {a : CpuAddr} (h : a < 0x1000000) :
    ramAddr (simple 24 fun _ => 0).memory (simple 24 fun _ => 0).memMask a = some a.toNat := by
  have hmask : (simple 24 fun _ => 0).memMask = 0xFFFFFF := by decide
  have hpage : (simple 24 fun _ => 0).memory.pageMask = 0xFFFFFF := by decide
  have hw : ((simple 24 fun _ => 0).memory.page a).readOnly = false := by
    show (0#32 &&& Page.kReadOnly != 0) = false
    decide
  have hio : ((simple 24 fun _ => 0).memory.page a).isIo a = false :=
    Page.isIo_eq_false rfl rfl a
  simp only [ramAddr, hmask, and_addressMask h, hio, MemoryMap.offset, hpage]
  rw [hw]
  show some (0 + a.toNat) = some a.toNat
  rw [Nat.zero_add]

/-- Each address of a simple bus is memory. -/
theorem isSome_ramAddr_simple (addressBusBits : BitVec 32) (mem : HostMemory) (a : CpuAddr) :
    (ramAddr (simple addressBusBits mem).memory (simple addressBusBits mem).memMask a).isSome := by
  have hw : ((simple addressBusBits mem).memory.page
      (a &&& (simple addressBusBits mem).memMask)).readOnly = false := by
    show (0#32 &&& Page.kReadOnly != 0) = false
    decide
  have hio : ((simple addressBusBits mem).memory.page
      (a &&& (simple addressBusBits mem).memMask)).isIo
        (a &&& (simple addressBusBits mem).memMask) = false := Page.isIo_eq_false rfl rfl _
  simp only [ramAddr, hio, hw]
  rfl

def simpleRam : PlainRam (SystemBus Unit) (· < (0x1000000 : CpuAddr)) :=
  have h : RamMap (simple 24 fun _ => 0).ioDevices (simple 24 fun _ => 0).memory
      (simple 24 fun _ => 0).memMask (· < (0x1000000 : CpuAddr)) :=
    { isSome := fun a h => by rw [ramAddr_simple h]; rfl
      inj := fun a a' h h' e => by
        rw [ramAddr_simple h, ramAddr_simple h'] at e
        exact BitVec.eq_of_toNat_eq (Option.some.inj e)
      read := fun _ _ _ _ _ _ _ _ _ => rfl
      write := fun _ _ _ _ _ _ _ _ _ => rfl }
  h.plainRam

theorem ok_simpleRam (mem : HostMemory) : simpleRam.ok (simple 24 mem) := ⟨rfl, rfl, rfl⟩

end SystemBus

end RetroCpu
