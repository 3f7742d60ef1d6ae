import Mathlib.Algebra.Group.Nat.Defs
import RetroCpu.Wdc65816.Bisimulation

/-!
# Where memory lies on the host

A page table says which host byte is behind an address, and what an access costs.  A program can
tell neither the host addresses, nor the size of the pages, nor the prices: `SameView` says what
of a page table it can tell, which is where the devices are, what is missing, what is read-only
and which addresses share a byte.

* `accord_view`: two buses with one view answer a CPU alike.
* `layout_unobservable`: **whole runs of a CPU on them differ in the clock alone**.
-/

namespace RetroCpu

open Machine StateFn

variable {γ : Type}

namespace SystemBus

def masked (s : SystemBus γ) (addr : CpuAddr) : CpuAddr := addr &&& s.memMask

def pageOf (s : SystemBus γ) (addr : CpuAddr) : Page := s.memory.page (s.masked addr)

/-- An access goes to a device. -/
def atDevice (s : SystemBus γ) (addr : CpuAddr) : Bool := (s.pageOf addr).isIo (s.masked addr)

def hostByte (s : SystemBus γ) (addr : CpuAddr) : Option Nat :=
  (s.pageOf addr).ptr.map (· + s.memory.offset (s.masked addr))

def SameBytes (s s' : SystemBus γ) : Prop :=
  ∀ a n n', s.hostByte a = some n → s'.hostByte a = some n' → s.host n = s'.host n'

/-- What a program can tell of a bus is the same in both. -/
structure SameView (s s' : SystemBus γ) : Prop where
  ioDevices : s.ioDevices = s'.ioDevices
  context : s.context = s'.context
  memMask : s.memMask = s'.memMask
  openBusIsData : s.openBusIsData = s'.openBusIsData
  openBus : s.openBus = s'.openBus
  atDevice : ∀ a, s.atDevice a = s'.atDevice a
  readOnly : ∀ a, (s.pageOf a).readOnly = (s'.pageOf a).readOnly
  isSome : ∀ a, (s.hostByte a).isSome = (s'.hostByte a).isSome
  /-- The same addresses share a byte. -/
  shared : ∀ a b, s.hostByte a = s.hostByte b ↔ s'.hostByte a = s'.hostByte b
  bytes : SameBytes s s'

end SystemBus

open SystemBus

/-- The devices look at memory through the page table alone, and not at the clock. -/
structure IODevices.Respects (d : IODevices γ) : Prop where
  read : ∀ {s s' : SystemBus γ}, SameView s s' → s.ioDevices = d → ∀ t t' a v,
    (d.read s.context s.memory s.host t a v).1 = (d.read s'.context s'.memory s'.host t' a v).1 ∧
      (d.read s.context s.memory s.host t a v).2.1 =
        (d.read s'.context s'.memory s'.host t' a v).2.1 ∧
      SameBytes { s with host := (d.read s.context s.memory s.host t a v).2.2 }
        { s' with host := (d.read s'.context s'.memory s'.host t' a v).2.2 }
  write : ∀ {s s' : SystemBus γ}, SameView s s' → s.ioDevices = d → ∀ t t' a v,
    (d.write s.context s.memory s.host t a v).2.1 =
        (d.write s'.context s'.memory s'.host t' a v).2.1 ∧
      SameBytes { s with host := (d.write s.context s.memory s.host t a v).2.2 }
        { s' with host := (d.write s'.context s'.memory s'.host t' a v).2.2 }

/-- Devices that look at neither memory nor the clock. -/
structure IODevices.Apart (d : IODevices γ) : Prop where
  read : ∀ c m m' h h' t t' a v, (d.read c m h t a v).1 = (d.read c m' h' t' a v).1 ∧
    (d.read c m h t a v).2.1 = (d.read c m' h' t' a v).2.1 ∧ (d.read c m h t a v).2.2 = h
  write : ∀ c m m' h h' t t' a v, (d.write c m h t a v).2.1 = (d.write c m' h' t' a v).2.1 ∧
    (d.write c m h t a v).2.2 = h

/-- What a device gives on the one bus and on the other. -/
theorem IODevices.Respects.reads {s s' : SystemBus γ} (hd : s.ioDevices.Respects)
    (h : SameView s s') (t t' : BitVec 64) (a : CpuAddr) (v : Byte) :
    (s.ioDevices.read s.context s.memory s.host t a v).1 =
        (s'.ioDevices.read s'.context s'.memory s'.host t' a v).1 ∧
      (s.ioDevices.read s.context s.memory s.host t a v).2.1 =
        (s'.ioDevices.read s'.context s'.memory s'.host t' a v).2.1 ∧
      SameBytes { s with host := (s.ioDevices.read s.context s.memory s.host t a v).2.2 }
        { s' with host := (s'.ioDevices.read s'.context s'.memory s'.host t' a v).2.2 } := by
  rw [← h.ioDevices]
  exact hd.read h rfl t t' a v

theorem IODevices.Respects.writes {s s' : SystemBus γ} (hd : s.ioDevices.Respects)
    (h : SameView s s') (t t' : BitVec 64) (a : CpuAddr) (v : Byte) :
    (s.ioDevices.write s.context s.memory s.host t a v).2.1 =
        (s'.ioDevices.write s'.context s'.memory s'.host t' a v).2.1 ∧
      SameBytes { s with host := (s.ioDevices.write s.context s.memory s.host t a v).2.2 }
        { s' with host := (s'.ioDevices.write s'.context s'.memory s'.host t' a v).2.2 } := by
  rw [← h.ioDevices]
  exact hd.write h rfl t t' a v

theorem IODevices.Apart.respects {d : IODevices γ} (h : d.Apart) : d.Respects where
  read := by
    intro s s' hs _ t t' a v
    obtain ⟨h1, h2, h3⟩ := h.read s.context s.memory s'.memory s.host s'.host t t' a v
    obtain ⟨-, -, h3'⟩ := h.read s'.context s'.memory s'.memory s'.host s'.host t' t' a v
    rw [h3, h3', ← hs.context]
    exact ⟨h1, h2, hs.bytes⟩
  write := by
    intro s s' hs _ t t' a v
    obtain ⟨h1, h2⟩ := h.write s.context s.memory s'.memory s.host s'.host t t' a v
    obtain ⟨-, h2'⟩ := h.write s'.context s'.memory s'.memory s'.host s'.host t' t' a v
    rw [h2, h2', ← hs.context]
    exact ⟨h1, hs.bytes⟩

namespace SystemBus

variable {s s' : SystemBus γ}

/-- A view of one bus. -/
theorem SameView.refl (s : SystemBus γ) : SameView s s where
  ioDevices := rfl
  context := rfl
  memMask := rfl
  openBusIsData := rfl
  openBus := rfl
  atDevice _ := rfl
  readOnly _ := rfl
  isSome _ := rfl
  shared _ _ := Iff.rfl
  bytes a n n' h h' := by
    rw [h] at h'
    cases h'
    rfl

/-- A change of what is not in the page table. -/
theorem SameView.change (h : SameView s s') {c c' : γ} {o o' : Byte} {host host' : HostMemory}
    (hc : c = c') (ho : o = o')
    (hb : SameBytes { s with host := host } { s' with host := host' }) :
    SameView { s with context := c, openBus := o, host := host }
      { s' with context := c', openBus := o', host := host' } where
  ioDevices := h.ioDevices
  context := hc
  memMask := h.memMask
  openBusIsData := h.openBusIsData
  openBus := ho
  atDevice := h.atDevice
  readOnly := h.readOnly
  isSome := h.isSome
  shared := h.shared
  bytes := hb

/-- A byte is written to memory. -/
theorem SameView.update (h : SameView s s') {a : CpuAddr} {n n' : Nat}
    (hn : s.hostByte a = some n) (hn' : s'.hostByte a = some n') (v : Byte) :
    SameBytes { s with host := Function.update s.host n v }
      { s' with host := Function.update s'.host n' v } := by
  intro b k k' hk hk'
  have hk1 : s.hostByte b = some k := hk
  have hk2 : s'.hostByte b = some k' := hk'
  have hiff := h.shared b a
  rw [hk1, hn, hk2, hn', Option.some.injEq, Option.some.injEq] at hiff
  show Function.update s.host n v k = Function.update s'.host n' v k'
  by_cases hkn : k = n
  · rw [hkn, hiff.mp hkn, Function.update_self, Function.update_self]
  · rw [Function.update_of_ne hkn, Function.update_of_ne fun e => hkn (hiff.mpr e)]
    exact h.bytes b k k' hk hk'

def held (s : SystemBus γ) (addr : CpuAddr) : Byte :=
  if s.openBusIsData then s.openBus else addr.setWidth 8

theorem SameView.held (h : SameView s s') (a : CpuAddr) : s.held a = s'.held a := by
  rw [SystemBus.held, SystemBus.held, h.openBusIsData, h.openBus]

theorem readByte_device {a : CpuAddr} (h : s.atDevice a = true) (t : BitVec 64) :
    s.readByte t a =
      let r := s.ioDevices.read s.context s.memory s.host t (s.masked a) (s.held a)
      ⟨r.1, (s.pageOf a).cyclesPerAccess,
        { s with openBus := r.1, context := r.2.1, host := r.2.2 }⟩ := if_pos h

theorem readByte_memory {a : CpuAddr} (h : s.atDevice a = false) (t : BitVec 64) :
    s.readByte t a =
      let v := ((s.hostByte a).map s.host).getD (s.held a)
      ⟨v, (s.pageOf a).cyclesPerAccess, { s with openBus := v }⟩ := by
  have hio : ¬((s.memory.page (a &&& s.memMask)).isIo (a &&& s.memMask) = true) := by
    intro hio
    exact absurd (h.symm.trans hio) Bool.false_ne_true
  rw [readByte]
  dsimp only
  rw [if_neg hio]
  unfold hostByte pageOf masked
  cases hp : (s.memory.page (a &&& s.memMask)).ptr <;> rfl

theorem writeByte_device {a : CpuAddr} (h : s.atDevice a = true) (t : BitVec 64) (v : Byte) :
    (s.writeByte t a v).bus =
      let r := s.ioDevices.write s.context s.memory s.host t (s.masked a) v
      { s with
        openBus := if s.openBusIsData then v else (s.masked a).setWidth 8
        context := r.2.1, host := r.2.2 } :=
  congrArg WriteResult.bus (if_pos h)

theorem writeByte_memory {a : CpuAddr} (h : s.atDevice a = false) (t : BitVec 64) (v : Byte) :
    (s.writeByte t a v).bus =
      { s with
        openBus := if s.openBusIsData then v else (s.masked a).setWidth 8
        host :=
          if (s.pageOf a).readOnly then s.host
          else
            match s.hostByte a with
            | some n => Function.update s.host n v
            | none => s.host } := by
  have hio : ¬((s.memory.page (a &&& s.memMask)).isIo (a &&& s.memMask) = true) := by
    intro hio
    exact absurd (h.symm.trans hio) Bool.false_ne_true
  rw [writeByte]
  dsimp only
  rw [if_neg hio]
  unfold hostByte pageOf masked
  cases hp : (s.memory.page (a &&& s.memMask)).ptr with
  | none =>
    dsimp only [Option.map_none]
    rw [ite_self]
  | some ptr =>
    dsimp only [Option.map_some]
    split <;> rfl

/-- The bytes that are read from memory. -/
theorem SameView.data (h : SameView s s') (a : CpuAddr) :
    ((s.hostByte a).map s.host).getD (s.held a) =
      ((s'.hostByte a).map s'.host).getD (s'.held a) := by
  have hs := h.isSome a
  cases hn : s.hostByte a with
  | none =>
    cases hn' : s'.hostByte a with
    | none => exact h.held a
    | some n' =>
      rw [hn, hn'] at hs
      cases hs
  | some n =>
    cases hn' : s'.hostByte a with
    | none =>
      rw [hn, hn'] at hs
      cases hs
    | some n' => exact h.bytes a n n' hn hn'

/-- **A read of two buses with one view.** -/
theorem SameView.readByte (h : SameView s s') (hd : s.ioDevices.Respects) (t t' : BitVec 64)
    (a : CpuAddr) : (s.readByte t a).data = (s'.readByte t' a).data ∧
      SameView (s.readByte t a).bus (s'.readByte t' a).bus := by
  have ha := h.atDevice a
  cases hio : s.atDevice a with
  | true =>
    rw [hio] at ha
    have hmask : s.masked a = s'.masked a := congrArg (a &&& ·) h.memMask
    obtain ⟨h1, h2, h3⟩ := hd.reads h t t' (s.masked a) (s.held a)
    rw [readByte_device hio, readByte_device ha.symm, ← hmask, ← h.held a]
    exact ⟨h1, h.change h2 h1 h3⟩
  | false =>
    rw [hio] at ha
    rw [readByte_memory hio, readByte_memory ha.symm]
    exact ⟨h.data a, h.change h.context (h.data a) h.bytes⟩

/-- **A write to two buses with one view.** -/
theorem SameView.writeByte (h : SameView s s') (hd : s.ioDevices.Respects) (t t' : BitVec 64)
    (a : CpuAddr) (v : Byte) : SameView (s.writeByte t a v).bus (s'.writeByte t' a v).bus := by
  have ha := h.atDevice a
  have hmask : s.masked a = s'.masked a := congrArg (a &&& ·) h.memMask
  have hopen : (if s.openBusIsData then v else (s.masked a).setWidth 8) =
      if s'.openBusIsData then v else (s'.masked a).setWidth 8 := by
    rw [h.openBusIsData, hmask]
  cases hio : s.atDevice a with
  | true =>
    rw [hio] at ha
    obtain ⟨h1, h2⟩ := hd.writes h t t' (s.masked a) v
    rw [writeByte_device hio, writeByte_device ha.symm]
    rw [hmask] at h1 h2 hopen ⊢
    exact h.change h1 hopen h2
  | false =>
    rw [hio] at ha
    rw [writeByte_memory hio, writeByte_memory ha.symm]
    refine h.change h.context hopen ?_
    rw [h.readOnly a]
    split
    · exact h.bytes
    · have hs := h.isSome a
      cases hn : s.hostByte a with
      | none =>
        cases hn' : s'.hostByte a with
        | none => exact h.bytes
        | some n' =>
          rw [hn, hn'] at hs
          cases hs
      | some n =>
        cases hn' : s'.hostByte a with
        | none =>
          rw [hn, hn'] at hs
          cases hs
        | some n' => exact h.update hn hn' v

end SystemBus

/-- **Two buses with one view answer a CPU alike**, whatever the accesses cost. -/
def accordView (d : IODevices γ) (hd : d.Respects) : Accord (SystemBus γ) (SystemBus γ) where
  rel _ s _ s' := SameView s s' ∧ s.ioDevices = d
  timing _ _ := True
  read_data := by
    rintro t s t' s' ⟨h, rfl⟩ a
    exact (h.readByte hd t t' a).1
  read := by
    rintro t s t' s' ⟨h, rfl⟩ a
    exact ⟨(h.readByte hd t t' a).2, (frame_readByte s t a).ioDevices⟩
  write := by
    rintro t s t' s' ⟨h, rfl⟩ a v
    exact ⟨h.writeByte hd t t' a v, (frame_writeByte s t a v).ioDevices⟩
  irqTaken := by
    rintro t s t' s' ⟨h, rfl⟩ type
    refine ⟨h.change ?_ h.openBus h.bytes, rfl⟩
    rw [← h.ioDevices, ← h.context]
  internal := by
    rintro t s t' s' k k' - h n
    exact h

/-- What may happen to both CPUs: a world that changes keeps its devices. -/
def Stimulus.Keeps (d : IODevices γ) : Stimulus (SystemBus γ) → Prop
  | .world bus => bus.ioDevices = d
  | .setRegister reg value => Core.BankFits reg value
  | _ => True

/-- **A program cannot tell where memory lies on the host, how large the pages are and what an
access costs.**  Two CPUs that are switched on over buses with one view, and that spend different
times on internal cycles, stay alike in all but the clock, whatever happens to both. -/
theorem layout_unobservable {d : IODevices γ} (hd : d.Respects) (storage : Core)
    {s s' : SystemBus γ} (h : SameView s s') (hs : s.ioDevices = d) (o : CpuSettings)
    (timing : BitVec 32) {is : List (Stimulus (SystemBus γ))} (his : ∀ i ∈ is, i.Keeps d) :
    Option.Rel (Machine.Alike (accordView d hd) False)
      (runList Machine.step is (switchedOn storage s o))
      (runList Machine.step is
        (switchedOn storage s' { o with internalCycleTiming := timing })) := by
  have hon : Machine.Alike (accordView d hd) False (switchedOn storage s o)
      (switchedOn storage s' { o with internalCycleTiming := timing }) :=
    alike_switchedOn storage ⟨h, hs⟩ (fun _ => rfl) rfl rfl trivial
  refine runList_rel (fun i m m' hm (hi : i.Keeps d) => ?_) is hon (admissible_of_forall his _)
  refine alike_step i hm ?_ (fun hr _ => hr) ?_ fun h => h.elim
  · cases i with
    | setRegister reg value => exact hi
    | _ => trivial
  · rintro bus rfl
    exact ⟨SameView.refl bus, hi⟩

/-! ### Pages of any size -/

namespace SystemBus

/-- The memory of a simple bus in pages of `2 ^ shift` bytes that lie one after the other from
`base` on. -/
def tiled (shift : Nat) (base : Nat) (price : BitVec 32) (mem : HostMemory) : SystemBus Unit :=
  { (simple 24 mem).init (BitVec.ofNat 32 shift) 24 fun i =>
      { ptr := some (base + i * 2 ^ shift), flags := 0, ioMask := 0, ioEq := 1
        cyclesPerAccess := price } with
    host := fun n => mem (n - base) }

theorem toNat_pageMask {shift : Nat} (h : shift ≤ 24) :
    ((1 : BitVec 32) <<< BitVec.ofNat 32 shift - 1).toNat = 2 ^ shift - 1 := by
  have hlt : 2 ^ shift < 2 ^ 32 := Nat.pow_lt_pow_right (by omega) (by omega)
  have hpos := Nat.two_pow_pos shift
  have hs : (BitVec.ofNat 32 shift).toNat = shift := Nat.mod_eq_of_lt (by omega)
  have h1 : ((1 : BitVec 32) <<< BitVec.ofNat 32 shift).toNat = 2 ^ shift := by
    rw [BitVec.shiftLeft_eq', hs, BitVec.toNat_shiftLeft, Nat.shiftLeft_eq]
    show 1 * 2 ^ shift % 2 ^ 32 = 2 ^ shift
    rw [Nat.one_mul, Nat.mod_eq_of_lt hlt]
  have hone : (1 : BitVec 32).toNat = 1 := rfl
  rw [BitVec.toNat_sub, h1, hone]
  omega

theorem hostByte_tiled {shift : Nat} (h : shift ≤ 24) (base : Nat) (price : BitVec 32)
    (mem : HostMemory) (a : CpuAddr) :
    (tiled shift base price mem).hostByte a = some (base + (a &&& 0xFFFFFF).toNat) := by
  have hs : (BitVec.ofNat 32 shift).toNat = shift := Nat.mod_eq_of_lt (by omega)
  have hmask : (tiled shift base price mem).memMask = 0xFFFFFF := rfl
  have hplace : (tiled shift base price mem).hostByte a =
      some (base + ((a &&& (tiled shift base price mem).memMask) >>> BitVec.ofNat 32 shift).toNat *
        2 ^ shift + ((a &&& (tiled shift base price mem).memMask) &&&
          ((1 : BitVec 32) <<< BitVec.ofNat 32 shift - 1)).toNat) := rfl
  rw [hplace, hmask]
  generalize a &&& (0xFFFFFF : CpuAddr) = m
  rw [BitVec.ushiftRight_eq', hs, BitVec.toNat_ushiftRight, Nat.shiftRight_eq_div_pow,
    BitVec.toNat_and, toNat_pageMask h, Nat.and_two_pow_sub_one_eq_mod, Nat.add_assoc,
    Nat.mul_comm, Nat.div_add_mod]

theorem hostByte_simple (mem : HostMemory) (a : CpuAddr) :
    (simple 24 mem).hostByte a = some (a &&& 0xFFFFFF).toNat := by
  have h : (simple 24 mem).hostByte a =
      some (0 + ((a &&& 0xFFFFFF#32) &&& 0xFFFFFF).toNat) := rfl
  rw [h, Nat.zero_add, BitVec.and_assoc]
  rfl

/-- **Pages of any size show the memory of a simple bus**, wherever they lie and whatever they
cost. -/
theorem sameView_tiled {shift : Nat} (h : shift ≤ 24) (base : Nat) (price : BitVec 32)
    (mem : HostMemory) : SameView (simple 24 mem) (tiled shift base price mem) where
  ioDevices := rfl
  context := rfl
  memMask := rfl
  openBusIsData := rfl
  openBus := rfl
  atDevice a := by
    have h0 : (simple 24 mem).atDevice a = false := Page.isIo_eq_false rfl rfl _
    have h1 : (tiled shift base price mem).atDevice a = false := Page.isIo_eq_false rfl rfl _
    rw [h0, h1]
  readOnly _ := rfl
  isSome a := by rw [hostByte_simple, hostByte_tiled h]; rfl
  shared a b := by
    rw [hostByte_simple, hostByte_simple, hostByte_tiled h, hostByte_tiled h, Option.some.injEq,
      Option.some.injEq]
    omega
  bytes a n n' hn hn' := by
    rw [hostByte_simple] at hn
    rw [hostByte_tiled h] at hn'
    cases hn
    cases hn'
    show mem _ = mem (base + _ - base)
    rw [Nat.add_sub_cancel_left]

theorem apart_simple (mem : HostMemory) : (simple 24 mem).ioDevices.Apart :=
  ⟨fun _ _ _ _ _ _ _ _ _ => ⟨rfl, rfl, rfl⟩, fun _ _ _ _ _ _ _ _ _ => ⟨rfl, rfl⟩⟩

end SystemBus

/-- A program on pages of 4 kB that cost seven cycles each, and on the bus of one page. -/
theorem layout_unobservable_tiled :
    Option.Rel (Machine.Alike (accordView _ (apart_simple (program [0xA9, 5])).respects) False)
      (runList Machine.step [.emulateInstruction, .interrupt 0]
        (switchedOn default (simple 24 (program [0xA9, 5])) {}))
      (runList Machine.step [.emulateInstruction, .interrupt 0]
        (switchedOn default (tiled 12 0x5000 7 (program [0xA9, 5]))
          { internalCycleTiming := 3 })) :=
  layout_unobservable _ default (sameView_tiled (by decide) 0x5000 7 _) rfl {} 3 (by
    intro i hi
    rcases List.mem_cons.mp hi with rfl | hi
    · trivial
    · rw [List.mem_singleton.mp hi]
      trivial)

end RetroCpu
