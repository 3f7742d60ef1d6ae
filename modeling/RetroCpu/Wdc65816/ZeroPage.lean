import RetroCpu.Wdc65816.Trace

/-!
# The zero page of the 6502

With D at zero an address in the zero page is one byte, and indexing it or stepping from the
low byte of a pointer to the high one goes round from `FF` to `00`.  The addressing templates
do so if they are given the flag `emulation`: `AddrDirectBase` then adds the index in 8 bits
and marks the address with bit 31, and the 16-bit read of a marked address stays in its page.

Five entries of the 6502 row, for `LAX` and `SAX`, are without the flag though they index or
follow a pointer.  `zeroPage_iff` says when these stay in the page all the same.
-/

namespace RetroCpu

open WordBytes Machine StateFn

/-- Zero page, zero page indexed by X or Y, `(zp,X)` and `(zp),Y`. -/
def AddrKind.isZeroPage : AddrKind → Bool
  | direct _ | directX _ | directY _ | directIndirectX _ | directIndirectY _ _ => true
  | _ => false

def AddrKind.isDirect : AddrKind → Bool
  | direct _ | directX _ | directY _ => true
  | _ => false

/-- The template was given the flag `emulation`. -/
def AddrKind.wraps : AddrKind → Bool
  | direct emulation | directX emulation | directY emulation | directIndirectX emulation
  | directIndirectY _ emulation => emulation
  | _ => false

/-- The register added to the operand byte before memory is accessed. -/
def AddrKind.offsetReg : AddrKind → Option Reg
  | directX _ | directIndirectX _ => some .x
  | directY _ => some .y
  | _ => none

/-- What is added to the operand byte. -/
def AddrKind.index (k : AddrKind) (c : Core) : Word := k.offsetReg.elim 0 c.reg

/-- The address in the zero page, modulo 256. -/
def AddrKind.zeroPage (k : AddrKind) (c : Core) (zp : Byte) : Byte := zp + lo (k.index c)

def Machine.operandByte {β : Type} [Bus β] (m : Machine β) : Byte :=
  (m.accesses.map (·.data)).getD 1 0

/-- What an instruction accesses in the zero page is at the addresses the mode has modulo
256: the operand itself, or the two bytes of the pointer to it. -/
def AddrKind.InZeroPage (k : AddrKind) (c : Core) (zp : Byte) (accesses : List BusAccess) :
    Prop :=
  match k with
  | direct _ | directX _ | directY _ =>
    ∀ a ∈ accesses, a.addr = (k.zeroPage c zp).setWidth 24
  | directIndirectX _ | directIndirectY _ _ => ∃ low high rest, accesses =
      .read ((k.zeroPage c zp).setWidth 24) low ::
        .read ((k.zeroPage c zp + 1).setWidth 24) high :: rest
  | _ => True

/-- The sum of the operand byte and the index, in 16 bits, is in the zero page, and so is the
byte after it if it is the address of a pointer. -/
def AddrKind.StaysInPage (k : AddrKind) (c : Core) (zp : Byte) : Prop :=
  match k with
  | directIndirectX _ | directIndirectY _ _ => zp.setWidth 16 + k.index c < 0xFF
  | _ => zp.setWidth 16 + k.index c < 0x100

/-! ### What the code adds -/

/-- The address the code computes, without bit 31. -/
def AddrKind.directAddr (k : AddrKind) (c : Core) (zp : Byte) : Word :=
  if k.wraps then (k.zeroPage c zp).setWidth 16 else zp.setWidth 16 + k.index c

/-- The address of the byte after it. -/
def AddrKind.directNext (k : AddrKind) (c : Core) (zp : Byte) : Word :=
  if k.wraps then (k.zeroPage c zp + 1).setWidth 16 else k.directAddr c zp + 1

theorem marked_byte : ∀ z : Byte, ((0x80000000 : CpuAddr) ||| z.setWidth 32) &&& 0xFFFF =
    z.setWidth 32 := by decide +kernel

theorem marked_bit : ∀ z : Byte, ((0x80000000 : CpuAddr) ||| z.setWidth 32) &&& 0x80000000 ≠ 0 := by
  decide +kernel

/-- The high byte of a pointer at a marked address. -/
theorem marked_next : ∀ z : Byte,
    ((((0x80000000 : CpuAddr) ||| z.setWidth 32) &&& 0xFFFF00) |||
      (((0x80000000 : CpuAddr) ||| z.setWidth 32) + 1 &&& 0xFF)) &&& 0xFFFF =
        (z + 1).setWidth 32 := by
  decide +kernel

theorem add_and_byteMask (r : Word) (z : Byte) :
    (r.setWidth 32 + z.setWidth 32 : CpuAddr) &&& 0xFF = (z + lo r).setWidth 32 := by
  have h : (0xFF : CpuAddr).toNat = 2 ^ 8 - 1 := by decide
  have hl := toNat_lo r
  apply BitVec.eq_of_toNat_eq
  rw [BitVec.toNat_and, h, Nat.and_two_pow_sub_one_eq_mod]
  simp only [BitVec.toNat_setWidth, BitVec.toNat_add, hl]
  omega

theorem add_and_wordMask (r : Word) (z : Byte) :
    (r.setWidth 32 + z.setWidth 32 : CpuAddr) &&& 0xFFFF =
      (z.setWidth 16 + r : Word).setWidth 32 := by
  rw [and_wordMask]
  congr 1
  bv_omega

theorem add_one_and_wordMask (r : Word) (z : Byte) :
    ((r.setWidth 32 + z.setWidth 32 : CpuAddr) + 1) &&& 0xFFFF =
      (z.setWidth 16 + r + 1 : Word).setWidth 32 := by
  rw [and_wordMask]
  congr 1
  bv_omega

variable {β : Type} [Bus β]

/-- The address computed for an offset register, with bit 31. -/
def Core.directValue (c : Core) (offsetReg : Option Reg) (emulation : Bool) (zp : Byte) : CpuAddr :=
  if emulation then 0x80000000 ||| (zp + lo (offsetReg.elim 0 c.reg)).setWidth 32
  else (offsetReg.elim 0 c.reg).setWidth 32 + zp.setWidth 32

theorem directValue_none (c : Core) (zp : Byte) :
    (0x80000000 : CpuAddr) ||| (0 + zp.setWidth 32) = c.directValue none true zp := by
  have h : zp + lo (0 : Word) = zp := BitVec.add_zero zp
  rw [Core.directValue, if_pos rfl, Option.elim_none, h]
  exact congrArg _ (BitVec.zero_add _)

theorem directValue_some (c : Core) (r : Reg) (zp : Byte) :
    (0x80000000 : CpuAddr) ||| 0 ||| ((c.reg r).setWidth 32 + zp.setWidth 32 &&& 0xFF) =
      c.directValue (some r) true zp := by
  rw [Core.directValue, if_pos rfl, Option.elim_some, add_and_byteMask]
  rfl

theorem core_readPBR {m : Machine β} {c : Core} (h : m.core = c) (s : Size) (addr : CpuAddr) :
    (readPBR s addr m).2.core = c := by
  cases s <;> exact h

theorem calcDirect_spec (offsetReg : Option Reg) (emulation : Bool) {m : Machine (Traced β)}
    (hd : m.core.d = 0) : ∃ addr zp,
      (AddrKind.calcDirect offsetReg emulation m).2.core = m.core ∧
      (AddrKind.calcDirect offsetReg emulation m).2.bus.trace =
        m.bus.trace ++ [.read addr zp] ∧
      (AddrKind.calcDirect offsetReg emulation m).1 =
        m.core.directValue offsetReg emulation zp := by
  have hlo : (lo (0 : Word) != 0) = false := by decide
  have hlo' : (lo (0 : Word) == 0) = true := by decide
  have hw : ((0 : Word).setWidth 32 : CpuAddr) = 0 := rfl
  refine ⟨(m.core.codeSegmentBase ||| ((m.core.ip + 1) &&& 0xFFFF)).setWidth 24, ?_⟩
  cases offsetReg with
  | none =>
    have hcore := core_readPBR (m := m) rfl .u8 (m.core.ip + 1)
    refine ⟨(readPBR .u8 (m.core.ip + 1) m).1, ?_⟩
    cases emulation with
    | true =>
      simp only [AddrKind.calcDirect, bind_apply, getCore, get_apply, Option.isSome, when_false,
        pure_apply, hcore, hd, hlo, hlo', Bool.true_and, if_true, hw, Bool.false_eq_true, if_false]
      exact ⟨trivial, rfl, directValue_none _ _⟩
    | false =>
      simp only [AddrKind.calcDirect, bind_apply, getCore, get_apply, Option.isSome, when_false,
        pure_apply, hcore, hd, hlo, hw, Bool.false_and, Bool.false_eq_true, if_false]
      exact ⟨trivial, rfl, BitVec.zero_add _⟩
  | some r =>
    have hip : (internalOp 1 m).2.core.ip = m.core.ip := rfl
    have hcore := core_readPBR (m := (internalOp 1 m).2) (c := m.core) rfl .u8 (m.core.ip + 1)
    refine ⟨(readPBR .u8 (m.core.ip + 1) (internalOp 1 m).2).1, ?_⟩
    cases emulation with
    | true =>
      simp only [AddrKind.calcDirect, bind_apply, getCore, get_apply, Option.isSome, when_false,
        when_true, hip, pure_apply, hcore, hd, hlo, hlo', Bool.true_and, if_true, hw]
      exact ⟨trivial, rfl, directValue_some _ _ _⟩
    | false =>
      simp only [AddrKind.calcDirect, bind_apply, getCore, get_apply, Option.isSome, when_false,
        when_true, hip, pure_apply, hcore, hd, hlo, hw, Bool.false_and, Bool.true_and,
        Bool.false_eq_true, if_false]
      -- The cycle for a sum above `FF` is all that depends on it.
      generalize decide (0xFF < m.core.offset (some r) + _) = b
      cases b <;> exact ⟨hcore, rfl, BitVec.zero_add _⟩

namespace AddrKind

theorem directValue_and (k : AddrKind) (c : Core) (zp : Byte) :
    c.directValue k.offsetReg k.wraps zp &&& 0xFFFF = (k.directAddr c zp).setWidth 32 := by
  rw [Core.directValue, directAddr]
  cases k.wraps with
  | true =>
    rw [if_pos rfl, if_pos rfl, marked_byte, BitVec.setWidth_setWidth (by decide)]
    rfl
  | false =>
    rw [if_neg Bool.false_ne_true, if_neg Bool.false_ne_true, add_and_wordMask]
    rfl

/-- A byte of the zero page, read. -/
theorem trace_readZero (addr : CpuAddr) (m : Machine (Traced β)) :
    (readZero .u8 addr m).2.bus.trace =
      m.bus.trace ++ [.read ((addr &&& 0xFFFF).setWidth 24) (readZero .u8 addr m).1] := rfl

theorem trace_writeZero (addr : CpuAddr) (v : Byte) (m : Machine (Traced β)) :
    (writeZero (s := .u8) addr v m).2.bus.trace =
      m.bus.trace ++ [.write ((addr &&& 0xFFFF).setWidth 24) v] := rfl

/-- A byte of the zero page, modified. -/
theorem trace_modifyZero {fn : Byte → Exec (Traced β) Byte} (hfn : ∀ v, Within KeepsBus 0 (fn v))
    (addr : CpuAddr) (m : Machine (Traced β)) :
    ((do let v ← fn (← readZero .u8 addr); writeZero (s := .u8) addr v : Exec (Traced β) Unit)
      m).2.bus.trace = m.bus.trace ++
        [.read ((addr &&& 0xFFFF).setWidth 24) (readZero .u8 addr m).1,
          .write ((addr &&& 0xFFFF).setWidth 24)
            (fn (readZero .u8 addr m).1 (readZero .u8 addr m).2).1] := by
  have hbus : (fn (readZero .u8 addr m).1 (readZero .u8 addr m).2).2.bus =
      (readZero .u8 addr m).2.bus := hfn _ _
  show (fn (readZero .u8 addr m).1 (readZero .u8 addr m).2).2.bus.trace ++ _ = _
  rw [hbus]
  exact List.append_assoc _ _ _

theorem readZero_next (k : AddrKind) (c : Core) (zp : Byte) (h : k.wraps = false) :
    (c.directValue k.offsetReg k.wraps zp + 1) &&& 0xFFFF = (k.directNext c zp).setWidth 32 := by
  rw [Core.directValue, directNext, directAddr, h, if_neg Bool.false_ne_true,
    if_neg Bool.false_ne_true, if_neg Bool.false_ne_true, add_one_and_wordMask]
  rfl

theorem setWidth_location (w : Word) :
    ((w.setWidth 32 : CpuAddr).setWidth 24 : BitVec 24) = w.setWidth 24 :=
  BitVec.setWidth_setWidth (by decide)

theorem setWidth_byte (z : Byte) :
    ((z.setWidth 16 : Word).setWidth 24 : BitVec 24) = z.setWidth 24 :=
  BitVec.setWidth_setWidth (by decide)

theorem trace_readLoHi (addr addr' : CpuAddr) (m : Machine (Traced β)) :
    (readLoHi addr addr' m).2.bus.trace = m.bus.trace ++
      [.read (addr.setWidth 24) (readU8 addr m).1,
        .read (addr'.setWidth 24) (readU8 addr' (readU8 addr m).2).1] :=
  List.append_assoc _ _ _

/-- Two bytes, each at its masked address. -/
theorem trace_readTwo {x : Exec (Traced β) Word} {addr next : CpuAddr} {w w' : Word}
    {m : Machine (Traced β)} (hw : addr &&& 0xFFFF = w.setWidth 32)
    (hw' : next &&& 0xFFFF = w'.setWidth 32)
    (hx : (x m).2 = (readLoHi (addr &&& 0xFFFF) (next &&& 0xFFFF) m).2) :
    ∃ low high, (x m).2.bus.trace =
      m.bus.trace ++ [.read (w.setWidth 24) low, .read (w'.setWidth 24) high] := by
  rw [hx, hw, hw', trace_readLoHi, setWidth_location, setWidth_location]
  exact ⟨_, _, rfl⟩

/-- The 16-bit read of a marked address. -/
theorem readZeroOp_marked {addr : CpuAddr} (h : addr &&& 0x80000000 ≠ 0)
    (m : Machine (Traced β)) : (readZeroOp true .u16 addr m).2 =
      (readLoHi (addr &&& 0xFFFF)
        (((addr &&& 0xFFFF00) ||| (addr + 1 &&& 0xFF)) &&& 0xFFFF) m).2 := by
  have hb : (true && addr &&& 0x80000000 != 0) = true := by simpa using h
  exact congrArg (fun x : Exec (Traced β) Word => (x m).2) (if_pos hb)

/-- The 16-bit read of a template without the flag. -/
theorem readZeroOp_false (addr : CpuAddr) (m : Machine (Traced β)) :
    (readZeroOp false .u16 addr m).2 =
      (readLoHi (addr &&& 0xFFFF) ((addr + 1) &&& 0xFFFF) m).2 := by
  have hz (a : CpuAddr) : 0 ||| a = a := BitVec.zero_or
  show (readLoHi (0 ||| _) (0 ||| _) m).2 = _
  rw [hz, hz]

/-- The two bytes of a pointer in the zero page. -/
theorem trace_readPointer (k : AddrKind) (c : Core) (zp : Byte) (m : Machine (Traced β)) :
    ∃ low high, (readZeroOp k.wraps .u16 (c.directValue k.offsetReg k.wraps zp) m).2.bus.trace =
      m.bus.trace ++ [.read ((k.directAddr c zp).setWidth 24) low,
        .read ((k.directNext c zp).setWidth 24) high] := by
  have hlow := k.directValue_and c zp
  cases hk : k.wraps with
  | true =>
    have hbit := marked_bit (k.zeroPage c zp)
    have hnext := marked_next (k.zeroPage c zp)
    have hval : c.directValue k.offsetReg true zp =
      0x80000000 ||| (k.zeroPage c zp).setWidth 32 := if_pos rfl
    have hn : k.directNext c zp = (k.zeroPage c zp + 1).setWidth 16 := by
      rw [directNext, hk, if_pos rfl]
    rw [hk, hval] at hlow
    rw [hval]
    refine trace_readTwo hlow ?_ (readZeroOp_marked hbit m)
    rw [hnext, hn, BitVec.setWidth_setWidth (by decide)]
  | false =>
    have hnext := k.readZero_next c zp hk
    rw [hk] at hlow hnext
    exact trace_readTwo hlow hnext (readZeroOp_false _ m)

theorem access_of_isDirect {k : AddrKind} (hk : k.isDirect = true) :
    k.access = .zero k.wraps := by
  cases k with
  | direct | directX | directY => rfl
  | _ => exact absurd hk nofun

theorem calc_of_isDirect {k : AddrKind} (hk : k.isDirect = true) :
    k.calcEffectiveAddress (β := β) = calcDirect k.offsetReg k.wraps := by
  cases k with
  | direct | directX | directY => rfl
  | _ => exact absurd hk nofun

/-- The rest of the computation of an address from a pointer is done in the CPU. -/
theorem bus_calcPointer {k : AddrKind} (hk : k.isZeroPage = true) (hk' : k.isDirect = false)
    (m : Machine β) : (k.calcEffectiveAddress m).2.bus =
      (readZeroOp k.wraps .u16 (calcDirect k.offsetReg k.wraps m).1
        (calcDirect k.offsetReg k.wraps m).2).2.bus := by
  have hB := graded_keepsBus (β := β)
  cases k with
  | directIndirectX emulation => rfl
  | directIndirectY check emulation =>
    exact bus_bind (x := readZeroOp emulation .u16 _) (fun ret : Word =>
      hB.bind (keepsBus_getCore _) fun _ => hB.bind (keepsBus_getCore _) fun _ =>
        hB.bind (hB.when fun _ => keepsBus_internalOp 1) fun _ =>
        hB.bind (keepsBus_getCore _) fun _ => hB.pure _) (calcDirect none emulation m).2
  | direct | directX | directY => exact absurd hk' nofun
  | _ => exact absurd hk nofun

end AddrKind

/-- A byte in bank 0: nothing is accessed but that byte once its address is computed. -/
theorem AddrMode.Accesses.trace_zero {am : AddrMode} {s : Size} {x : Exec (Traced β) Unit}
    (h : am.Accesses s x) (hs : s = .u8) {emulation : Bool}
    (hacc : am.kind.access = .zero emulation) (m : Machine (Traced β)) :
    ∃ rest, (x m).2.bus.trace = (am.kind.calcEffectiveAddress m).2.bus.trace ++ rest ∧
      rest ≠ [] ∧ ∀ a ∈ rest,
        a.addr = ((am.kind.calcEffectiveAddress m).1 &&& 0xFFFF).setWidth 24 := by
  obtain ⟨A, XY, k⟩ := am
  cases h with
  | read himm =>
    subst hs
    unfold AddrMode.read
    rw [hacc]
    refine ⟨_, AddrKind.trace_readZero _ _, nofun, fun a ha => ?_⟩
    rw [List.mem_singleton.mp ha]
    rfl
  | write himm v =>
    subst hs
    unfold AddrMode.write
    rw [hacc]
    refine ⟨_, AddrKind.trace_writeZero _ v _, nofun, fun a ha => ?_⟩
    rw [List.mem_singleton.mp ha]
    rfl
  | @modify _ fn hfn =>
    obtain rfl : A = .u8 := hs
    unfold AddrMode.modify
    rw [hacc]
    refine ⟨_, AddrKind.trace_modifyZero hfn _ _, nofun, fun a ha => ?_⟩
    rcases List.mem_cons.mp ha with rfl | ha
    · rfl
    · rw [List.mem_singleton.mp ha]
      rfl

/-- An operand in the zero page: the operand byte is read, and then nothing but the operand
is accessed. -/
theorem AddrMode.Accesses.trace_direct {am : AddrMode} {s : Size} {x : Exec (Traced β) Unit}
    (h : am.Accesses s x) (hs : s = .u8) (hk : am.kind.isDirect = true)
    {m : Machine (Traced β)} (hd : m.core.d = 0) :
    ∃ addr zp rest, (x m).2.bus.trace = m.bus.trace ++ .read addr zp :: rest ∧ rest ≠ [] ∧
      ∀ a ∈ rest, a.addr = (am.kind.directAddr m.core zp).setWidth 24 := by
  obtain ⟨addr, zp, -, htrace, hval⟩ := calcDirect_spec am.kind.offsetReg am.kind.wraps hd
  obtain ⟨rest, hx, hne, hrest⟩ := h.trace_zero hs (AddrKind.access_of_isDirect hk) m
  rw [AddrKind.calc_of_isDirect hk] at hx hrest
  refine ⟨addr, zp, rest, ?_, hne, fun a ha => ?_⟩
  · rw [hx, htrace, List.append_assoc]
    rfl
  · rw [hrest a ha, hval, am.kind.directValue_and, AddrKind.setWidth_location]

/-- A pointer in the zero page: the operand byte is read, and then the two bytes of the
pointer. -/
theorem AddrMode.Accesses.trace_pointer {am : AddrMode} {s : Size} {x : Exec (Traced β) Unit}
    (h : am.Accesses s x) (hk : am.kind.isZeroPage = true) (hk' : am.kind.isDirect = false)
    {m : Machine (Traced β)} (hd : m.core.d = 0) :
    ∃ addr zp low high rest, (x m).2.bus.trace = m.bus.trace ++ .read addr zp ::
      .read ((am.kind.directAddr m.core zp).setWidth 24) low ::
        .read ((am.kind.directNext m.core zp).setWidth 24) high :: rest := by
  obtain ⟨addr, zp, -, htrace, hval⟩ := calcDirect_spec am.kind.offsetReg am.kind.wraps hd
  obtain ⟨low, high, hp⟩ := am.kind.trace_readPointer m.core zp
    (AddrKind.calcDirect am.kind.offsetReg am.kind.wraps m).2
  have hcalc := AddrKind.bus_calcPointer hk hk' m
  obtain ⟨rest, hrest⟩ := h.trace_prefix (fun ha => by rw [ha] at hk; exact absurd hk nofun)
    (fun e he => by rw [he] at hk; exact absurd hk nofun) m
  refine ⟨addr, zp, low, high, rest, ?_⟩
  rw [← hrest, hcalc, hval, hp, htrace]
  simp only [List.append_assoc, List.cons_append, List.nil_append]

/-! ### When the sums stay in the page -/

theorem toNat_sum (zp : Byte) (w : Word) :
    (zp.setWidth 16 + w : Word).toNat = (zp.toNat + w.toNat) % 65536 ∧
      (zp + lo w).toNat = (zp.toNat + w.toNat) % 256 := by
  have hl := toNat_lo w
  have hz := zp.isLt
  constructor
  · rw [BitVec.toNat_add, BitVec.toNat_setWidth]
    omega
  · rw [BitVec.toNat_add, hl]
    omega

/-- The sum of 16 bits is that of 8 bits, where it is in the page. -/
theorem sum_eq_iff (zp : Byte) (w : Word) :
    ((zp.setWidth 16 + w : Word).setWidth 24 : BitVec 24) = (zp + lo w).setWidth 24 ↔
      zp.setWidth 16 + w < (0x100 : Word) := by
  obtain ⟨h16, h8⟩ := toNat_sum zp w
  have hc : (0x100 : Word).toNat = 256 := rfl
  rw [← BitVec.toNat_inj, BitVec.lt_def, BitVec.toNat_setWidth, BitVec.toNat_setWidth, h16, h8, hc]
  omega

/-- A pointer of which both bytes are where the 8-bit sums are. -/
theorem pointer_eq_iff (zp : Byte) (w : Word) :
    ((zp.setWidth 16 + w : Word).setWidth 24 : BitVec 24) = (zp + lo w).setWidth 24 ∧
      ((zp.setWidth 16 + w + 1 : Word).setWidth 24 : BitVec 24) = (zp + lo w + 1).setWidth 24 ↔
      zp.setWidth 16 + w < (0xFF : Word) := by
  obtain ⟨h16, h8⟩ := toNat_sum zp w
  have hc : (0x100 : Word).toNat = 256 := rfl
  have hc' : (0xFF : Word).toNat = 255 := rfl
  have h1 : (1 : Word).toNat = 1 := rfl
  have h1' : (1 : Byte).toNat = 1 := rfl
  rw [sum_eq_iff, ← BitVec.toNat_inj, BitVec.lt_def, BitVec.lt_def, BitVec.toNat_setWidth,
    BitVec.toNat_setWidth, BitVec.toNat_add _ (1 : Word), BitVec.toNat_add _ (1 : Byte), h16, h8,
    hc, hc', h1, h1']
  omega

namespace AddrKind

theorem inZeroPage_direct_iff {k : AddrKind} (hk : k.isDirect = true) {c : Core} {zp : Byte}
    {rest : List BusAccess} (hne : rest ≠ [])
    (hrest : ∀ a ∈ rest, a.addr = (k.directAddr c zp).setWidth 24) :
    k.InZeroPage c zp rest ↔ k.wraps = true ∨ k.StaysInPage c zp := by
  have hin : k.InZeroPage c zp rest ↔
      ((k.directAddr c zp).setWidth 24 : BitVec 24) = (k.zeroPage c zp).setWidth 24 := by
    have hall : k.InZeroPage c zp rest ↔
        ∀ a ∈ rest, a.addr = (k.zeroPage c zp).setWidth 24 := by
      cases k with
      | direct | directX | directY => rfl
      | _ => exact absurd hk nofun
    rw [hall]
    obtain ⟨a, l, rfl⟩ := List.exists_cons_of_ne_nil hne
    have ha := hrest a (List.mem_cons_self ..)
    exact ⟨fun h => ha.symm.trans (h a (List.mem_cons_self ..)),
      fun h b hb => (hrest b hb).trans h⟩
  have hstays : k.StaysInPage c zp ↔ zp.setWidth 16 + k.index c < (0x100 : Word) := by
    cases k with
    | direct | directX | directY => rfl
    | _ => exact absurd hk nofun
  rw [hin, hstays, directAddr]
  cases k.wraps with
  | true => simp only [if_true, setWidth_byte, true_or]
  | false =>
    rw [if_neg Bool.false_ne_true, zeroPage, sum_eq_iff]
    simp only [Bool.false_eq_true, false_or]

theorem inZeroPage_pointer_iff {k : AddrKind} (hk : k.isZeroPage = true)
    (hk' : k.isDirect = false) {c : Core} {zp low high : Byte} {rest : List BusAccess} :
    k.InZeroPage c zp (.read ((k.directAddr c zp).setWidth 24) low ::
      .read ((k.directNext c zp).setWidth 24) high :: rest) ↔
        k.wraps = true ∨ k.StaysInPage c zp := by
  have hin : k.InZeroPage c zp (.read ((k.directAddr c zp).setWidth 24) low ::
      .read ((k.directNext c zp).setWidth 24) high :: rest) ↔
        ((k.directAddr c zp).setWidth 24 : BitVec 24) = (k.zeroPage c zp).setWidth 24 ∧
          ((k.directNext c zp).setWidth 24 : BitVec 24) = (k.zeroPage c zp + 1).setWidth 24 := by
    have hall : ∀ l, k.InZeroPage c zp l ↔ ∃ low high rest, l =
        .read ((k.zeroPage c zp).setWidth 24) low ::
          .read ((k.zeroPage c zp + 1).setWidth 24) high :: rest := by
      intro l
      cases k with
      | directIndirectX | directIndirectY => rfl
      | direct | directX | directY => exact absurd hk' nofun
      | _ => exact absurd hk nofun
    rw [hall]
    constructor
    · rintro ⟨low', high', rest', he⟩
      obtain ⟨hlow, he⟩ := List.cons.inj he
      obtain ⟨hhigh, -⟩ := List.cons.inj he
      exact ⟨(BusAccess.read.inj hlow).1, (BusAccess.read.inj hhigh).1⟩
    · rintro ⟨hlow, hhigh⟩
      rw [hlow, hhigh]
      exact ⟨_, _, _, rfl⟩
  have hstays : k.StaysInPage c zp ↔ zp.setWidth 16 + k.index c < (0xFF : Word) := by
    cases k with
    | directIndirectX | directIndirectY => rfl
    | direct | directX | directY => exact absurd hk' nofun
    | _ => exact absurd hk nofun
  rw [hin, hstays, directNext, directAddr]
  cases k.wraps with
  | true => simp only [if_true, setWidth_byte, true_or, and_self]
  | false =>
    rw [if_neg Bool.false_ne_true, if_neg Bool.false_ne_true, zeroPage, pointer_eq_iff]
    simp only [Bool.false_eq_true, false_or]

theorem directAddr_setA (k : AddrKind) (c : Core) (a : Word) (zp : Byte) :
    k.directAddr { c with a := a } zp = k.directAddr c zp := by
  cases k <;> rfl

theorem directNext_setA (k : AddrKind) (c : Core) (a : Word) (zp : Byte) :
    k.directNext { c with a := a } zp = k.directNext c zp := by
  cases k <;> rfl

end AddrKind

/-! ### The 6502 row -/

/-- The entries without the flag: `SAX (zp,X)`, `SAX zp,Y`, `LAX (zp,X)`, `LAX (zp),Y` and
`LAX zp,Y`. -/
def unflaggedOpcodes : List Byte := [0x83, 0x97, 0xA3, 0xB3, 0xB7]

/-- An entry with an operand in the zero page has an 8-bit operand, and the flag unless it is
one of the five or has nothing to add. -/
def Op.zeroPageEntry (opcode : Byte) (op : Op) : Bool :=
  op.operand.all fun (am, s) => !am.kind.isZeroPage ||
    (s = .u8 && if opcode ∈ unflaggedOpcodes then !am.kind.wraps
      else am.kind.wraps || am.kind = .direct false)

theorem zeroPageEntry_row : ∀ opcode : Byte,
    ((execOps .native6502).at opcode).all (Op.zeroPageEntry opcode) = true := by
  decide +kernel

/-- What the next instruction accesses is its opcode, its operand byte, and the rest, which is
in the zero page if the entry has the flag or the sums stay in the page. -/
theorem accesses_zeroPage {m : Machine β} {op : Op} {am : AddrMode} (hd : m.core.d = 0)
    (hop : m.handler = some op) (hw : op.wellSized = true) (ham : op.operand = some (am, .u8))
    (hk : am.kind.isZeroPage = true) : ∃ first addr zp rest,
      m.accesses = first :: .read addr zp :: rest ∧
        (am.kind.InZeroPage m.core zp rest ↔
          am.kind.wraps = true ∨ am.kind.StaysInPage m.core zp) := by
  obtain ⟨a, x, hx, hbus⟩ := Op.exec_operand hw ham (fetch m.traced).2
  have hacc : m.accesses =
      (x { (fetch m.traced).2 with core := { m.core with a := a } }).2.bus.trace := by
    rw [accesses_eq hop, hbus]
    rfl
  cases hdir : am.kind.isDirect with
  | true =>
    obtain ⟨addr, zp, rest, htrace, hne, hrest⟩ := hx.trace_direct rfl hdir
      (m := { (fetch m.traced).2 with core := { m.core with a := a } }) hd
    refine ⟨_, addr, zp, rest, hacc.trans htrace, ?_⟩
    refine AddrKind.inZeroPage_direct_iff hdir hne fun b hb => ?_
    rw [hrest b hb, am.kind.directAddr_setA]
  | false =>
    obtain ⟨addr, zp, low, high, rest, htrace⟩ := hx.trace_pointer hk hdir
      (m := { (fetch m.traced).2 with core := { m.core with a := a } }) hd
    rw [am.kind.directAddr_setA, am.kind.directNext_setA] at htrace
    exact ⟨_, addr, zp, _, hacc.trans htrace, AddrKind.inZeroPage_pointer_iff hk hdir⟩

/-- **What an instruction of the 6502 accesses in the zero page is there, modulo 256, unless it
is one of five entries for `LAX` and `SAX` and the sum of the operand byte and the index, or
the high byte of the pointer, is past the page.** -/
theorem inZeroPage_iff {m : Machine β} {op : Op} {am : AddrMode} {s : Size}
    (hmode : m.core.mode = .native6502)
    (hrow : m.core.currentInstructionSet = execOps m.core.mode) (hd : m.core.d = 0)
    (hop : m.handler = some op) (ham : op.operand = some (am, s))
    (hk : am.kind.isZeroPage = true) :
    am.kind.InZeroPage m.core m.operandByte (m.accesses.drop 2) ↔
      (fetch m).1 ∉ unflaggedOpcodes ∨ am.kind.StaysInPage m.core m.operandByte := by
  rw [hmode] at hrow
  have hat : (execOps .native6502).at (fetch m).1 = some op := by
    rw [← hrow]
    exact hop
  have hentry : Op.zeroPageEntry (fetch m).1 op = true := by
    have h := zeroPageEntry_row (fetch m).1
    rw [hat] at h
    exact h
  have hw : op.wellSized = true :=
    List.all_eq_true.mp (Op.wellSized_row .native6502) _ (InstructionSet.mem_of_at hat)
  simp only [Op.zeroPageEntry, ham, Option.all_some, hk, Bool.not_true, Bool.false_or,
    Bool.and_eq_true, decide_eq_true_eq] at hentry
  obtain ⟨rfl, hflag⟩ := hentry
  obtain ⟨first, addr, zp, rest, hacc, hiff⟩ := accesses_zeroPage hd hop hw ham hk
  have hzp : m.operandByte = zp := by rw [operandByte, hacc]; rfl
  have hdrop : m.accesses.drop 2 = rest := by rw [hacc]; rfl
  rw [hzp, hdrop, hiff]
  by_cases hmem : (fetch m).1 ∈ unflaggedOpcodes
  · rw [if_pos hmem, Bool.not_eq_true'] at hflag
    simp only [hflag, hmem, Bool.false_eq_true, false_or, not_true]
  · rw [if_neg hmem, Bool.or_eq_true, decide_eq_true_eq] at hflag
    refine iff_of_true ?_ (Or.inl hmem)
    rcases hflag with hflag | hflag
    · exact Or.inl hflag
    · -- Nothing is added to the operand byte.
      refine Or.inr ?_
      rw [hflag]
      show zp.setWidth 16 + 0 < (0x100 : Word)
      bv_omega

/-- `LDX #$90` and `LDA $80,X`, which has the flag. -/
theorem inZeroPage_lda : ∃ m,
    (powerOn (nes [0xA2, 0x90, 0xB5, 0x80])).2.emulateInstruction = some m ∧
      m.accesses.map (·.addr) = [0x000202, 0x000203, 0x000010] ∧
      (AddrKind.directX true).InZeroPage m.core m.operandByte (m.accesses.drop 2) := by
  have hs : (powerOn (nes [0xA2, 0x90, 0xB5, 0x80])).2.emulateInstruction.map (fun m =>
      (((m.core.mode, m.core.d), m.handler, (fetch m).1), m.core.currentInstructionSet,
        m.accesses.map (·.addr))) =
      some (((.native6502, 0), some (.lda (addrDirectX .u8 .u8 true)), 0xB5), execOps .native6502,
        [0x000202, 0x000203, 0x000010]) := by decide +kernel
  obtain ⟨m, hm, hx⟩ := Option.map_eq_some_iff.mp hs
  simp only [Prod.mk.injEq] at hx
  obtain ⟨⟨⟨hmode, hd⟩, hop, hcode⟩, hrow, haddr⟩ := hx
  rw [← hmode] at hrow
  refine ⟨m, hm, haddr, (inZeroPage_iff hmode hrow hd hop rfl rfl).mpr (Or.inl ?_)⟩
  rw [hcode]
  decide

/-- `LDY #$90` and `LAX $80,Y`, which reads `0110` and not `0010`. -/
theorem not_inZeroPage_lax : ∃ m,
    (powerOn (nes [0xA0, 0x90, 0xB7, 0x80])).2.emulateInstruction = some m ∧
      m.core.mode = .native6502 ∧ m.core.d = 0 ∧
      m.handler = some (.lax (addrDirectY .u8 .u8)) ∧
      m.accesses.map (·.addr) = [0x000202, 0x000203, 0x000110] ∧
      ¬(AddrKind.directY false).InZeroPage m.core m.operandByte (m.accesses.drop 2) := by
  have hs : (powerOn (nes [0xA0, 0x90, 0xB7, 0x80])).2.emulateInstruction.map (fun m =>
      (((m.core.mode, m.core.d, m.handler), m.operandByte, m.core.y), m.accesses.map (·.addr))) =
      some (((.native6502, 0, some (.lax (addrDirectY .u8 .u8))), 0x80, 0x90),
        [0x000202, 0x000203, 0x000110]) := by decide +kernel
  obtain ⟨m, hm, hx⟩ := Option.map_eq_some_iff.mp hs
  simp only [Prod.mk.injEq] at hx
  obtain ⟨⟨⟨hmode, hd, hop⟩, hzp, hy⟩, haddr⟩ := hx
  refine ⟨m, hm, hmode, hd, hop, haddr, fun h => ?_⟩
  have hdrop : (m.accesses.drop 2).map (·.addr) = [0x000110] := by
    rw [List.map_drop, haddr]
    rfl
  obtain ⟨a, ha, haddr'⟩ : ∃ a ∈ m.accesses.drop 2, a.addr = 0x000110 :=
    List.mem_map.mp (hdrop ▸ List.mem_cons_self ..)
  have hz : (AddrKind.directY false).zeroPage m.core m.operandByte = 0x10 := by
    rw [hzp]
    show 0x80 + lo m.core.y = 0x10
    rw [hy]
    decide
  have hcontra := haddr'.symm.trans (h a ha)
  rw [hz] at hcontra
  exact absurd hcontra (by decide)

end RetroCpu
