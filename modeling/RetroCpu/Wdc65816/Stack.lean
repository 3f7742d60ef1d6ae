import RetroCpu.Lib.RingStack
import RetroCpu.Wdc65816.Coherence

/-!
# The stack as a ring of bytes

In native mode the stack is a ring of 65536 bytes, bank 0, and in emulation mode one
of 256 bytes, page 1.  `StackView` is what the two have in common, and the lemmas on
`Push`, `PopOld` and `Pop` are about any view.

`Pop` computes the address of the byte above SP without the page wrap, so in the
page view it reads the right byte only if `popFits`: SP is not at the end of the
page.

The assertion `At V ram base c vs` says that the CPU's own state is `c` and that the bytes
`vs` are on the stack.  The lemmas pass it through a `do` block line by line.
-/

namespace RetroCpu

open WordBytes Machine StateFn

/-- The part of the CPU's own state that the stack rules depend on. -/
def Core.control (c : Core) : Bool × Bool × Bool × Bool × Mode × InstructionSet × Word :=
  (c.modeNative6502, c.modeEmulation, c.modeLongA, c.modeLongXy, c.mode,
    c.currentInstructionSet, c.sp)

/-- How a mode uses the stack. -/
structure StackView (w : ℕ) where
  emulation : Bool
  /-- SP is where the mode keeps it. -/
  page : Word → Prop
  /-- The cell SP points to. -/
  pos : Word → BitVec w
  addr : BitVec w → CpuAddr
  /-- `Pop` reads the cell above SP. -/
  popFits : Word → Prop
  pos_inj : ∀ {sp sp'}, page sp → page sp' → pos sp = pos sp' → sp = sp'
  addr_inj : ∀ {a b}, addr a = addr b → a = b
  addr_pos : ∀ {sp}, page sp → sp.setWidth 32 &&& 0xFFFF = addr (pos sp)
  addr_pop : ∀ {sp}, page sp → popFits sp →
    (sp.setWidth 32 + 1) &&& 0xFFFF = addr (pos sp + 1)
  dec : ∀ {sp}, page sp →
    let sp' := if emulation then setLo sp (lo sp - 1) else sp - 1
    page sp' ∧ pos sp' = pos sp - 1
  inc : ∀ {sp}, page sp →
    let sp' := if emulation then setLo sp (lo sp + 1) else sp + 1
    page sp' ∧ pos sp' = pos sp + 1

namespace StackView

def native : StackView 16 where
  emulation := false
  page _ := True
  pos sp := sp
  addr a := a.setWidth 32
  popFits _ := True
  pos_inj _ _ h := h
  addr_inj h := by bv_omega
  addr_pos _ := setWidth_and_wordMask _
  addr_pop _ _ := by
    rw [and_wordMask]
    congr 1
    bv_omega
  dec _ := ⟨trivial, rfl⟩
  inc _ := ⟨trivial, rfl⟩

def page1 : StackView 8 where
  emulation := true
  page sp := hi sp = 1
  pos sp := lo sp
  addr b := ((1 : Byte) ++ b).setWidth 32
  popFits sp := lo sp ≠ 0xFF
  pos_inj {sp sp'} h h' hpos := by
    rw [← hi_append_lo sp, ← hi_append_lo sp', h, h', hpos]
  addr_inj {a b} h := by
    have h' : (1 : Byte) ++ a = (1 : Byte) ++ b := by bv_omega
    rw [← lo_append 1 a, h', lo_append]
  addr_pos {sp} h := by
    rw [setWidth_and_wordMask, ← h, hi_append_lo]
  addr_pop {sp} h hf := by
    have hhi := toNat_hi sp
    have hlo := toNat_lo sp
    have h1 : (1 : Byte).toNat = 1 := rfl
    have hne : (lo sp).toNat ≠ 255 := fun e => hf (BitVec.eq_of_toNat_eq e)
    have hlt := (lo sp).isLt
    rw [h, h1] at hhi
    have hs : (sp.setWidth 32 + 1 : CpuAddr).setWidth 16 = (1 : Byte) ++ (lo sp + 1) := by
      apply BitVec.eq_of_toNat_eq
      rw [toNat_append, h1, BitVec.toNat_add]
      bv_omega
    rw [and_wordMask, hs]
  dec h := ⟨(hi_setLo _ _).trans h, lo_setLo _ _⟩
  inc h := ⟨(hi_setLo _ _).trans h, lo_setLo _ _⟩

variable {w : ℕ} (V : StackView w)

/-- The CPU is in the mode of the view and its SP in the view's page. -/
structure Good (c : Core) : Prop where
  coherent : c.Coherent
  modeEmulation : c.modeEmulation = V.emulation
  page : V.page c.sp

/-- A change that leaves SP and the emulation bit alone. -/
structure Keeps (c c' : Core) : Prop where
  coherent : c'.Coherent
  modeEmulation : c'.modeEmulation = c.modeEmulation
  sp : c'.sp = c.sp

variable {V}

theorem Keeps.of_control {c c' : Core} (hc : c.Coherent) (h : c'.control = c.control) :
    Keeps c c' := by
  simp only [Core.control, Prod.mk.injEq] at h
  obtain ⟨h6, he, ha, hx, hm, hi, hs⟩ := h
  refine ⟨⟨?_, ?_, ?_, ?_⟩, he, hs⟩
  · rw [h6, he]
    exact hc.native6502
  · rw [he, ha, hx]
    exact hc.emulation
  · rw [hm, h6, he, ha, hx]
    exact hc.mode
  · rw [hi, hm]
    exact hc.instructionSet

theorem keeps_setStatusRegister {c : Core} (hc : c.Coherent) (v : Byte) :
    Keeps c (c.setStatusRegister v) where
  coherent := Core.coherent_setStatusRegister hc v
  modeEmulation := Core.modeEmulation_setStatusRegister hc v
  sp := by
    rw [Core.setStatusRegister_eq hc]
    rfl

theorem Good.keeps {c c' : Core} (h : V.Good c) (hk : Keeps c c') : V.Good c' where
  coherent := hk.coherent
  modeEmulation := hk.modeEmulation.trans h.modeEmulation
  page := hk.sp ▸ h.page

theorem Good.decSp {c : Core} (h : V.Good c) :
    V.Good c.decSp ∧ V.pos c.decSp.sp = V.pos c.sp - 1 := by
  obtain ⟨hp, hpos⟩ := V.dec h.page
  rw [← h.modeEmulation] at hp hpos
  exact ⟨⟨h.coherent.decSp, h.modeEmulation, hp⟩, hpos⟩

theorem Good.incSp {c : Core} (h : V.Good c) :
    V.Good c.incSp ∧ V.pos c.incSp.sp = V.pos c.sp + 1 := by
  obtain ⟨hp, hpos⟩ := V.inc h.page
  rw [← h.modeEmulation] at hp hpos
  exact ⟨⟨h.coherent.incSp, h.modeEmulation, hp⟩, hpos⟩

end StackView

/-! ### Assertions about the machine -/

variable {β : Type} [Bus β] {R : CpuAddr → Prop} {w : ℕ}

/-- A cell of the view is plain memory and holds the byte. -/
def StackView.slot (V : StackView w) (ram : PlainRam β R) (b : β) (a : BitVec w)
    (v : Byte) : Prop :=
  R (V.addr a) ∧ ram.peek b (V.addr a) = v

/-- The CPU's own state is `c` and the bytes `vs` are on its stack, up to the cell `base`. -/
structure Machine.At (V : StackView w) (ram : PlainRam β R) (base : BitVec w) (c : Core)
    (vs : List Byte) (m : Machine β) : Prop where
  core : m.core = c
  ok : ram.ok m.bus
  good : V.Good c
  holds : Holds (V.slot ram m.bus) (V.pos c.sp) vs
  base : V.pos c.sp + BitVec.ofNat w vs.length = base

/-- Nothing but the clock and memory outside `R` has changed. -/
structure Machine.Quiet (ram : PlainRam β R) (m m' : Machine β) : Prop where
  core : m'.core = m.core
  ok : ram.ok m.bus → ram.ok m'.bus
  peek : ram.ok m.bus → ∀ a, R a → ram.peek m'.bus a = ram.peek m.bus a

variable {ram : PlainRam β R} {V : StackView w}

theorem graded_quiet : Graded (fun _ => Quiet ram) where
  refl _ := ⟨rfl, id, fun _ _ _ => rfl⟩
  trans h h' := ⟨h'.core.trans h.core, fun hb => h'.ok (h.ok hb),
    fun hb a ha => (h'.peek (h.ok hb) a ha).trans (h.peek hb a ha)⟩
  mono _ h := h

theorem Machine.At.quiet {base : BitVec w} {c : Core} {vs : List Byte} {m m' : Machine β}
    (h : At V ram base c vs m) (hq : Quiet ram m m') : At V ram base c vs m' where
  core := hq.core.trans h.core
  ok := hq.ok h.ok
  good := h.good
  holds := h.holds.mono fun _ _ hv => ⟨hv.1, (hq.peek h.ok _ hv.1).trans hv.2⟩
  base := h.base

theorem Machine.At.of_core {base : BitVec w} {c : Core} {vs : List Byte} {m : Machine β}
    (h : At V ram base c vs m) : At V ram base m.core vs m := by
  rw [h.core]
  exact h

/-- Where SP is follows from how much is on the stack. -/
theorem Machine.At.sp_eq {base : BitVec w} {c c' : Core} {vs vs' : List Byte} {m m' : Machine β}
    (h : At V ram base c vs m) (h' : At V ram base c' vs' m') (hlen : vs'.length = vs.length) :
    c'.sp = c.sp := by
  refine V.pos_inj h'.good.page h.good.page ?_
  have hbase := h'.base.trans h.base.symm
  rw [hlen] at hbase
  exact (BitVec.add_left_inj _).mp hbase

/-! ### Reads -/

abbrev Machine.IsQuiet (ram : PlainRam β R) {α : Type} (x : Exec β α) : Prop :=
  Within (fun _ => Quiet ram) 0 x

theorem quiet_getCore {α : Type} (g : Core → α) : IsQuiet ram (getCore g) := graded_quiet.get _

theorem quiet_readU8 (addr : CpuAddr) : IsQuiet ram (readU8 addr) :=
  fun _ => ⟨rfl, fun hb => ram.invariant.read hb _ _, fun hb a ha => ram.peek_read hb _ _ a ha⟩

theorem quiet_internalOp (n : BitVec 32) : IsQuiet ram (internalOp n) :=
  fun _ => ⟨rfl, id, fun _ _ _ => rfl⟩

/-- A course without writes and changes of the CPU. -/
theorem quiet_of_course {α : Type} {n : ℕ} {x : Exec β α} (h : Within (Course .quiet) n x) :
    IsQuiet ram x :=
  fun m => Course.related (A := .quiet) (R := fun _ => Quiet ram) graded_quiet
    (fun _ _ => False.elim) (fun m n => quiet_internalOp n m) (fun m addr => quiet_readU8 addr m)
    False.elim False.elim (h m)

/-- The address `ReadPBR` reads. -/
def Core.codeAddr (c : Core) (addr : CpuAddr) : CpuAddr := c.codeSegmentBase ||| (addr &&& 0xFFFF)

/-- A byte of the code, after the opcode has been read. -/
theorem readPBR_fetch {m : Machine β} (hok : ram.ok m.bus) {addr : CpuAddr}
    (hR : R (m.core.codeAddr addr)) :
    (readPBR .u8 addr (fetch m).2).1 = ram.peek m.bus (m.core.codeAddr addr) := by
  have hq : Quiet ram m (fetch m).2 :=
    graded_quiet.bind (quiet_getCore _) (fun _ => quiet_readU8 _) m
  rw [← hq.peek hok _ hR]
  exact ram.read_data (hq.ok hok) _ _ hR

theorem quiet_fetch : IsQuiet ram fetch := quiet_of_course course_fetch

theorem quiet_jmpAddr (addr : JmpAddr) : IsQuiet ram addr.calcEffectiveAddress :=
  quiet_of_course addr.course_calcEffectiveAddress

/-! ### The assertion through a `do` block -/

variable {base : BitVec w} {c : Core} {vs : List Byte} {α γ : Type} {Q : γ → Machine β → Prop}

theorem triple_quiet {x : Exec β α} (hx : IsQuiet ram x) :
    Triple (At V ram base c vs) x fun _ => At V ram base c vs :=
  fun m hm => hm.quiet (hx m)

theorem triple_keeps {g : Core → Core} (hk : c.Coherent → StackView.Keeps c (g c)) :
    Triple (At V ram base c vs) (update g) fun _ => At V ram base (g c) vs := by
  intro m hm
  have hcore : (update g m).2.core = g c := congrArg g hm.core
  have hk' := hk hm.good.coherent
  refine ⟨hcore, hm.ok, hm.good.keeps hk', ?_, ?_⟩
  · rw [hk'.sp]
    exact hm.holds
  · rw [hk'.sp]
    exact hm.base

/-- A line that writes flags or registers other than SP. -/
theorem triple_update {g : Core → Core} (h : (g c).control = c.control) :
    Triple (At V ram base c vs) (update g) fun _ => At V ram base (g c) vs :=
  triple_keeps fun hc => .of_control hc h

/-- A line that reads the CPU's own state. -/
theorem bind_getCore (g : Core → α) {f : α → Exec β γ}
    (hf : Triple (At V ram base c vs) (f (g c)) Q) :
    Triple (At V ram base c vs) (getCore g >>= f) Q := by
  intro m hm
  show Q (f (g m.core) m).1 (f (g m.core) m).2
  rw [hm.core]
  exact hf m hm

/-! ### Pushes and pulls -/

theorem triple_pushU8 (hlen : vs.length < 2 ^ w) (hR : R (V.addr (V.pos c.sp))) (v : Byte) :
    Triple (At V ram base c vs) (pushU8 v) fun _ => At V ram base c.decSp (v :: vs) := by
  rintro m ⟨rfl, hok, hgood, hholds, hbase⟩
  obtain ⟨hgood', hpos⟩ := hgood.decSp
  have haddr := V.addr_pos hgood.page
  have hbus : (pushU8 v m).2.bus =
      (Bus.writeByte m.bus m.cycle (V.addr (V.pos m.core.sp)) v).bus := by
    rw [← haddr]
    rfl
  refine ⟨rfl, ?_, hgood', ?_, ?_⟩
  · rw [hbus]
    exact ram.invariant.write hok _ _ _
  · rw [hpos, hbus]
    refine hholds.push hlen ⟨hR, ?_⟩ fun a u ha hu => ⟨hu.1, ?_⟩
    · rw [ram.peek_write hok _ _ _ _ hR hR, if_pos rfl]
    · rw [ram.peek_write hok _ _ _ _ hR hu.1, if_neg fun h => ha (V.addr_inj h)]
      exact hu.2
  · rw [hpos, List.length_cons, sub_one_add_ofNat_succ]
    exact hbase

/-- `Pop(uint8_t&)` where it reads the byte above SP. -/
theorem bind_popU8 {v : Byte} (hfits : V.popFits c.sp) {f : Byte → Exec β γ}
    (hf : Triple (At V ram base c.incSp vs) (f v) Q) :
    Triple (At V ram base c (v :: vs)) (popU8 >>= f) Q := by
  rintro m ⟨rfl, hok, hgood, ⟨⟨hR, hv⟩, hholds⟩, hbase⟩
  obtain ⟨hgood', hpos⟩ := hgood.incSp
  have haddr := V.addr_pop hgood.page hfits
  have hread : (Bus.readByte m.bus m.cycle ((m.core.sp.setWidth 32 + 1) &&& 0xFFFF)).data = v := by
    rw [haddr, ram.read_data hok _ _ hR, hv]
  have hAt : At V ram base m.core.incSp vs (popU8 m).2 := by
    refine ⟨rfl, ram.invariant.read hok _ _, hgood', ?_, ?_⟩
    · rw [hpos]
      exact hholds.mono fun a u hu => ⟨hu.1, (ram.peek_read hok _ _ _ hu.1).trans hu.2⟩
    · rw [hpos, add_one_add_ofNat]
      exact hbase
  have hval : (popU8 m).1 = v := hread
  show Q (f (popU8 m).1 (popU8 m).2).1 (f (popU8 m).1 (popU8 m).2).2
  rw [hval]
  exact hf _ hAt

/-- `PopOld(uint8_t&)` always reads it. -/
theorem bind_popOldU8 {v : Byte} {f : Byte → Exec β γ}
    (hf : Triple (At V ram base c.incSp vs) (f v) Q) :
    Triple (At V ram base c (v :: vs)) (popOld .u8 >>= f) Q := by
  rintro m ⟨rfl, hok, hgood, ⟨⟨hR, hv⟩, hholds⟩, hbase⟩
  obtain ⟨hgood', hpos⟩ := hgood.incSp
  have haddr := V.addr_pos hgood'.page
  have hread : (Bus.readByte m.bus m.cycle
      (m.core.incSp.sp.setWidth 32 &&& 0xFFFF)).data = v := by
    rw [haddr, hpos, ram.read_data hok _ _ hR, hv]
  have hAt : At V ram base m.core.incSp vs (popOld .u8 m).2 := by
    refine ⟨rfl, ram.invariant.read hok _ _, hgood', ?_, ?_⟩
    · rw [hpos]
      exact hholds.mono fun a u hu => ⟨hu.1, (ram.peek_read hok _ _ _ hu.1).trans hu.2⟩
    · rw [hpos, add_one_add_ofNat]
      exact hbase
  have hval : (popOld .u8 m).1 = v := hread
  show Q (f (popOld .u8 m).1 (popOld .u8 m).2).1 (f (popOld .u8 m).1 (popOld .u8 m).2).2
  rw [hval]
  exact hf _ hAt

theorem triple_pushWord (hlen : vs.length + 2 ≤ 2 ^ w) (hR : R (V.addr (V.pos c.sp)))
    (hR' : R (V.addr (V.pos c.decSp.sp))) (v : Word) :
    Triple (At V ram base c vs) (push (s := .u16) v)
      fun _ => At V ram base c.decSp.decSp (lo v :: hi v :: vs) :=
  Triple.bind (triple_pushU8 (by omega) hR _) fun _ =>
    triple_pushU8 (by rw [List.length_cons]; omega) hR' _

theorem bind_popWord {v : Word} (hfits : V.popFits c.sp) (hfits' : V.popFits c.incSp.sp)
    {f : Word → Exec β γ} (hf : Triple (At V ram base c.incSp.incSp vs) (f v) Q) :
    Triple (At V ram base c (lo v :: hi v :: vs)) (popU16 >>= f) Q := by
  have h : Triple (At V ram base c (lo v :: hi v :: vs))
      (popU8 >>= fun l => popU8 >>= fun h => f (h ++ l)) Q := by
    refine bind_popU8 hfits (bind_popU8 hfits' ?_)
    rw [hi_append_lo]
    exact hf
  exact h

/-! ### Interrupts -/

theorem quiet_irqTaken (type : BitVec 32) :
    IsQuiet ram (modify fun m : Machine β => { m with bus := Bus.irqTaken m.bus type }) :=
  fun _ => ⟨rfl, fun hb => ram.invariant.irqTaken hb _,
    fun hb a ha => ram.peek_irqTaken hb _ a ha⟩

/-- The second half of `DoInterrupt` leaves the stack alone. -/
theorem triple_enterHandler (type : InterruptType) :
    Triple (At V ram base c vs) (enterHandler type) fun _ m => At V ram base m.core vs m := by
  refine bind_getCore _
    (Triple.bind (triple_quiet (quiet_of_course (course_readRaw .u16 _))) fun pc => ?_)
  refine Triple.bind (triple_update rfl) fun _ => ?_
  have hq : IsQuiet ram (when (type == .irq || type == .nmi)
      (modify fun m : Machine β =>
        { m with bus := Bus.irqTaken m.bus (if type = .irq then 1 else 2) })) :=
    graded_quiet.when fun _ => quiet_irqTaken _
  exact (triple_quiet hq).conseq (fun _ h => h) fun _ _ h => h.of_core

end RetroCpu
