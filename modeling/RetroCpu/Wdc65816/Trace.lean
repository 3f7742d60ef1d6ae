import Mathlib.Data.List.Infix
import RetroCpu.Wdc65816.Reach

/-!
# The accesses of an instruction

`Traced β` is the bus `β` with every access written down: its direction, its address on a
bus of 24 bits, and the byte moved.  An instruction on such a bus leaves behind the list
of what it has accessed, in order.

Most operation templates access one operand through an addressing template and do the rest
in the CPU.  `Op.operand` says which operand that is and `exec_operand` that the bus sees
nothing else, so what is accessed can be read off the addressing template alone.
-/

namespace RetroCpu

open WordBytes Machine StateFn

inductive BusAccess
  | read (addr : BitVec 24) (data : Byte)
  | write (addr : BitVec 24) (data : Byte)
  deriving DecidableEq, Repr

namespace BusAccess

def addr : BusAccess → BitVec 24
  | read addr _ | write addr _ => addr

def data : BusAccess → Byte
  | read _ data | write _ data => data

end BusAccess

/-- A bus and the accesses made so far. -/
structure Traced (β : Type) where
  bus : β
  trace : List BusAccess

variable {β : Type}

def Machine.traced (m : Machine β) : Machine (Traced β) :=
  { core := m.core, cycle := m.cycle, cycleStop := m.cycleStop, bus := ⟨m.bus, []⟩ }

def KeepsBus (_ : ℕ) (m m' : Machine β) : Prop := m'.bus = m.bus

theorem graded_keepsBus : Graded (KeepsBus (β := β)) where
  refl _ := rfl
  trans h h' := Eq.trans h' h
  mono _ h := h

theorem keepsBus_update (g : Core → Core) : Within (KeepsBus (β := β)) 0 (update g) := fun _ => rfl

theorem keepsBus_getCore {α : Type} (g : Core → α) : Within (KeepsBus (β := β)) 0 (getCore g) :=
  fun _ => rfl

theorem keepsBus_setNZ {n : ℕ} (v : BitVec n) : Within (KeepsBus (β := β)) 0 (setNZ v) :=
  fun _ => rfl

theorem keepsBus_addIp (n : CpuAddr) : Within (KeepsBus (β := β)) 0 (addIp n) := fun _ => rfl

theorem keepsBus_internalOp (n : BitVec 32) : Within (KeepsBus (β := β)) 0 (internalOp n) :=
  fun _ => rfl

theorem Op.keepsBus_modifyCycles (m : AddrMode) :
    Within (KeepsBus (β := β)) 0 (Op.modifyCycles m) :=
  graded_keepsBus.bind (keepsBus_internalOp 1) fun _ =>
    graded_keepsBus.when fun _ => keepsBus_internalOp 1

/-- What follows the access does not matter to the bus if it is quiet. -/
theorem bus_bind {α γ : Type} {x : Exec β α} {y : α → Exec β γ}
    (hy : ∀ a, Within KeepsBus 0 (y a)) (m : Machine β) : ((x >>= y) m).2.bus = (x m).2.bus :=
  hy _ _

variable [Bus β]

instance : Bus (Traced β) where
  readByte b t a :=
    let r := Bus.readByte b.bus t a
    ⟨r.data, r.cycles, ⟨r.bus, b.trace ++ [.read (a.setWidth 24) r.data]⟩⟩
  writeByte b t a v :=
    let r := Bus.writeByte b.bus t a v
    ⟨r.cycles, r.stall, ⟨r.bus, b.trace ++ [.write (a.setWidth 24) v]⟩⟩
  irqTaken b type := { b with bus := Bus.irqTaken b.bus type }
  pendingInterrupts b := Bus.pendingInterrupts b.bus

/-- The accesses of the next instruction, its opcode first. -/
def Machine.accesses (m : Machine β) : List BusAccess :=
  match m.traced.emulateInstruction with
  | some m' => m'.bus.trace
  | none => []

theorem trace_fetch (m : Machine β) : (fetch m.traced).2.bus.trace =
    [.read (m.core.getCanonicalAddress.setWidth 24) (fetch m).1] := rfl

/-- Writing the accesses down changes nothing that decides the handler. -/
theorem accesses_eq {m : Machine β} {op : Op} (h : m.handler = some op) :
    m.accesses = (op.exec (fetch m.traced).2).2.bus.trace := by
  have hs : m.traced.emulateInstruction = some (perform op (fetch m.traced).2).2 := by
    rw [emulateInstruction, show m.traced.handler = m.handler from rfl, h]
    rfl
  rw [accesses, hs]
  rfl

def Extends (_ : ℕ) (m m' : Machine (Traced β)) : Prop := m.bus.trace <+: m'.bus.trace

omit [Bus β] in
theorem graded_extends : Graded (Extends (β := β)) where
  refl _ := List.prefix_refl _
  trans h h' := List.IsPrefix.trans h h'
  mono _ h := h

omit [Bus β] in
theorem extends_of_keepsBus {α : Type} {n : ℕ} {x : Exec (Traced β) α}
    (h : Within KeepsBus n x) : Within (Extends (β := β)) 0 x := fun m => by
  rw [Extends, h m]

/-- Along a course accesses are only added. -/
theorem extends_of_course {f : Footprint} {α : Type} {n : ℕ} {x : Exec (Traced β) α}
    (h : Within (Course (f.allowance True)) n x) : Within (Extends (β := β)) 0 x :=
  fun m => Course.related (R := Extends) (n := n) graded_extends
    (fun m _ _ => List.prefix_refl m.bus.trace) (fun m _ => List.prefix_refl m.bus.trace)
    (fun _ _ => ⟨_, rfl⟩) (fun _ _ _ _ => ⟨_, rfl⟩) (fun _ _ _ => ⟨[], List.append_nil _⟩) (h m)

namespace AddrMode

/-- The ways to access an operand of width `s`: `Read`, `Write` and `Modify`.  What is read
as an immediate operand has the width the template was given for it. -/
inductive Accesses (am : AddrMode) : Size → Exec β Unit → Prop
  | read {s : Size} (hs : ∀ e, am.kind = .imm e → e = s) :
    am.Accesses s (do let _ ← am.read s)
  | write {s : Size} (hs : ∀ e, am.kind ≠ .imm e) (v : Val s) : am.Accesses s (am.write v)
  | modify (hs : ∀ e, am.kind ≠ .imm e) {fn : Val am.A → Exec β (Val am.A)}
    (hfn : ∀ v, Within KeepsBus 0 (fn v)) : am.Accesses am.A (am.modify fn)

/-- An access through memory starts with the computation of the effective address. -/
theorem Accesses.trace_prefix {am : AddrMode} {s : Size} {x : Exec (Traced β) Unit}
    (h : am.Accesses s x) (ha : am.kind ≠ .a) (hi : ∀ e, am.kind ≠ .imm e)
    (m : Machine (Traced β)) :
    (am.kind.calcEffectiveAddress m).2.bus.trace <+: (x m).2.bus.trace := by
  have hE := graded_extends (β := β)
  have hraw := fun s addr => extends_of_course (f := {}) (course_readRaw (β := Traced β) s addr)
  have hzero := fun s addr => extends_of_course (f := {}) (course_readZero (β := Traced β) s addr)
  have hcases : am.kind.access = .raw ∨ ∃ emulation, am.kind.access = .zero emulation := by
    cases hk : am.kind with
    | a => exact absurd hk ha
    | imm e => exact absurd hk (hi e)
    | _ => first | exact Or.inl rfl | exact Or.inr ⟨_, rfl⟩
  cases h with
  | read hs =>
    unfold AddrMode.read
    rcases hcases with hk | ⟨emulation, hk⟩
    · rw [hk]
      exact hE.bind (hraw _ _) (fun _ => hE.pure ()) _
    · rw [hk]
      exact hE.bind (extends_of_course (f := {}) (AddrKind.course_readZeroOp _ _ _))
        (fun _ => hE.pure ()) _
  | write hs v =>
    unfold AddrMode.write
    rcases hcases with hk | ⟨emulation, hk⟩
    · rw [hk]
      exact extends_of_course (f := {}) (course_writeRaw _ v) _
    · rw [hk]
      exact extends_of_course (f := {}) (course_writeZero _ v) _
  | @modify _ fn hfn =>
    have hfn' := fun v => extends_of_keepsBus (hfn v)
    unfold AddrMode.modify
    rcases hcases with hk | ⟨emulation, hk⟩
    · rw [hk]
      exact hE.bind (hraw _ _) (fun _ => hE.bind (hfn' _) fun _ =>
        extends_of_course (f := {}) (course_writeRaw _ _)) _
    · rw [hk]
      exact hE.bind (hzero _ _) (fun _ => hE.bind (hfn' _) fun _ =>
        extends_of_course (f := {}) (course_writeZero _ _)) _

end AddrMode

namespace Op

/-- The operand an operation accesses through an addressing template, and its width. -/
def operand : Op → Option (AddrMode × Size)
  | tsb m | trb m | bit m | bitImm m | alu _ m | asl m | lsr m | ror m | rol m | incMem m
  | decMem m | stz m | adc m | sbc m | cmp m | lax m | sax m => some (m, m.A)
  | cpx m | cpy m => some (m, m.XY)
  | load m _ s | store m _ s => some (m, s)
  | _ => none

/-- The operations that read their operand and do not write it. -/
def reads : Op → Bool
  | bit _ | bitImm _ | alu _ _ | adc _ | sbc _ | cmp _ | cpx _ | cpy _ | load _ _ _ | lax _ => true
  | _ => false

/-- An immediate operand is read, in the width the addressing template has for it. -/
def wellSized (op : Op) : Bool :=
  op.operand.all fun (am, s) =>
    match am.kind with
    | .imm e => op.reads && e = s
    | _ => true

theorem imm_of_wellSized {op : Op} (hop : op.wellSized = true) {am : AddrMode} {s e : Size}
    (h : op.operand = some (am, s)) (he : am.kind = .imm e) : op.reads = true ∧ e = s := by
  simpa [wellSized, h, he] using hop

/-- Every entry of the opcode tables is well sized. -/
theorem wellSized_row (mode : Mode) :
    (execOps mode).all (fun o => o.all wellSized) = true := by
  cases mode <;> decide +kernel

theorem bus_execStore (am : AddrMode) (r : Reg) (s : Size) (m : Machine β) :
    (execStore am r s m).2.bus = (am.write (m.core.get r s) m).2.bus :=
  bus_bind (x := am.write (m.core.get r s)) (y := fun _ => do
      when am.kind.maybeHasConditionalCycle internalOp
      addIp (BitVec.ofNat 32 (store am r s).kBytes))
    (fun _ => graded_keepsBus.bind (graded_keepsBus.when fun _ => keepsBus_internalOp 1) fun _ =>
      keepsBus_addIp _) m

/-- **The bus sees an instruction with an operand as the access to its operand**, made with
the registers as they are but for A. -/
theorem exec_operand {op : Op} (hop : op.wellSized = true) {am : AddrMode} {s : Size}
    (h : op.operand = some (am, s)) (m : Machine β) :
    ∃ a x, am.Accesses s x ∧
      (op.exec m).2.bus = (x { m with core := { m.core with a := a } }).2.bus := by
  have hQ := graded_keepsBus (β := β)
  have himm := fun e => imm_of_wellSized (e := e) hop h
  have hread {s : Size} {y : Val s → Exec β Unit} (hs : ∀ e, am.kind = .imm e → e = s)
      (hy : ∀ v, Within KeepsBus 0 (y v)) : ∃ a x, am.Accesses s x ∧
        ((do let v ← am.read s; y v) m).2.bus =
          (x { m with core := { m.core with a := a } }).2.bus :=
    ⟨m.core.a, _, .read hs, bus_bind hy m⟩
  have hmodify {fn : Val am.A → Exec β (Val am.A)} {n : CpuAddr} (hs : ∀ e, am.kind ≠ .imm e)
      (hfn : ∀ v, Within KeepsBus 0 (fn v)) : ∃ a x, am.Accesses am.A x ∧
        ((do am.modify fn; addIp n) m).2.bus =
          (x { m with core := { m.core with a := a } }).2.bus :=
    ⟨m.core.a, _, .modify hs hfn, bus_bind (fun _ => keepsBus_addIp n) m⟩
  cases op with
  | bit | bitImm | alu | adc | sbc | cmp | cpx | cpy | load | lax =>
    cases h
    exact hread (fun e he => (himm e he).2) fun v _ => rfl
  | tsb | trb =>
    cases h
    exact hmodify (fun e he => absurd (himm e he).1 nofun) fun v _ => rfl
  | asl =>
    cases h
    exact hmodify (fun e he => absurd (himm e he).1 nofun) fun v => hQ.bind (keepsBus_setNZ _)
      fun _ => hQ.bind (keepsBus_update _) fun _ =>
      hQ.bind (keepsBus_modifyCycles am) fun _ => hQ.pure _
  | lsr =>
    cases h
    exact hmodify (fun e he => absurd (himm e he).1 nofun) fun v => hQ.bind (keepsBus_update _)
      fun _ => hQ.bind (keepsBus_modifyCycles am) fun _ => hQ.pure _
  | ror | rol =>
    cases h
    exact hmodify (fun e he => absurd (himm e he).1 nofun) fun v => hQ.bind (keepsBus_getCore _)
      fun _ => hQ.bind (keepsBus_setNZ _) fun _ => hQ.bind (keepsBus_update _) fun _ =>
      hQ.bind (keepsBus_modifyCycles am) fun _ => hQ.pure _
  | incMem | decMem =>
    cases h
    exact hmodify (fun e he => absurd (himm e he).1 nofun) fun v =>
      hQ.bind (keepsBus_modifyCycles am) fun _ => hQ.bind (keepsBus_setNZ _) fun _ => hQ.pure _
  | store _ r s =>
    cases h
    exact ⟨m.core.a, _, .write (fun e he => absurd (himm e he).1 nofun) (m.core.get r s),
      bus_execStore am r s m⟩
  | stz =>
    cases h
    exact ⟨m.core.a, _, .write (fun e he => absurd (himm e he).1 nofun) 0,
      bus_bind (fun _ => keepsBus_addIp _) m⟩
  | sax =>
    cases h
    let c := m.core.set .a (s := .u8) (lo m.core.a &&& lo m.core.x)
    exact ⟨c.a, _, .write (fun e he => absurd (himm e he).1 nofun) (c.get .a am.A),
      bus_execStore am .a am.A { m with core := c }⟩
  | _ => exact absurd h nofun

end Op

end RetroCpu
