import RetroCpu.Wdc65816.Stack

/-!
# The instructions that push and pull

One rule for each operation that uses the stack: what the CPU's own state is
afterwards and which bytes have come or gone.  The rules are about any view of the
stack, and all of it is plain memory here.
-/

namespace RetroCpu

open WordBytes Machine StateFn

def Size.toBytes : (s : Size) → Val s → List Byte
  | .u8, v => [v]
  | .u16, v => [lo v, hi v]

theorem Size.length_toBytes (s : Size) (v : Val s) : (s.toBytes v).length = s.bytes := by
  cases s <;> rfl

namespace Core

def down (c : Core) : Size → Core
  | .u8 => c.decSp
  | .u16 => c.decSp.decSp

def up (c : Core) : Size → Core
  | .u8 => c.incSp
  | .u16 => c.incSp.incSp

def count (c : Core) : Core :=
  { c with numEmulatedInstructions := c.numEmulatedInstructions + 1 }

def setIp (c : Core) (ip : CpuAddr) : Core := { c with ip := ip }

def setCodeSegment (c : Core) (base : CpuAddr) : Core := { c with codeSegmentBase := base }

def setDataBank (c : Core) (bank : Byte) : Core :=
  { c with dataSegmentBase := bank.setWidth 32 <<< 16 }

theorem control_setDataBank (c : Core) (bank : Byte) :
    (c.setDataBank bank).control = c.control := by
  unfold setDataBank
  generalize bank.setWidth 32 <<< 16 = base
  rfl

theorem control_setProgramBank (c : Core) (bank : Byte) :
    (c.setProgramBank bank).control = c.control := by
  unfold setProgramBank
  generalize bank.setWidth 32 <<< 16 = base
  rfl

theorem control_set (c : Core) {r : Reg} (hr : r ≠ .sp) {s : Size} (v : Val s) :
    (c.set r v).control = c.control := by
  cases r with
  | sp => exact absurd rfl hr
  | a => cases s <;> rfl
  | x => cases s <;> rfl
  | y => cases s <;> rfl
  | d => cases s <;> rfl

/-- A register reads back what was written to it. -/
theorem get_set (c : Core) (r : Reg) (s : Size) (v : Val s) : (c.set r v).get r s = v := by
  cases s with
  | u8 => cases r <;> exact lo_setLo _ _
  | u16 => cases r <;> rfl

end Core

/-- What `OpPop` does after the write leaves the register alone. -/
theorem Core.get_counted (c : Core) (r : Reg) {s s' : Size} (v : Val s') :
    ((c.setNZ v).addIp 1).count.get r s = c.get r s := by
  have h : ((c.setNZ v).addIp 1).count.reg r = c.reg r := by
    cases r <;> rfl
  cases s with
  | u8 => exact congrArg lo h
  | u16 => exact h

/-- `Pop` reads the bytes of the width above SP. -/
def StackView.Fits {w : ℕ} (V : StackView w) (c : Core) : Size → Prop
  | .u8 => V.popFits c.sp
  | .u16 => V.popFits c.sp ∧ V.popFits c.incSp.sp

theorem StackView.fits_native (c : Core) (s : Size) : StackView.native.Fits c s := by
  cases s
  · trivial
  · exact ⟨trivial, trivial⟩

variable {β : Type} [Bus β] {R : CpuAddr → Prop} {ram : PlainRam β R} {w : ℕ} {V : StackView w}
  {base : BitVec w} {c : Core} {vs : List Byte} {γ : Type} {Q : γ → Machine β → Prop}

theorem triple_push (hR : ∀ a, R (V.addr a)) {s : Size} (hlen : vs.length + s.bytes ≤ 2 ^ w)
    (v : Val s) :
    Triple (At V ram base c vs) (push v) fun _ => At V ram base (c.down s) (s.toBytes v ++ vs) := by
  cases s with
  | u8 => exact triple_pushU8 hlen (hR _) v
  | u16 => exact triple_pushWord hlen (hR _) (hR _) v

theorem bind_pop {s : Size} {v : Val s} (hfits : V.Fits c s) {f : Val s → Exec β γ}
    (hf : Triple (At V ram base (c.up s) vs) (f v) Q) :
    Triple (At V ram base c (s.toBytes v ++ vs)) (pop s >>= f) Q := by
  cases s with
  | u8 => exact bind_popU8 hfits hf
  | u16 => exact bind_popWord hfits.1 hfits.2 hf

/-- An operation and the instruction count. -/
theorem triple_perform {op : Op} {P : Machine β → Prop}
    (h : Triple P op.exec fun _ => At V ram base c vs) :
    Triple P (perform op) fun _ => At V ram base c.count vs :=
  Triple.bind h fun _ => triple_update rfl

/-- A property of what the CPU's own state is after an operation and the instruction count. -/
theorem triple_perform_of {op : Op} {P : Machine β → Prop} {F : Core → Prop}
    (h : Triple P op.exec fun _ m => ∃ c, At V ram base c vs m ∧ F c.count) :
    Triple P (perform op) fun _ m => At V ram base m.core vs m ∧ F m.core := by
  intro m hm
  obtain ⟨c', hAt, hF⟩ := h m hm
  have hend : At V ram base c'.count vs (perform op m).2 :=
    triple_update (g := Core.count) rfl _ hAt
  refine ⟨hend.of_core, ?_⟩
  rw [hend.core]
  exact hF

theorem triple_exists {x : Exec β Unit} {P : Machine β → Prop} {F : Core → Prop}
    (h : Triple P x fun _ => At V ram base c vs) (hF : F c) :
    Triple P x fun _ m => ∃ c, At V ram base c vs m ∧ F c :=
  h.conseq (fun _ hm => hm) fun _ _ hm => ⟨c, hm, hF⟩

/-! ### Registers -/

theorem triple_opPush (hR : ∀ a, R (V.addr a)) (r : Reg) {s : Size}
    (hlen : vs.length + s.bytes ≤ 2 ^ w) :
    Triple (At V ram base c vs) (Op.push r s).exec
      fun _ => At V ram base ((c.down s).addIp 1) (s.toBytes (c.get r s) ++ vs) :=
  bind_getCore _ (Triple.bind (triple_push hR hlen _) fun _ =>
    Triple.bind (triple_quiet (quiet_internalOp _)) fun _ => triple_update rfl)

def Core.pulled (c : Core) (r : Reg) {s : Size} (v : Val s) : Core :=
  (((c.up s).set r v).setNZ v).addIp 1

/-- What `OpPop` does after it has read the value. -/
theorem triple_afterPop {r : Reg} (hr : r ≠ .sp) {s : Size} (v : Val s) :
    Triple (At V ram base (c.up s) vs) (do internalOp 2; update (·.set r v); setNZ v; addIp 1)
      fun _ => At V ram base (c.pulled r v) vs :=
  Triple.bind (triple_quiet (quiet_internalOp _)) fun _ =>
    Triple.bind (triple_update (Core.control_set _ hr v)) fun _ =>
    Triple.bind (triple_update rfl) fun _ => triple_update rfl

theorem triple_opPop {r : Reg} (hr : r ≠ .sp) {s : Size} {v : Val s}
    (hfits : r ≠ .a ∨ s ≠ .u8 → V.Fits c s) :
    Triple (At V ram base c (s.toBytes v ++ vs)) (Op.pop r s).exec
      fun _ => At V ram base (c.pulled r v) vs := by
  show Triple _ (Op.execPop r s) _
  unfold Op.execPop
  by_cases ha : r = .a
  · rw [if_pos ha]
    cases s with
    | u8 => exact bind_popOldU8 (triple_afterPop hr v)
    | u16 => exact bind_pop (s := .u16) (hfits (Or.inr nofun)) (triple_afterPop hr v)
  · rw [if_neg ha]
    exact bind_pop (hfits (Or.inl ha)) (triple_afterPop hr v)

/-! ### The status register and the data bank -/

theorem triple_opPhp (hR : ∀ a, R (V.addr a)) (hlen : vs.length < 2 ^ w) :
    Triple (At V ram base c vs) Op.php.exec
      fun _ => At V ram base (c.decSp.addIp 1) (c.getStatusRegister :: vs) :=
  bind_getCore _ (Triple.bind (triple_pushU8 hlen (hR _) _) fun _ =>
    Triple.bind (triple_quiet (quiet_internalOp _)) fun _ => triple_update rfl)

theorem triple_opPlp (v : Byte) :
    Triple (At V ram base c (v :: vs)) Op.plp.exec
      fun _ => At V ram base ((c.incSp.addIp 1).setStatusRegister v) vs :=
  bind_popOldU8 (Triple.bind (triple_quiet (quiet_internalOp _)) fun _ =>
    Triple.bind (triple_update rfl) fun _ =>
    triple_keeps fun hc => StackView.keeps_setStatusRegister hc v)

theorem triple_opPhb (hR : ∀ a, R (V.addr a)) (hlen : vs.length < 2 ^ w) :
    Triple (At V ram base c vs) Op.phb.exec
      fun _ => At V ram base (c.decSp.addIp 1) (c.dataBank :: vs) :=
  bind_getCore _ (Triple.bind (triple_pushU8 hlen (hR _) _) fun _ => triple_update rfl)

theorem triple_opPlb (v : Byte) (hfits : V.popFits c.sp) :
    Triple (At V ram base c (v :: vs)) Op.plb.exec
      fun _ => At V ram base (((c.incSp.setDataBank v).setNZ v).addIp 1) vs :=
  bind_popU8 hfits (Triple.bind (triple_update (Core.control_setDataBank c.incSp v)) fun _ =>
    Triple.bind (triple_quiet (quiet_internalOp _)) fun _ =>
    Triple.bind (triple_update rfl) fun _ => triple_update rfl)

/-! ### Calls and returns -/

/-- The word a call of `kBytes` bytes pushes: the address of its last byte. -/
def Core.returnAddr (c : Core) (kBytes : CpuAddr) : Word := (c.ip + kBytes - 1).setWidth 16

theorem triple_opJsr (hR : ∀ a, R (V.addr a)) (addrMode : JmpAddr) (hlen : vs.length + 2 ≤ 2 ^ w) :
    Triple (At V ram base c vs) (Op.jmp addrMode true false).exec
      fun _ m => ∃ addr, At V ram base (c.decSp.decSp.setIp addr)
        (lo (c.returnAddr 3) :: hi (c.returnAddr 3) :: vs) m := by
  refine Triple.bind (triple_quiet (quiet_jmpAddr addrMode)) fun addr => ?_
  have hword : Triple (At V ram base c vs) (push (s := .u16) (c.returnAddr 3)) fun _ =>
      At V ram base c.decSp.decSp (lo (c.returnAddr 3) :: hi (c.returnAddr 3) :: vs) :=
    triple_pushWord hlen (hR _) (hR _) _
  refine Triple.conseq (P := At V ram base c vs) (Q := fun _ => At V ram base
    (c.decSp.decSp.setIp addr) (lo (c.returnAddr 3) :: hi (c.returnAddr 3) :: vs)) ?_
    (fun _ h => h) fun _ _ h => ⟨addr, h⟩
  generalize c.decSp.decSp = u at hword ⊢
  refine Triple.bind (Triple.when rfl (Triple.bind (Triple.when_not rfl fun _ h => h) fun _ =>
    bind_getCore _ hword)) fun _ => ?_
  exact Triple.bind (Triple.when_not rfl fun _ h => h) fun _ =>
    Triple.bind (triple_quiet (quiet_internalOp _)) fun _ =>
      triple_update (g := fun c => c.setIp addr) rfl

theorem triple_opJsl (hR : ∀ a, R (V.addr a)) (addrMode : JmpAddr) (hlen : vs.length + 3 ≤ 2 ^ w) :
    Triple (At V ram base c vs) (Op.jmp addrMode true true).exec
      fun _ m => ∃ addr bank, At V ram base ((c.decSp.decSp.decSp.setCodeSegment bank).setIp addr)
        (lo (c.returnAddr 4) :: hi (c.returnAddr 4) :: c.programBank :: vs) m := by
  refine Triple.bind (triple_quiet (quiet_jmpAddr addrMode)) fun addr => ?_
  have hbank : Triple (At V ram base c vs) (push (s := .u8) c.programBank) fun _ =>
      At V ram base c.decSp (c.programBank :: vs) := triple_pushU8 (by omega) (hR _) _
  have hword : Triple (At V ram base c.decSp (c.programBank :: vs))
      (push (s := .u16) (c.returnAddr 4)) fun _ => At V ram base c.decSp.decSp.decSp
        (lo (c.returnAddr 4) :: hi (c.returnAddr 4) :: c.programBank :: vs) :=
    triple_pushWord (by rw [List.length_cons]; omega) (hR _) (hR _) _
  refine Triple.conseq (P := At V ram base c vs) (Q := fun _ => At V ram base
    ((c.decSp.decSp.decSp.setCodeSegment (addr &&& 0xFF0000)).setIp addr)
    (lo (c.returnAddr 4) :: hi (c.returnAddr 4) :: c.programBank :: vs)) ?_
    (fun _ h => h) fun _ _ h => ⟨addr, _, h⟩
  generalize c.decSp.decSp.decSp = u at hword ⊢
  refine Triple.bind (Triple.when rfl (Triple.bind (Triple.when rfl (bind_getCore _ hbank)) fun _ =>
    bind_getCore _ hword)) fun _ => ?_
  exact Triple.bind (Triple.when rfl
    (triple_update (g := fun c => c.setCodeSegment (addr &&& 0xFF0000)) rfl)) fun _ =>
    Triple.bind (triple_quiet (quiet_internalOp _)) fun _ =>
      triple_update (g := fun c => c.setIp addr) rfl

theorem triple_opRts (v : Word) (hfits : V.Fits c .u16) :
    Triple (At V ram base c (lo v :: hi v :: vs)) (Op.rts false).exec
      fun _ => At V ram base (c.incSp.incSp.setIp (v.setWidth 32 + 1)) vs :=
  bind_popWord hfits.1 hfits.2 (Triple.bind (triple_update rfl) fun _ =>
    Triple.bind (Triple.when_not rfl fun _ h => h) fun _ => triple_quiet (quiet_internalOp _))

theorem triple_opRtl (v : Word) (bank : Byte) (hfits : V.Fits c .u16)
    (hfits' : V.popFits (c.incSp.incSp.setIp (v.setWidth 32 + 1)).sp) :
    Triple (At V ram base c (lo v :: hi v :: bank :: vs)) (Op.rts true).exec
      fun _ => At V ram base
        ((c.incSp.incSp.setIp (v.setWidth 32 + 1)).incSp.setProgramBank bank) vs :=
  bind_popWord hfits.1 hfits.2 (Triple.bind
    (triple_update (g := fun c => c.setIp (v.setWidth 32 + 1)) rfl) fun _ =>
    Triple.bind (Triple.when rfl
      (bind_popU8 hfits' (triple_update (Core.control_setProgramBank _ bank)))) fun _ =>
      triple_quiet (quiet_internalOp _))

/-- `RTI` up to the program bank. -/
theorem triple_opRti (status : Byte) (pc : Word)
    (hfits : V.popFits c.sp) (hfits' : V.Fits (c.incSp.setStatusRegister status) .u16)
    {Q : Unit → Machine β → Prop}
    (hbank : Triple
      (At V ram base ((c.incSp.setStatusRegister status).incSp.incSp.setIp (pc.setWidth 32)) vs)
      (do
        let emulation ← getCore (·.modeEmulation)
        when (!emulation) do
          let bank ← pop .u8
          update (·.setProgramBank bank)) Q) :
    Triple (At V ram base c (status :: lo pc :: hi pc :: vs)) Op.rti.exec Q :=
  bind_popU8 hfits (Triple.bind (triple_keeps fun hc => StackView.keeps_setStatusRegister hc _)
    fun _ => bind_popWord hfits'.1 hfits'.2 (Triple.bind (triple_quiet (quiet_internalOp _))
      fun _ => Triple.bind (triple_update rfl) fun _ => hbank))

/-! ### One instruction -/

def Machine.Executes (opcode : Byte) (m m' : Machine β) : Prop :=
  (fetch m).1 = opcode ∧ m.emulateInstruction = some m'

theorem Machine.Executes.post {opcode : Byte} {op : Op} {m m' : Machine β}
    {Q : Unit → Machine β → Prop} (h : Executes opcode m m') (hm : At V ram base m.core vs m)
    (hop : (execOps m.core.mode).at opcode = some op)
    (ht : Triple (At V ram base m.core vs) (perform op) Q) : Q () m' := by
  have hhandler : m.handler = some op := by
    rw [handler, h.1, hm.good.coherent.instructionSet, hop]
  have hm' : some (perform op (fetch m).2).2 = some m' := by
    rw [← h.2, emulateInstruction, hhandler]
    rfl
  cases hm'
  exact ht _ (hm.quiet (quiet_fetch m))

def Machine.next (m : Machine β) : Machine β := m.emulateInstruction.getD m

theorem Machine.executes_next {opcode : Byte} {m : Machine β}
    (h : (fetch m).1 = opcode ∧ m.emulateInstruction.isSome = true) : Executes opcode m m.next := by
  obtain ⟨m', hm'⟩ := Option.isSome_iff_exists.mp h.2
  refine ⟨h.1, ?_⟩
  rw [next, hm']
  rfl

/-- What may happen between the instructions of a stack discipline while `d` bytes are on the
stack. -/
structure Machine.Undisturbed (V : StackView w) (ram : PlainRam β R) (d : ℕ) (s t : Machine β) :
    Prop where
  run : Run Machine.step (fun _ _ => True) s t
  modeEmulation : t.core.modeEmulation = V.emulation
  ok : ram.ok t.bus
  sp : t.core.sp = s.core.sp
  stack : ∀ i < d, ram.peek t.bus (V.addr (V.pos s.core.sp + 1 + BitVec.ofNat w i)) =
    ram.peek s.bus (V.addr (V.pos s.core.sp + 1 + BitVec.ofNat w i))

theorem Machine.Undisturbed.at {s t : Machine β} (h : Undisturbed V ram vs.length s t)
    (hs : At V ram base s.core vs s) : At V ram base t.core vs t where
  core := rfl
  ok := h.ok
  good :=
    { coherent := Run.invariant (P := fun m : Machine β => m.core.Coherent) hs.good.coherent
        (fun _ _ _ hm _ hs => coherent_step hm hs) h.run
      modeEmulation := h.modeEmulation
      page := h.sp ▸ hs.good.page }
  holds := by
    rw [h.sp]
    exact hs.holds.of_agree fun i hi v hv => ⟨hv.1, (h.stack i hi).trans hv.2⟩
  base := by
    rw [h.sp]
    exact hs.base

end RetroCpu
