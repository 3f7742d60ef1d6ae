import RetroCpu.Wdc65816.NativeStack
import RetroCpu.Wdc65816.StackPage

/-!
# Calls, pushes and interrupts in emulation mode

In emulation mode the stack is the 256 bytes of page 1, and the instructions of the
6502 should wrap in it.  `PLA` and `PLP` do: they use `PopOld`.  `RTS` and `RTI` use
`Pop`, which reads the byte above `0x01FF` at `0x0200`.  So a pair gives back what it
took if no byte that `RTS` or `RTI` pulls is at `0x0100`, and `oldStack_fails` is a
call at that edge.
-/

namespace RetroCpu

open WordBytes Machine StateFn

/-- The pairs that use the stack in emulation mode. -/
inductive OldPair
  | pha
  | php
  | jsr
  | interrupt (type : InterruptType)
  deriving DecidableEq, Repr

/-- How far `BRK` and `COP` move the program counter before they call `DoInterrupt`. -/
def InterruptType.skip : InterruptType → CpuAddr
  | brk | cop => 2
  | irq | nmi => 0

namespace OldPair

def pullOpcode : OldPair → Byte
  | pha => 0x68
  | php => 0x28
  | jsr => 0x60
  | interrupt _ => 0x40

def pullOp : OldPair → Op
  | pha => .pop .a .u8
  | php => .plp
  | jsr => .rts false
  | interrupt _ => .rti

/-- How many bytes the first step of the pair pushes. -/
def size : OldPair → ℕ
  | pha | php => 1
  | jsr => 2
  | interrupt _ => 3

/-- How many bytes the second step pulls with `Pop`. -/
def popped : OldPair → ℕ
  | pha | php => 0
  | jsr => 2
  | interrupt _ => 3

def pushed (k : OldPair) (c : Core) : List Byte :=
  match k with
  | pha => [lo c.a]
  | php => [c.getStatusRegister]
  | jsr => [lo (c.returnAddr 3), hi (c.returnAddr 3)]
  | interrupt type => [type.pushedStatus true c.getStatusRegister, lo (c.addIp type.skip).pc,
      hi (c.addIp type.skip).pc]

/-- None of the bytes that `Pop` has to read is at the start of page 1. -/
def Clear (k : OldPair) (c : Core) : Prop :=
  ∀ i < k.popped, lo c.sp + 1 + BitVec.ofNat 8 i ≠ 0

def Value (k : OldPair) (c c' : Core) : Prop :=
  match k with
  | pha => lo c'.a = lo c.a
  | php => c'.getStatusRegister &&& 0xCF = c.getStatusRegister &&& 0xCF
  | jsr => c'.pc = c.pc + 3
  | interrupt type => c'.getStatusRegister &&& 0xCF = c.getStatusRegister &&& 0xCF ∧
      c'.pc = (c.addIp type.skip).pc

structure Restored (k : OldPair) (c c' : Core) : Prop where
  value : k.Value c c'
  sp : c'.sp = c.sp

end OldPair

variable {β : Type} [Bus β] {R : CpuAddr → Prop} {ram : PlainRam β R} {base : Byte} {c : Core}
  {vs : List Byte}

/-- The first step of a pair. -/
def OldPair.Opens (k : OldPair) (s s' : Machine β) : Prop :=
  match k with
  | pha => Executes 0x48 s s'
  | php => Executes 0x08 s s'
  | jsr => Executes 0x20 s s'
  | interrupt .brk => Executes 0x00 s s'
  | interrupt .cop => Executes 0x02 s s'
  | interrupt type => (doInterrupt type s).2 = s'

def oldStack (ram : PlainRam β R) : Discipline OldPair (Machine β) where
  size k _ := k.size
  link := Undisturbed .page1 ram
  opens k s s' := k.Opens s s'
  closes k _ t t' := Executes k.pullOpcode t t'

/-! ### Interrupts -/

theorem InterruptType.pushedStatus_and (type : InterruptType) (status : Byte) :
    type.pushedStatus true status &&& 0xCF = status &&& 0xCF := by
  have key : ∀ x ∈ [(0x10 : Byte), 0x20, 0x30], (status &&& 0xCF ||| x) &&& 0xCF =
      status &&& 0xCF := by
    intro x hx
    have hx0 : x &&& 0xCF = 0 := by
      revert x
      decide
    rw [BitVec.and_or_distrib_right, hx0, BitVec.and_assoc, BitVec.and_self]
    exact BitVec.or_zero
  cases type with
  | brk => exact key 0x30 (by decide)
  | cop => exact key 0x20 (by decide)
  | irq => exact key 0x10 (by decide)
  | nmi => exact key 0x30 (by decide)

/-- `DoInterrupt` in emulation mode. -/
theorem triple_doInterrupt_page1 (hR : ∀ a : Byte, R (((1 : Byte) ++ a).setWidth 32))
    (he : c.modeEmulation = true) (hlen : vs.length + 3 ≤ 2 ^ 8) (type : InterruptType) :
    Triple (At .page1 ram base c vs) (doInterrupt type) fun _ m =>
      At .page1 ram base m.core
        (type.pushedStatus true c.getStatusRegister :: lo c.pc :: hi c.pc :: vs) m := by
  have hword : Triple (At .page1 ram base c vs) (push (s := .u16) c.pc) fun _ =>
      At .page1 ram base c.decSp.decSp (lo c.pc :: hi c.pc :: vs) :=
    triple_pushWord (by omega) (hR _) (hR _) _
  have hlen' : (lo c.pc :: hi c.pc :: vs).length < 2 ^ 8 := by
    simp only [List.length_cons]
    omega
  have hstatus : ∀ v : Byte, Triple (At .page1 ram base c.decSp.decSp (lo c.pc :: hi c.pc :: vs))
      (pushU8 v) fun _ =>
        At .page1 ram base c.decSp.decSp.decSp (v :: lo c.pc :: hi c.pc :: vs) :=
    triple_pushU8 hlen' (hR _)
  have hframe : Triple (At .page1 ram base c vs) (pushInterruptFrame type) fun _ =>
      At .page1 ram base c.decSp.decSp.decSp
        (type.pushedStatus c.modeEmulation c.getStatusRegister :: lo c.pc :: hi c.pc :: vs) :=
    bind_getCore _ (Triple.bind (Triple.when_not (by rw [he]; rfl) fun _ h => h) fun _ =>
      bind_getCore _ (Triple.bind hword fun _ => bind_getCore _ (hstatus _)))
  rw [he] at hframe
  exact Triple.bind hframe fun _ => triple_enterHandler type

/-- `BRK` and `COP` in emulation mode. -/
theorem triple_perform_interrupt (hR : ∀ a : Byte, R (((1 : Byte) ++ a).setWidth 32))
    (he : c.modeEmulation = true) (hlen : vs.length + 3 ≤ 2 ^ 8) {type : InterruptType} {op : Op}
    (hop : op.exec = (do addIp (β := β) 2; doInterrupt type)) (hskip : type.skip = 2) :
    Triple (At .page1 ram base c vs) (perform op) fun _ m =>
      At .page1 ram base m.core ((OldPair.interrupt type).pushed c ++ vs) m := by
  have he' : (c.addIp 2).modeEmulation = true := he
  have h : Triple (At .page1 ram base (c.addIp 2) vs) (doInterrupt type) fun _ m =>
      At .page1 ram base m.core (type.pushedStatus true (c.addIp 2).getStatusRegister ::
        lo (c.addIp 2).pc :: hi (c.addIp 2).pc :: vs) m :=
    triple_doInterrupt_page1 hR he' hlen type
  have hexec : Triple (At .page1 ram base c vs) op.exec fun _ m => ∃ c',
      At .page1 ram base c' ((OldPair.interrupt type).pushed c ++ vs) m ∧ True := by
    rw [hop, OldPair.pushed, hskip]
    exact (Triple.bind (triple_update rfl) fun _ => h).conseq (fun _ hm => hm)
      fun _ m hm => ⟨m.core, hm, trivial⟩
  exact (triple_perform_of (F := fun _ => True) hexec).conseq (fun _ hm => hm) fun _ _ hm => hm.1

theorem Core.addIp_zero (c : Core) : c.addIp 0 = c := by
  have h : c.ip + 0 = c.ip := BitVec.add_zero _
  rw [addIp, h]

/-! ### One pair -/

theorem at_old {mode : Mode} (h : mode = .emulation ∨ mode = .native6502) :
    (execOps mode).at 0x48 = some (.push .a .u8) ∧ (execOps mode).at 0x08 = some .php ∧
      (execOps mode).at 0x20 = some .jsrAbs ∧ (execOps mode).at 0x00 = some .brk := by
  rcases h with rfl | rfl
  · exact ⟨rfl, rfl, rfl, rfl⟩
  · exact ⟨rfl, rfl, rfl, rfl⟩

theorem OldPair.at_pullOpcode (k : OldPair) {mode : Mode}
    (h : mode = .emulation ∨ mode = .native6502) :
    (execOps mode).at k.pullOpcode = some k.pullOp := by
  rcases h with rfl | rfl
  · cases k <;> rfl
  · cases k <;> rfl

theorem OldPair.length_pushed (k : OldPair) (c : Core) : (k.pushed c).length = k.size := by
  cases k <;> rfl

/-- The first step of a pair. -/
theorem OldPair.pushes {k : OldPair} {s s' : Machine β}
    (hR : ∀ a : Byte, R (((1 : Byte) ++ a).setWidth 32)) (hs : At .page1 ram base s.core vs s)
    (hlen : vs.length + k.size ≤ 256) (h : k.Opens s s') :
    At .page1 ram base s'.core (k.pushed s.core ++ vs) s' := by
  have he : s.core.modeEmulation = true := hs.good.modeEmulation
  have hmode := hs.good.coherent.mode_emulation he
  obtain ⟨hpha, hphp, hjsr, hbrk⟩ := at_old hmode
  have hany : ∀ {vs' : List Byte} {op : Op} {c' : Core},
      Triple (At .page1 ram base s.core vs) op.exec (fun _ => At .page1 ram base c' vs') →
      Triple (At .page1 ram base s.core vs) (perform op)
        fun _ m => At .page1 ram base m.core vs' m := fun h =>
    (triple_perform h).conseq (fun _ hm => hm) fun _ _ hm => hm.of_core
  cases k with
  | pha => exact h.post hs hpha (hany (triple_opPush hR .a hlen))
  | php => exact h.post hs hphp (hany (triple_opPhp hR hlen))
  | jsr =>
    have hexec : Triple (At .page1 ram base s.core vs) Op.jsrAbs.exec fun _ m => ∃ c',
        At .page1 ram base c' (OldPair.jsr.pushed s.core ++ vs) m ∧ True :=
      (triple_opJsr hR .abs hlen).conseq (fun _ hm => hm) fun _ _ hm => by
        obtain ⟨addr, hat⟩ := hm
        exact ⟨_, hat, trivial⟩
    exact (h.post hs hjsr (triple_perform_of (F := fun _ => True) hexec)).1
  | interrupt type =>
    cases type with
    | brk => exact h.post hs hbrk (triple_perform_interrupt hR he hlen rfl rfl)
    | cop =>
      rcases hmode with hmode | hmode
      · have hcop : (execOps s.core.mode).at 0x02 = some .cop := by
          rw [hmode]
          rfl
        exact h.post hs hcop (triple_perform_interrupt hR he hlen rfl rfl)
      · have hnone : s.handler = none := by
          rw [handler, hs.good.coherent.instructionSet, h.1, hmode]
          rfl
        have hsome := h.2
        rw [emulateInstruction, hnone] at hsome
        cases hsome
    | irq =>
      cases h
      rw [OldPair.pushed, InterruptType.skip, Core.addIp_zero]
      exact triple_doInterrupt_page1 hR he hlen .irq s hs
    | nmi =>
      cases h
      rw [OldPair.pushed, InterruptType.skip, Core.addIp_zero]
      exact triple_doInterrupt_page1 hR he hlen .nmi s hs

/-! ### Pulls -/

theorem fits_page1 {c : Core} (hg : StackView.page1.Good c)
    (h : ∀ i < 2, lo c.sp + 1 + BitVec.ofNat 8 i ≠ 0) : StackView.page1.Fits c .u16 := by
  have hne : ∀ {b : Byte}, b + 1 ≠ 0 → b ≠ 0xFF := by
    intro b hb e
    rw [e] at hb
    exact hb rfl
  have h0 := h 0 (by decide)
  have h1 := h 1 (by decide)
  have hpos : lo c.incSp.sp = lo c.sp + 1 := hg.incSp.2
  rw [BitVec.add_zero] at h0
  refine ⟨hne h0, hne ?_⟩
  rw [hpos]
  exact h1

/-- The status register reads back all bits but 4 and 5. -/
theorem Core.statusBits {c : Core} (hc : c.Coherent) (v : Byte) :
    (c.setStatusRegister v).getStatusRegister &&& 0xCF = v &&& 0xCF := by
  rw [getStatusRegister_setStatusRegister hc]
  split
  · rw [BitVec.and_or_distrib_right]
    exact BitVec.or_zero
  · rfl

theorem Core.getStatusRegister_count (c : Core) : c.count.getStatusRegister = c.getStatusRegister :=
  rfl

/-- What `RTI` does after the pull of the status leaves the status alone. -/
theorem Core.getStatusRegister_pullPc (c : Core) (pc : Word) :
    (c.incSp.incSp.setIp (pc.setWidth 32)).count.getStatusRegister = c.getStatusRegister :=
  rfl

theorem Core.pc_setIp (c : Core) (pc : Word) : (c.setIp (pc.setWidth 32)).count.pc = pc := by
  simp [setIp, count, Core.pc]

/-- `RTI` in emulation mode. -/
theorem triple_rti_page1 (hg : StackView.page1.Good c) (status : Byte) (pc : Word)
    (hclear : ∀ i < 3, lo c.sp + 1 + BitVec.ofNat 8 i ≠ 0) :
    Triple (At .page1 ram base c (status :: lo pc :: hi pc :: vs)) Op.rti.exec fun _ =>
      At .page1 ram base ((c.incSp.setStatusRegister status).incSp.incSp.setIp (pc.setWidth 32))
        vs := by
  have hk := StackView.keeps_setStatusRegister hg.coherent.incSp status
  have hgu := hg.incSp.1.keeps hk
  have hlo : lo (c.incSp.setStatusRegister status).sp = lo c.sp + 1 := by
    rw [hk.sp]
    exact hg.incSp.2
  have hfits : StackView.page1.popFits c.sp := by
    intro e
    refine hclear 0 (by decide) ?_
    rw [e]
    rfl
  refine triple_opRti status pc hfits (fits_page1 hgu fun i hi => ?_) ?_
  · rw [hlo, add_one_add_ofNat]
    exact hclear (i + 1) (Nat.succ_lt_succ hi)
  · generalize c.incSp.setStatusRegister status = u at hgu ⊢
    have he : (u.incSp.incSp.setIp (pc.setWidth 32)).modeEmulation = true := hgu.modeEmulation
    exact bind_getCore _ (Triple.when_not (by rw [he]; rfl) fun _ h => h)

/-- The second step of a pair whose first was taken in `c₀`. -/
theorem OldPair.triple_pull (k : OldPair) {c₀ : Core} (hg : StackView.page1.Good c)
    (hclear : k.Clear c) :
    Triple (At .page1 ram base c (k.pushed c₀ ++ vs)) (perform k.pullOp) fun _ m =>
      At .page1 ram base m.core vs m ∧ k.Value c₀ m.core := by
  refine triple_perform_of (F := fun c' => k.Value c₀ c') ?_
  cases k with
  | pha =>
    have hval : (c.pulled .a (s := .u8) (lo c₀.a)).count.get .a .u8 = lo c₀.a :=
      (Core.get_counted _ .a _).trans (Core.get_set _ .a .u8 _)
    exact triple_exists (triple_opPop (r := .a) (s := .u8) nofun fun h => absurd h (by simp)) hval
  | php =>
    refine triple_exists (triple_opPlp c₀.getStatusRegister) ?_
    rw [Value, Core.getStatusRegister_count]
    exact Core.statusBits (hg.coherent.incSp.setIp _) _
  | jsr => exact triple_exists (triple_opRts _ (fits_page1 hg hclear)) (c₀.pc_returnAddr 3)
  | interrupt type =>
    refine triple_exists (triple_rti_page1 hg _ _ hclear) ⟨?_, Core.pc_setIp _ _⟩
    rw [Core.getStatusRegister_pullPc, Core.statusBits hg.coherent.incSp]
    exact type.pushedStatus_and _

/-! ### Any nesting -/

theorem oldStack_sound (hR : ∀ a : Byte, R (((1 : Byte) ++ a).setWidth 32)) (base : Byte) :
    ((oldStack ram).restrict fun k t => k.Clear t.core).Sound 256
      (fun vs s => At .page1 ram base s.core vs s) (fun _ _ => True)
      fun k s _ t' => k.Restored s.core t'.core where
  trans _ _ := trivial
  link hs h := ⟨h.at hs, trivial⟩
  pair := by
    intro vs k s s' hs hopen hcap
    refine ⟨k.pushed s.core, k.length_pushed _, OldPair.pushes hR hs hcap hopen,
      fun t t' ht _ hclose => ?_⟩
    have hgt := ht.good
    obtain ⟨hat, hvalue⟩ := hclose.1.post ht
      (k.at_pullOpcode (hgt.coherent.mode_emulation hgt.modeEmulation))
      (k.triple_pull hgt hclose.2)
    exact ⟨hat, trivial, hvalue, hs.sp_eq hat rfl⟩

/-- **Every pair gives back what it took**, where no byte that an `RTS` or `RTI` pulls is at
`0x0100`.  `x` is a well-nested run from a state in emulation mode with SP in page 1, in which at
most 256 bytes are on the stack at a time. -/
theorem oldStack_restores (ram : PlainRam β R) (hR : ∀ a : Byte, R (((1 : Byte) ++ a).setWidth 32))
    (x : Trace OldPair (Machine β)) (hc : x.first.core.Coherent)
    (he : x.first.core.modeEmulation = true) (hpage : hi x.first.core.sp = 1)
    (hok : ram.ok x.first.bus) (hx : x.Follows (oldStack ram) 0)
    (hcap : x.height (oldStack ram) ≤ 256)
    (hclear : x.ForPairs fun k _ t _ => k.Clear t.core) :
    x.ForPairs (fun k s _ t' => k.Restored s.core t'.core) ∧
      x.last.core.sp = x.first.core.sp := by
  have hstart : At .page1 ram (lo x.first.core.sp) x.first.core [] x.first :=
    ⟨rfl, hok, ⟨hc, he, hpage⟩, trivial, BitVec.add_zero _⟩
  have hcap' : ([] : List Byte).length +
      x.height ((oldStack ram).restrict fun k t => k.Clear t.core) ≤ 256 := by
    rw [List.length_nil, Trace.height_restrict]
    omega
  obtain ⟨hend, -, hpairs⟩ := (oldStack_sound hR _).trace x hstart (hx.restrict hclear) hcap'
  exact ⟨hpairs, hstart.sp_eq hend rfl⟩

/-- `JSR $0203`, and there `RTS`, in emulation mode. -/
def Machine.callingAt (sp : Word) : Machine (SystemBus Unit) :=
  let m := construct default (SystemBus.simple 24 (SystemBus.program [0x20, 0x03, 0x02, 0x60]))
  { m with core := { m.core with ip := 0x200, sp := sp } }

theorem Machine.coherent_callingAt (sp : Word) : (callingAt sp).core.Coherent :=
  have h : (construct default (SystemBus.simple 24
      (SystemBus.program [0x20, 0x03, 0x02, 0x60]))).core.Coherent := Core.coherent_onUpdateMode _
  ⟨h.native6502, h.emulation, h.mode, h.instructionSet⟩

theorem page1_lt (a : Byte) : (((1 : Byte) ++ a).setWidth 32 : CpuAddr) < 0x1000000 := by
  bv_omega

/-- A call and its return are a run of the discipline. -/
theorem follows_call {m₀ m₁ m₂ : Machine β} (hR : ∀ a : Byte, R (((1 : Byte) ++ a).setWidth 32))
    (hc : m₀.core.Coherent) (he : m₀.core.modeEmulation = true) (hpage : hi m₀.core.sp = 1)
    (hok : ram.ok m₀.bus) (h₁ : Executes 0x20 m₀ m₁) (h₂ : Executes 0x60 m₁ m₂) :
    (Trace.pair .jsr m₀ m₁ (.link m₁ m₁) m₁ m₂).Follows (oldStack ram) 0 := by
  have hstart : At .page1 ram (lo m₀.core.sp) m₀.core [] m₀ :=
    ⟨rfl, hok, ⟨hc, he, hpage⟩, trivial, BitVec.add_zero _⟩
  have hm₁ := OldPair.pushes (k := .jsr) hR hstart (by decide) h₁
  exact ⟨h₁, rfl, ⟨.refl, hm₁.good.modeEmulation, hm₁.ok, rfl, fun _ _ => rfl⟩, rfl, h₂⟩

theorem oldStack_jsr : ∃ m, Run Machine.step (fun _ _ => True) (callingAt 0x01FF) m ∧
    m.core.pc = 0x203 ∧ m.core.sp = 0x01FF := by
  have h₁ : Executes 0x20 (callingAt 0x01FF) (callingAt 0x01FF).next :=
    executes_next (by decide +kernel)
  have h₂ : Executes 0x60 (callingAt 0x01FF).next (callingAt 0x01FF).next.next :=
    executes_next (by decide +kernel)
  have hlo : lo (callingAt 0x01FF).next.core.sp = 0xFD := by decide +kernel
  have hok : SystemBus.simpleRam.ok (callingAt 0x01FF).bus := SystemBus.ok_simpleRam _
  have hc := coherent_callingAt 0x01FF
  have he : (callingAt 0x01FF).core.modeEmulation = true := by decide +kernel
  have hsp : (callingAt 0x01FF).core.sp = 0x01FF := rfl
  have hpc : (callingAt 0x01FF).core.pc + 3 = 0x203 := rfl
  generalize (callingAt 0x01FF).next.next = m₂ at *
  generalize (callingAt 0x01FF).next = m₁ at *
  generalize callingAt 0x01FF = m₀ at *
  have hpage : hi m₀.core.sp = 1 := by
    rw [hsp]
    rfl
  have hclear : OldPair.jsr.Clear m₁.core := by
    rw [OldPair.Clear, hlo]
    decide
  obtain ⟨hpairs, hend⟩ := oldStack_restores SystemBus.simpleRam page1_lt
    (.pair .jsr m₀ m₁ (.link m₁ m₁) m₁ m₂) hc he hpage hok
    (follows_call page1_lt hc he hpage hok h₁ h₂) (by simp [Trace.height, oldStack, OldPair.size])
    ⟨hclear, trivial⟩
  exact ⟨m₂, .tail .emulateInstruction (.tail .emulateInstruction .refl trivial h₁.2) trivial h₂.2,
    hpairs.1.value.trans hpc, hend.trans hsp⟩

/-- With SP at `0x0100` the call returns to `0x2003`. -/
theorem oldStack_fails : ∃ x : Trace OldPair (Machine (SystemBus Unit)),
    x.first.core.Coherent ∧ x.first.core.modeEmulation = true ∧ hi x.first.core.sp = 1 ∧
      SystemBus.simpleRam.ok x.first.bus ∧ x.Follows (oldStack SystemBus.simpleRam) 0 ∧
      x.height (oldStack SystemBus.simpleRam) ≤ 256 ∧
      ¬x.ForPairs fun k s _ t' => k.Restored s.core t'.core := by
  have h₁ : Executes 0x20 (callingAt 0x0100) (callingAt 0x0100).next :=
    executes_next (by decide +kernel)
  have h₂ : Executes 0x60 (callingAt 0x0100).next (callingAt 0x0100).next.next :=
    executes_next (by decide +kernel)
  have hpc : (callingAt 0x0100).next.next.core.pc ≠ (callingAt 0x0100).core.pc + 3 := by
    decide +kernel
  have hok : SystemBus.simpleRam.ok (callingAt 0x0100).bus := SystemBus.ok_simpleRam _
  have hc := coherent_callingAt 0x0100
  have he : (callingAt 0x0100).core.modeEmulation = true := by decide +kernel
  have hpage : hi (callingAt 0x0100).core.sp = 1 := rfl
  generalize (callingAt 0x0100).next.next = m₂ at *
  generalize (callingAt 0x0100).next = m₁ at *
  generalize callingAt 0x0100 = m₀ at *
  refine ⟨.pair .jsr m₀ m₁ (.link m₁ m₁) m₁ m₂, hc, he, hpage, hok,
    follows_call page1_lt hc he hpage hok h₁ h₂, by simp [Trace.height, oldStack, OldPair.size],
    fun h => hpc h.1.value⟩

end RetroCpu
