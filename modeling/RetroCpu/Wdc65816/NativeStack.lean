import RetroCpu.Lib.Nested
import RetroCpu.Wdc65816.InterruptReturn

/-!
# Calls and pushes in native mode

In native mode a call and its return, or a push and its pull, may be nested to any
depth as long as the 65536 bytes of bank 0 hold what is on the stack.  Whatever
happens in between has to leave SP, the program bank and the live bytes alone, and
the width of A, X or Y has to be that of the push.

`nativeStack` is that discipline.  One rule says what a pair gives back, given what
its body keeps, and `Discipline.Sound.trace` carries it to every pair of a run.
-/

namespace RetroCpu

open WordBytes Machine StateFn

/-- The pairs of instructions that use the stack in native mode. -/
inductive StackPair
  | jsr
  | jsrIndabsx
  | jsl
  | pha
  | phx
  | phy
  | phd
  | phb
  | php
  deriving DecidableEq, Repr

namespace StackPair

def pushOpcode : StackPair → Byte
  | jsr => 0x20
  | jsrIndabsx => 0xFC
  | jsl => 0x22
  | pha => 0x48
  | phx => 0xDA
  | phy => 0x5A
  | phd => 0x0B
  | phb => 0x8B
  | php => 0x08

def pullOpcode : StackPair → Byte
  | jsr | jsrIndabsx => 0x60
  | jsl => 0x6B
  | pha => 0x68
  | phx => 0xFA
  | phy => 0x7A
  | phd => 0x2B
  | phb => 0xAB
  | php => 0x28

def pushOp (mode : Mode) : StackPair → Op
  | jsr => .jsrAbs
  | jsrIndabsx => .jsrIndabsx
  | jsl => .jsrLong
  | pha => .push .a mode.sizeA
  | phx => .push .x mode.sizeXy
  | phy => .push .y mode.sizeXy
  | phd => .push .d .u16
  | phb => .phb
  | php => .php

def pullOp (mode : Mode) : StackPair → Op
  | jsr | jsrIndabsx => .rts false
  | jsl => .rts true
  | pha => .pop .a mode.sizeA
  | phx => .pop .x mode.sizeXy
  | phy => .pop .y mode.sizeXy
  | phd => .pop .d .u16
  | phb => .plb
  | php => .plp

theorem at_pushOpcode (k : StackPair) (longA longXy : Bool) :
    (execOps (.ofWidths longA longXy)).at k.pushOpcode =
      some (k.pushOp (.ofWidths longA longXy)) := by
  cases k <;> cases longA <;> cases longXy <;> rfl

theorem at_pullOpcode (k : StackPair) (longA longXy : Bool) :
    (execOps (.ofWidths longA longXy)).at k.pullOpcode =
      some (k.pullOp (.ofWidths longA longXy)) := by
  cases k <;> cases longA <;> cases longXy <;> rfl

/-- How many bytes the first instruction of the pair pushes. -/
def size (k : StackPair) (mode : Mode) : ℕ :=
  match k with
  | jsr | jsrIndabsx | phd => 2
  | jsl => 3
  | pha => mode.sizeA.bytes
  | phx | phy => mode.sizeXy.bytes
  | phb | php => 1

def pushed (k : StackPair) (c : Core) : List Byte :=
  match k with
  | jsr | jsrIndabsx => [lo (c.returnAddr 3), hi (c.returnAddr 3)]
  | jsl => [lo (c.returnAddr 4), hi (c.returnAddr 4), c.programBank]
  | pha => c.mode.sizeA.toBytes (c.get .a c.mode.sizeA)
  | phx => c.mode.sizeXy.toBytes (c.get .x c.mode.sizeXy)
  | phy => c.mode.sizeXy.toBytes (c.get .y c.mode.sizeXy)
  | phd => [lo c.d, hi c.d]
  | phb => [c.dataBank]
  | php => [c.getStatusRegister]

theorem length_pushed (k : StackPair) (c : Core) : (k.pushed c).length = k.size c.mode := by
  cases k with
  | pha => exact Size.length_toBytes _ _
  | phx => exact Size.length_toBytes _ _
  | phy => exact Size.length_toBytes _ _
  | _ => rfl

def SameWidth (k : StackPair) (c c' : Core) : Prop :=
  match k with
  | pha => c'.modeLongA = c.modeLongA
  | phx | phy => c'.modeLongXy = c.modeLongXy
  | _ => True

def Value (k : StackPair) (c c' : Core) : Prop :=
  match k with
  | jsr | jsrIndabsx => c'.pc = c.pc + 3
  | jsl => c'.pc = c.pc + 4
  | pha => c'.get .a c.mode.sizeA = c.get .a c.mode.sizeA
  | phx => c'.get .x c.mode.sizeXy = c.get .x c.mode.sizeXy
  | phy => c'.get .y c.mode.sizeXy = c.get .y c.mode.sizeXy
  | phd => c'.d = c.d
  | phb => c'.dataBank = c.dataBank
  | php => c'.getStatusRegister = c.getStatusRegister

structure Restored (k : StackPair) (c c' : Core) : Prop where
  value : k.Value c c'
  programBank : c'.programBank = c.programBank
  sp : c'.sp = c.sp

end StackPair

theorem Mode.sizeA_ofWidths (longA longXy longXy' : Bool) :
    (ofWidths longA longXy).sizeA = (ofWidths longA longXy').sizeA := by
  cases longA <;> cases longXy <;> cases longXy' <;> rfl

theorem Mode.sizeXy_ofWidths (longA longA' longXy : Bool) :
    (ofWidths longA longXy).sizeXy = (ofWidths longA' longXy).sizeXy := by
  cases longA <;> cases longA' <;> cases longXy <;> rfl

theorem Core.Coherent.sizeA_eq {c c' : Core} (hc : c.Coherent) (he : c.modeEmulation = false)
    (hc' : c'.Coherent) (he' : c'.modeEmulation = false) (h : c'.modeLongA = c.modeLongA) :
    c'.mode.sizeA = c.mode.sizeA := by
  rw [hc.mode_native he, hc'.mode_native he', h]
  exact Mode.sizeA_ofWidths _ _ _

theorem Core.Coherent.sizeXy_eq {c c' : Core} (hc : c.Coherent) (he : c.modeEmulation = false)
    (hc' : c'.Coherent) (he' : c'.modeEmulation = false) (h : c'.modeLongXy = c.modeLongXy) :
    c'.mode.sizeXy = c.mode.sizeXy := by
  rw [hc.mode_native he, hc'.mode_native he', h]
  exact Mode.sizeXy_ofWidths _ _ _

/-- The address after the last byte of an instruction of `kBytes` bytes. -/
theorem Core.pc_returnAddr (c : Core) (kBytes : CpuAddr) :
    ((c.returnAddr kBytes).setWidth 32 + 1 : CpuAddr).setWidth 16 =
      c.pc + kBytes.setWidth 16 := by
  rw [returnAddr, Core.pc]
  bv_omega

theorem Core.dataBank_setDataBank (c : Core) (bank : Byte) :
    (((c.setDataBank bank).setNZ bank).addIp 1).count.dataBank = bank :=
  bank_shift bank

theorem Core.programBank_down (c : Core) (s : Size) :
    ((c.down s).addIp 1).count.programBank = c.programBank := by
  cases s <;> rfl

theorem Core.programBank_pulled (c : Core) {r : Reg} (hr : r ≠ .sp) {s : Size} (v : Val s) :
    (c.pulled r v).count.programBank = c.programBank := by
  cases r with
  | sp => exact absurd rfl hr
  | a => cases s <;> rfl
  | x => cases s <;> rfl
  | y => cases s <;> rfl
  | d => cases s <;> rfl

theorem Core.programBank_setStatusRegister {c : Core} (hc : c.Coherent) (v : Byte) :
    (c.setStatusRegister v).programBank = c.programBank := by
  rw [setStatusRegister_eq hc]
  rfl

variable {β : Type} [Bus β] {R : CpuAddr → Prop} {ram : PlainRam β R} {base : Word} {c : Core}
  {vs : List Byte}

/-! ### One pair -/

/-- The first instruction of a pair. -/
theorem StackPair.triple_push (k : StackPair) (hR : ∀ a : Word, R (a.setWidth 32))
    (hlen : vs.length + k.size c.mode ≤ 2 ^ 16) :
    Triple (At .native ram base c vs) (perform (k.pushOp c.mode)) fun _ m =>
      At .native ram base m.core (k.pushed c ++ vs) m ∧
        (k ≠ .jsl → m.core.programBank = c.programBank) := by
  refine triple_perform_of (F := fun c' => k ≠ .jsl → c'.programBank = c.programBank) ?_
  cases k with
  | jsr =>
    exact (triple_opJsr hR _ hlen).conseq (fun _ h => h) fun _ _ ⟨_, h⟩ => ⟨_, h, fun _ => rfl⟩
  | jsrIndabsx =>
    exact (triple_opJsr hR _ hlen).conseq (fun _ h => h) fun _ _ ⟨_, h⟩ => ⟨_, h, fun _ => rfl⟩
  | jsl =>
    exact (triple_opJsl hR _ hlen).conseq (fun _ h => h) fun _ _ ⟨_, _, h⟩ =>
      ⟨_, h, fun hk => absurd rfl hk⟩
  | pha => exact triple_exists (triple_opPush hR .a hlen) fun _ => Core.programBank_down _ _
  | phx => exact triple_exists (triple_opPush hR .x hlen) fun _ => Core.programBank_down _ _
  | phy => exact triple_exists (triple_opPush hR .y hlen) fun _ => Core.programBank_down _ _
  | phd => exact triple_exists (triple_opPush hR .d hlen) fun _ => rfl
  | phb => exact triple_exists (triple_opPhb hR hlen) fun _ => rfl
  | php => exact triple_exists (triple_opPhp hR hlen) fun _ => rfl

/-- The second instruction of a pair whose first was executed in `c₀`. -/
theorem StackPair.triple_pull (k : StackPair) {c₀ : Core} (hc₀ : c₀.Coherent)
    (he₀ : c₀.modeEmulation = false) (hc : c.Coherent) (he : c.modeEmulation = false)
    (hw : k.SameWidth c₀ c) (hbank : k ≠ .jsl → c.programBank = c₀.programBank) :
    Triple (At .native ram base c (k.pushed c₀ ++ vs)) (perform (k.pullOp c.mode)) fun _ m =>
      At .native ram base m.core vs m ∧ k.Value c₀ m.core ∧
        m.core.programBank = c₀.programBank := by
  refine triple_perform_of
    (F := fun c' => k.Value c₀ c' ∧ c'.programBank = c₀.programBank) ?_
  have hkeep : ∀ {c' : Core}, k ≠ .jsl → c'.programBank = c.programBank →
      c'.programBank = c₀.programBank := fun hk h => h.trans (hbank hk)
  have hreg : ∀ (r : Reg) (s : Size), r ≠ .sp → k ≠ .jsl →
      Triple (At .native ram base c (s.toBytes (c₀.get r s) ++ vs)) (Op.pop r s).exec
        fun _ m => ∃ c', At .native ram base c' vs m ∧
          c'.count.get r s = c₀.get r s ∧ c'.count.programBank = c₀.programBank := by
    intro r s hr hk
    refine triple_exists (triple_opPop hr fun _ => StackView.fits_native _ _)
      ⟨(Core.get_counted _ r _).trans (Core.get_set _ r s _), hkeep hk ?_⟩
    exact Core.programBank_pulled c hr _
  cases k with
  | jsr =>
    exact triple_exists (triple_opRts _ (StackView.fits_native _ _))
      ⟨c₀.pc_returnAddr 3, hkeep nofun rfl⟩
  | jsrIndabsx =>
    exact triple_exists (triple_opRts _ (StackView.fits_native _ _))
      ⟨c₀.pc_returnAddr 3, hkeep nofun rfl⟩
  | jsl =>
    exact triple_exists (triple_opRtl _ c₀.programBank (StackView.fits_native _ _) trivial)
      ⟨c₀.pc_returnAddr 4, Core.bank_shift c₀.programBank⟩
  | pha =>
    have hs := hc₀.sizeA_eq he₀ hc he hw
    show Triple _ (Op.pop .a c.mode.sizeA).exec _
    rw [hs]
    exact hreg .a _ nofun nofun
  | phx =>
    have hs := hc₀.sizeXy_eq he₀ hc he hw
    show Triple _ (Op.pop .x c.mode.sizeXy).exec _
    rw [hs]
    exact hreg .x _ nofun nofun
  | phy =>
    have hs := hc₀.sizeXy_eq he₀ hc he hw
    show Triple _ (Op.pop .y c.mode.sizeXy).exec _
    rw [hs]
    exact hreg .y _ nofun nofun
  | phd => exact hreg .d .u16 nofun nofun
  | phb =>
    exact triple_exists (triple_opPlb c₀.dataBank trivial)
      ⟨Core.dataBank_setDataBank _ _, hkeep nofun rfl⟩
  | php =>
    have hst := Core.getStatusRegister_setStatusRegister_native
      (c := c.incSp.addIp 1) (hc.incSp.setIp _) he c₀.getStatusRegister
    refine triple_exists (triple_opPlp c₀.getStatusRegister) ⟨hst, hkeep nofun ?_⟩
    exact Core.programBank_setStatusRegister (c := c.incSp.addIp 1) (hc.incSp.setIp _) _

/-! ### Any nesting -/

def nativeStack (ram : PlainRam β R) : Discipline StackPair (Machine β) where
  size k s := k.size s.core.mode
  link d s t := Undisturbed .native ram d s t ∧ t.core.programBank = s.core.programBank
  opens k s s' := Executes k.pushOpcode s s'
  closes k s t t' := Executes k.pullOpcode t t' ∧ k.SameWidth s.core t.core

theorem nativeStack_sound (hR : ∀ a : Word, R (a.setWidth 32)) (base : Word) :
    (nativeStack ram).Sound 65536 (fun vs s => At .native ram base s.core vs s)
      (fun s t => t.core.programBank = s.core.programBank)
      fun k s _ t' => k.Restored s.core t'.core where
  trans h h' := h'.trans h
  link hs h := ⟨h.1.at hs, h.2⟩
  pair := by
    intro vs k s s' hs hopen hcap
    have hc := hs.good.coherent
    have he := hs.good.modeEmulation
    have hpush := hopen.post hs (by rw [hc.mode_native he]; exact k.at_pushOpcode _ _)
      (k.triple_push hR hcap)
    refine ⟨k.pushed s.core, k.length_pushed _, hpush.1, fun t t' ht hframe hclose => ?_⟩
    have hct := ht.good.coherent
    have het := ht.good.modeEmulation
    obtain ⟨hat, hvalue, hbank⟩ := hclose.1.post ht
      (by rw [hct.mode_native het]; exact k.at_pullOpcode _ _)
      (k.triple_pull hc he hct het hclose.2 fun hk => hframe.trans (hpush.2 hk))
    exact ⟨hat, hbank, hvalue, hbank, hs.sp_eq hat rfl⟩

/-- **Every pair gives back what it took, at any depth.**  `x` is a well-nested run from a state in
native mode with any SP, in which at most 65536 bytes are on the stack at a time. -/
theorem nativeStack_restores (ram : PlainRam β R) (hR : ∀ a : Word, R (a.setWidth 32))
    (x : Trace StackPair (Machine β)) (hc : x.first.core.Coherent)
    (he : x.first.core.modeEmulation = false) (hok : ram.ok x.first.bus)
    (hx : x.Follows (nativeStack ram) 0) (hcap : x.height (nativeStack ram) ≤ 65536) :
    x.ForPairs (fun k s _ t' => k.Restored s.core t'.core) ∧
      x.last.core.sp = x.first.core.sp := by
  have hstart : At .native ram x.first.core.sp x.first.core [] x.first :=
    ⟨rfl, hok, ⟨hc, he, trivial⟩, trivial, BitVec.add_zero _⟩
  have hcap' : ([] : List Byte).length + x.height (nativeStack ram) ≤ 65536 := by
    rw [List.length_nil]
    omega
  obtain ⟨hend, -, hpairs⟩ := (nativeStack_sound hR _).trace x hstart hx hcap'
  exact ⟨hpairs, hstart.sp_eq hend rfl⟩

/-- `JSR $0205`, and there `PHA`, `PLA`, `RTS`, in native mode with SP at the bottom of bank 0. -/
def Machine.calling : Machine (SystemBus Unit) :=
  let m := construct default
    (SystemBus.simple 24 (SystemBus.program [0x20, 0x05, 0x02, 0x00, 0x00, 0x48, 0x68, 0x60]))
  { m with core :=
    ({ m.core with ip := 0x200, sp := 0x0001, modeEmulation := false }).onUpdateMode }

theorem nativeStack_calling : ∃ m, Run Machine.step (fun _ _ => True) calling m ∧
    m.core.pc = 0x203 ∧ m.core.sp = 0x0001 := by
  have h₁ : Executes 0x20 calling calling.next := executes_next (by decide +kernel)
  have h₂ : Executes 0x48 calling.next calling.next.next := executes_next (by decide +kernel)
  have h₃ : Executes 0x68 calling.next.next calling.next.next.next :=
    executes_next (by decide +kernel)
  have h₄ : Executes 0x60 calling.next.next.next calling.next.next.next.next :=
    executes_next (by decide +kernel)
  have hmode : calling.next.core.mode.sizeA.bytes = 1 := by decide +kernel
  have hw : calling.next.next.core.modeLongA = calling.next.core.modeLongA := by decide +kernel
  have hc : calling.core.Coherent := Core.coherent_onUpdateMode _
  have he : calling.core.modeEmulation = false := by decide +kernel
  have hpc : calling.core.pc + 3 = 0x203 := by decide +kernel
  have hsp : calling.core.sp = 0x0001 := by decide +kernel
  have hok : SystemBus.simpleRam.ok calling.bus := SystemBus.ok_simpleRam _
  have hR : ∀ a : Word, (a.setWidth 32 : CpuAddr) < 0x1000000 := fun a => by bv_omega
  generalize calling.next.next.next.next = m₄ at *
  generalize calling.next.next.next = m₃ at *
  generalize calling.next.next = m₂ at *
  generalize calling.next = m₁ at *
  generalize calling = m₀ at *
  have hm₀ : At .native SystemBus.simpleRam m₀.core.sp m₀.core [] m₀ :=
    ⟨rfl, hok, ⟨hc, he, trivial⟩, trivial, BitVec.add_zero _⟩
  obtain ⟨bytes₁, hlen₁, hm₁, -⟩ := (nativeStack_sound hR m₀.core.sp).pair (k := .jsr) hm₀ h₁
    (by simp [nativeStack, StackPair.size])
  have hlen : bytes₁.length = 2 := hlen₁
  obtain ⟨bytes₂, -, hm₂, -⟩ := (nativeStack_sound hR m₀.core.sp).pair (k := .pha) hm₁ h₂
    (by simp [nativeStack, StackPair.size, hlen, hmode])
  have hlink : Undisturbed .native SystemBus.simpleRam
      (0 + 2 + (nativeStack SystemBus.simpleRam).size .pha m₁) m₂ m₂ :=
    ⟨.refl, hm₂.good.modeEmulation, hm₂.ok, rfl, fun _ _ => rfl⟩
  obtain ⟨hpairs, hend⟩ := nativeStack_restores SystemBus.simpleRam hR
    (.pair .jsr m₀ m₁ (.pair .pha m₁ m₂ (.link m₂ m₂) m₂ m₃) m₃ m₄) hc he hok
    ⟨h₁, rfl, ⟨h₂, rfl, ⟨hlink, rfl⟩, rfl, h₃, hw⟩, rfl, h₄, trivial⟩
    (by simp [Trace.height, nativeStack, StackPair.size, hmode])
  refine ⟨m₄, ?_, hpairs.1.value.trans hpc, hend.trans hsp⟩
  exact Run.tail .emulateInstruction (.tail .emulateInstruction (.tail .emulateInstruction
    (.tail .emulateInstruction .refl trivial h₁.2) trivial h₂.2) trivial h₃.2) trivial h₄.2

end RetroCpu
