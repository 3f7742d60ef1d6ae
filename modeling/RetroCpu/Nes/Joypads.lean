import Mathlib.Algebra.Group.Nat.Defs
import Mathlib.Tactic.Ring
import RetroCpu.Nes.OpenBus

/-!
# The joypads

`UpdateControllers` packs the buttons of each pad into a byte, `Nes` takes the bytes over when the
program lets go of the strobe, and a read of a port shifts one bit out.  `Joypads` says what this
is for: each port has a report, and the program reads its buttons one after the other.

* `controllers_read`, `controllers_write`: no other access reaches the controllers.
* `tracks_event`: an access does to the bus what it does to the joypads.
* `joypads_report`: **a program reads the buttons as they were when it let go of the strobe.**
-/

namespace RetroCpu.Nes

/-! ### The front end -/

/-- The buttons that `UpdateControllers` asks for. -/
inductive Button
  | a
  | b
  | select
  | start
  | up
  | down
  | left
  | right
  deriving DecidableEq

/-- `buttons`, from the lowest bit on. -/
def buttons : List Button := [.a, .b, .select, .start, .up, .down, .left, .right]

/-- What `GetInput` returns for a port and a button. -/
abbrev Pads : Type := Fin 2 → Button → BitVec 16

/-- A round of the loop over `buttons` in `UpdateControllers`. -/
def setSerialBit (pad : Button → BitVec 16) (byte : Byte) (button : Button × ℕ) : Byte :=
  if pad button.1 ≠ 0 then byte ||| (1 : Byte) <<< button.2 else byte

/-- The loop over `buttons`. -/
def serialByte (pad : Button → BitVec 16) : Byte := buttons.zipIdx.foldl (setSerialBit pad) 0

/-- `UpdateControllers`. -/
def updateControllers (pads : Pads) (_input : InputData) : InputData :=
  ⟨fun i => ⟨fun j => if j.val = 0 then (serialByte (pads i)).setWidth 32 else 0⟩⟩

/-- The controllers of a console that `NesLibretro` has initialized. -/
def Controllers.plugged (pads : Pads) : Controllers where
  latch := false
  latchedInputData := ⟨fun _ => ⟨fun _ => 0⟩⟩
  updateControllers := some (Nes.updateControllers pads)

/-! ### What a port is for -/

/-- What a program does on the bus, and what the player does meanwhile. -/
inductive PadEvent
  | read (cycle : BitVec 64) (addr : CpuAddr)
  | write (cycle : BitVec 64) (addr : CpuAddr) (v : Byte)
  | pads (pads : Pads)

def port (addr : CpuAddr) : Option (Fin 2) :=
  if addr &&& 0xFFFF = 0x4016 ∨ addr &&& 0xFFFF = 0x4017 then
    some ((addr &&& 0xFFFF).setWidth 1).toFin
  else none

def PadEvent.OnPorts : PadEvent → Prop
  | .read _ addr => port addr ≠ none
  | .write _ addr _ => addr &&& 0xFFFF = 0x4016
  | .pads _ => True

instance : DecidablePred PadEvent.OnPorts
  | .read _ addr => inferInstanceAs (Decidable (port addr ≠ none))
  | .write _ addr _ => inferInstanceAs (Decidable (addr &&& 0xFFFF = 0x4016))
  | .pads _ => inferInstanceAs (Decidable True)

/-- The joypads.  A report is what a port has still to tell. -/
structure Joypads where
  pads : Pads
  strobe : Bool
  report : Fin 2 → List Bool

namespace Joypads

def pressed (pad : Button → BitVec 16) : List Bool := buttons.map (pad · != 0)

def strobed (j : Joypads) (v : Byte) : Joypads :=
  if v &&& 1 ≠ 0 then { j with strobe := true }
  else if j.strobe then { j with strobe := false, report := fun i => pressed (j.pads i) }
  else j

def told (j : Joypads) (i : Fin 2) : Option Bool × Joypads :=
  (some ((j.report i).headD false),
    { j with report := Function.update j.report i (j.report i).tail })

/-- What an event is to the joypads, and the button that it reads. -/
def event (j : Joypads) : PadEvent → Option Bool × Joypads
  | .read _ addr => (port addr).elim (none, j) j.told
  | .write _ addr v => (none, if addr &&& 0xFFFF = 0x4016 then j.strobed v else j)
  | .pads pads => (none, { j with pads })

@[simp] theorem event_read (j : Joypads) (cycle : BitVec 64) (addr : CpuAddr) :
    j.event (.read cycle addr) = (port addr).elim (none, j) j.told := rfl

end Joypads

namespace NesBus

/-- The player changes what `GetInput` returns. -/
def setPads (b : NesBus) (pads : Pads) : NesBus :=
  { b with controllers := { b.controllers with
      updateControllers := some (updateControllers pads) } }

/-- What an event is to the bus, and the low bits of what is read from a port. -/
def event (b : NesBus) : PadEvent → Option Byte × NesBus
  | .read cycle addr =>
    let r := Bus.readByte b cycle addr
    ((port addr).map fun _ => r.data &&& 0x1F, r.bus)
  | .write cycle addr v => (none, (Bus.writeByte b cycle addr v).bus)
  | .pads pads => (none, b.setPads pads)

@[simp] theorem event_read (b : NesBus) (cycle : BitVec 64) (addr : CpuAddr) :
    b.event (.read cycle addr) =
      ((port addr).map fun _ => (Bus.readByte b cycle addr).data &&& 0x1F,
        (Bus.readByte b cycle addr).bus) := rfl

end NesBus

def answers {σ α : Type} (f : σ → PadEvent → α × σ) : σ → List PadEvent → List α × σ
  | s, [] => ([], s)
  | s, e :: es =>
    let r := f s e
    let rest := answers f r.2 es
    (r.1 :: rest.1, rest.2)

def bit (pressed : Bool) : Byte := if pressed then 1 else 0

/-! ### The bits of a report -/

def weight : List Bool → ℕ
  | [] => 0
  | x :: l => x.toNat + 2 * weight l

structure Device.Holds (d : Device) (report : List Bool) : Prop where
  first : (d.serialBits 0).toNat = weight report
  rest : ∀ j, j ≠ 0 → d.serialBits j = 0

theorem Device.shift_fst {d : Device} (h : ∀ j, j ≠ 0 → d.serialBits j = 0) :
    d.shift.1 = (d.serialBits 0 &&& 1).setWidth 8 := by
  have hrange : List.finRange 5 = [0, 1, 2, 3, 4] := by decide
  unfold shift
  rw [hrange]
  simp [h 1 (by decide), h 2 (by decide), h 3 (by decide), h 4 (by decide)]

theorem weight_mod_two (report : List Bool) :
    weight report % 2 = (report.headD false).toNat := by
  cases report with
  | nil => rfl
  | cons x l =>
    have hx := Bool.toNat_lt x
    rw [weight, List.headD_cons]
    omega

theorem weight_div_two (report : List Bool) : weight report / 2 = weight report.tail := by
  cases report with
  | nil => rfl
  | cons x l =>
    have hx := Bool.toNat_lt x
    rw [weight, List.tail_cons]
    omega

/-- **A shift tells the next button.** -/
theorem Device.Holds.shift {d : Device} {report : List Bool} (h : d.Holds report) :
    d.shift.1 = bit (report.headD false) ∧ d.shift.2.Holds report.tail := by
  refine ⟨?_, ⟨?_, fun j hj => ?_⟩⟩
  · have hlow : (d.serialBits 0 &&& 1).toNat = (report.headD false).toNat := by
      rw [BitVec.toNat_and, h.first, ← weight_mod_two]
      exact Nat.and_one_is_mod _
    rw [shift_fst h.rest, ← BitVec.toNat_inj, BitVec.toNat_setWidth, hlow]
    cases report.headD false <;> rfl
  · show (d.serialBits 0 >>> 1).toNat = _
    rw [BitVec.toNat_ushiftRight, Nat.shiftRight_eq_div_pow, h.first]
    exact weight_div_two report
  · show d.serialBits j >>> 1 = 0
    rw [h.rest j hj]
    rfl

theorem toNat_serialBits (pad : Button → BitVec 16) (l : List Button) {byte : Byte} {k : ℕ}
    (hbyte : byte.toNat < 2 ^ k) (hk : k + l.length ≤ 8) :
    ((l.zipIdx k).foldl (setSerialBit pad) byte).toNat =
      byte.toNat + 2 ^ k * weight (l.map (pad · != 0)) := by
  induction l generalizing byte k with
  | nil => rfl
  | cons x l ih =>
    have hlen : k + 1 + l.length ≤ 8 := by
      rw [List.length_cons] at hk
      omega
    have hpow : 2 ^ (k + 1) = 2 * 2 ^ k := by rw [Nat.pow_succ, Nat.mul_comm]
    rw [List.zipIdx_cons, List.foldl_cons, List.map_cons, weight]
    by_cases hx : pad x = 0
    · have hbit : setSerialBit pad byte (x, k) = byte := if_neg (not_not.mpr hx)
      rw [hbit, ih (by omega) hlen, hx, hpow, bne_self_eq_false, Bool.toNat_false]
      ring
    · have hlt : 2 ^ k < 2 ^ 8 := Nat.pow_lt_pow_right (by decide) (by omega)
      have hone : ((1 : Byte) <<< k).toNat = 2 ^ k := by
        rw [BitVec.toNat_shiftLeft, Nat.shiftLeft_eq]
        show 1 * 2 ^ k % 2 ^ 8 = 2 ^ k
        rw [Nat.one_mul, Nat.mod_eq_of_lt hlt]
      have hbit : (setSerialBit pad byte (x, k)).toNat = 2 ^ k + byte.toNat := by
        rw [setSerialBit, if_pos hx, BitVec.toNat_or, hone, Nat.or_comm]
        have hor := Nat.two_pow_add_eq_or_of_lt hbyte 1
        rw [Nat.mul_one] at hor
        exact hor.symm
      have hne : (pad x != 0) = true := bne_iff_ne.mpr hx
      rw [ih (by omega) hlen, hbit, hne, hpow, Bool.toNat_true]
      ring

/-- `UpdateControllers` writes the report. -/
theorem holds_updateControllers (pads : Pads) (input : InputData) (i : Fin 2) :
    ((updateControllers pads input).devices i).Holds (Joypads.pressed (pads i)) where
  first := by
    have hzero : (0 : Byte).toNat < 2 ^ 0 := by decide
    have h := toNat_serialBits (pads i) buttons hzero (by decide)
    show ((serialByte (pads i)).setWidth 32).toNat = _
    rw [BitVec.toNat_setWidth_of_le (by decide), serialByte, h]
    show 0 + 1 * _ = _
    rw [Nat.one_mul, Nat.zero_add]
    rfl
  rest j hj := if_neg (Fin.val_ne_zero_iff.mpr hj)

/-! ### The controllers on the bus -/

namespace NesBus

variable {b : NesBus} {cycle : BitVec 64} {addr : CpuAddr}

theorem controllers_catchUp (cycle : BitVec 64) (b : NesBus) :
    Outcome (fun b' => b'.controllers = b.controllers) (fun _ => True) (b.catchUp cycle) := by
  unfold catchUp
  cases b.ppu.catchUpToCpu cycle catchUpFuel with
  | none => exact trivial
  | some p => rfl

theorem port_masked (hb : b.Decodes) (addr : CpuAddr) :
    port (addr &&& b.main.memMask) = port addr := by
  unfold port
  rw [hb.memMask, BitVec.and_assoc, BitVec.and_self]

theorem readReg_other {masked : CpuAddr} (hlo : 0x4000 ≤ masked) (hhi : masked ≤ 0x401F)
    (hport : port masked = none) (v : Byte) : b.readReg (masked &&& 0x1F) v = (v, b) := by
  have hsame : masked &&& 0xFFFF = masked := by
    rw [← BitVec.toNat_inj, toNat_and_mask (n := 16) (by decide)]
    bv_omega
  rw [port, hsame] at hport
  have hfirst : masked ≠ 0x4016 := by
    rintro rfl
    cases hport
  have hsecond : masked ≠ 0x4017 := by
    rintro rfl
    cases hport
  rw [readReg, if_neg (mt (reg_eq hlo hhi (by decide) rfl).mp hfirst),
    if_neg (mt (reg_eq hlo hhi (by decide) rfl).mp hsecond)]

/-- **No other read reaches the controllers.** -/
theorem controllers_read (hb : b.Decodes) (cycle : BitVec 64) (hport : port addr = none) :
    Outcome (fun r => r.2.controllers = b.controllers) (fun _ => True) (b.read cycle addr) := by
  rw [← port_masked hb] at hport
  unfold read
  dsimp only
  split
  · apply Outcome.bind (P := fun r => r.2.controllers = b.controllers)
    · unfold ioRead
      split
      · next hdevice =>
        split
        · exact (controllers_catchUp cycle b).bind fun b' hb' => hb'
        · next hlo =>
          rw [readReg_other (by bv_omega) hdevice hport]
          exact rfl
      · split
        · exact trivial
        · exact rfl
    · intro r hr
      exact hr
  · exact rfl

/-- **A read of a port shifts.** -/
theorem read_port (hb : b.Decodes) (cycle : BitVec 64) {i : Fin 2} (hport : port addr = some i) :
    ∃ v, b.read cycle addr = .ok ((b.readControllerData i v).1,
      (b.readControllerData i v).2.setOpenBus (b.readControllerData i v).1) := by
  have hread : ∀ v, (addr &&& b.main.memMask = 0x4016 ∨ addr &&& b.main.memMask = 0x4017) ∧
      b.readReg (addr &&& b.main.memMask &&& 0x1F) v = b.readControllerData i v := by
    intro v
    rw [hb.memMask]
    unfold port at hport
    split at hport
    · next h =>
      cases hport
      rcases h with h | h <;> rw [h]
      · exact ⟨Or.inl rfl, rfl⟩
      · exact ⟨Or.inr rfl, rfl⟩
    · cases hport
  obtain ⟨hmasked, -⟩ := hread 0
  have hrange : 0x4000 ≤ addr &&& b.main.memMask ∧ addr &&& b.main.memMask ≤ 0x401F := by
    rcases hmasked with h | h <;> rw [h] <;> decide
  have hio := (hb.isIo (addr &&& b.main.memMask)).mpr (by
    obtain ⟨hlo, hhi⟩ := hrange
    constructor <;> bv_omega)
  refine ⟨if b.main.openBusIsData then b.main.openBus else addr.setWidth 8, ?_⟩
  unfold read
  simp only [hio, if_true]
  rw [ioRead, if_pos hrange.2, if_neg (by bv_omega), (hread _).2]
  rfl

/-- **A write to the strobe.** -/
theorem write_strobe (hb : b.Decodes) (cycle : BitVec 64) (hport : addr &&& 0xFFFF = 0x4016)
    (v : Byte) : ∃ openBus, b.write cycle addr v =
      .ok (0, (b.writeController v).setOpenBus openBus) := by
  rw [← hb.memMask] at hport
  have hio := (hb.isIo 0x4016).mpr (by decide)
  refine ⟨if b.main.openBusIsData then v else (0x4016 : CpuAddr).setWidth 8, ?_⟩
  unfold write
  simp only [hport, hio, if_true]
  rfl

theorem controllers_dmaLoop (hb : b.Decodes) (v : Byte) :
    Outcome (fun b' => b'.controllers = b.controllers) (fun _ => True)
      ((List.range 256).foldlM (dmaStep cycle (v.setWidth 16 <<< 8)) b) := by
  by_cases hv : HolePage v
  · -- the page of the ports is one that the loop does not survive
    rw [dmaLoop_holePage hb hv]
    exact trivial
  · refine Outcome.mono (P := fun b' => Frame b b' ∧ b'.controllers = b.controllers)
      (Outcome.foldlM (Q := fun _ => True) (fun b' hb' i hi => ?_) ⟨Frame.refl b, rfl⟩)
      (fun _ h => h.2) fun _ h => h
    obtain ⟨hframe, hsame⟩ := hb'
    have hlt := List.mem_range.mp hi
    have hd := hframe.decodes hb
    have hport : port ((v.setWidth 16 <<< 8 : Word).setWidth 32 + BitVec.ofNat 32 i) = none := by
      have haddr := toNat_masked hd v hlt
      rw [hd.memMask] at haddr
      unfold HolePage at hv
      refine if_neg ?_
      rintro (h | h)
      · rw [h] at haddr
        change 16406 = _ at haddr
        bv_omega
      · rw [h] at haddr
        change 16407 = _ at haddr
        bv_omega
    have hread := (outcome_read cycle hd _).and (controllers_read hd cycle hport)
    exact (hread.mono (fun _ h => h) fun _ _ => trivial).bind fun r hr =>
      ⟨hframe.trans (hr.1.trans ⟨rfl, rfl, rfl, rfl, rfl⟩), hr.2.trans hsame⟩

theorem controllers_oamDma (hb : b.Decodes) (cycle : BitVec 64) (v : Byte) :
    Outcome (fun b' => b'.controllers = b.controllers) (fun _ => True)
      (b.oamDma cycle (v.setWidth 16 <<< 8)) := by
  have hcatch := (outcome_catchUp cycle b).and (controllers_catchUp cycle b)
  refine (hcatch.mono (fun _ h => h) fun _ _ => trivial).bind fun b' hb' => ?_
  exact (controllers_dmaLoop (hb'.1.decodes hb) v).mono (fun _ h => h.trans hb'.2) fun _ h => h

theorem controllers_writeReg (hb : b.Decodes) (cycle : BitVec 64) {masked : CpuAddr}
    (hlo : 0x4000 ≤ masked) (hhi : masked ≤ 0x401F) (v : Byte) :
    Outcome (fun r => r.2.controllers =
        if masked = 0x4016 then (b.writeController v).controllers else b.controllers)
      (fun _ => True) (b.writeReg cycle (masked &&& 0x1F) v) := by
  have hdma : masked &&& 0x1F = 0x14 ↔ masked = 0x4014 := reg_eq hlo hhi (by decide) rfl
  have hstrobe : masked &&& 0x1F = 0x16 ↔ masked = 0x4016 := reg_eq hlo hhi (by decide) rfl
  unfold writeReg
  by_cases hreg : masked &&& 0x1F = 0x14
  · rw [if_pos hreg, hdma.mp hreg, if_neg (by decide)]
    split
    · exact trivial
    · refine (controllers_oamDma hb _ v).bind ?_
      intro b' hb'
      exact hb'
  rw [if_neg hreg]
  by_cases hreg : masked &&& 0x1F = 0x16
  · rw [if_pos hreg, if_pos (hstrobe.mp hreg)]
    exact rfl
  · rw [if_neg hreg, if_neg (mt hstrobe.mpr hreg)]
    exact rfl

/-- What a write does to the controllers. -/
theorem controllers_write (hb : b.Decodes) (cycle : BitVec 64) (addr : CpuAddr) (v : Byte) :
    Outcome (fun r => r.2.controllers =
        if addr &&& 0xFFFF = 0x4016 then (b.writeController v).controllers else b.controllers)
      (fun _ => True) (b.write cycle addr v) := by
  rw [← hb.memMask]
  unfold write
  dsimp only
  by_cases hio : (b.main.memory.page (addr &&& b.main.memMask)).isIo
      (addr &&& b.main.memMask) = true
  · have hrange := (hb.isIo _).mp hio
    rw [if_pos hio]
    apply Outcome.bind (P := fun r => r.2.controllers =
      if addr &&& b.main.memMask = 0x4016 then (b.writeController v).controllers
      else b.controllers)
    · unfold ioWrite
      by_cases hdevice : addr &&& b.main.memMask ≤ 0x401F
      · rw [if_pos hdevice]
        by_cases hppu : addr &&& b.main.memMask < 0x4000
        · rw [if_pos hppu, if_neg (by bv_omega)]
          refine (controllers_catchUp cycle b).bind ?_
          intro b' hb'
          exact hb'
        · rw [if_neg hppu]
          exact controllers_writeReg hb cycle (by bv_omega) hdevice v
      · have hhole : Hole (addr &&& b.main.memMask) := ⟨by bv_omega, hrange.2⟩
        rw [if_neg hdevice, writeByteNoIo_hole hb hhole]
        exact trivial
    · intro r hr
      exact hr
  · rw [if_neg hio, if_neg]
    · exact rfl
    · intro h
      rw [h] at hio
      exact hio ((hb.isIo _).mpr (by decide))

end NesBus

/-! ### Events -/

structure Controllers.Tracks (c : Controllers) (j : Joypads) : Prop where
  update : c.updateControllers = some (Nes.updateControllers j.pads)
  latch : c.latch = j.strobe
  holds : ∀ i, (c.latchedInputData.devices i).Holds (j.report i)

namespace NesBus

variable {b : NesBus} {j : Joypads}

/-- **A read of a port tells the next button.** -/
theorem tracks_told (h : b.controllers.Tracks j) (i : Fin 2) (v : Byte) :
    (b.readControllerData i v).1 &&& 0x1F = bit ((j.report i).headD false) ∧
      (b.readControllerData i v).2.controllers.Tracks (j.told i).2 := by
  obtain ⟨hbit, hnext⟩ := (h.holds i).shift
  refine ⟨?_, h.update, h.latch, fun k => ?_⟩
  · have hzero : (0xE0 : Byte) &&& 0x1F = 0 := by decide
    have hlow : bit ((j.report i).headD false) &&& 0x1F = bit ((j.report i).headD false) := by
      cases (j.report i).headD false <;> rfl
    show ((v &&& 0xE0) ||| (b.controllers.latchedInputData.devices i).shift.1) &&& 0x1F = _
    rw [hbit, BitVec.and_or_distrib_right, BitVec.and_assoc, hzero, hlow]
    exact (congrArg (· ||| _) BitVec.and_zero).trans BitVec.zero_or
  · show (Function.update b.controllers.latchedInputData.devices i
      (b.controllers.latchedInputData.devices i).shift.2 k).Holds
        (Function.update j.report i (j.report i).tail k)
    by_cases hk : k = i
    · subst hk
      rw [Function.update_self, Function.update_self]
      exact hnext
    · rw [Function.update_of_ne hk, Function.update_of_ne hk]
      exact h.holds k

/-- **The strobe takes the buttons over.** -/
theorem tracks_strobed (h : b.controllers.Tracks j) (v : Byte) :
    (b.writeController v).controllers.Tracks (j.strobed v) := by
  unfold writeController Joypads.strobed
  rw [← h.latch]
  split
  · exact ⟨h.update, rfl, h.holds⟩
  split
  · unfold latchControllerData
    rw [h.update]
    exact ⟨h.update, rfl, fun i => holds_updateControllers _ b.controllers.latchedInputData i⟩
  · exact h

/-- **An event does to the bus what it does to the joypads.** -/
theorem tracks_event (hb : b.Decodes) (h : b.controllers.Tracks j) (e : PadEvent)
    (hf : (b.event e).2.fault = none) : (b.event e).1 = (j.event e).1.map bit ∧
      (b.event e).2.Decodes ∧ (b.event e).2.controllers.Tracks (j.event e).2 := by
  cases e with
  | read cycle addr =>
    have hd := stable_decodes.invariant.read hb cycle addr
    cases hport : port addr with
    | none =>
      obtain ⟨-, v, hok⟩ := of_fault_ended hf
      have hout := controllers_read hb cycle hport
      rw [hok] at hout
      have hsame : (Bus.readByte b cycle addr).bus.controllers = b.controllers := hout
      rw [event_read, Joypads.event_read, hport]
      refine ⟨rfl, hd, ?_⟩
      rw [hsame]
      exact h
    | some i =>
      obtain ⟨hnone, -⟩ := of_fault_ended hf
      obtain ⟨v, hread⟩ := read_port hb cycle hport
      obtain ⟨hbit, htracks⟩ := tracks_told h i v
      rw [readByte_of_ok hread, ended, hnone] at hd
      rw [event_read, Joypads.event_read, hport, readByte_of_ok hread, ended, hnone]
      exact ⟨congrArg some hbit, hd, htracks⟩
  | write cycle addr v =>
    obtain ⟨-, stall, hok⟩ := of_fault_ended hf
    have hout := controllers_write hb cycle addr v
    rw [hok] at hout
    refine ⟨rfl, stable_decodes.invariant.write hb cycle addr v, ?_⟩
    show (b.ended (b.write cycle addr v)).controllers.Tracks
      (if addr &&& 0xFFFF = 0x4016 then j.strobed v else j)
    rw [show (b.ended (b.write cycle addr v)).controllers = _ from hout]
    split
    · exact tracks_strobed h v
    · exact h
  | pads pads =>
    exact ⟨rfl, hb, rfl, h.latch, h.holds⟩

end NesBus

theorem fault_event (b : NesBus) (e : PadEvent) (hf : (b.event e).2.fault = none) :
    b.fault = none := by
  cases e with
  | read cycle addr => exact (NesBus.of_fault_ended hf).1
  | write cycle addr v => exact (NesBus.of_fault_ended hf).1
  | pads pads => exact hf

theorem fault_answers (b : NesBus) (events : List PadEvent)
    (hf : (answers NesBus.event b events).2.fault = none) : b.fault = none := by
  induction events generalizing b with
  | nil => exact hf
  | cons e events ih => exact fault_event b e (ih (b.event e).2 hf)

/-- The ports are always there. -/
theorem fault_onPorts {b : NesBus} (hb : b.Decodes) (hfault : b.fault = none) {e : PadEvent}
    (he : e.OnPorts) : (b.event e).2.Decodes ∧ (b.event e).2.fault = none := by
  cases e with
  | read cycle addr =>
    obtain ⟨i, hport⟩ := Option.ne_none_iff_exists'.mp he
    obtain ⟨v, hread⟩ := NesBus.read_port hb cycle hport
    refine ⟨NesBus.stable_decodes.invariant.read hb cycle addr, ?_⟩
    show (b.ended (b.read cycle addr)).fault = none
    rw [hread, NesBus.ended, hfault]
    exact hfault
  | write cycle addr v =>
    obtain ⟨openBus, hwrite⟩ := NesBus.write_strobe hb cycle he v
    refine ⟨NesBus.stable_decodes.invariant.write hb cycle addr v, ?_⟩
    show (b.ended (b.write cycle addr v)).fault = none
    rw [hwrite, NesBus.ended, hfault]
    exact (NesBus.frame_writeController b v).fault.trans hfault
  | pads pads => exact ⟨hb, hfault⟩

theorem fault_answers_onPorts {b : NesBus} (hb : b.Decodes) (hfault : b.fault = none)
    {events : List PadEvent} (hevents : ∀ e ∈ events, e.OnPorts) :
    (answers NesBus.event b events).2.fault = none := by
  induction events generalizing b with
  | nil => exact hfault
  | cons e events ih =>
    obtain ⟨hd, hf⟩ := fault_onPorts hb hfault (hevents e List.mem_cons_self)
    exact ih hd hf fun e' he' => hevents e' (List.mem_cons_of_mem e he')

theorem answers_tracks {b : NesBus} {j : Joypads} (hb : b.Decodes) (h : b.controllers.Tracks j)
    (events : List PadEvent) (hf : (answers NesBus.event b events).2.fault = none) :
    (answers NesBus.event b events).1 =
      (answers Joypads.event j events).1.map (Option.map bit) := by
  induction events generalizing b j with
  | nil => rfl
  | cons e events ih =>
    obtain ⟨hanswer, hd, htracks⟩ := NesBus.tracks_event hb h e (fault_answers _ events hf)
    rw [answers, answers, List.map_cons, hanswer, ih hd htracks hf]

theorem tracks_plugged (pads : Pads) :
    (Controllers.plugged pads).Tracks ⟨pads, false, fun _ => []⟩ :=
  ⟨rfl, rfl, fun _ => ⟨rfl, fun _ _ => rfl⟩⟩

section Loaded

variable {layout : HostLayout} {devices : IODevices Unit} {rom : RomInes} {fuel : Nat}
  {n loaded : Console Unit} {image : List Byte}

/-- **A program reads the buttons as they were when it let go of the strobe.**  Whatever it does on
the bus in between, and whatever the player does, a port tells them one after the other, and after
the last that none is pressed. -/
theorem joypads_report (hparse : RomInes.parse image = some rom)
    (hload : Console.loadRom layout devices () rom fuel n = some (true, loaded)) (pads : Pads)
    (pendingInterrupts : BitVec 32) (events : List PadEvent)
    (hfault : (answers NesBus.event (loaded.boot (.plugged pads) pendingInterrupts).bus
      events).2.fault = none) :
    (answers NesBus.event (loaded.boot (.plugged pads) pendingInterrupts).bus events).1 =
      (answers Joypads.event ⟨pads, false, fun _ => []⟩ events).1.map (Option.map bit) :=
  answers_tracks (decodes_boot hparse hload _ _) (tracks_plugged pads) events hfault

end Loaded

/-- Player one holds B while the program lets go of the strobe, and then reads the port. -/
theorem joypads_report_zeros : ∃ (rom : RomInes) (loaded : Console Unit),
    RomInes.parse (zerosImage false) = some rom ∧
      Console.loadRom .apart (SystemBus.simple 16 fun _ => 0).ioDevices () rom 3
        (Console.zeroed fun _ => 0) = some (true, loaded) ∧
      (answers NesBus.event (loaded.boot (.plugged fun _ _ => 0) 0).bus
        [.pads fun _ button => if button = .b then 1 else 0, .write 0 0x4016 1, .write 0 0x4016 0,
          .read 0 0x4016, .pads fun _ _ => 0, .read 0 0x4016]).1 =
        [none, none, none, some 0, none, some 1] := by
  obtain ⟨rom, loaded, hparse, -, -, hload⟩ := loadRom_zeros false
  have hevents : ∀ e ∈ [PadEvent.pads fun _ button => if button = .b then 1 else 0,
      .write 0 0x4016 1, .write 0 0x4016 0, .read 0 0x4016, .pads fun _ _ => 0, .read 0 0x4016],
      e.OnPorts := by
    simp only [List.forall_mem_cons]
    decide
  have hdecodes := decodes_boot hparse hload (.plugged fun _ _ => 0) 0
  have hfault := fault_answers_onPorts hdecodes rfl hevents
  exact ⟨rom, loaded, hparse, hload, (joypads_report hparse hload _ 0 _ hfault).trans rfl⟩

end RetroCpu.Nes
