import RetroCpu.RunLoop
import RetroCpu.Wdc65816.Coherence

/-!
# Progress of the CPU

An iteration of the run loop enters an interrupt or executes an instruction.  In
five of the six modes every opcode has a handler.  The row of `kNative6502` has
null pointers at the opcodes of `nyiOpcodes`, and there the iteration calls one.
Everywhere else it advances the clock: the interrupt frame or the opcode fetch is
paid for, if the page map charges for accesses.

The clock has 64 bits, so the lemmas count what is added to it, and a comparison
of two readings needs room below `2 ^ 64`.
-/

namespace RetroCpu

open WordBytes Machine StateFn

variable {β ε : Type}

/-! ### What is paid -/

/-- At least one cycle and at most `n` charges have been added to the clock. -/
def Paid (n : ℕ) (m m' : Machine β) : Prop :=
  ∃ k, 1 ≤ k ∧ k ≤ n * 2 ^ 33 ∧ m'.cycle = m.cycle + BitVec.ofNat 64 k

theorem Paid.advances [Bus β] {a b : ℕ} {m m' m'' : Machine β} (h : Paid a m m')
    (h' : Advances b m' m'') : Paid (a + b) m m'' := by
  obtain ⟨j, hj1, hj, ej⟩ := h
  obtain ⟨k, hk, ek⟩ := h'.clock
  refine ⟨j + k, by omega, by rw [Nat.add_mul]; omega, ?_⟩
  rw [ek, ej, BitVec.add_assoc, ← BitVec.ofNat_add]

theorem Advances.paid [Bus β] {a b : ℕ} {m m' m'' : Machine β} (h : Advances a m m')
    (h' : Paid b m' m'') : Paid (a + b) m m'' := by
  obtain ⟨j, hj, ej⟩ := h.clock
  obtain ⟨k, hk1, hk, ek⟩ := h'
  refine ⟨j + k, by omega, by rw [Nat.add_mul]; omega, ?_⟩
  rw [ek, ej, BitVec.add_assoc, ← BitVec.ofNat_add]

theorem Paid.le {a b : ℕ} {m m' : Machine β} (h : Paid a m m') (hab : a ≤ b) : Paid b m m' := by
  obtain ⟨k, hk1, hk, ek⟩ := h
  exact ⟨k, hk1, hk.trans (Nat.mul_le_mul_right _ hab), ek⟩

theorem Paid.lt {n : ℕ} {m m' : Machine β} (h : Paid n m m')
    (hroom : m.cycle.toNat + n * 2 ^ 33 < 2 ^ 64) : m.cycle < m'.cycle := by
  obtain ⟨k, hk1, hk, ek⟩ := h
  rw [ek, BitVec.lt_def, BitVec.toNat_add, BitVec.toNat_ofNat]
  omega

variable [Bus β] {P : β → Prop}

theorem paid_readU8 (hP : Bus.Charges P) {m : Machine β} (hb : P m.bus) (addr : CpuAddr) :
    Paid 1 m (readU8 addr m).2 := by
  have hn := (Bus.readByte m.bus m.cycle addr).cycles.isLt
  refine ⟨(Bus.readByte m.bus m.cycle addr).cycles.toNat, hP.read_pos hb _ _, by omega, ?_⟩
  rw [BitVec.ofNat_toNat]
  rfl

theorem paid_writeU8 (hP : Bus.Charges P) {m : Machine β} (hb : P m.bus) (addr : CpuAddr)
    (v : Byte) : Paid 1 m (writeU8 addr v m).2 := by
  have hs := (Bus.writeByte m.bus m.cycle addr v).stall.isLt
  have hn := (Bus.writeByte m.bus m.cycle addr v).cycles.isLt
  have hpos := hP.write_pos hb m.cycle addr v
  refine ⟨(Bus.writeByte m.bus m.cycle addr v).stall.toNat +
    (Bus.writeByte m.bus m.cycle addr v).cycles.toNat, by omega, by omega, ?_⟩
  rw [BitVec.ofNat_add, BitVec.ofNat_toNat, BitVec.ofNat_toNat, ← BitVec.add_assoc]
  rfl

theorem paid_pushU8 (hP : Bus.Charges P) {m : Machine β} (hb : P m.bus) (v : Byte) :
    Paid 1 m (pushU8 v m).2 := by
  obtain ⟨k, hk1, hk, ek⟩ := paid_writeU8 hP hb (m.core.sp.setWidth 32 &&& 0xFFFF) v
  exact ⟨k, hk1, hk, ek⟩

theorem paid_pushWord (hP : Bus.Charges P) {m : Machine β} (hb : P m.bus) (v : Word) :
    Paid 3 m (push (s := .u16) v m).2 := by
  have h := (paid_pushU8 hP hb (hi v)).advances
    (spends_of_course (f := {}) (course_pushU8 (lo v)) _).toAdvances
  exact h.le (by decide)

/-- A first action that pays. -/
theorem paid_bind {α γ : Type} {x : Exec β α} {f : α → Exec β γ} {a b : ℕ} {m : Machine β}
    (hx : Paid a m (x m).2) (hf : ∀ v, Within (Spends {}) b (f v)) :
    Paid (a + b) m ((x >>= f) m).2 :=
  hx.advances (hf _ _).toAdvances

/-- A rest that pays wherever accesses are charged for. -/
theorem paid_bind_rest (hP : Bus.Charges P) {α γ : Type} {x : Exec β α} {f : α → Exec β γ}
    {a b : ℕ} (hx : Within (Spends {}) a x)
    (hf : ∀ v (m : Machine β), P m.bus → Paid b m (f v m).2) {m : Machine β} (hb : P m.bus) :
    Paid (a + b) m ((x >>= f) m).2 := by
  have h := (hx m).toAdvances
  exact h.paid (hf _ _ (h.bus P hP.toInvariant hb))

theorem paid_pushInterruptFrame (hP : Bus.Charges P) {m : Machine β} (hb : P m.bus)
    (type : InterruptType) : Paid 12 m (pushInterruptFrame type m).2 := by
  have hpush (v : Byte) : Within (Spends (β := β) {}) 2 (push (s := .u8) v) :=
    spends_of_course (course_push (s := .u8) v)
  have h : Paid (0 + (0 + 2 + (0 + (3 + (0 + 2))))) m (pushInterruptFrame type m).2 := by
    refine paid_bind_rest hP (graded_spends.get _) (fun _ _ hb => ?_) hb
    refine paid_bind_rest hP (graded_spends.when fun _ =>
      graded_spends.bind (graded_spends.get _) fun _ => hpush _) (fun _ _ hb => ?_) hb
    refine paid_bind_rest hP (graded_spends.get _) (fun _ _ hb => ?_) hb
    exact paid_bind (paid_pushWord hP hb _) fun _ =>
      graded_spends.bind (graded_spends.get _) fun _ => hpush _
  exact h.le (by decide)

theorem paid_interrupt (hP : Bus.Charges P) {m : Machine β} (hb : P m.bus) (param : BitVec 32) :
    Paid 14 m (interrupt param m).2 := by
  have h : ∀ type, Paid 14 m (doInterrupt type m).2 := by
    intro type
    have h := (paid_pushInterruptFrame hP hb type).advances
      (spends_of_course (course_enterHandler (f := interruptFootprint) (t := type) rfl
        fun _ => trivial) _).toAdvances
    exact h.le (by decide)
  rw [interrupt]
  split
  · exact h _
  · exact h _

theorem paid_emulateInstruction (hP : Bus.Charges P) {m m' : Machine β} (hb : P m.bus)
    (h : m.emulateInstruction = some m') : Paid (1 + Op.budget) m m' := by
  obtain ⟨op, -, rfl⟩ := Option.map_eq_some_iff.mp h
  have hfetch : Paid 1 m (fetch m).2 := paid_readU8 hP hb _
  by_cases hx : op = .xce
  · subst hx
    have h0 : Advances 0 (fetch m).2 (perform .xce (fetch m).2).2 := by
      rw [perform_xce]
      exact Advances.core _ _
    exact hfetch.advances (h0.mono (Nat.zero_le _))
  · exact hfetch.advances
      (spends_perform hx _).toAdvances

/-! ### Handlers -/

def nyiOpcodes : List ℕ := [
  0x02, 0x03, 0x04, 0x07, 0x0C, 0x0F, 0x12, 0x13, 0x14, 0x17, 0x1B, 0x1C, 0x1F, 0x22, 0x23, 0x27,
  0x2B, 0x2F, 0x32, 0x33, 0x37, 0x3B, 0x3C, 0x3F, 0x42, 0x43, 0x44, 0x47, 0x4F, 0x52, 0x53, 0x54,
  0x57, 0x5B, 0x5C, 0x5F, 0x62, 0x63, 0x64, 0x67, 0x6B, 0x6F, 0x72, 0x73, 0x74, 0x77, 0x7B, 0x7C,
  0x7F, 0x89, 0x8B, 0x92, 0x93, 0x9B, 0x9C, 0x9E, 0x9F, 0xAB, 0xB2, 0xBB, 0xC3, 0xC7, 0xCB, 0xCF,
  0xD2, 0xD3, 0xD4, 0xD7, 0xDB, 0xDC, 0xDF, 0xE3, 0xE7, 0xEB, 0xEF, 0xF2, 0xF3, 0xF4, 0xF7, 0xFB,
  0xFC, 0xFF]

theorem nyiOpcodes_eq : nyiOpcodes =
    (List.range 256).filter fun i => ((execOps .native6502).getD i none).isNone := by
  decide +kernel

theorem at_native6502 (opcode : Byte) :
    (execOps .native6502).at opcode = none ↔ opcode.toNat ∈ nyiOpcodes := by
  have hlt := opcode.isLt
  rw [nyiOpcodes_eq, List.mem_filter, List.mem_range, Option.isNone_iff_eq_none]
  exact ⟨fun h => ⟨hlt, h⟩, fun h => h.2⟩

/-- A row of the other modes: 256 handlers. -/
theorem full_execOps {mode : Mode} (h : mode ≠ .native6502) :
    (execOps mode).length = 256 ∧ (execOps mode).all Option.isSome = true := by
  cases mode
  case native6502 => exact absurd rfl h
  all_goals decide +kernel

theorem at_isSome {mode : Mode} (h : mode ≠ .native6502) (opcode : Byte) :
    ((execOps mode).at opcode).isSome = true := by
  obtain ⟨hlen, hall⟩ := full_execOps h
  have hlt : opcode.toNat < (execOps mode).length := by
    rw [hlen]
    exact opcode.isLt
  rw [InstructionSet.at, List.getD_eq_getElem?_getD, List.getElem?_eq_getElem hlt,
    Option.getD_some]
  exact List.all_eq_true.mp hall _ (List.getElem_mem hlt)

def Machine.HasHandler (m : Machine β) : Prop :=
  m.core.modeNative6502 = false ∨ (fetch m).1.toNat ∉ nyiOpcodes

theorem handler_isSome {m : Machine β} (hc : m.core.Coherent) :
    m.handler.isSome = true ↔ m.HasHandler := by
  rw [handler, hc.instructionSet]
  by_cases h6 : m.core.modeNative6502 = true
  · have hmode : m.core.mode = .native6502 := by rw [hc.mode, if_pos h6]
    rw [hmode, ← Option.isNone_eq_false_iff, Bool.eq_false_iff, ne_eq, Option.isNone_iff_eq_none,
      at_native6502, HasHandler, h6]
    simp
  · have hmode : m.core.mode ≠ .native6502 := by
      rw [hc.mode, if_neg h6]
      split
      · decide
      · cases m.core.modeLongA <;> cases m.core.modeLongXy <;> decide
    exact ⟨fun _ => Or.inl (Bool.eq_false_iff.mpr h6), fun _ => at_isSome hmode _⟩

/-! ### In the run loop -/

/-- The devices and timers of a system: the events that the accesses between two states of the
bus have scheduled, and the effect of an event.  An event keeps `P` and schedules later ones
only. -/
structure Devices (ε : Type) (P : β → Prop) where
  scheduled : β → β → List (Entry ε)
  call : ε → BitVec 64 → β → β × List (Entry ε)
  keeps : ∀ {b}, P b → ∀ f t, P (call f t b).1
  later : ∀ f t b, ∀ e ∈ (call f t b).2, t < e.t

def Devices.silent (P : β → Prop) : Devices Unit P where
  scheduled _ _ := []
  call _ _ b := (b, [])
  keeps h _ _ := h
  later _ _ _ _ h := by cases h

/-- The CPU as the run loop sees it, with no breakpoints. -/
def Machine.emulatedCpu (dev : Devices ε P) : EmulatedCpu (Machine β) ε where
  cycle m := m.cycle
  cycleStop m := m.cycleStop
  interrupts m := m.core.interrupts
  pendingInterrupts m := Bus.pendingInterrupts m.bus
  maskIp m := { m with core := { m.core with ip := m.core.ip &&& ipMask } }
  invoke
    | .emu, m => m.emulateInstruction.map fun m' => (m', dev.scheduled m.bus m'.bus)
    | .interrupt type, m =>
      some ((interrupt type m).2, dev.scheduled m.bus (interrupt type m).2.bus)
  breakpoint _ := none
  call f m := ({ m with bus := (dev.call f m.cycle m.bus).1 }, (dev.call f m.cycle m.bus).2)
  cycle_maskIp _ := rfl
  cycleStop_maskIp _ := rfl

def Machine.Implemented (m : Machine β) : Prop :=
  3 ≤ Bus.pendingInterrupts m.bus + m.core.interrupts ∨ m.HasHandler

/-- The next iteration of the run loop is defined and advances the clock. -/
def Machine.Progress (dev : Devices ε P) (m : Machine β) : Prop :=
  ∃ m' es, (emulatedCpu dev).iterate m = some (m', es) ∧ Paid (2 ^ 19) m m' ∧
    (m.cycle.toNat + 2 ^ 52 < 2 ^ 64 → m.cycle < m'.cycle)

variable {dev : Devices ε P}

theorem fetch_maskIp (m : Machine β) : fetch ((emulatedCpu dev).maskIp m) =
    ((fetch m).1, (emulatedCpu dev).maskIp (fetch m).2) := by
  have h : m.core.codeSegmentBase + ((m.core.ip &&& ipMask) &&& ipMask) =
      m.core.codeSegmentBase + (m.core.ip &&& ipMask) := by
    rw [BitVec.and_assoc, BitVec.and_self]
  simp only [fetch, bind_apply, getCore, get_apply, readU8, emulatedCpu, Core.getCanonicalAddress,
    h]

theorem implemented_maskIp (m : Machine β) :
    ((emulatedCpu dev).maskIp m).Implemented ↔ m.Implemented := by
  rw [Implemented, HasHandler, fetch_maskIp]
  rfl

/-- The call that an implemented state makes. -/
theorem invoke_of_implemented (dev : Devices ε P) (hP : Bus.Charges P) {m : Machine β}
    (hc : m.core.Coherent) (hb : P m.bus) (hi : m.Implemented) : ∃ m' es,
      (emulatedCpu dev).invoke ((emulatedCpu dev).choose m) m = some (m', es) ∧
        Paid (2 ^ 19) m m' := by
  by_cases hint : 3 ≤ Bus.pendingInterrupts m.bus + m.core.interrupts
  · have hch : ∃ type, (emulatedCpu dev).choose m = .interrupt type := ⟨_, if_pos hint⟩
    obtain ⟨type, hch⟩ := hch
    rw [hch]
    exact ⟨_, _, rfl, (paid_interrupt hP hb type).le (by decide)⟩
  · have hch : (emulatedCpu dev).choose m = .emu := if_neg hint
    have hh := (handler_isSome hc).mpr (hi.resolve_left hint)
    have he : m.emulateInstruction.isSome = true := by
      rw [emulateInstruction, Option.isSome_map]
      exact hh
    obtain ⟨m', hm'⟩ := Option.isSome_iff_exists.mp he
    rw [hch]
    refine ⟨m', dev.scheduled m.bus m'.bus, ?_, (paid_emulateInstruction hP hb hm').le (by decide)⟩
    show m.emulateInstruction.map _ = _
    rw [hm']
    rfl

theorem progress_iff (dev : Devices ε P) (hP : Bus.Charges P) {m : Machine β}
    (hc : m.core.Coherent) (hb : P m.bus) :
    m.Progress dev ↔ m.Implemented := by
  constructor
  · rintro ⟨m', es, hit, -, -⟩
    by_cases hint : 3 ≤ Bus.pendingInterrupts m.bus + m.core.interrupts
    · exact Or.inl hint
    · have hch : (emulatedCpu dev).choose ((emulatedCpu dev).maskIp m) = .emu := if_neg hint
      rw [EmulatedCpu.iterate, hch] at hit
      obtain ⟨m'', hm'', -⟩ := Option.map_eq_some_iff.mp hit
      have hh : ((emulatedCpu dev).maskIp m).handler.isSome = true := by
        rw [← Option.isSome_map, ← emulateInstruction, hm'']
        rfl
      have hcm : ((emulatedCpu dev).maskIp m).core.Coherent := hc.setIp _
      have hi := (handler_isSome hcm).mp hh
      exact (implemented_maskIp m).mp (Or.inr hi)
  · intro hi
    have hcm : ((emulatedCpu dev).maskIp m).core.Coherent := hc.setIp _
    obtain ⟨m', es, hm', hpaid⟩ := invoke_of_implemented dev hP hcm hb
      ((implemented_maskIp m).mpr hi)
    obtain ⟨k, hk1, hk, ek⟩ := hpaid
    have hpaid : Paid (2 ^ 19) m m' := ⟨k, hk1, hk, ek⟩
    exact ⟨m', es, hm', hpaid, fun hroom => hpaid.lt hroom⟩

/-! ### `Emulate` -/

/-- What the loop keeps: the modes, the charges and the end of the run. -/
structure Machine.Running (P : β → Prop) (stop : BitVec 64) (m : Machine β) : Prop where
  coherent : m.core.Coherent
  bus : P m.bus
  cycleStop : m.cycleStop = stop

theorem running_invoke (hP : Bus.Charges P) {stop : BitVec 64} {m m' : Machine β} {c : Call}
    {es : List (Entry ε)} (hm : m.Running P stop)
    (h : (emulatedCpu dev).invoke c m = some (m', es)) :
    m'.Running P stop ∧ m'.core.modeNative6502 = m.core.modeNative6502 := by
  cases c with
  | emu =>
    obtain ⟨m'', hm'', he⟩ := Option.map_eq_some_iff.mp h
    cases he
    have hc := coherent_emulateInstruction hm.coherent hm''
    rcases emulateInstruction_cases hm'' with ⟨op, -, -, hs⟩ | ⟨-, hs, hx⟩
    · exact ⟨⟨hc, hs.bus P hP.toInvariant hm.bus, hs.cycleStop.trans hm.cycleStop⟩,
        (hs.core hm.coherent).modeNative6502⟩
    · refine ⟨⟨hc, hs.bus P hP.toInvariant hm.bus, hs.cycleStop.trans hm.cycleStop⟩, ?_⟩
      rw [hx]
      exact Core.modeNative6502_afterXce _
  | interrupt type =>
    cases h
    have hs := spends_interrupt type m
    have hr := hs.core hm.coherent
    exact ⟨⟨hr.coherent, hs.bus P hP.toInvariant hm.bus, hs.cycleStop.trans hm.cycleStop⟩,
      hr.modeNative6502⟩

theorem progresses (dev : Devices ε P) (hP : Bus.Charges P) {stop : BitVec 64}
    (hstop : stop.toNat + 2 ^ 52 < 2 ^ 64) :
    Loop.Progresses (emulatedCpu dev) (Machine.Running P stop) Machine.Implemented where
  noBreakpoints _ := rfl
  mask hm := ⟨hm.coherent.setIp _, hm.bus, hm.cycleStop⟩
  invoke {m} hm hi hlt := by
    obtain ⟨m', es, hm', hpaid⟩ := invoke_of_implemented dev hP hm.coherent hm.bus hi
    obtain ⟨hrun, -⟩ := running_invoke hP hm hm'
    refine ⟨m', es, hm', hrun, hpaid.lt ?_, hrun.cycleStop.trans hm.cycleStop.symm⟩
    change m.cycle < m.cycleStop at hlt
    rw [hm.cycleStop, BitVec.lt_def] at hlt
    omega
  call hm f := ⟨hm.coherent, dev.keeps hm.bus f _, hm.cycleStop⟩
  cycle_call _ _ := rfl
  cycleStop_call _ _ := rfl
  later f m := dev.later f m.cycle m.bus

theorem running_step (hP : Bus.Charges P) {stop : BitVec 64} {H : StdHeap ε}
    {l l' : Loop (Machine β) ε} (hl : l.state.Running P stop)
    (h : Loop.step (emulatedCpu dev) H () l = some l') :
    l'.state.Running P stop ∧ l'.state.core.modeNative6502 = l.state.core.modeNative6502 := by
  obtain ⟨m, events, pc⟩ := l
  cases pc with
  | test =>
    simp only [Loop.step, Option.some.injEq] at h
    split at h
    · rw [Loop.enter_eq fun _ => rfl] at h
      subst h
      exact ⟨⟨hl.coherent.setIp _, hl.bus, hl.cycleStop⟩, rfl⟩
    · subst h
      exact ⟨hl, rfl⟩
  | call c =>
    obtain ⟨r, hr, rfl⟩ := Option.map_eq_some_iff.mp h
    exact running_invoke hP hl hr
  | expire t =>
    cases hp : events.popDue H t with
    | some r =>
      obtain ⟨f, q⟩ := r
      simp only [Loop.step, hp, Option.some.injEq] at h
      subst h
      exact ⟨⟨hl.coherent, dev.keeps hl.bus f _, hl.cycleStop⟩, rfl⟩
    | none =>
      simp only [Loop.step, hp, Option.some.injEq] at h
      subst h
      exact ⟨hl, rfl⟩
  | done => cases h

/-- A CPU that is not in 6502 mode has a handler for every opcode it comes to. -/
theorem implemented_of_runs (hP : Bus.Charges P) {m : Machine β} (hc : m.core.Coherent)
    (hb : P m.bus) (h6 : m.core.modeNative6502 = false) {H : StdHeap ε} {events : EventQueue ε}
    {l : Loop (Machine β) ε} (h : Loop.Runs (emulatedCpu dev) H m events l) :
    l.state.Implemented := by
  have hl : l.state.Running P m.cycleStop ∧ l.state.core.modeNative6502 = false :=
    Run.invariant (P := fun l : Loop (Machine β) ε =>
        l.state.Running P m.cycleStop ∧ l.state.core.modeNative6502 = false)
      ⟨⟨hc, hb, rfl⟩, h6⟩
      (fun _ _ _ hl _ hs => by
        obtain ⟨hr, h6'⟩ := running_step hP hl.1 hs
        exact ⟨hr, h6'.trans hl.2⟩) h
  exact Or.inr (Or.inl hl.2)

/-- **An iteration of the run loop advances the clock exactly where it takes an interrupt or
finds a handler**, in every state reached from `PowerOn` by any calls and with any memory.  If
every state in which `Emulate` makes a call is such a state, it reaches `cycle_stop`. -/
theorem progress_of_run (hP : Bus.Charges P) (dev : Devices ε P) (start : Machine β)
    {m : Machine β} (h : Run Machine.step (fun _ _ => True) (powerOn start).2 m) (hb : P m.bus) :
    (m.Progress dev ↔ m.Implemented) ∧
      ∀ (H : StdHeap ε) (events : EventQueue ε), H.IsHeap events.entries →
        m.cycleStop.toNat + 2 ^ 52 < 2 ^ 64 →
        (∀ l, Loop.Runs (emulatedCpu dev) H m events l → ∀ c, l.pc = .call c →
          l.state.Implemented) →
        ∃ l, Loop.Runs (emulatedCpu dev) H m events l ∧ l.pc = .done ∧
          m.cycleStop ≤ l.state.cycle := by
  have hc : m.core.Coherent := Run.invariant (P := fun m : Machine β => m.core.Coherent)
    (Core.coherent_onUpdateMode _) (fun _ _ _ hm _ hs => coherent_step hm hs) h
  refine ⟨progress_iff dev hP hc hb, fun H events hq hstop hi => ?_⟩
  obtain ⟨l, hl, hrun, hd, hle⟩ :=
    Loop.emulate_returns (progresses dev hP hstop) ⟨hc, hb, rfl⟩ hq hi
  have hle' : l.state.cycleStop ≤ l.state.cycle := hle
  rw [hrun.cycleStop] at hle'
  exact ⟨l, hl, hd, hle'⟩

/-- A CPU over zeroed memory that is to run for a hundred cycles. -/
def Machine.hundred : Machine (SystemBus Unit) :=
  { construct default (SystemBus.simple 24 fun _ => 0) with cycleStop := 100 }

theorem progress_hundred : (powerOn hundred).2.Progress (Devices.silent SystemBus.Paged) ∧
    ∃ l, Loop.Runs (emulatedCpu (Devices.silent SystemBus.Paged)) (.select Unit) (powerOn hundred).2
      ⟨[], 0, 0⟩ l ∧ l.pc = .done ∧ 100 ≤ l.state.cycle := by
  have hb : SystemBus.Paged (powerOn hundred).2.bus := SystemBus.paged_simple _ _
  have h6 : (powerOn hundred).2.core.modeNative6502 = false := rfl
  have hheap : (StdHeap.select Unit).IsHeap [] := nofun
  have hc : (powerOn hundred).2.core.Coherent := Core.coherent_onUpdateMode _
  obtain ⟨hp, he⟩ := progress_of_run SystemBus.charges (Devices.silent SystemBus.Paged) hundred
    .refl hb
  exact ⟨hp.mpr (Or.inr (Or.inl h6)), he _ ⟨[], 0, 0⟩ hheap (by decide) fun l hl _ _ =>
    implemented_of_runs SystemBus.charges hc hb h6 hl⟩

/-- The 6502 at the opcode `0x02`. -/
theorem progress_fails : ∃ m : Machine (SystemBus Unit),
    Run Machine.step (fun _ _ => True) (powerOn (nes [0x02])).2 m ∧ SystemBus.Paged m.bus ∧
      (emulatedCpu (Devices.silent SystemBus.Paged)).iterate m = none := by
  have hb : SystemBus.Paged (powerOn (nes [0x02])).2.bus :=
    SystemBus.paged_simple 24 (SystemBus.program [0x02])
  have h : ((emulatedCpu (Devices.silent SystemBus.Paged)).iterate
    (powerOn (nes [0x02])).2).isNone = true := by decide +kernel
  exact ⟨_, .refl, hb, Option.isNone_iff_eq_none.mp h⟩

end RetroCpu
