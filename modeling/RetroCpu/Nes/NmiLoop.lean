import RetroCpu.Nes.Nmi
import RetroCpu.Stepping
import RetroCpu.Wdc65816.ExecCourse
import RetroCpu.Wdc65816.InterruptMask

/-!
# The NMI in the run loop

`Run` goes on through a frame with `EmulateWithCycleProcessing`: before each instruction the loop
looks at `pending_interrupts`, and after it `PostCpuCycle` catches up with the CPU.  A sprite DMA
may hold an instruction for most of a scanline, and several of them for a good part of a frame.

* `survives_course`: an access takes the picture processor along by no more than its time.
* `steady_emulate`, `steady_interrupt`: what an iteration of the loop keeps.
* `Delivers.step`: each call of `AssertNMI` leads to one interrupt.
-/

namespace RetroCpu.Nes

open StateFn Machine NesBus

/-! ### The time of an access -/

/-- The clocks of a NTSC console, with the picture processor at most a step ahead of the CPU. -/
structure Paced (m : Machine NesBus) : Prop where
  bus : m.bus.Paced
  timing : m.core.internalCycleTiming = 12
  ahead : m.bus.ppu.lastPpuCycle.toNat ≤ m.cycle.toNat + 3

def accessTime : ℕ := 12 + maxStall

/-- What `n` accesses and internal cycles do. -/
structure Goes (n : ℕ) (m m' : Machine NesBus) : Prop where
  paced : Paced m'
  cycle_le : m.cycle.toNat ≤ m'.cycle.toNat
  le_cycle : m'.cycle.toNat ≤ m.cycle.toNat + accessTime * n
  elapses : ∃ k, Elapses k m.bus m'.bus

/-- They do so if the program survives them and the clock does not run over. -/
def Survives (n : ℕ) (m m' : Machine NesBus) : Prop :=
  m'.bus.fault = none → m.bus.fault = none ∧
    (Paced m → m.cycle.toNat + accessTime * n + 4 ≤ 2 ^ 64 → Goes n m m')

theorem Paced.elapses_zero {m : Machine NesBus} (h : Paced m) : Elapses 0 m.bus m.bus :=
  NesBus.elapses_zero h.bus.valid (Ppu.samePlace_of_eq rfl) rfl rfl rfl

theorem graded_survives : Graded Survives where
  refl m hf := ⟨hf, fun hm _ => ⟨hm, Nat.le_refl _, Nat.le_refl _, 0, hm.elapses_zero⟩⟩
  trans {i j m m' m''} h h' hf := by
    obtain ⟨hf', hgo'⟩ := h' hf
    obtain ⟨hf, hgo⟩ := h hf'
    refine ⟨hf, fun hm hroom => ?_⟩
    rw [Nat.mul_add] at hroom
    have h₁ := hgo hm (by omega)
    have hle := h₁.le_cycle
    have h₂ := hgo' h₁.paced (by omega)
    have hle' := h₂.le_cycle
    obtain ⟨k, hk⟩ := h₁.elapses
    obtain ⟨k', hk'⟩ := h₂.elapses
    exact ⟨h₂.paced, h₁.cycle_le.trans h₂.cycle_le, by rw [Nat.mul_add]; omega,
      k + k', hk.trans hk'⟩
  mono {i j m m'} hij h hf := by
    obtain ⟨hf, hgo⟩ := h hf
    have hmul : accessTime * i ≤ accessTime * j := Nat.mul_le_mul_left _ hij
    refine ⟨hf, fun hm hroom => ?_⟩
    have h₁ := hgo hm (by omega)
    exact ⟨h₁.paced, h₁.cycle_le, h₁.le_cycle.trans (by omega), h₁.elapses⟩

theorem toNat_add_setWidth {c : BitVec 64} {n : BitVec 32} (h : c.toNat + n.toNat < 2 ^ 64) :
    (c + n.setWidth 64).toNat = c.toNat + n.toNat := by
  rw [BitVec.toNat_add, BitVec.toNat_setWidth_of_le (by decide)]
  exact Nat.mod_eq_of_lt h

theorem survives_read (m : Machine NesBus) (addr : CpuAddr) :
    Survives 1 m (readU8 addr m).2 := by
  intro hf
  obtain ⟨hb, v, hok⟩ := of_fault_ended hf
  refine ⟨hb, fun hm hroom => ?_⟩
  have htime : accessTime = 6168 := rfl
  have hclock : m.cycle.toNat + 4 ≤ 2 ^ 64 := by omega
  have hout := outcome_follows_read hm.bus hclock addr
  rw [hok] at hout
  have hprice : (m.bus.price addr).toNat = 12 := by
    rw [hm.bus.ticks.price addr]
    rfl
  have hcycle : (readU8 addr m).2.cycle.toNat = m.cycle.toNat + 12 := by
    show (m.cycle + (m.bus.price addr).setWidth 64).toNat = _
    rw [toNat_add_setWidth (by omega), hprice]
  have hahead := hout.ahead
  change (m.bus.ended (m.bus.read m.cycle addr)).ppu.lastPpuCycle.toNat ≤ _ at hahead
  have hm' := hm.ahead
  refine ⟨⟨hout.paced hm.bus, hm.timing, ?_⟩, by omega, by omega, hout.elapses⟩
  rw [hcycle]
  show (m.bus.ended (m.bus.read m.cycle addr)).ppu.lastPpuCycle.toNat ≤ _
  omega

/-- The time that a device has held the CPU. -/
theorem stall_writeByte {b b' : NesBus} {cycle : BitVec 64} {addr : CpuAddr} {v : Byte}
    {stall : BitVec 32} (h : b.write cycle addr v = .ok (stall, b')) :
    (Bus.writeByte b cycle addr v).stall = stall := by
  simp only [Bus.writeByte, h]

theorem survives_write (m : Machine NesBus) (addr : CpuAddr) (v : Byte) :
    Survives 1 m (writeU8 addr v m).2 := by
  intro hf
  obtain ⟨hb, stall, hok⟩ := of_fault_ended hf
  refine ⟨hb, fun hm hroom => ?_⟩
  have htime : accessTime = 6168 := rfl
  have hmax : maxStall = 6156 := rfl
  have hclock : m.cycle.toNat + maxStall + 4 ≤ 2 ^ 64 := by omega
  have hout := outcome_follows_write hm.bus hclock addr v
  rw [hok] at hout
  obtain ⟨hstall, hout⟩ := hout
  change stall.toNat ≤ maxStall at hstall
  have hprice : (m.bus.price addr).toNat = 12 := by
    rw [hm.bus.ticks.price addr]
    rfl
  have hheld : (m.cycle + stall.setWidth 64).toNat = m.cycle.toNat + stall.toNat :=
    toNat_add_setWidth (by omega)
  have hcycle : (writeU8 addr v m).2.cycle.toNat = m.cycle.toNat + stall.toNat + 12 := by
    show (m.cycle + (Bus.writeByte m.bus m.cycle addr v).stall.setWidth 64 +
      (m.bus.price addr).setWidth 64).toNat = _
    rw [stall_writeByte hok, toNat_add_setWidth (by omega), hheld, hprice]
  have hahead := hout.ahead
  change (m.bus.ended (m.bus.write m.cycle addr v)).ppu.lastPpuCycle.toNat ≤
    max _ ((m.cycle + stall.setWidth 64).toNat + 3) at hahead
  have hm' := hm.ahead
  refine ⟨⟨hout.paced hm.bus, hm.timing, ?_⟩, by omega, by omega, hout.elapses⟩
  rw [hcycle]
  show (m.bus.ended (m.bus.write m.cycle addr v)).ppu.lastPpuCycle.toNat ≤ _
  omega

theorem survives_internal (m : Machine NesBus) (n : BitVec 32) :
    Survives n.toNat m (internalOp n m).2 := by
  intro hf
  refine ⟨hf, fun hm hroom => ?_⟩
  have htime : accessTime = 6168 := rfl
  have hle : (m.core.internalCycleTiming * n).toNat ≤ 12 * n.toNat := by
    rw [hm.timing, BitVec.toNat_mul]
    exact Nat.mod_le _ _
  rw [htime] at hroom
  have hcycle : (internalOp n m).2.cycle.toNat =
      m.cycle.toNat + (m.core.internalCycleTiming * n).toNat := by
    show (m.cycle + (m.core.internalCycleTiming * n).setWidth 64).toNat = _
    exact toNat_add_setWidth (by omega)
  have hm' := hm.ahead
  refine ⟨⟨hm.bus, hm.timing, ?_⟩, by omega, by rw [htime]; omega, 0, hm.elapses_zero⟩
  rw [hcycle]
  show m.bus.ppu.lastPpuCycle.toNat ≤ _
  omega

/-- **What happens along a course.** -/
theorem survives_course {f : Footprint} {n : ℕ} {m m' : Machine NesBus}
    (h : Course (f.allowance False) n m m') : Survives n m m' :=
  h.related graded_survives
    (fun _ _ hc hf => ⟨hf, fun hm _ => ⟨⟨hm.bus,
      (Core.Change.internalCycleTiming hc).trans hm.timing, hm.ahead⟩, Nat.le_refl _,
      Nat.le_refl _, 0, hm.elapses_zero⟩⟩)
    survives_internal survives_read (fun _ => survives_write) False.elim

/-! ### An iteration of the loop -/

/-- `PostCpuCycle`. -/
def postCpuCycle (m : Machine NesBus) : Machine NesBus :=
  { m with bus := m.bus.ended ((m.bus.catchUp m.cycle).map fun b => ((), b)) }

/-- The steps of the picture processor from one look at `pending_interrupts` to the next are no
more than this. -/
def maxLatency : ℕ := 47803

def interruptTime : ℕ := accessTime * 6

/-- What the loop keeps, when it has taken `taken` interrupts. -/
structure Steady (taken : ℕ) (m : Machine NesBus) : Prop where
  paced : Paced m
  coherent : m.core.Coherent
  native : m.core.modeNative6502 = true
  mask : m.core.MaskFits
  onlyNmi : m.bus.OnlyNmi
  counted : m.bus.latch.Counted nmiPeriod taken maxLatency
  /-- After an interrupt the picture processor is behind. -/
  lag : m.cycle.toNat ≤ m.bus.ppu.lastPpuCycle.toNat + interruptTime
  caughtUp : m.bus.latch.line = true → m.cycle.toNat ≤ m.bus.ppu.lastPpuCycle.toNat

def Room (m : Machine NesBus) : Prop := m.cycle.toNat + 2 ^ 18 ≤ 2 ^ 64

variable {taken : ℕ} {m m' : Machine NesBus}

theorem isShort_of_handler (hc : m.core.Coherent) (hn : m.core.modeNative6502 = true) {op : Op}
    (h : m.handler = some op) : op.isShort = true := by
  refine of_handler hc ?_ h
  rw [hc.mode, if_pos hn]
  exact isShort_native6502

theorem native_emulateInstruction (hc : m.core.Coherent) (h : m.emulateInstruction = some m') :
    m'.core.modeNative6502 = m.core.modeNative6502 := by
  rcases emulateInstruction_cases h with ⟨op, -, -, hs⟩ | ⟨-, -, hx⟩
  · exact (hs.core hc).modeNative6502
  · rw [hx]
    exact Core.modeNative6502_afterXce _

/-- After a fault there is a fault. -/
theorem invariant_fault (f : Fault) : Bus.Invariant fun b : NesBus => b.fault = some f where
  read {b} hb t a := by
    show (b.ended (b.read t a)).fault = some f
    unfold ended
    rw [hb]
    exact hb
  write {b} hb t a v := by
    show (b.ended (b.write t a v)).fault = some f
    unfold ended
    rw [hb]
    exact hb
  irqTaken hb _ := hb

theorem fault_step {i : Stimulus NesBus} (hi : ∀ b, i ≠ .world b) (h : Machine.step i m = some m')
    (hf : m'.bus.fault = none) : m.bus.fault = none := by
  cases hm : m.bus.fault with
  | none => rfl
  | some f =>
    have hm' := bus_step (invariant_fault f) hm (fun b hb => absurd hb (hi b)) h
    rw [hf] at hm'
    cases hm'

/-- **An instruction, with `PostCpuCycle` after it.** -/
theorem steady_emulate (h : Steady taken m) (hline : m.bus.latch.line = false) (hroom : Room m)
    (he : m.emulateInstruction = some m') (hf : (postCpuCycle m').bus.fault = none) :
    Steady taken (postCpuCycle m') := by
  obtain ⟨hf', u, hok⟩ := of_fault_ended hf
  obtain ⟨f, hcourse⟩ := course_emulateInstruction he
    fun op hop => isShort_of_handler h.coherent h.native hop
  obtain ⟨-, hgo⟩ := survives_course hcourse hf'
  have htime : accessTime * 25 = 154200 := rfl
  have hroom' : m.cycle.toNat + 2 ^ 18 ≤ 2 ^ 64 := hroom
  have hgo := hgo h.paced (by omega)
  have hle := hgo.cycle_le
  have hge := hgo.le_cycle
  obtain ⟨b, hb, hbus⟩ : ∃ b, m'.bus.catchUp m'.cycle = .ok b ∧ (postCpuCycle m').bus = b := by
    have hok' : (m'.bus.catchUp m'.cycle).map (fun b => ((), b)) =
      .ok (u, (postCpuCycle m').bus) := hok
    cases hcatch : m'.bus.catchUp m'.cycle with
    | error f =>
      rw [hcatch] at hok'
      cases hok'
    | ok b =>
      rw [hcatch] at hok'
      cases hok'
      exact ⟨_, rfl, rfl⟩
  have hclock : m'.cycle.toNat + 4 ≤ 2 ^ 64 := by omega
  have hout := outcome_follows_catchUp hgo.paced.bus hclock
  rw [hb, ← hbus] at hout
  obtain ⟨hfollows, hreach⟩ := hout
  obtain ⟨j, hj⟩ := hgo.elapses
  obtain ⟨k, hk⟩ := hfollows.elapses
  have helapses := hj.trans hk
  have hahead := hfollows.ahead
  have hahead' := hgo.paced.ahead
  have hlag := h.lag
  have hcycle := helapses.cycle
  have hint : interruptTime = 37008 := rfl
  have hmax : maxLatency = 47803 := rfl
  have hperiod : nmiPeriod = 89341 := rfl
  have hsteps : j + k ≤ maxLatency := by omega
  have hcoherent : m'.core.Coherent := coherent_emulateInstruction h.coherent he
  have hmask : m'.core.MaskFits := maskFits_step (i := .emulateInstruction) h.mask he
  exact
    { paced := ⟨hfollows.paced hgo.paced.bus, hgo.paced.timing, by
        show (postCpuCycle m').bus.ppu.lastPpuCycle.toNat ≤ m'.cycle.toNat + 3
        omega⟩
      coherent := hcoherent
      native := (native_emulateInstruction h.coherent he).trans h.native
      mask := hmask
      onlyNmi := helapses.onlyNmi h.onlyNmi
      counted := ((h.counted.empty hline).elapses helapses.latch (by omega)).mono (by omega)
      lag := hreach.trans (Nat.le_add_right _ _)
      caughtUp := fun _ => hreach }

/-- The course of an interrupt, up to `irq_taken`. -/
theorem course_nmi (m : Machine NesBus) : ∃ m',
    Course (interruptFootprint.allowance False) 6 m m' ∧
    (interrupt 1 m).2 = { m' with bus := Bus.irqTaken m'.bus 2 } := by
  have hprefix : Within (Course (β := NesBus) (interruptFootprint.allowance False)) 6 (do
      pushInterruptFrame .nmi
      let emulation ← getCore (·.modeEmulation)
      let pc ← readRaw .u16 (InterruptType.nmi.vector emulation)
      update fun c => { c with
        ip := pc.toU32, codeSegmentBase := 0, interrupts := 0
        otherFlags := if c.modeNative6502 then c.otherFlags else c.otherFlags &&& 0xFFF7 }) :=
    graded_course.bind (course_pushInterruptFrame .nmi) fun _ =>
      graded_course.bind (course_getCore _) fun _ =>
      graded_course.bind (course_readRaw .u16 _) fun pc => course_enter rfl pc
  exact ⟨_, hprefix m, rfl⟩

/-- **An interrupt clears the latch.** -/
theorem steady_interrupt (h : Steady taken m) (hline : m.bus.latch.line = true) (hroom : Room m)
    (hf : (interrupt 1 m).2.bus.fault = none) :
    Steady (taken + 1) (interrupt 1 m).2 := by
  obtain ⟨m', hcourse, heq⟩ := course_nmi m
  have hcore := (spends_interrupt 1 m).core h.coherent
  have hmask := maskFits_step (i := .interrupt 1) h.mask rfl
  change (interrupt 1 m).2.core.MaskFits at hmask
  have hcoherent := hcore.coherent
  have hnative := hcore.modeNative6502.trans h.native
  rw [heq] at hf hmask hcoherent hnative ⊢
  obtain ⟨-, hgo⟩ := survives_course hcourse hf
  have htime : accessTime * 6 = 37008 := rfl
  have hroom' : m.cycle.toNat + 2 ^ 18 ≤ 2 ^ 64 := hroom
  have hgo := hgo h.paced (by omega)
  have hge := hgo.le_cycle
  have hahead := hgo.paced.ahead
  have hup := h.caughtUp hline
  obtain ⟨k, hk⟩ := hgo.elapses
  have hcycle := hk.cycle
  have hint : interruptTime = 37008 := rfl
  have hmax : maxLatency = 47803 := rfl
  have hperiod : nmiPeriod = 89341 := rfl
  have hcounted := h.counted.elapses hk.latch (by omega)
  have hline' : m'.bus.latch.line = true := by
    rcases hk.latch.raised (by omega) with ⟨-, hl⟩ | ⟨-, hl, -⟩
    · exact hl.trans hline
    · exact hl
  have hfour : m'.bus.pendingInterrupts = 4 := by
    rcases hk.onlyNmi h.onlyNmi with hp | hp
    · change (m'.bus.pendingInterrupts &&& 4 != 0) = true at hline'
      rw [hp] at hline'
      cases hline'
    · exact hp
  have hclear : (Bus.irqTaken m'.bus 2).latch = m'.bus.latch.clear := by
    show Latch.mk _ (m'.bus.pendingInterrupts &&& ~~~((1 : BitVec 32) <<< (2 : BitVec 32).toNat) &&&
      4 != 0) _ = _
    rw [hfour]
    rfl
  exact
    { paced := ⟨⟨stable_ticks.frame hgo.paced.bus.ticks ⟨rfl, rfl, rfl, rfl, rfl⟩,
        hgo.paced.bus.valid⟩, hgo.paced.timing, hahead⟩
      coherent := hcoherent
      native := hnative
      mask := hmask
      onlyNmi := Or.inl (by
        show m'.bus.pendingInterrupts &&& ~~~((1 : BitVec 32) <<< (2 : BitVec 32).toNat) = 0
        rw [hfour]
        rfl)
      counted := by
        show (Bus.irqTaken m'.bus 2).latch.Counted nmiPeriod (taken + 1) maxLatency
        rw [hclear]
        exact (hcounted.clear hline').mono (Nat.zero_le _)
      lag := by
        show m'.cycle.toNat ≤ m'.bus.ppu.lastPpuCycle.toNat + interruptTime
        omega
      caughtUp := fun hl => by
        change (Bus.irqTaken m'.bus 2).latch.line = true at hl
        rw [hclear] at hl
        cases hl }

/-! ### The loop -/

section Loop

variable {ε φ : Type}

/-- The CPU of a console with breakpoints and events that look at the machine and change the
event queue and the breakpoints only. -/
def consoleCpu (hit : φ → Machine NesBus → List (Effect ε φ))
    (call : ε → Machine NesBus → List (Effect ε φ)) : DebuggedCpu (Machine NesBus) ε φ where
  cycle m := m.cycle
  cycleStop m := m.cycleStop
  interrupts m := m.core.interrupts
  pendingInterrupts m := Bus.pendingInterrupts m.bus
  getCanonicalAddress m := m.core.getCanonicalAddress
  maskIp m := { m with core := { m.core with ip := m.core.ip &&& ipMask } }
  invoke
    | .emu, m => m.emulateInstruction.map fun m' => (m', [])
    | .interrupt type, m => some ((interrupt type m).2, [])
  hit f m := (m, hit f m)
  call f m := (m, call f m)

def nmiCalls (actions : List (Action ε)) : ℕ :=
  actions.countP fun
    | .invoke (.interrupt type) => type = 1
    | _ => false

variable {hit : φ → Machine NesBus → List (Effect ε φ)}
  {call : ε → Machine NesBus → List (Effect ε φ)} {H : StdHeap ε} {base : ℕ} {stop : BitVec 64}

theorem Steady.maskIp (h : Steady taken m) : Steady taken ((consoleCpu hit call).maskIp m) :=
  ⟨⟨h.paced.bus, h.paced.timing, h.paced.ahead⟩, h.coherent.setIp _, h.native, h.mask, h.onlyNmi,
    h.counted, h.lag, h.caughtUp⟩

/-- **The loop takes an interrupt exactly where the latch is raised.** -/
theorem Steady.interruptType (h : Steady taken m) :
    (consoleCpu hit call).interruptType m = if m.bus.latch.line then some 1 else none := by
  show (if 3 ≤ m.bus.pendingInterrupts + m.core.interrupts then
    some (if m.bus.pendingInterrupts &&& 4 ≠ 0 then (1 : BitVec 32) else 0) else none) =
      if m.bus.pendingInterrupts &&& 4 != 0 then some 1 else none
  rcases h.onlyNmi with hp | hp
  · rw [hp]
    rcases h.mask with hi | hi
    · rw [hi]
      rfl
    · rw [hi]
      rfl
  · rw [hp]
    rcases h.mask with hi | hi
    · rw [hi]
      rfl
    · rw [hi]
      rfl

/-- The machine at a place of the loop that has been at it for `actions`. -/
def Steadily (base : ℕ) (m : Machine NesBus) (actions : List (Action ε)) : LoopPc → Prop
  | .call .emu => Room m ∧ m.bus.latch.line = false ∧ Steady (base + nmiCalls actions) m
  | .call (.interrupt type) => type = 1 ∧ Room m ∧ m.bus.latch.line = true ∧
    ∃ taken, Steady taken m ∧ base + nmiCalls actions = taken + 1
  | _ => Steady (base + nmiCalls actions) m

/-- The bound of the loop is no later than `cycle_stop`. -/
def Bounded (stop : BitVec 64) (l : Running (Machine NesBus) ε φ) : Prop :=
  ∃ q, l.events = some q ∧ q.stop = stop ∧ q.cycle ≤ stop

theorem Bounded.pointee {l : Running (Machine NesBus) ε φ} (h : Bounded stop l)
    (bound : BitVec 64) : l.pointee bound ≤ stop := by
  obtain ⟨q, hq, -, hle⟩ := h
  rw [Running.pointee, hq]
  exact hle

theorem cycle_refresh_le (q : EventQueue ε) : q.refresh.cycle ≤ q.stop := by
  unfold EventQueue.refresh
  dsimp only
  split
  · exact BitVec.le_refl _
  · exact (EventQueue.minStop_le _ _).1

/-- What a call of the loop leaves. -/
theorem returned_spec {l : Running (Machine NesBus) ε φ} (h : Bounded stop l)
    (r : Machine NesBus × List (Effect ε φ)) :
    Bounded stop (l.returned H r) ∧ (l.returned H r).state = r.1 ∧
      (l.returned H r).actions = l.actions := by
  refine Running.returned_invariant
    (P := fun l' => Bounded stop l' ∧ l'.state = r.1 ∧ l'.actions = l.actions) ?_ ⟨h, rfl, rfl⟩
  rintro l' e ⟨⟨q, hq, hstop, hle⟩, hs, ha⟩
  cases e with
  | schedule e =>
    refine ⟨⟨q.scheduleNoLock H e, ?_, hstop, hstop ▸ cycle_refresh_le _⟩, hs, ha⟩
    show l'.events.map _ = _
    rw [hq]
    rfl
  | addBreakpoint addr fn => exact ⟨⟨q, hq, hstop, hle⟩, hs, ha⟩
  | removeBreakpoint addr => exact ⟨⟨q, hq, hstop, hle⟩, hs, ha⟩

inductive Steps (cpu : DebuggedCpu (Machine NesBus) ε φ) (l l' : Running (Machine NesBus) ε φ)
    (bound : BitVec 64) : Prop
  | take (type : BitVec 32) (hpc : l.pc = .test) (hlt : l.state.cycle < bound)
    (htype : cpu.interruptType (cpu.maskIp l.state) = some type)
    (hstate : l'.state = cpu.maskIp l.state) (hpc' : l'.pc = .call (.interrupt type))
    (hactions : l'.actions = l.actions ++ [.invoke (.interrupt type)])
  | begin (hpc : l.pc = .test) (hlt : l.state.cycle < bound)
    (htype : cpu.interruptType (cpu.maskIp l.state) = none)
    (hstate : l'.state = cpu.maskIp l.state) (hpc' : l'.pc = .call .emu)
    (hactions : nmiCalls l'.actions = nmiCalls l.actions)
  | emu (m : Machine NesBus) (hpc : l.pc = .call .emu) (hm : l.state.emulateInstruction = some m)
    (hstate : l'.state = postCpuCycle m) (hpc' : l'.pc = .test) (hactions : l'.actions = l.actions)
  | interrupt (type : BitVec 32) (hpc : l.pc = .call (.interrupt type))
    (hstate : l'.state = (Machine.interrupt type l.state).2) (hpc' : l'.pc = .test)
    (hactions : l'.actions = l.actions)
  | rest (hpc : ∀ c, l.pc ≠ .call c) (hpc' : ∀ c, l'.pc ≠ .call c) (hstate : l'.state = l.state)
    (hactions : nmiCalls l'.actions = nmiCalls l.actions)

theorem nmiCalls_append (as bs : List (Action ε)) :
    nmiCalls (as ++ bs) = nmiCalls as + nmiCalls bs := List.countP_append

theorem steps_enter {l : Running (Machine NesBus) ε φ} {bound : BitVec 64} (hb : Bounded stop l)
    (hpc : l.pc = .test) (hlt : l.state.cycle < bound) (hle : bound ≤ stop)
    {s : EmulateWithCycleProcessing.State (Machine NesBus) ε φ}
    (hs : EmulateWithCycleProcessing.enter (consoleCpu hit call) H id (l, bound) = s) :
    Bounded stop s.1 ∧ s.2 ≤ stop ∧ Steps (consoleCpu hit call) l s.1 bound := by
  subst hs
  simp only [EmulateWithCycleProcessing.enter, id_eq]
  cases htype : (consoleCpu hit call).interruptType (l.mask (consoleCpu hit call)).state with
  | some type => exact ⟨hb, hle, .take type hpc hlt htype rfl rfl rfl⟩
  | none =>
    cases hfind : (l.mask (consoleCpu hit call)).breakpoints.find
        ((consoleCpu hit call).getCanonicalAddress (l.mask (consoleCpu hit call)).state) with
    | none => exact ⟨hb, hle, .begin hpc hlt htype rfl rfl (nmiCalls_append _ [.invoke .emu])⟩
    | some fn =>
      have hmask : Bounded stop { l.mask (consoleCpu hit call) with
          actions := (l.mask (consoleCpu hit call)).actions ++ [Action.breakpoint
            ((consoleCpu hit call).getCanonicalAddress (l.mask (consoleCpu hit call)).state)] } :=
        hb
      obtain ⟨hb', hstate, hactions⟩ := returned_spec (H := H) hmask
        ((consoleCpu hit call).hit fn (l.mask (consoleCpu hit call)).state)
      refine ⟨hb', hb'.pointee bound, .begin hpc hlt htype hstate rfl ?_⟩
      refine (nmiCalls_append _ [.invoke .emu]).trans ?_
      exact (congrArg nmiCalls hactions).trans (nmiCalls_append _ [.breakpoint _])

/-- **A step of the loop.** -/
theorem steps_of_step {s s' : EmulateWithCycleProcessing.State (Machine NesBus) ε φ}
    (hb : Bounded stop s.1) (hle : s.2 ≤ stop) (h : EmulateWithCycleProcessing.step
      (consoleCpu hit call) H id postCpuCycle s = some s') :
    Bounded stop s'.1 ∧ s'.2 ≤ stop ∧ Steps (consoleCpu hit call) s.1 s'.1 s.2 := by
  obtain ⟨l, bound⟩ := s
  simp only [EmulateWithCycleProcessing.step] at h
  cases hpc : l.pc with
  | test =>
    rw [hpc] at h
    dsimp only at h
    split at h
    · next hlt => exact steps_enter hb hpc hlt hle (Option.some.inj h)
    · obtain ⟨q, hq, hstop⟩ := hb
      rw [hq] at h
      cases h
      exact ⟨⟨q, rfl, hstop⟩, hle,
        .rest (fun c hc => by cases hpc.symm.trans hc) (fun _ hc => by cases hc) rfl rfl⟩
  | call c =>
    rw [hpc] at h
    obtain ⟨r, hr, rfl⟩ := Option.map_eq_some_iff.mp h
    obtain ⟨hb', hstate, hactions⟩ := returned_spec (H := H) hb r
    cases c with
    | emu =>
      obtain ⟨m, hm, rfl⟩ := Option.map_eq_some_iff.mp hr
      exact ⟨hb', hb'.pointee bound,
        .emu m hpc hm (congrArg postCpuCycle hstate) rfl hactions⟩
    | interrupt type =>
      cases hr
      exact ⟨hb', hb'.pointee bound, .interrupt type hpc hstate rfl hactions⟩
  | expire t =>
    rw [hpc] at h
    obtain ⟨q, hq, hs⟩ := Option.map_eq_some_iff.mp h
    obtain ⟨q', hq', hstop, hcycle⟩ := hb
    obtain rfl : q = q' := Option.some.inj (hq.symm.trans hq')
    cases hdue : q.popDue H t with
    | some r =>
      obtain ⟨f, events⟩ := r
      rw [hdue] at hs
      subst hs
      have hevents : events.stop = q.stop ∧ events.cycle = q.cycle := by
        unfold EventQueue.popDue at hdue
        split at hdue
        · cases hdue
        · split at hdue
          · cases hdue
            exact ⟨rfl, rfl⟩
          · cases hdue
      have hb : Bounded stop { l with
          events := some events, actions := l.actions ++ [Action.expire f] } :=
        ⟨events, rfl, hevents.1.trans hstop, hevents.2 ▸ hcycle⟩
      obtain ⟨hb', hstate, hactions⟩ := returned_spec (H := H) hb
        ((consoleCpu hit call).call f l.state)
      refine ⟨hb', hb'.pointee bound,
        .rest (fun c hc => by cases hpc.symm.trans hc) (fun c => ?_) hstate
        ((congrArg nmiCalls hactions).trans (nmiCalls_append _ [.expire f]))⟩
      have hpc' : (l.expire H (consoleCpu hit call) f events).pc = l.pc := pc_returned _ _
      rw [hpc', hpc]
      intro hc
      cases hc
    | none =>
      rw [hdue] at hs
      subst hs
      have hb : Bounded stop { l with events := some q.refresh } :=
        ⟨q.refresh, rfl, hstop, hstop ▸ cycle_refresh_le q⟩
      refine ⟨hb, hb.pointee bound,
        .rest (fun c hc => by cases hpc.symm.trans hc) (fun c => ?_) rfl rfl⟩
      show (if _ then LoopPc.test else .done) ≠ .call c
      intro hc
      split at hc
      · cases hc
      · cases hc
  | done =>
    rw [hpc] at h
    cases h
  | null =>
    rw [hpc] at h
    cases h

structure Delivers (base : ℕ) (stop : BitVec 64)
    (s : EmulateWithCycleProcessing.State (Machine NesBus) ε φ) : Prop where
  bounded : Bounded stop s.1
  bound : s.2 ≤ stop
  steady : s.1.state.bus.fault = none → Steadily base s.1.state s.1.actions s.1.pc

theorem steadily_of_rest {m : Machine NesBus} {as : List (Action ε)} {pc : LoopPc}
    (hpc : ∀ c, pc ≠ .call c) : Steadily base m as pc = Steady (base + nmiCalls as) m := by
  cases pc with
  | call c => exact absurd rfl (hpc c)
  | test => rfl
  | expire t => rfl
  | done => rfl
  | null => rfl

theorem Delivers.step {s s' : EmulateWithCycleProcessing.State (Machine NesBus) ε φ}
    (hroom : stop.toNat + 2 ^ 18 ≤ 2 ^ 64) (hs : Delivers base stop s)
    (h : EmulateWithCycleProcessing.step (consoleCpu hit call) H id postCpuCycle s = some s') :
    Delivers base stop s' := by
  obtain ⟨hb, hle, hsteps⟩ := steps_of_step hs.bounded hs.bound h
  refine ⟨hb, hle, fun hf => ?_⟩
  have hsteady := hs.steady
  have hlate : ∀ m : Machine NesBus, m.cycle < s.2 → Room m := by
    intro m hlt
    have hlt' : m.cycle.toNat < s.2.toNat := hlt
    have hle' : s.2.toNat ≤ stop.toNat := hs.bound
    show m.cycle.toNat + 2 ^ 18 ≤ 2 ^ 64
    omega
  cases hsteps with
  | take type hpc hlt htype hstate hpc' hactions =>
    rw [hstate] at hf
    rw [hpc] at hsteady
    have hm : Steady (base + nmiCalls s.1.actions) ((consoleCpu hit call).maskIp s.1.state) :=
      (hsteady hf).maskIp
    rw [hm.interruptType] at htype
    split at htype
    · next hline =>
      cases htype
      rw [hpc', hstate, hactions]
      exact ⟨rfl, hlate s.1.state hlt, hline, _, hm, by rw [nmiCalls_append]; rfl⟩
    · cases htype
  | begin hpc hlt htype hstate hpc' hactions =>
    rw [hstate] at hf
    rw [hpc] at hsteady
    have hm : Steady (base + nmiCalls s.1.actions) ((consoleCpu hit call).maskIp s.1.state) :=
      (hsteady hf).maskIp
    rw [hm.interruptType] at htype
    split at htype
    · cases htype
    · next hline =>
      rw [hpc', hstate]
      refine ⟨hlate s.1.state hlt, Bool.eq_false_iff.mpr hline, ?_⟩
      rw [hactions]
      exact hm
  | emu m hpc hm hstate hpc' hactions =>
    rw [hstate] at hf
    rw [hpc] at hsteady
    obtain ⟨hfault, -⟩ := of_fault_ended hf
    obtain ⟨hroom', hline, hm'⟩ :=
      hsteady (fault_step (i := .emulateInstruction) (fun _ h => by cases h) hm hfault)
    rw [hpc', hstate, hactions]
    exact steady_emulate hm' hline hroom' hm hf
  | interrupt type hpc hstate hpc' hactions =>
    rw [hstate] at hf
    rw [hpc] at hsteady
    obtain ⟨rfl, hroom', hline, taken, hm', htaken⟩ :=
      hsteady (fault_step (i := .interrupt type) (fun _ h => by cases h) rfl hf)
    rw [hpc', hstate, hactions]
    show Steady (base + nmiCalls s.1.actions) _
    rw [htaken]
    exact steady_interrupt hm' hline hroom' hf
  | rest hpc hpc' hstate hactions =>
    rw [hstate] at hf
    have hm := hsteady hf
    rw [steadily_of_rest hpc] at hm
    rw [hstate, steadily_of_rest hpc', hactions]
    exact hm

end Loop

end RetroCpu.Nes
