import RetroCpu.Bus
import RetroCpu.RunLoop

/-!
# The two run loops

`EmulatedCpu::Emulate` and `EmulatedCpu::EmulateWithCycleProcessing` are written twice.  Each
has its own step function here, over the same states.  They differ in three places: where
the bound that the event queue moves is stored, whether `has_breakpoints` is looked at
before the map, and what they do when there is no queue.

`agree_iff` says what follows from the last one.
-/

namespace RetroCpu

/-- The breakpoints of an `EmulatedCpu`. -/
structure Breakpoints (φ : Type) where
  hasBreakpoints : Bool
  breakpoints : List (CpuAddr × φ)

namespace Breakpoints

variable {φ : Type}

/-- `breakpoints.find(addr)`. -/
def find (b : Breakpoints φ) (addr : CpuAddr) : Option φ := b.breakpoints.lookup addr

/-- The default member initialisers. -/
def empty : Breakpoints φ := ⟨false, []⟩

/-- `AddBreakpoint`.  A breakpoint that is there already stays. -/
def addBreakpoint (b : Breakpoints φ) (addr : CpuAddr) (fn : φ) : Bool × Breakpoints φ :=
  match b.find addr with
  | some _ => (false, ⟨true, b.breakpoints⟩)
  | none => (true, ⟨true, (addr, fn) :: b.breakpoints⟩)

/-- `RemoveBreakpoint`. -/
def removeBreakpoint (b : Breakpoints φ) (addr : CpuAddr) : Breakpoints φ :=
  let breakpoints := b.breakpoints.filter (·.1 ≠ addr)
  ⟨!breakpoints.isEmpty, breakpoints⟩

/-- A map built by `AddBreakpoint` and `RemoveBreakpoint`. -/
inductive Built : Breakpoints φ → Prop
  | empty : Built empty
  | add {b : Breakpoints φ} (h : Built b) (addr : CpuAddr) (fn : φ) :
      Built (b.addBreakpoint addr fn).2
  | remove {b : Breakpoints φ} (h : Built b) (addr : CpuAddr) : Built (b.removeBreakpoint addr)

/-- **The flag says whether there are breakpoints.** -/
theorem Built.hasBreakpoints {b : Breakpoints φ} (h : Built b) :
    b.hasBreakpoints = !b.breakpoints.isEmpty := by
  induction h with
  | empty => rfl
  | @add b _ addr fn _ =>
    unfold addBreakpoint
    cases hfind : b.find addr with
    | none => rfl
    | some fn' =>
      cases hb : b.breakpoints with
      | nil =>
        rw [find, hb] at hfind
        cases hfind
      | cons _ _ => rfl
  | remove _ addr _ => rfl

theorem Built.find_eq {b : Breakpoints φ} (h : Built b) (addr : CpuAddr) :
    (if b.hasBreakpoints then b.find addr else none) = b.find addr := by
  rw [h.hasBreakpoints]
  cases hb : b.breakpoints with
  | nil =>
    rw [find, hb]
    rfl
  | cons _ _ => rfl

end Breakpoints

/-- What a call may do besides changing the state of the CPU. -/
inductive Effect (ε φ : Type)
  | schedule (e : Entry ε)
  | addBreakpoint (addr : CpuAddr) (fn : φ)
  | removeBreakpoint (addr : CpuAddr)

/-- A CPU with breakpoints, as both loops use it.  `σ` is its state but for `event_cycle`. -/
structure DebuggedCpu (σ ε φ : Type) where
  cycle : σ → BitVec 64
  cycleStop : σ → BitVec 64
  interrupts : σ → BitVec 32
  pendingInterrupts : σ → BitVec 32
  getCanonicalAddress : σ → CpuAddr
  /-- `ip &= ip_mask`. -/
  maskIp : σ → σ
  /-- `exec->emu` and `exec->interrupt`, which may not return. -/
  invoke : Call → σ → Option (σ × List (Effect ε φ))
  /-- The function of a breakpoint. -/
  hit : φ → σ → σ × List (Effect ε φ)
  /-- The function of an event. -/
  call : ε → σ → σ × List (Effect ε φ)

inductive Action (ε : Type)
  | invoke (c : Call)
  | breakpoint (addr : CpuAddr)
  | expire (f : ε)

inductive LoopPc
  /-- At the condition of the inner loop. -/
  | test
  | call (c : Call)
  /-- In the loop of `Expire(t)`. -/
  | expire (t : BitVec 64)
  | done
  /-- A null pointer has been dereferenced. -/
  | null
  deriving DecidableEq

/-- The state of a run loop.  `eventCycle` is the member of `CpuState`. -/
structure Running (σ ε φ : Type) where
  state : σ
  eventCycle : BitVec 64
  breakpoints : Breakpoints φ
  events : Option (EventQueue ε)
  pc : LoopPc
  actions : List (Action ε)

namespace Running

variable {σ ε φ : Type} (H : StdHeap ε)

def effect (l : Running σ ε φ) : Effect ε φ → Running σ ε φ
  | .schedule e => { l with events := l.events.map (·.scheduleNoLock H e) }
  | .addBreakpoint addr fn => { l with breakpoints := (l.breakpoints.addBreakpoint addr fn).2 }
  | .removeBreakpoint addr => { l with breakpoints := l.breakpoints.removeBreakpoint addr }

def returned (l : Running σ ε φ) (r : σ × List (Effect ε φ)) : Running σ ε φ :=
  r.2.foldl (effect H) { l with state := r.1 }

/-- The bound that the queue's `cycle` points to, or `bound` when there is no queue. -/
def pointee (l : Running σ ε φ) (bound : BitVec 64) : BitVec 64 :=
  match l.events with
  | none => bound
  | some q => q.cycle

/-- `ip &= ip_mask`. -/
def mask (cpu : DebuggedCpu σ ε φ) (l : Running σ ε φ) : Running σ ε φ :=
  { l with state := cpu.maskIp l.state }

/-- A call of `interrupt` or `emu` is next. -/
def calls (l : Running σ ε φ) (c : Call) : Running σ ε φ :=
  { l with pc := .call c, actions := l.actions ++ [.invoke c] }

/-- The function of the breakpoint at `addr` is called. -/
def hit (cpu : DebuggedCpu σ ε φ) (l : Running σ ε φ) (addr : CpuAddr) (fn : φ) :
    Running σ ε φ :=
  returned H { l with actions := l.actions ++ [.breakpoint addr] } (cpu.hit fn l.state)

/-- The loop of `Expire` calls `f` and goes on with `events`. -/
def expire (cpu : DebuggedCpu σ ε φ) (l : Running σ ε φ) (f : ε) (events : EventQueue ε) :
    Running σ ε φ :=
  returned H { l with events := some events, actions := l.actions ++ [.expire f] }
    (cpu.call f l.state)

def outer (cpu : DebuggedCpu σ ε φ) (l : Running σ ε φ) : Running σ ε φ :=
  { l with pc := if cpu.cycle l.state < cpu.cycleStop l.state then .test else .done }

/-- `state->event_cycle` is where the queue points to. -/
def sync (l : Running σ ε φ) : Running σ ε φ := { l with eventCycle := l.pointee l.eventCycle }

end Running

variable {σ ε φ : Type}

def DebuggedCpu.interruptType (cpu : DebuggedCpu σ ε φ) (s : σ) : Option (BitVec 32) :=
  let pendingInterrupts := cpu.pendingInterrupts s
  if 3 ≤ pendingInterrupts + cpu.interrupts s then
    some (if pendingInterrupts &&& 4 ≠ 0 then 1 else 0)
  else none

/-! ### `Emulate` -/

namespace Emulate

variable (cpu : DebuggedCpu σ ε φ) (H : StdHeap ε)

/-- `Emulate` up to the first test.  The queue points to `state->event_cycle`. -/
def start (s : σ) (b : Breakpoints φ) (events : Option (EventQueue ε)) : Running σ ε φ :=
  let stop := cpu.cycleStop s
  let l : Running σ ε φ := ⟨s, stop, b, events.map (·.start stop stop), .test, []⟩
  l.sync

/-- The body of the inner loop up to its call. -/
def enter (l : Running σ ε φ) : Running σ ε φ :=
  let l := l.mask cpu
  match cpu.interruptType l.state with
  | some type => l.calls (.interrupt type)
  | none =>
    let addr := cpu.getCanonicalAddress l.state
    match if l.breakpoints.hasBreakpoints then l.breakpoints.find addr else none with
    | none => l.calls .emu
    | some fn => (l.hit H cpu addr fn).sync.calls .emu

/-- One step of `Emulate`. -/
def step (l : Running σ ε φ) : Option (Running σ ε φ) :=
  match l.pc with
  | .test =>
    if cpu.cycle l.state < l.eventCycle then some (enter cpu H l)
    else
      match l.events with
      | none => some { l with pc := .null }
      | some _ => some { l with pc := .expire (cpu.cycle l.state) }
  | .call c =>
    (cpu.invoke c l.state).map fun r =>
      let l := (l.returned H r).sync
      { l with pc := .test }
  | .expire t =>
    l.events.map fun events =>
      match events.popDue H t with
      | some (f, events) => (l.expire H cpu f events).sync
      | none =>
        let l := { l with events := some events.refresh }
        l.sync.outer cpu
  | .done => none
  | .null => none

end Emulate

/-! ### `EmulateWithCycleProcessing` -/

namespace EmulateWithCycleProcessing

variable (cpu : DebuggedCpu σ ε φ) (H : StdHeap ε) (preCpuCycle postCpuCycle : σ → σ)

/-- A state of the loop and its local `event_cycle`. -/
abbrev State (σ ε φ : Type) : Type := Running σ ε φ × BitVec 64

/-- `EmulateWithCycleProcessing` up to the first test.  The queue points to the local. -/
def start (s : σ) (eventCycle : BitVec 64) (b : Breakpoints φ) (events : Option (EventQueue ε)) :
    State σ ε φ :=
  let stop := cpu.cycleStop s
  let l : Running σ ε φ := ⟨s, eventCycle, b, events.map (·.start stop stop), .test, []⟩
  (l, l.pointee stop)

/-- The body of the inner loop up to its call. -/
def enter : State σ ε φ → State σ ε φ
  | (l, eventCycle) =>
    let l := l.mask cpu
    match cpu.interruptType l.state with
    | some type => (l.calls (.interrupt type), eventCycle)
    | none =>
      let l := { l with state := preCpuCycle l.state }
      let addr := cpu.getCanonicalAddress l.state
      match l.breakpoints.find addr with
      | none => (l.calls .emu, eventCycle)
      | some fn =>
        let l := l.hit H cpu addr fn
        (l.calls .emu, l.pointee eventCycle)

/-- One step of `EmulateWithCycleProcessing`. -/
def step : State σ ε φ → Option (State σ ε φ)
  | (l, eventCycle) =>
    match l.pc with
    | .test =>
      if cpu.cycle l.state < eventCycle then some (enter cpu H preCpuCycle (l, eventCycle))
      else
        match l.events with
        | none => some (l.outer cpu, eventCycle)
        | some _ => some ({ l with pc := .expire (cpu.cycle l.state) }, eventCycle)
    | .call c =>
      (cpu.invoke c l.state).map fun r =>
        let l := l.returned H r
        let l := if c = .emu then { l with state := postCpuCycle l.state } else l
        ({ l with pc := .test }, l.pointee eventCycle)
    | .expire t =>
      l.events.map fun events =>
        match events.popDue H t with
        | some (f, events) =>
          let l := l.expire H cpu f events
          (l, l.pointee eventCycle)
        | none =>
          let l := { l with events := some events.refresh }
          (l.outer cpu, l.pointee eventCycle)
    | .done => none
    | .null => none

end EmulateWithCycleProcessing

/-! ### One step -/

namespace Running

variable {H : StdHeap ε}

/-- What can be seen of a run loop: all but `event_cycle`. -/
def visible (l : Running σ ε φ) :
    σ × Breakpoints φ × Option (EventQueue ε) × LoopPc × List (Action ε) :=
  (l.state, l.breakpoints, l.events, l.pc, l.actions)

def withCycle (l : Running σ ε φ) (c : BitVec 64) : Running σ ε φ := { l with eventCycle := c }

/-- A call does not look at the bound. -/
theorem returned_withCycle (l : Running σ ε φ) (c : BitVec 64) (r : σ × List (Effect ε φ)) :
    (l.withCycle c).returned H r = (l.returned H r).withCycle c := by
  have h : ∀ (es : List (Effect ε φ)) (l : Running σ ε φ),
      es.foldl (effect H) (l.withCycle c) = (es.foldl (effect H) l).withCycle c := by
    intro es
    induction es with
    | nil => exact fun _ => rfl
    | cons e es ih =>
      intro l
      rw [List.foldl_cons, List.foldl_cons, ← ih]
      cases e <;> rfl
  exact h r.2 { l with state := r.1 }

theorem hit_withCycle (cpu : DebuggedCpu σ ε φ) (l : Running σ ε φ) (c : BitVec 64)
    (addr : CpuAddr) (fn : φ) :
    (l.withCycle c).hit H cpu addr fn = (l.hit H cpu addr fn).withCycle c :=
  returned_withCycle { l with actions := l.actions ++ [.breakpoint addr] } c _

theorem expire_withCycle (cpu : DebuggedCpu σ ε φ) (l : Running σ ε φ) (c : BitVec 64) (f : ε)
    (events : EventQueue ε) :
    (l.withCycle c).expire H cpu f events = (l.expire H cpu f events).withCycle c :=
  returned_withCycle { l with events := some events, actions := l.actions ++ [.expire f] } c _

theorem returned_invariant {P : Running σ ε φ → Prop} (h : ∀ l e, P l → P (effect H l e))
    {l : Running σ ε φ} {r : σ × List (Effect ε φ)} (hl : P { l with state := r.1 }) :
    P (l.returned H r) := by
  unfold returned
  generalize { l with state := r.1 } = l' at hl ⊢
  induction r.2 generalizing l' with
  | nil => exact hl
  | cons e es ih => exact ih _ (h l' e hl)

/-- What a loop with a queue (`given`) or without one keeps. -/
structure Regular (given : Bool) (l : Running σ ε φ) : Prop where
  built : l.breakpoints.Built
  events : l.events.isSome = given
  pc : l.pc ≠ .null

variable {given : Bool}

theorem Regular.returned {l : Running σ ε φ} (h : l.Regular given) (r : σ × List (Effect ε φ)) :
    (l.returned H r).Regular given := by
  refine returned_invariant (P := Regular given) (fun l e hl => ?_) ⟨h.built, h.events, h.pc⟩
  cases e with
  | schedule e => exact ⟨hl.built, (Option.isSome_map ..).trans hl.events, hl.pc⟩
  | addBreakpoint addr fn => exact ⟨hl.built.add addr fn, hl.events, hl.pc⟩
  | removeBreakpoint addr => exact ⟨hl.built.remove addr, hl.events, hl.pc⟩

theorem Regular.hit {l : Running σ ε φ} (h : l.Regular given) (cpu : DebuggedCpu σ ε φ)
    (addr : CpuAddr) (fn : φ) : (l.hit H cpu addr fn).Regular given :=
  Regular.returned (l := { l with actions := l.actions ++ [.breakpoint addr] })
    ⟨h.built, h.events, h.pc⟩ _

theorem Regular.expire {l : Running σ ε φ} (h : l.Regular true) (cpu : DebuggedCpu σ ε φ) (f : ε)
    (events : EventQueue ε) : (l.expire H cpu f events).Regular true :=
  Regular.returned
    (l := { l with events := some events, actions := l.actions ++ [.expire f] })
    ⟨h.built, rfl, h.pc⟩ _

theorem Regular.outer {l : Running σ ε φ} (h : l.Regular given) (cpu : DebuggedCpu σ ε φ) :
    (l.outer cpu).Regular given := by
  refine ⟨h.built, h.events, ?_⟩
  show (if cpu.cycle l.state < cpu.cycleStop l.state then LoopPc.test else .done) ≠ .null
  split <;> exact nofun

end Running

/-- The state of `Emulate` whose bound is the local of the other loop. -/
def merged (m : EmulateWithCycleProcessing.State σ ε φ) : Running σ ε φ := m.1.withCycle m.2

variable {cpu : DebuggedCpu σ ε φ} {H : StdHeap ε}

theorem merged_start (s : σ) (ec : BitVec 64) (b : Breakpoints φ)
    (events : Option (EventQueue ε)) :
    merged (EmulateWithCycleProcessing.start cpu s ec b events) =
      Emulate.start cpu s b events := rfl

/-- The body of the inner loop is the same. -/
theorem merged_enter {l : Running σ ε φ} {c : BitVec 64} (hb : l.breakpoints.Built) :
    Emulate.enter cpu H (l.withCycle c) =
      merged (EmulateWithCycleProcessing.enter cpu H id (l, c)) := by
  have hfind := hb.find_eq (cpu.getCanonicalAddress (l.mask cpu).state)
  unfold Emulate.enter EmulateWithCycleProcessing.enter
  change (match cpu.interruptType (l.mask cpu).state with
    | some type => _
    | none =>
      match if l.breakpoints.hasBreakpoints then
          l.breakpoints.find (cpu.getCanonicalAddress (l.mask cpu).state) else none with
      | none => _
      | some fn => (((l.mask cpu).withCycle c).hit H cpu _ fn).sync.calls .emu) =
    merged (match cpu.interruptType (l.mask cpu).state with
    | some type => _
    | none =>
      match l.breakpoints.find (cpu.getCanonicalAddress (l.mask cpu).state) with
      | none => _
      | some fn => _)
  rw [hfind]
  cases cpu.interruptType (l.mask cpu).state with
  | some type => rfl
  | none =>
    cases l.breakpoints.find (cpu.getCanonicalAddress (l.mask cpu).state) with
    | none => rfl
    | some fn =>
      simp only [Running.hit_withCycle]
      rfl

/-- **One step is the same** unless the inner loop ends and there is no queue. -/
theorem merged_step (cpu : DebuggedCpu σ ε φ) (H : StdHeap ε)
    {m : EmulateWithCycleProcessing.State σ ε φ} (hb : m.1.breakpoints.Built)
    (hq : m.1.pc = .test → cpu.cycle m.1.state < m.2 ∨ m.1.events ≠ none) :
    Emulate.step cpu H (merged m) =
      (EmulateWithCycleProcessing.step cpu H id id m).map merged := by
  obtain ⟨l, c⟩ := m
  obtain ⟨s, ec, b, events, pc, actions⟩ := l
  cases pc with
  | test =>
    by_cases hlt : cpu.cycle s < c
    · have hm : Emulate.step cpu H (merged (⟨s, ec, b, events, .test, actions⟩, c)) =
          some (Emulate.enter cpu H (Running.withCycle ⟨s, ec, b, events, .test, actions⟩ c)) :=
        if_pos hlt
      rw [hm, merged_enter hb, EmulateWithCycleProcessing.step, if_pos hlt, Option.map_some]
    · obtain hlt' | hne := hq rfl
      · exact absurd hlt' hlt
      · obtain ⟨q, rfl⟩ := Option.ne_none_iff_exists'.mp hne
        simp only [EmulateWithCycleProcessing.step, if_neg hlt, Option.map_some]
        exact if_neg hlt
  | call c' =>
    simp only [Emulate.step, EmulateWithCycleProcessing.step, id_eq, ite_self, Option.map_map]
    change (cpu.invoke c' s).map _ = (cpu.invoke c' s).map _
    congr 1
    funext r
    have hr := Running.returned_withCycle (H := H) ⟨s, ec, b, events, .call c', actions⟩ c r
    simp only [merged, hr]
    rfl
  | expire t =>
    cases events with
    | none => rfl
    | some q =>
      simp only [Emulate.step, EmulateWithCycleProcessing.step, merged, Running.withCycle,
        Option.map_some, Option.some.injEq]
      cases q.popDue H t with
      | none => rfl
      | some r =>
        obtain ⟨f, q'⟩ := r
        have hr := Running.expire_withCycle (H := H) cpu
          ⟨s, ec, b, some q, .expire t, actions⟩ c f q'
        change ((Running.withCycle ⟨s, ec, b, some q, .expire t, actions⟩ c).expire H cpu f
          q').sync = _
        rw [hr]
        rfl
  | done => rfl
  | null => rfl

variable {given : Bool}

theorem regular_enter {l : Running σ ε φ} (hl : l.Regular given) (c : BitVec 64) :
    (EmulateWithCycleProcessing.enter cpu H id (l, c)).1.Regular given := by
  simp only [EmulateWithCycleProcessing.enter, id_eq]
  cases cpu.interruptType (l.mask cpu).state with
  | some type => exact ⟨hl.built, hl.events, nofun⟩
  | none =>
    have hmask : (l.mask cpu).Regular given := ⟨hl.built, hl.events, hl.pc⟩
    generalize l.mask cpu = l' at hmask ⊢
    cases l'.breakpoints.find (cpu.getCanonicalAddress l'.state) with
    | none => exact ⟨hmask.built, hmask.events, nofun⟩
    | some fn =>
      have hhit := hmask.hit (H := H) cpu (cpu.getCanonicalAddress l'.state) fn
      exact ⟨hhit.built, hhit.events, nofun⟩

theorem regular_step {m m' : EmulateWithCycleProcessing.State σ ε φ} (hm : m.1.Regular given)
    (h : EmulateWithCycleProcessing.step cpu H id id m = some m') : m'.1.Regular given := by
  obtain ⟨l, c⟩ := m
  have hl : l.Regular given := hm
  simp only [EmulateWithCycleProcessing.step] at h
  split at h
  · split at h
    · cases h
      exact regular_enter hl c
    · split at h
      · cases h
        exact hl.outer cpu
      · cases h
        exact ⟨hl.built, hl.events, nofun⟩
  · obtain ⟨r, -, rfl⟩ := Option.map_eq_some_iff.mp h
    have hr := hl.returned (H := H) r
    simp only [id_eq, ite_self]
    exact ⟨hr.built, hr.events, nofun⟩
  · obtain ⟨q, hq, rfl⟩ := Option.map_eq_some_iff.mp h
    obtain rfl : true = given := by
      rw [← hl.events, hq]
      rfl
    split
    · next f q' _ => exact hl.expire cpu f q'
    · have hq' : Running.Regular true { l with events := some q.refresh } :=
        ⟨hl.built, rfl, hl.pc⟩
      exact hq'.outer cpu
  · cases h
  · cases h

/-! ### Whole runs -/

/-- `Emulate(events)` after `n` steps. -/
def Emulate.after (cpu : DebuggedCpu σ ε φ) (H : StdHeap ε) (s : σ) (b : Breakpoints φ)
    (events : Option (EventQueue ε)) (n : Nat) : Option (Running σ ε φ) :=
  stepN (step cpu H) n (start cpu s b events)

/-- `EmulateWithCycleProcessing(context, events)` after `n` steps, where `PreCpuCycle` and
`PostCpuCycle` do nothing. -/
def EmulateWithCycleProcessing.after (cpu : DebuggedCpu σ ε φ) (H : StdHeap ε) (s : σ)
    (eventCycle : BitVec 64) (b : Breakpoints φ) (events : Option (EventQueue ε)) (n : Nat) :
    Option (State σ ε φ) :=
  stepN (step cpu H id id) n (start cpu s eventCycle b events)

structure Agree (cpu : DebuggedCpu σ ε φ) (H : StdHeap ε) (s : σ) (eventCycle : BitVec 64)
    (b : Breakpoints φ) (events : Option (EventQueue ε)) : Prop where
  /-- They do the same calls and expiries and go through the same states. -/
  same : ∀ n, (Emulate.after cpu H s b events n).map Running.visible =
    (EmulateWithCycleProcessing.after cpu H s eventCycle b events n).map (·.1.visible)
  /-- Neither dereferences a null pointer. -/
  safe : ∀ n, (∀ l, Emulate.after cpu H s b events n = some l → l.pc ≠ .null) ∧
    ∀ m, EmulateWithCycleProcessing.after cpu H s eventCycle b events n = some m → m.1.pc ≠ .null
  /-- Without a queue, both return. -/
  returns : events = none →
    (∃ n l, Emulate.after cpu H s b events n = some l ∧ l.pc = .done ∧
      cpu.cycleStop l.state ≤ cpu.cycle l.state) ∧
    ∃ n m, EmulateWithCycleProcessing.after cpu H s eventCycle b events n = some m ∧
      m.1.pc = .done ∧ cpu.cycleStop m.1.state ≤ cpu.cycle m.1.state

variable {s : σ} {b : Breakpoints φ}

theorem regular_start (hb : b.Built) (ec : BitVec 64) (events : Option (EventQueue ε)) :
    (EmulateWithCycleProcessing.start cpu s ec b events).1.Regular events.isSome :=
  ⟨hb, Option.isSome_map .., nofun⟩

theorem regular_after (hb : b.Built) {ec : BitVec 64} {events : Option (EventQueue ε)} {n : Nat}
    {m : EmulateWithCycleProcessing.State σ ε φ}
    (h : EmulateWithCycleProcessing.after cpu H s ec b events n = some m) :
    m.1.Regular events.isSome :=
  stepN_invariant (P := fun m : EmulateWithCycleProcessing.State σ ε φ =>
    m.1.Regular events.isSome) (fun _ _ hm => regular_step hm) n (regular_start hb ec events) h

/-- With a queue, `Emulate` goes through the same states. -/
theorem merged_after (hb : b.Built) (ec : BitVec 64) (q : EventQueue ε) (n : Nat) :
    Emulate.after cpu H s b (some q) n =
      (EmulateWithCycleProcessing.after cpu H s ec b (some q) n).map merged := by
  rw [Emulate.after, ← merged_start s ec b (some q)]
  refine stepN_map (P := fun m : EmulateWithCycleProcessing.State σ ε φ => m.1.Regular true)
    (fun _ _ hm => regular_step hm) (fun m hm => ?_) n (regular_start hb ec (some q))
  refine merged_step cpu H hm.built fun _ => Or.inr ?_
  exact Option.isSome_iff_ne_none.mp hm.events

/-! ### Without a queue -/

theorem enter_pc (cpu : DebuggedCpu σ ε φ) (H : StdHeap ε) (l : Running σ ε φ) :
    ∃ c, (Emulate.enter cpu H l).pc = .call c := by
  simp only [Emulate.enter]
  split
  · exact ⟨_, rfl⟩
  · split
    · exact ⟨_, rfl⟩
    · exact ⟨_, rfl⟩

theorem step_ne_done {l l' : Running σ ε φ} (hnone : l.events = none)
    (h : Emulate.step cpu H l = some l') : l'.pc ≠ .done := by
  unfold Emulate.step at h
  split at h
  · split at h
    · cases h
      obtain ⟨c, hc⟩ := enter_pc cpu H l
      rw [hc]
      exact nofun
    · rw [hnone] at h
      cases h
      exact nofun
  · obtain ⟨r, -, rfl⟩ := Option.map_eq_some_iff.mp h
    exact nofun
  · rw [hnone] at h
    cases h
  · cases h
  · cases h

/-- At the end of the inner loop `Emulate` dereferences the queue that is not there. -/
theorem step_null {l : Running σ ε φ} (hnone : l.events = none) (hpc : l.pc = .test)
    (hlt : ¬ cpu.cycle l.state < l.eventCycle) :
    Emulate.step cpu H l = some { l with pc := .null } := by
  simp only [Emulate.step, hpc, if_neg hlt, hnone]

def Unreturned (l : Running σ ε φ) : Prop := l.Regular false ∧ l.pc ≠ .done ∨ l.pc = .null

theorem unreturned_step {l l' : Running σ ε φ} (hl : Unreturned l)
    (h : Emulate.step cpu H l = some l') : Unreturned l' := by
  rcases hl with ⟨hreg, hpc⟩ | hpc
  · have hnone : l.events = none :=
      Option.not_isSome_iff_eq_none.mp (ne_true_of_eq_false hreg.events)
    by_cases hleave : l.pc = .test ∧ ¬ cpu.cycle l.state < l.eventCycle
    · rw [step_null hnone hleave.1 hleave.2] at h
      cases h
      exact Or.inr rfl
    · have hstep := merged_step cpu H (m := (l, l.eventCycle)) hreg.built
        fun hpc => Or.inl (not_not.mp fun hlt => hleave ⟨hpc, hlt⟩)
      change Emulate.step cpu H l = _ at hstep
      rw [h] at hstep
      obtain ⟨m', hm', rfl⟩ := Option.map_eq_some_iff.mp hstep.symm
      have hreg' := regular_step hreg hm'
      exact Or.inl ⟨⟨hreg'.built, hreg'.events, hreg'.pc⟩, step_ne_done hnone h⟩
  · simp only [Emulate.step, hpc] at h
    cases h

/-- **Without a queue `Emulate` never returns.** -/
theorem ne_done_of_none (hb : b.Built) {n : Nat} {l : Running σ ε φ}
    (h : Emulate.after cpu H s b none n = some l) : l.pc ≠ .done := by
  have hstart : Unreturned (Emulate.start cpu s b (none : Option (EventQueue ε))) :=
    Or.inl ⟨⟨hb, rfl, nofun⟩, nofun⟩
  rcases stepN_invariant (fun _ _ => unreturned_step) n hstart h with ⟨-, hpc⟩ | hpc
  · exact hpc
  · rw [hpc]
    exact nofun

/-- **When the two loops agree.**  They do the same if and only if there is a queue. -/
theorem agree_iff (s : σ) (ec : BitVec 64) (hb : b.Built) (events : Option (EventQueue ε)) :
    Agree cpu H s ec b events ↔ events ≠ none := by
  constructor
  · rintro h rfl
    obtain ⟨⟨n, l, hl, hpc, -⟩, -⟩ := h.returns rfl
    exact ne_done_of_none hb hl hpc
  · intro hne
    obtain ⟨q, rfl⟩ := Option.ne_none_iff_exists'.mp hne
    refine ⟨fun n => ?_, fun n => ⟨fun l hl => ?_, fun m hm => ?_⟩, nofun⟩
    · rw [merged_after hb ec q, Option.map_map]
      rfl
    · rw [merged_after hb ec q] at hl
      obtain ⟨m, hm, rfl⟩ := Option.map_eq_some_iff.mp hl
      exact (regular_after hb hm).pc
    · exact (regular_after hb hm).pc

/-- A CPU of which each call takes two cycles and schedules an event, with an interrupt. -/
def metronome : DebuggedCpu (BitVec 64) Unit Unit where
  cycle s := s
  cycleStop _ := 3
  interrupts _ := 1
  pendingInterrupts s := if s = 2 then 2 else 0
  getCanonicalAddress s := s.setWidth 32
  maskIp s := s
  invoke _ s := some (s + 2, [.schedule ⟨3, ()⟩])
  hit _ s := (s, [.removeBreakpoint 0])
  call _ s := (s, [])

theorem agree_metronome :
    (Breakpoints.addBreakpoint (.empty : Breakpoints Unit) 0 ()).2.Built ∧
      Agree metronome (.select Unit) 0 7 (Breakpoints.addBreakpoint .empty 0 ()).2
        (some ⟨[], 0, 0⟩) :=
  have hb := Breakpoints.Built.empty.add 0 ()
  ⟨hb, (agree_iff 0 7 hb (some ⟨[], 0, 0⟩)).mpr nofun⟩

/-- Without a queue `Emulate` calls `emu` and `interrupt` and then dereferences the null pointer. -/
theorem not_agree_metronome :
    (.empty : Breakpoints Unit).Built ∧
      ¬ Agree metronome (.select Unit) 0 7 (.empty : Breakpoints Unit) none := by
  refine ⟨.empty, fun h => ?_⟩
  have hnull : ((Emulate.after metronome (.select Unit) 0 .empty none 5).map (·.pc)) =
      some .null := by
    decide +kernel
  obtain ⟨l, hl, hpc⟩ := Option.map_eq_some_iff.mp hnull
  exact (h.safe 5).1 l hl hpc

end RetroCpu
