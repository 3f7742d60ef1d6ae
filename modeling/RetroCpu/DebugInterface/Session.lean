import Mathlib.Algebra.Group.Int.Defs
import RetroCpu.EventDelivery
import RetroCpu.RunLoop

/-!
# A debug session

The CPU thread, which a host makes run `Emulate`, and the thread of a debugger, which calls the
member functions of `DebugInterface`, with the times of the queue and the clock.

The CPU thread does what the run loop does, `Loop.step`, until that calls a function of
`DebugInterface`: a `bp_fn` at a breakpoint, or `PausedFunc` or `SingleStepFunc` out of
`Expire`.  `Place` says where in such a function the thread is, and the loop keeps the program
counter that it comes back to.  A critical section is one step, and a wait may end at any time.
What the locks keep from happening besides may happen here.

`Sane` is what holds in every state that a session comes to.
-/

namespace RetroCpu

/-- An `EmulatedCpu` that has breakpoints from `SetBreakpoint` and a host that sets
`cycle_stop`. -/
structure HostedCpu (σ ε : Type) extends EmulatedCpu σ ε where
  /-- `pause_on_hit` of the breakpoint at the current address. -/
  pauseOnHit : σ → Bool
  setCycleStop : BitVec 64 → σ → σ
  cycle_setCycleStop : ∀ stop s, cycle (setCycleStop stop s) = cycle s
  cycleStop_setCycleStop : ∀ stop s, cycleStop (setCycleStop stop s) = stop

namespace DebugSession

variable {σ ε : Type}

/-- The function of an entry. -/
inductive Event (ε : Type)
  | pausedFunc
  | singleStepFunc
  | other (f : ε)

/-- The function is one of `DebugInterface`, which pauses. -/
def Event.pauses : Event ε → Bool
  | pausedFunc => true
  | singleStepFunc => true
  | other _ => false

def other (e : Entry ε) : Entry (Event ε) := ⟨e.t, .other e.f⟩

/-- The CPU with a queue that it shares with `DebugInterface`.  The breakpoints are left to
`calls`. -/
def queued (cpu : HostedCpu σ ε) : EmulatedCpu σ (Event ε) where
  cycle := cpu.cycle
  cycleStop := cpu.cycleStop
  interrupts := cpu.interrupts
  pendingInterrupts := cpu.pendingInterrupts
  maskIp := cpu.maskIp
  invoke c s := (cpu.invoke c s).map fun r => (r.1, r.2.map other)
  breakpoint _ := none
  call
    | .other f, s => ((cpu.call f s).1, (cpu.call f s).2.map other)
    | _, s => (s, [])
  cycle_maskIp := cpu.cycle_maskIp
  cycleStop_maskIp := cpu.cycleStop_maskIp

/-- Where the CPU thread is. -/
inductive Place (σ ε : Type)
  /-- In `Emulate` itself. -/
  | emulate
  /-- `bp_fn`, at its first lock. -/
  | hit (pauseOnHit : Bool) (movedFn : σ → σ × List (Entry ε))
  /-- In the function of the client. -/
  | movedFn (pauseOnHit wasStepping : Bool) (movedFn : σ → σ × List (Entry ε))
  /-- `bp_fn`, at its last lock. -/
  | leave
  /-- `PausedFunc`, at the lock. -/
  | paused
  /-- In the wait of `PausedFunc`. -/
  | parked
  /-- `SingleStepFunc`, at the lock. -/
  | step

/-- Where the debugger is.  `step` says that `Resume` is called by `SingleStep`. -/
inductive Debugger
  | idle
  /-- `Schedule` in `Pause`. -/
  | pauseSchedule
  | pauseWait
  /-- `Resume`, at the lock. -/
  | resume (step : Bool)
  | resumeWait (step : Bool)
  /-- In the wait of `SingleStep`. -/
  | stepWait
  deriving DecidableEq

/-- What an observer of the CPU thread sees: the calls of `emu` and `interrupt`, and each time
that a call of `PausedFunc` comes to wait. -/
inductive Seen
  | invoked (c : Call)
  | parked
  deriving DecidableEq

/-- Both threads, with the members of `DebugInterface`. -/
structure State (σ ε : Type) where
  loop : Loop σ (Event ε)
  place : Place σ ε
  debugger : Debugger
  pause : ℤ
  pauseResponse : Bool
  stepPending : Bool
  breakpointsPause : Bool
  trace : List Seen

variable (cpu : HostedCpu σ ε) (H : StdHeap (Event ε))

/-- `DebugInterface` is constructed and the host calls `Emulate`. -/
def start (crossThread : Bool) (s : σ) (events : EventQueue (Event ε)) : State σ ε where
  loop := Loop.start (queued cpu) s events
  place := .emulate
  debugger := .idle
  pause := if crossThread then 0 else 1
  pauseResponse := false
  stepPending := false
  breakpointsPause := crossThread
  trace := []

/-! ### The CPU thread -/

def breakpointAt (l : Loop σ (Event ε)) : Option (σ → σ × List (Entry ε)) :=
  match l.pc with
  | .test =>
    if cpu.cycle l.state < l.events.cycle then
      match cpu.choose (cpu.maskIp l.state) with
      | .interrupt _ => none
      | .emu => cpu.breakpoint (cpu.maskIp l.state)
    else none
  | _ => none

/-- The function of `DebugInterface` that the loop calls next, and the loop it comes back to. -/
def calls (l : Loop σ (Event ε)) : Option (Place σ ε × Loop σ (Event ε)) :=
  match l.pc with
  | .expire t =>
    match l.events.popDue H t with
    | some (.pausedFunc, events) => some (.paused, { l with events := events })
    | some (.singleStepFunc, events) => some (.step, { l with events := events })
    | _ => none
  | _ =>
    (breakpointAt cpu l).map fun f =>
      (.hit (cpu.pauseOnHit (cpu.maskIp l.state)) f,
        { l with state := cpu.maskIp l.state, pc := .call .emu })

def seen : Pc → List Seen
  | .call c => [.invoked c]
  | _ => []

namespace State

/-- A step of `Emulate`. -/
def emulateStep (s : State σ ε) : Option (State σ ε) :=
  match calls cpu H s.loop with
  | some (place, loop) => some { s with place := place, loop := loop }
  | none =>
    (Loop.step (queued cpu) H () s.loop).map fun l =>
      { s with loop := l, trace := s.trace ++ seen s.loop.pc }

/-- `PausedFunc` from its lock to its wait or its end. -/
def pausedFunc (s : State σ ε) : State σ ε :=
  if s.pause ≠ 0 then
    { s with place := .parked, pauseResponse := true, trace := s.trace ++ [.parked] }
  else { s with place := .emulate, pauseResponse := false }

/-- `PausedFunc` after a wait. -/
def wake (s : State σ ε) : State σ ε :=
  if s.pause ≠ 0 then s else { s with place := .emulate, pauseResponse := false }

/-- `SingleStepFunc` up to its call of `PausedFunc`. -/
def singleStepFunc (s : State σ ε) : State σ ε :=
  { s with stepPending := false, pause := s.pause + 1, place := .paused }

def cpuStep (s : State σ ε) : Option (State σ ε) :=
  match s.place with
  | .emulate => s.emulateStep cpu H
  | .hit pauseOnHit f =>
    some { s with
      pause := if s.breakpointsPause ∧ ¬s.stepPending then s.pause + 1 else s.pause
      place := .movedFn pauseOnHit s.stepPending f }
  | .movedFn pauseOnHit wasStepping f =>
    some { s with
      loop := { s.loop with
        state := (f s.loop.state).1
        events := s.loop.events.scheduleAll H ((f s.loop.state).2.map other) }
      place := if pauseOnHit ∧ s.breakpointsPause ∧ ¬wasStepping then .paused else .leave }
  | .leave => some { s with pause := s.pause - 1, place := .emulate }
  | .paused => some s.pausedFunc
  | .parked => some s.wake
  | .step => some s.singleStepFunc

/-- The host calls `Emulate` again. -/
def emulate (cycleStop : BitVec 64) (s : State σ ε) : Option (State σ ε) :=
  match s.place, s.loop.pc with
  | .emulate, .done =>
    some { s with
      loop := Loop.start (queued cpu) (cpu.setCycleStop cycleStop s.loop.state) s.loop.events }
  | _, _ => none

/-! ### The debugger -/

/-- `ScheduleNoLock`. -/
def schedule (e : Entry (Event ε)) (s : State σ ε) : State σ ε :=
  { s with loop := { s.loop with events := s.loop.events.scheduleNoLock H e } }

/-- The loop of `Resume`. -/
def testResume (step : Bool) (s : State σ ε) : State σ ε :=
  { s with debugger :=
      if s.pauseResponse ∧ s.pause = 0 then .resumeWait step
      else if step then .stepWait else .idle }

/-- `SingleStep(n_clocks)` up to its call of `Resume`. -/
def singleStep (nClocks : BitVec 32) (s : State σ ε) : State σ ε :=
  { if s.stepPending then s else
      { s with stepPending := true }.schedule H
        ⟨cpu.cycle s.loop.state + nClocks.setWidth 64, .singleStepFunc⟩ with
    debugger := .resume true }

/-- What `SetBreakpoint` and `ClearBreakpoint` do with the call of `AddBreakpoint` or
`RemoveBreakpoint` that they bind. -/
def request (f : ε) (s : State σ ε) : State σ ε :=
  if s.pause ≠ 0 then
    { s with loop := { s.loop with
        state := (cpu.call f s.loop.state).1
        events := s.loop.events.scheduleAll H ((cpu.call f s.loop.state).2.map other) } }
  else s.schedule H ⟨0, .other f⟩

def debuggerStep (s : State σ ε) : Option (State σ ε) :=
  match s.debugger with
  | .idle => none
  | .pauseSchedule => some { s.schedule H ⟨0, .pausedFunc⟩ with debugger := .pauseWait }
  | .pauseWait => some (if s.pauseResponse then { s with debugger := .idle } else s)
  | .resume step => some (testResume step { s with pause := s.pause - 1 })
  | .resumeWait step => some (s.testResume step)
  | .stepWait => some (if s.pauseResponse then { s with debugger := .idle } else s)

end State

/-- A call of the debugger. -/
inductive Command (ε : Type)
  | pause (scheduleEvent : Bool)
  | resume
  | singleStep (nClocks : BitVec 32)
  | request (f : ε)

def State.command (s : State σ ε) : Command ε → State σ ε
  | .pause scheduleEvent =>
    { s with
      pause := s.pause + 1
      debugger :=
        if s.pause ≠ 0 then .idle else if scheduleEvent then .pauseSchedule else .pauseWait }
  | .resume => { s with debugger := .resume false }
  | .singleStep nClocks => s.singleStep cpu H nClocks
  | .request f => s.request cpu H f

inductive Move (ε : Type)
  | command (c : Command ε)
  | debugger
  | cpu
  | emulate (cycleStop : BitVec 64)

def Move.quiet : Move ε → Bool
  | .command _ => false
  | _ => true

def step : Move ε → State σ ε → Option (State σ ε)
  | .command c, s => if s.debugger = .idle then some (s.command cpu H c) else none
  | .debugger, s => s.debuggerStep H
  | .cpu, s => s.cpuStep cpu H
  | .emulate cycleStop, s => s.emulate cpu cycleStop

/-! ### What a step of `Emulate` can do -/

/-- A step of `Emulate`: where the thread is then, the loop, and what the step shows. -/
inductive Emulates : Loop σ (Event ε) → Place σ ε → Loop σ (Event ε) → List Seen → Prop
  | hit {s q f} (h : breakpointAt cpu ⟨s, q, .test⟩ = some f) :
      Emulates ⟨s, q, .test⟩ (.hit (cpu.pauseOnHit (cpu.maskIp s)) f)
        ⟨cpu.maskIp s, q, .call .emu⟩ []
  | enter {s q} (hb : breakpointAt cpu ⟨s, q, .test⟩ = none) (h : cpu.cycle s < q.cycle) :
      Emulates ⟨s, q, .test⟩ .emulate ⟨cpu.maskIp s, q, .call (cpu.choose (cpu.maskIp s))⟩ []
  | leave {s q} (h : ¬cpu.cycle s < q.cycle) :
      Emulates ⟨s, q, .test⟩ .emulate ⟨s, q, .expire (cpu.cycle s)⟩ []
  | call {s q c s' es} (h : cpu.invoke c s = some (s', es)) :
      Emulates ⟨s, q, .call c⟩ .emulate ⟨s', q.scheduleAll H (es.map other), .test⟩ [.invoked c]
  | pausedFunc {s q t q'} (h : q.popDue H t = some (.pausedFunc, q')) :
      Emulates ⟨s, q, .expire t⟩ .paused ⟨s, q', .expire t⟩ []
  | singleStepFunc {s q t q'} (h : q.popDue H t = some (.singleStepFunc, q')) :
      Emulates ⟨s, q, .expire t⟩ .step ⟨s, q', .expire t⟩ []
  | event {s q t f q'} (h : q.popDue H t = some (.other f, q')) :
      Emulates ⟨s, q, .expire t⟩ .emulate
        ⟨(cpu.call f s).1, q'.scheduleAll H ((cpu.call f s).2.map other), .expire t⟩ []
  | expired {s q t} (h : q.popDue H t = none) :
      Emulates ⟨s, q, .expire t⟩ .emulate
        ⟨s, q.refresh, if cpu.cycle s < cpu.cycleStop s then .test else .done⟩ []

variable {cpu H}

theorem breakpointAt_of_not_lt {s : σ} {q : EventQueue (Event ε)} (h : ¬cpu.cycle s < q.cycle) :
    breakpointAt cpu ⟨s, q, .test⟩ = none := by
  simp only [breakpointAt]
  exact if_neg h

theorem breakpointAt_eq_none (hb : ∀ s, cpu.breakpoint s = none) (l : Loop σ (Event ε)) :
    breakpointAt cpu l = none := by
  simp only [breakpointAt]
  split
  · split
    · split
      · rfl
      · exact hb _
    · rfl
  · rfl

theorem loop_step_test (s : σ) (q : EventQueue (Event ε)) :
    Loop.step (queued cpu) H () ⟨s, q, .test⟩ = some (if cpu.cycle s < q.cycle then
      ⟨cpu.maskIp s, q, .call (cpu.choose (cpu.maskIp s))⟩ else ⟨s, q, .expire (cpu.cycle s)⟩) := by
  simp only [Loop.step]
  rw [Loop.enter_eq fun _ => rfl]
  rfl

namespace State

theorem emulates_of_emulateStep {s s' : State σ ε} (hp : s.place = .emulate)
    (h : s.emulateStep cpu H = some s') : ∃ place loop tr, Emulates cpu H s.loop place loop tr ∧
      s' = { s with place := place, loop := loop, trace := s.trace ++ tr } := by
  obtain ⟨⟨x, q, pc⟩, place, debugger, pause, response, pending, bp, trace⟩ := s
  obtain rfl : place = .emulate := hp
  cases pc with
  | test =>
    cases hb : breakpointAt cpu ⟨x, q, .test⟩ with
    | some f =>
      simp only [emulateStep, calls, hb, Option.map_some, Option.some.injEq] at h
      exact ⟨_, _, [], .hit hb, by rw [← h, List.append_nil]⟩
    | none =>
      simp only [emulateStep, calls, hb, Option.map_none, loop_step_test, Option.map_some,
        Option.some.injEq] at h
      split at h
      · next hlt => exact ⟨_, _, [], .enter hb hlt, h.symm⟩
      · next hlt => exact ⟨_, _, [], .leave hlt, h.symm⟩
  | call c =>
    simp only [emulateStep, calls, breakpointAt, Option.map_none, Loop.step, queued,
      Option.map_map] at h
    obtain ⟨⟨x', es⟩, hi, h⟩ := Option.map_eq_some_iff.mp h
    exact ⟨_, _, [.invoked c], .call hi, h.symm⟩
  | expire t =>
    cases hd : q.popDue H t with
    | none =>
      simp only [emulateStep, calls, hd, Loop.step, Option.map_some, Option.some.injEq] at h
      exact ⟨_, _, [], .expired hd, h.symm⟩
    | some r =>
      obtain ⟨f, q'⟩ := r
      cases f with
      | pausedFunc =>
        simp only [emulateStep, calls, hd, Option.some.injEq] at h
        exact ⟨_, _, [], .pausedFunc hd, by rw [← h, List.append_nil]⟩
      | singleStepFunc =>
        simp only [emulateStep, calls, hd, Option.some.injEq] at h
        exact ⟨_, _, [], .singleStepFunc hd, by rw [← h, List.append_nil]⟩
      | other f =>
        simp only [emulateStep, calls, hd, Loop.step, Option.map_some, Option.some.injEq] at h
        exact ⟨_, _, [], .event hd, h.symm⟩
  | done =>
    simp only [emulateStep, calls, breakpointAt, Option.map_none, Loop.step] at h
    cases h

theorem emulateStep_of_emulates {s : State σ ε} {place : Place σ ε} {loop : Loop σ (Event ε)}
    {tr : List Seen} (hp : s.place = .emulate) (h : Emulates cpu H s.loop place loop tr) :
    s.emulateStep cpu H =
      some { s with place := place, loop := loop, trace := s.trace ++ tr } := by
  obtain ⟨l, place', debugger, pause, response, pending, bp, trace⟩ := s
  obtain rfl : place' = .emulate := hp
  cases h with
  | hit h => simp only [emulateStep, calls, h, Option.map_some, List.append_nil]
  | enter hb h =>
    simp only [emulateStep, calls, hb, Option.map_none, loop_step_test, if_pos h,
      Option.map_some, seen]
  | leave h =>
    simp only [emulateStep, calls, breakpointAt_of_not_lt h, Option.map_none, loop_step_test,
      if_neg h, Option.map_some, seen]
  | call h =>
    simp only [emulateStep, calls, breakpointAt, Option.map_none, Loop.step, queued, h,
      Option.map_some, seen]
  | pausedFunc h => simp only [emulateStep, calls, h, List.append_nil]
  | singleStepFunc h => simp only [emulateStep, calls, h, List.append_nil]
  | event h => simp only [emulateStep, calls, h, Loop.step, Option.map_some, seen, queued]
  | expired h =>
    simp only [emulateStep, calls, h, Loop.step, Option.map_some, seen, queued]
    rfl

end State

theorem step_cpu_of_emulates {s : State σ ε} {place : Place σ ε} {loop : Loop σ (Event ε)}
    {tr : List Seen} (hp : s.place = .emulate) (h : Emulates cpu H s.loop place loop tr) :
    step cpu H .cpu s = some { s with place := place, loop := loop, trace := s.trace ++ tr } := by
  simp only [step, State.cpuStep, hp]
  exact State.emulateStep_of_emulates hp h

/-! ### What holds in every session -/

/-- The clock is the CPU's and `cycle_stop` is the host's, and what an event schedules is for
later.  `AddBreakpoint` and `RemoveBreakpoint`, the only functions besides those of
`DebugInterface` that the source schedules, touch none of these. -/
structure Orderly (cpu : HostedCpu σ ε) : Prop where
  cycle_call : ∀ f s, cpu.cycle (cpu.call f s).1 = cpu.cycle s
  cycleStop_call : ∀ f s, cpu.cycleStop (cpu.call f s).1 = cpu.cycleStop s
  cycleStop_invoke : ∀ c s s' es, cpu.invoke c s = some (s', es) →
    cpu.cycleStop s' = cpu.cycleStop s
  cycleStop_breakpoint : ∀ s f, cpu.breakpoint s = some f → ∀ x,
    cpu.cycleStop (f x).1 = cpu.cycleStop x
  later : ∀ f s, ∀ e ∈ (cpu.call f s).2, cpu.cycle s < e.t

/-- The queue is in order and stops where the host wants it to, and `Expire` knows the time. -/
structure Timed (cpu : HostedCpu σ ε) (H : StdHeap (Event ε)) (l : Loop σ (Event ε)) : Prop where
  isHeap : H.IsHeap l.events.entries
  stop : l.events.stop = cpu.cycleStop l.state
  expire : ∀ t, l.pc = .expire t → cpu.cycle l.state = t

/-- A `bp_fn` of the CPU is called before an instruction, `SingleStepFunc` in `Expire`, and
`PausedFunc` in one or the other. -/
def Place.At (cpu : HostedCpu σ ε) : Place σ ε → Pc → Prop
  | .emulate, _ => True
  | .hit _ f, pc => pc = .call .emu ∧ ∃ s, cpu.breakpoint s = some f
  | .movedFn _ _ f, pc => pc = .call .emu ∧ ∃ s, cpu.breakpoint s = some f
  | .leave, pc => pc = .call .emu
  | .paused, pc => pc = .call .emu ∨ ∃ t, pc = .expire t
  | .parked, pc => pc = .call .emu ∨ ∃ t, pc = .expire t
  | .step, pc => ∃ t, pc = .expire t

def StepQueued (q : EventQueue (Event ε)) : Prop := ∃ e ∈ q.entries, e.f = .singleStepFunc

structure Sane (cpu : HostedCpu σ ε) (H : StdHeap (Event ε)) (s : State σ ε) : Prop where
  timed : Timed cpu H s.loop
  place : s.place.At cpu s.loop.pc
  response : s.pauseResponse = true ↔ s.place = .parked
  pending : s.stepPending = true → s.place = .step ∨ StepQueued s.loop.events

namespace Timed

theorem start (s : σ) {q : EventQueue (Event ε)} (hq : H.IsHeap q.entries) :
    Timed cpu H (Loop.start (queued cpu) s q) where
  isHeap := hq
  stop := rfl
  expire _ h := by cases h

theorem scheduleNoLock {s : σ} {q : EventQueue (Event ε)} {pc : Pc}
    (h : Timed cpu H ⟨s, q, pc⟩) (e : Entry (Event ε)) :
    Timed cpu H ⟨s, q.scheduleNoLock H e, pc⟩ where
  isHeap := EventQueue.isHeap_scheduleNoLock h.isHeap e
  stop := h.stop
  expire := h.expire

theorem scheduleAll {s s' : σ} {q q' : EventQueue (Event ε)} {pc pc' : Pc}
    (h : Timed cpu H ⟨s, q, pc⟩) (hq : H.IsHeap q'.entries) (hs : q'.stop = q.stop)
    (hstop : cpu.cycleStop s' = cpu.cycleStop s)
    (he : ∀ t, pc' = .expire t → cpu.cycle s' = t) (es : List (Entry (Event ε))) :
    Timed cpu H ⟨s', q'.scheduleAll H es, pc'⟩ where
  isHeap := EventQueue.isHeap_scheduleAll hq es
  stop := by
    have hall := EventQueue.stop_scheduleAll (H := H) q' es
    exact hall.trans (hs.trans (h.stop.trans hstop.symm))
  expire := he

theorem emulates (hc : Orderly cpu) {l l' : Loop σ (Event ε)} {place : Place σ ε}
    {tr : List Seen} (h : Timed cpu H l) (he : Emulates cpu H l place l' tr) : Timed cpu H l' := by
  cases he with
  | hit => exact ⟨h.isHeap, h.stop.trans (cpu.cycleStop_maskIp _).symm, nofun⟩
  | enter => exact ⟨h.isHeap, h.stop.trans (cpu.cycleStop_maskIp _).symm, nofun⟩
  | leave =>
    refine ⟨h.isHeap, h.stop, fun t ht => ?_⟩
    cases ht
    rfl
  | call hi =>
    refine h.scheduleAll h.isHeap rfl (hc.cycleStop_invoke _ _ _ _ hi) (fun t ht => ?_) _
    cases ht
  | pausedFunc hd =>
    obtain ⟨hq, hs⟩ := EventQueue.isHeap_popDue h.isHeap hd
    exact ⟨hq, hs.trans h.stop, h.expire⟩
  | singleStepFunc hd =>
    obtain ⟨hq, hs⟩ := EventQueue.isHeap_popDue h.isHeap hd
    exact ⟨hq, hs.trans h.stop, h.expire⟩
  | event hd =>
    obtain ⟨hq, hs⟩ := EventQueue.isHeap_popDue h.isHeap hd
    exact h.scheduleAll hq hs (hc.cycleStop_call _ _)
      (fun t ht => (hc.cycle_call _ _).trans (h.expire t ht)) _
  | expired hd =>
    refine ⟨h.isHeap, h.stop, fun t ht => ?_⟩
    change (if _ then Pc.test else Pc.done) = _ at ht
    split at ht <;> cases ht

end Timed

theorem mem_scheduleNoLock {q : EventQueue (Event ε)} (hq : H.IsHeap q.entries)
    (e x : Entry (Event ε)) : x ∈ (q.scheduleNoLock H e).entries ↔ x ∈ q.entries ∨ x = e := by
  have hp : (q.scheduleNoLock H e).entries.Perm (q.entries ++ [e]) := H.push_perm hq e
  rw [hp.mem_iff, List.mem_append, List.mem_singleton]

theorem mem_scheduleAll {q : EventQueue (Event ε)} (hq : H.IsHeap q.entries)
    (es : List (Entry (Event ε))) (x : Entry (Event ε)) :
    x ∈ (q.scheduleAll H es).entries ↔ x ∈ q.entries ∨ x ∈ es := by
  rw [(EventQueue.scheduleAll_perm hq es).mem_iff, List.mem_append]

/-- What is in the queue and is not called stays there. -/
theorem mem_of_popDue {q q' : EventQueue (Event ε)} {t : BitVec 64} {f : Event ε}
    (hq : H.IsHeap q.entries) (h : q.popDue H t = some (f, q')) {x : Entry (Event ε)}
    (hx : x ∈ q.entries) : x ∈ q'.entries ∨ x.f = f ∧ x.t ≤ t := by
  obtain ⟨y, l, hl, ht, hf, -, hp, -⟩ := EventQueue.popDue_some hq h
  rw [hl] at hx
  rcases List.mem_cons.mp hx with rfl | hx
  · exact .inr ⟨hf, ht⟩
  · exact .inl (hp.mem_iff.mpr hx)

theorem mem_popDue {q q' : EventQueue (Event ε)} {t : BitVec 64} {f : Event ε}
    (hq : H.IsHeap q.entries) (h : q.popDue H t = some (f, q')) {x : Entry (Event ε)}
    (hx : x ∈ q'.entries) : x ∈ q.entries := by
  obtain ⟨y, l, hl, -, -, -, hp, -⟩ := EventQueue.popDue_some hq h
  rw [hl]
  exact List.mem_cons_of_mem y (hp.mem_iff.mp hx)

namespace StepQueued

variable {q q' : EventQueue (Event ε)}

theorem scheduleAll (h : StepQueued q) (hq : H.IsHeap q.entries) (es : List (Entry (Event ε))) :
    StepQueued (q.scheduleAll H es) := by
  obtain ⟨e, he, hf⟩ := h
  exact ⟨e, (mem_scheduleAll hq es e).mpr (.inl he), hf⟩

theorem scheduleNoLock (h : StepQueued q) (hq : H.IsHeap q.entries) (e : Entry (Event ε)) :
    StepQueued (q.scheduleNoLock H e) := by
  obtain ⟨x, hx, hf⟩ := h
  exact ⟨x, (mem_scheduleNoLock hq e x).mpr (.inl hx), hf⟩

theorem popDue (h : StepQueued q) (hq : H.IsHeap q.entries) {t : BitVec 64} {f : Event ε}
    (hd : q.popDue H t = some (f, q')) (hf : f ≠ .singleStepFunc) : StepQueued q' := by
  obtain ⟨e, he, hef⟩ := h
  rcases mem_of_popDue hq hd he with he | ⟨he, -⟩
  · exact ⟨e, he, hef⟩
  · exact absurd (he.symm.trans hef) hf

theorem emulates {l l' : Loop σ (Event ε)} {place : Place σ ε} {tr : List Seen}
    (h : StepQueued l.events) (ht : Timed cpu H l) (he : Emulates cpu H l place l' tr) :
    place = .step ∨ StepQueued l'.events := by
  cases he with
  | singleStepFunc => exact .inl rfl
  | call => exact .inr (h.scheduleAll ht.isHeap _)
  | pausedFunc hd => exact .inr (h.popDue ht.isHeap hd nofun)
  | event hd =>
    obtain ⟨hq, -⟩ := EventQueue.isHeap_popDue ht.isHeap hd
    exact .inr ((h.popDue ht.isHeap hd nofun).scheduleAll hq _)
  | _ => exact .inr h

end StepQueued

theorem Place.at_emulates {l l' : Loop σ (Event ε)} {place : Place σ ε} {tr : List Seen}
    (he : Emulates cpu H l place l' tr) : place.At cpu l'.pc ∧ place ≠ .parked := by
  cases he with
  | hit h =>
    refine ⟨⟨rfl, ?_⟩, nofun⟩
    simp only [breakpointAt] at h
    split at h
    · split at h
      · cases h
      · exact ⟨_, h⟩
    · cases h
  | pausedFunc => exact ⟨.inr ⟨_, rfl⟩, nofun⟩
  | singleStepFunc => exact ⟨⟨_, rfl⟩, nofun⟩
  | _ => exact ⟨trivial, nofun⟩

namespace Sane

variable {s s' : State σ ε}

theorem start (crossThread : Bool) (x : σ) {q : EventQueue (Event ε)}
    (hq : H.IsHeap q.entries) : Sane cpu H (start cpu crossThread x q) where
  timed := .start x hq
  place := trivial
  response := ⟨nofun, nofun⟩
  pending := nofun

/-! ### The CPU thread -/

theorem emulateStep (hc : Orderly cpu) (h : Sane cpu H s) (hp : s.place = .emulate)
    (hs : s.emulateStep cpu H = some s') : Sane cpu H s' := by
  obtain ⟨place, loop, tr, he, rfl⟩ := State.emulates_of_emulateStep hp hs
  obtain ⟨hat, hparked⟩ := Place.at_emulates he
  refine ⟨h.timed.emulates hc he, hat, ?_, fun hpending => ?_⟩
  · have hr : ¬s.pauseResponse = true := by
      rw [h.response, hp]
      exact nofun
    exact ⟨fun h => absurd h hr, fun h => absurd h hparked⟩
  · rcases h.pending hpending with hstep | hq
    · rw [hp] at hstep
      cases hstep
    · exact hq.emulates h.timed he

/-- `PausedFunc` comes back to the loop or waits. -/
theorem pausedFunc (h : Sane cpu H s) (hp : s.place = .paused) : Sane cpu H s.pausedFunc := by
  have hpending := fun hs => (h.pending hs).resolve_left (by rw [hp]; exact nofun)
  have hat := h.place
  rw [hp] at hat
  rw [State.pausedFunc]
  split
  · exact ⟨h.timed, hat, ⟨fun _ => rfl, fun _ => rfl⟩, fun hs => .inr (hpending hs)⟩
  · exact ⟨h.timed, trivial, ⟨nofun, nofun⟩, fun hs => .inr (hpending hs)⟩

theorem wake (h : Sane cpu H s) (hp : s.place = .parked) : Sane cpu H s.wake := by
  rw [State.wake]
  split
  · exact h
  · refine ⟨h.timed, trivial, ⟨nofun, nofun⟩, fun hs => .inr ?_⟩
    exact (h.pending hs).resolve_left (by rw [hp]; exact nofun)

theorem cpuStep (hc : Orderly cpu) (h : Sane cpu H s) (hs : s.cpuStep cpu H = some s') :
    Sane cpu H s' := by
  obtain ⟨⟨x, q, pc⟩, place, debugger, pause, response, pending, bp, trace⟩ := s
  cases place with
  | emulate => exact emulateStep hc h rfl hs
  | paused =>
    cases hs
    exact h.pausedFunc rfl
  | parked =>
    cases hs
    exact h.wake rfl
  | step =>
    cases hs
    obtain ⟨t, ht⟩ := h.place
    exact ⟨h.timed, .inr ⟨t, ht⟩, ⟨fun hr => absurd (h.response.mp hr) nofun, nofun⟩, nofun⟩
  | hit b f =>
    cases hs
    exact ⟨h.timed, h.place, ⟨fun hr => absurd (h.response.mp hr) nofun, nofun⟩,
      fun hp => .inr ((h.pending hp).resolve_left nofun)⟩
  | movedFn b w f =>
    cases hs
    obtain ⟨hpc, y, hy⟩ := h.place
    obtain rfl : pc = .call .emu := hpc
    have hq : StepQueued q → StepQueued (q.scheduleAll H ((f x).2.map other)) :=
      fun hq => hq.scheduleAll h.timed.isHeap _
    refine ⟨?_, ?_, ⟨fun hr => absurd (h.response.mp hr) nofun, fun hr => ?_⟩, fun hp => .inr ?_⟩
    · refine h.timed.scheduleAll h.timed.isHeap rfl (hc.cycleStop_breakpoint y f hy x) ?_ _
      exact nofun
    · show Place.At cpu (if _ then .paused else .leave) (.call .emu)
      split
      · exact .inl rfl
      · exact rfl
    · change (if _ then Place.paused else Place.leave) = _ at hr
      split at hr <;> cases hr
    · exact hq ((h.pending hp).resolve_left nofun)
  | leave =>
    cases hs
    exact ⟨h.timed, trivial, ⟨fun hr => absurd (h.response.mp hr) nofun, nofun⟩,
      fun hp => .inr ((h.pending hp).resolve_left nofun)⟩

theorem emulate {stop : BitVec 64} (h : Sane cpu H s) (hs : s.emulate cpu stop = some s') :
    Sane cpu H s' := by
  obtain ⟨⟨x, q, pc⟩, place, debugger, pause, response, pending, bp, trace⟩ := s
  simp only [State.emulate] at hs
  split at hs
  · cases hs
    exact ⟨.start _ h.timed.isHeap, trivial, h.response, h.pending⟩
  · cases hs

/-! ### The debugger -/

/-- The debugger schedules an entry. -/
theorem schedule (h : Sane cpu H s) (e : Entry (Event ε)) : Sane cpu H (s.schedule H e) where
  timed := h.timed.scheduleNoLock e
  place := h.place
  response := h.response
  pending hs := (h.pending hs).imp_right fun hq => hq.scheduleNoLock h.timed.isHeap e

/-- `Sane` is not about the counter and the debugger. -/
theorem of_eq (h : Sane cpu H s) (hl : s'.loop = s.loop) (hp : s'.place = s.place)
    (hr : s'.pauseResponse = s.pauseResponse) (hs : s'.stepPending = s.stepPending) :
    Sane cpu H s' where
  timed := by rw [hl]; exact h.timed
  place := by rw [hl, hp]; exact h.place
  response := by rw [hr, hp]; exact h.response
  pending := by rw [hs, hp, hl]; exact h.pending

theorem request (hc : Orderly cpu) (h : Sane cpu H s) (f : ε) :
    Sane cpu H (s.request cpu H f) := by
  rw [State.request]
  split
  · refine ⟨?_, h.place, h.response, fun hs => ?_⟩
    · exact h.timed.scheduleAll h.timed.isHeap rfl (hc.cycleStop_call f _)
        (fun t ht => (hc.cycle_call f _).trans (h.timed.expire t ht)) _
    · exact (h.pending hs).imp_right fun hq => hq.scheduleAll h.timed.isHeap _
  · exact h.schedule _

theorem singleStep (h : Sane cpu H s) (n : BitVec 32) : Sane cpu H (s.singleStep cpu H n) := by
  rw [State.singleStep]
  split
  · exact h.of_eq rfl rfl rfl rfl
  · next hs =>
    refine ⟨h.timed.scheduleNoLock _, h.place, h.response, fun _ => .inr ?_⟩
    exact ⟨_, (mem_scheduleNoLock h.timed.isHeap _ _).mpr (.inr rfl), rfl⟩

theorem command (hc : Orderly cpu) (h : Sane cpu H s) (c : Command ε) :
    Sane cpu H (s.command cpu H c) := by
  cases c with
  | pause b => exact h.of_eq rfl rfl rfl rfl
  | resume => exact h.of_eq rfl rfl rfl rfl
  | singleStep n => exact h.singleStep n
  | request f => exact h.request hc f

theorem debuggerStep (h : Sane cpu H s) (hs : s.debuggerStep H = some s') : Sane cpu H s' := by
  obtain ⟨l, place, debugger, pause, response, pending, bp, trace⟩ := s
  cases debugger with
  | idle => cases hs
  | pauseSchedule =>
    cases hs
    exact (h.schedule _).of_eq rfl rfl rfl rfl
  | resume b =>
    cases hs
    exact h.of_eq rfl rfl rfl rfl
  | resumeWait b =>
    cases hs
    exact h.of_eq rfl rfl rfl rfl
  | pauseWait =>
    simp only [State.debuggerStep, Option.some.injEq] at hs
    split at hs <;> cases hs <;> exact h.of_eq rfl rfl rfl rfl
  | stepWait =>
    simp only [State.debuggerStep, Option.some.injEq] at hs
    split at hs <;> cases hs <;> exact h.of_eq rfl rfl rfl rfl

theorem step (hc : Orderly cpu) {m : Move ε} (h : Sane cpu H s)
    (hs : step cpu H m s = some s') : Sane cpu H s' := by
  cases m with
  | command c =>
    simp only [DebugSession.step] at hs
    split at hs
    · cases hs
      exact h.command hc c
    · cases hs
  | debugger => exact h.debuggerStep hs
  | cpu => exact h.cpuStep hc hs
  | emulate stop => exact h.emulate hs

end Sane

/-- **Every state of a session is sane**, whatever the debugger calls and however the threads are
interleaved. -/
theorem sane_of_run (hc : Orderly cpu) {crossThread : Bool} {x : σ} {q : EventQueue (Event ε)}
    (hq : H.IsHeap q.entries) {s : State σ ε}
    (h : Run (step cpu H) (fun _ _ => True) (start cpu crossThread x q) s) : Sane cpu H s :=
  h.invariant (Sane.start crossThread x hq) fun _ _ _ hs _ hst => hs.step hc hst

end DebugSession

end RetroCpu
