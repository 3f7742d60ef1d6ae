import RetroCpu.DebugInterface.Requests
import RetroCpu.Lib.Threads

/-!
# The debugger and the CPU thread

`DebugInterface` is shared by a debugger, which calls `Pause`, `Resume`, `SingleStep`,
`SetBreakpoint` and `ClearBreakpoint`, and by the thread that runs `Emulate`, which calls
`bp_fn` at a breakpoint and runs `PausedFunc` and `SingleStepFunc` out of `Expire`.

Both programs are given by their places: a place before each lock, one after it and one in
each wait.  A critical section is one step, but for that of `Pause`, which takes the lock of
the queue within.  A wait gives its lock back and asks for it again at any time, so a
notification says nothing.  Times are left out: `Expire` may call any entry.
-/

namespace RetroCpu.DebugInterface

inductive Thread
  | debugger
  | cpu
  deriving DecidableEq

/-- `DebugInterface::pause_lock` and `EventQueue::lock`. -/
inductive Lock
  | pauseLock
  | queueLock
  deriving DecidableEq

/-- An entry that `DebugInterface` makes. -/
inductive Event
  | pausedFunc
  | singleStepFunc
  | request (r : Request Bool)
  deriving DecidableEq

/-- The members that both threads use.  Of a `bp_fn` the map has its `pause_on_hit`.
`outstanding` counts what the debugger has to resume: its calls of `Pause`, the pause of the
constructor, and the step or the breakpoint that the CPU waits at. -/
structure Members where
  pause : ℤ
  pauseResponse : Bool
  stepPending : Bool
  breakpointsPause : Bool
  breakpoints : Breakpoints Bool
  entries : List Event
  outstanding : ℕ

/-- The constructor. -/
def Members.construct (crossThread : Bool) : Members where
  pause := if crossThread then 0 else 1
  pauseResponse := false
  stepPending := false
  breakpointsPause := crossThread
  breakpoints := .empty
  entries := []
  outstanding := if crossThread then 0 else 1

/-! ### The debugger -/

/-- Where the debugger is.  `step` says that `Resume` is called by `SingleStep`. -/
inductive DebuggerPc
  | idle
  /-- `Pause`, at the lock. -/
  | pause (scheduleEvent : Bool)
  | pauseLocked (scheduleEvent : Bool)
  /-- `Schedule` in `Pause`, at the lock of the queue. -/
  | pauseSchedule
  | pauseScheduleLocked
  /-- At the condition of the loop in `Pause`. -/
  | pauseTest
  | pauseWait
  /-- `Resume`, at the lock. -/
  | resume (step : Bool)
  | resumeLocked (step : Bool)
  | resumeWait (step : Bool)
  | resumeTest (step : Bool)
  /-- `SingleStep`, at its lock or in its wait. -/
  | stepWait
  | stepTest
  /-- `Schedule` in `SetBreakpoint` and `ClearBreakpoint`, at the lock of the queue. -/
  | schedule (r : Request Bool)
  | scheduleLocked (r : Request Bool)
  deriving DecidableEq

/-- What the debugger does next. -/
inductive Command
  | pause (scheduleEvent : Bool)
  | resume
  | singleStep
  | setBreakpoint (addr : CpuAddr) (pauseOnHit : Bool)
  | clearBreakpoint (addr : CpuAddr)
  /-- Go on with the call. -/
  | go

namespace DebuggerPc

/-- Where the debugger is after `Resume`. -/
def resumed : Bool → DebuggerPc
  | true => stepWait
  | false => idle

/-- The loop of `Pause`, with the lock. -/
def testPause (d : Members) : LockOp Lock × DebuggerPc × Members :=
  (.release .pauseLock, if d.pauseResponse then idle else pauseWait, d)

/-- The loop of `Resume`, with the lock. -/
def testResume (step : Bool) (d : Members) : LockOp Lock × DebuggerPc × Members :=
  (.release .pauseLock, if d.pauseResponse ∧ d.pause = 0 then resumeWait step else resumed step, d)

/-- `SetBreakpoint` and `ClearBreakpoint`. -/
def request (r : Request Bool) (d : Members) : LockOp Lock × DebuggerPc × Members :=
  if d.pause ≠ 0 then (.skip, idle, { d with breakpoints := r.apply d.breakpoints })
  else (.skip, schedule r, d)

def next : Command → DebuggerPc → Members → Option (LockOp Lock × DebuggerPc × Members)
  | .pause scheduleEvent, idle, d => some (.skip, pause scheduleEvent, d)
  | .resume, idle, d => some (.skip, resume false, d)
  | .singleStep, idle, d =>
    some (.skip, resume true, if d.stepPending then d else
      { d with stepPending := true, entries := d.entries ++ [.singleStepFunc] })
  | .setBreakpoint addr pauseOnHit, idle, d => some (request (.addBreakpoint addr pauseOnHit) d)
  | .clearBreakpoint addr, idle, d => some (request (.removeBreakpoint addr) d)
  | .go, pause scheduleEvent, d => some (.acquire .pauseLock, pauseLocked scheduleEvent, d)
  | .go, pauseLocked scheduleEvent, d =>
    let d' := { d with pause := d.pause + 1, outstanding := d.outstanding + 1 }
    if d.pause ≠ 0 then some (.release .pauseLock, idle, d')
    else if scheduleEvent then some (.skip, pauseSchedule, d')
    else some (testPause d')
  | .go, pauseSchedule, d => some (.acquire .queueLock, pauseScheduleLocked, d)
  | .go, pauseScheduleLocked, d =>
    some (.release .queueLock, pauseTest, { d with entries := d.entries ++ [.pausedFunc] })
  | .go, pauseTest, d => some (testPause d)
  | .go, pauseWait, d => some (.acquire .pauseLock, pauseTest, d)
  | .go, resume step, d => some (.acquire .pauseLock, resumeLocked step, d)
  | .go, resumeLocked step, d =>
    some (testResume step { d with pause := d.pause - 1, outstanding := d.outstanding - 1 })
  | .go, resumeWait step, d => some (.acquire .pauseLock, resumeTest step, d)
  | .go, resumeTest step, d => some (testResume step d)
  | .go, stepWait, d => some (.acquire .pauseLock, stepTest, d)
  | .go, stepTest, d => some (.release .pauseLock, if d.pauseResponse then idle else stepWait, d)
  | .go, schedule r, d => some (.acquire .queueLock, scheduleLocked r, d)
  | .go, scheduleLocked r, d =>
    some (.release .queueLock, idle, { d with entries := d.entries ++ [.request r] })
  | _, _, _ => none

def holds : DebuggerPc → Lock → Bool
  | pauseLocked _, .pauseLock | pauseSchedule, .pauseLock | pauseScheduleLocked, .pauseLock => true
  | pauseTest, .pauseLock | resumeLocked _, .pauseLock | resumeTest _, .pauseLock => true
  | stepTest, .pauseLock => true
  | pauseScheduleLocked, .queueLock | scheduleLocked _, .queueLock => true
  | _, _ => false

end DebuggerPc

/-! ### The CPU thread -/

/-- What has called `PausedFunc`. -/
inductive Caller
  | bpFn
  | expire
  | singleStepFunc
  deriving DecidableEq

/-- The CPU stops for a breakpoint or a step, and not for a `Pause`. -/
def Caller.isStop : Caller → Bool
  | bpFn => true
  | expire => false
  | singleStepFunc => true

/-- The call comes out of `Expire`. -/
def Caller.inExpire : Caller → Bool
  | bpFn => false
  | expire => true
  | singleStepFunc => true

/-- Where the CPU thread is. -/
inductive CpuPc
  /-- In the inner loop of `Emulate`. -/
  | running
  /-- `bp_fn`, at its first lock. -/
  | hit (pauseOnHit : Bool)
  | hitLocked (pauseOnHit : Bool)
  /-- In the function of the client. -/
  | movedFn (pauseOnHit wasStepping : Bool)
  /-- `bp_fn`, at its last lock. -/
  | leave
  | leaveLocked
  /-- `PausedFunc`, at the lock. -/
  | paused (caller : Caller)
  | pausedLocked (caller : Caller)
  /-- In the wait of `PausedFunc`. -/
  | parked (caller : Caller)
  /-- At the lock again, at the end of a wait. -/
  | waking (caller : Caller)
  | woken (caller : Caller)
  /-- `Expire`, at the lock. -/
  | expire
  /-- In the loop of `Expire`. -/
  | expiring
  /-- `SingleStepFunc`, at the lock. -/
  | step
  | stepLocked
  deriving DecidableEq

inductive Progress
  /-- An instruction with a breakpoint at `addr`. -/
  | hit (addr : CpuAddr)
  | expire
  /-- `Expire` calls the `n`-th entry. -/
  | call (n : ℕ)
  /-- No entry is due. -/
  | expired
  | go

namespace CpuPc

/-- Where the CPU is after `PausedFunc`. -/
def back : Caller → CpuPc
  | .bpFn => running
  | .expire => expiring
  | .singleStepFunc => expiring

/-- The loop of `PausedFunc`, with the lock, and what follows it. -/
def testPaused (caller : Caller) (d : Members) : LockOp Lock × CpuPc × Members :=
  if d.pause ≠ 0 then (.release .pauseLock, parked caller, d)
  else (.release .pauseLock, back caller, { d with pauseResponse := false })

/-- A call out of `Expire`. -/
def call (d : Members) : Event → LockOp Lock × CpuPc × Members
  | .pausedFunc => (.skip, paused .expire, d)
  | .singleStepFunc => (.skip, step, d)
  | .request r => (.skip, expiring, { d with breakpoints := r.apply d.breakpoints })

def next : Progress → CpuPc → Members → Option (LockOp Lock × CpuPc × Members)
  | .hit addr, running, d =>
    (d.breakpoints.find addr).map fun pauseOnHit => (.skip, hit pauseOnHit, d)
  | .expire, running, d => some (.skip, expire, d)
  | .go, hit pauseOnHit, d => some (.acquire .pauseLock, hitLocked pauseOnHit, d)
  | .go, hitLocked pauseOnHit, d =>
    some (.release .pauseLock, movedFn pauseOnHit d.stepPending,
      if d.breakpointsPause ∧ ¬d.stepPending then { d with pause := d.pause + 1 } else d)
  | .go, movedFn pauseOnHit wasStepping, d =>
    if pauseOnHit ∧ d.breakpointsPause ∧ ¬wasStepping then some (.skip, paused .bpFn, d)
    else some (.skip, leave, d)
  | .go, leave, d => some (.acquire .pauseLock, leaveLocked, d)
  | .go, leaveLocked, d => some (.release .pauseLock, running, { d with pause := d.pause - 1 })
  | .go, paused caller, d => some (.acquire .pauseLock, pausedLocked caller, d)
  | .go, pausedLocked caller, d =>
    some (testPaused caller { d with
      pauseResponse := true
      outstanding := if caller.isStop ∧ d.pause ≠ 0 then d.outstanding + 1 else d.outstanding })
  | .go, parked caller, d => some (.skip, waking caller, d)
  | .go, waking caller, d => some (.acquire .pauseLock, woken caller, d)
  | .go, woken caller, d => some (testPaused caller d)
  | .go, expire, d => some (.acquire .queueLock, expiring, d)
  | .call n, expiring, d => d.entries[n]?.map (call { d with entries := d.entries.eraseIdx n })
  | .expired, expiring, d => some (.release .queueLock, running, d)
  | .go, step, d => some (.acquire .pauseLock, stepLocked, d)
  | .go, stepLocked, d =>
    some (.release .pauseLock, paused .singleStepFunc,
      { d with stepPending := false, pause := d.pause + 1 })
  | _, _, _ => none

def holds : CpuPc → Lock → Bool
  | hitLocked _, .pauseLock | leaveLocked, .pauseLock | pausedLocked _, .pauseLock => true
  | woken _, .pauseLock | stepLocked, .pauseLock => true
  | paused caller, .queueLock | pausedLocked caller, .queueLock => caller.inExpire
  | parked caller, .queueLock | waking caller, .queueLock => caller.inExpire
  | woken caller, .queueLock => caller.inExpire
  | expiring, .queueLock | step, .queueLock | stepLocked, .queueLock => true
  | _, _ => false

end CpuPc

/-! ### The locks -/

theorem moves_skip {h h' : Lock → Bool} (hp : h' .pauseLock = h .pauseLock)
    (hq : h' .queueLock = h .queueLock) : LockOp.skip.Moves h h' :=
  funext fun l => by cases l <;> assumption

def Lock.other : Lock → Lock
  | pauseLock => queueLock
  | queueLock => pauseLock

theorem Lock.eq_other {l m : Lock} (h : m ≠ l) : m = l.other := by
  cases l <;> cases m
  · exact absurd rfl h
  · rfl
  · rfl
  · exact absurd rfl h

theorem moves_acquire {h h' : Lock → Bool} {l : Lock} (hl : h l = false) (hl' : h' l = true)
    (ho : h' l.other = h l.other) : (LockOp.acquire l).Moves h h' := by
  refine ⟨hl, funext fun m => ?_⟩
  by_cases hm : m = l
  · rw [hm, hl', Function.update_self]
  · rw [Function.update_of_ne hm, Lock.eq_other hm, ho]

theorem moves_release {h h' : Lock → Bool} {l : Lock} (hl : h l = true) (hl' : h' l = false)
    (ho : h' l.other = h l.other) : (LockOp.release l).Moves h h' := by
  refine ⟨hl, funext fun m => ?_⟩
  by_cases hm : m = l
  · rw [hm, hl', Function.update_self]
  · rw [Function.update_of_ne hm, Lock.eq_other hm, ho]

namespace DebuggerPc

/-- A loop gives the lock back, whatever it finds. -/
theorem moves_test {p q q' : DebuggerPc} {c : Prop} [Decidable c]
    (hp : p.holds .pauseLock = true) (hq : p.holds .queueLock = false)
    (hh : ∀ l, q.holds l = false) (hh' : ∀ l, q'.holds l = false) :
    (LockOp.release Lock.pauseLock).Moves p.holds (if c then q else q').holds := by
  have hfree : ∀ l, (if c then q else q').holds l = false := by
    intro l
    split
    · exact hh l
    · exact hh' l
  exact moves_release hp (hfree _) ((hfree _).trans hq.symm)

theorem holds_resumed (step : Bool) (l : Lock) : (resumed step).holds l = false := by
  cases step <;> rfl

theorem moves_resume (step : Bool) {p : DebuggerPc} (d : Members)
    (hp : p.holds .pauseLock = true) (hq : p.holds .queueLock = false) :
    (LockOp.release Lock.pauseLock).Moves p.holds (testResume step d).2.1.holds :=
  moves_test hp hq (fun _ => rfl) (holds_resumed step)

/-- The places hold what the steps acquire and release. -/
theorem moves {c : Command} {p p' : DebuggerPc} {d d' : Members} {op : LockOp Lock}
    (h : next c p d = some (op, p', d')) : op.Moves p.holds p'.holds := by
  cases c with
  | pause b =>
    cases p <;> simp only [next, reduceCtorEq] at h
    cases h
    exact moves_skip rfl rfl
  | resume =>
    cases p <;> simp only [next, reduceCtorEq] at h
    cases h
    exact moves_skip rfl rfl
  | singleStep =>
    cases p <;> simp only [next, reduceCtorEq] at h
    cases h
    exact moves_skip rfl rfl
  | setBreakpoint addr pauseOnHit =>
    cases p <;> simp only [next, reduceCtorEq, request] at h
    split at h <;> cases h <;> exact moves_skip rfl rfl
  | clearBreakpoint addr =>
    cases p <;> simp only [next, reduceCtorEq, request] at h
    split at h <;> cases h <;> exact moves_skip rfl rfl
  | go =>
    cases p with
    | idle => cases h
    | pause b =>
      cases h
      exact moves_acquire rfl rfl rfl
    | pauseLocked b =>
      simp only [next] at h
      split at h
      · cases h
        exact moves_release rfl rfl rfl
      · split at h
        · cases h
          exact moves_skip rfl rfl
        · cases h
          exact moves_test rfl rfl (fun _ => rfl) fun _ => rfl
    | pauseSchedule =>
      cases h
      exact moves_acquire rfl rfl rfl
    | pauseScheduleLocked =>
      cases h
      exact moves_release rfl rfl rfl
    | pauseTest =>
      cases h
      exact moves_test rfl rfl (fun _ => rfl) fun _ => rfl
    | pauseWait =>
      cases h
      exact moves_acquire rfl rfl rfl
    | resume step =>
      cases h
      exact moves_acquire rfl rfl rfl
    | resumeLocked step =>
      cases h
      exact moves_resume step _ rfl rfl
    | resumeWait step =>
      cases h
      exact moves_acquire rfl rfl rfl
    | resumeTest step =>
      cases h
      exact moves_resume step _ rfl rfl
    | stepWait =>
      cases h
      exact moves_acquire rfl rfl rfl
    | stepTest =>
      cases h
      exact moves_test rfl rfl (fun _ => rfl) fun _ => rfl
    | schedule r =>
      cases h
      exact moves_acquire rfl rfl rfl
    | scheduleLocked r =>
      cases h
      exact moves_release rfl rfl rfl

end DebuggerPc

namespace CpuPc

theorem holds_back (caller : Caller) :
    (back caller).holds .pauseLock = false ∧ (back caller).holds .queueLock = caller.inExpire := by
  cases caller <;> exact ⟨rfl, rfl⟩

theorem moves_paused (caller : Caller) {p : CpuPc} {d d' : Members} {p' : CpuPc}
    {op : LockOp Lock} (hp : p.holds .pauseLock = true)
    (hq : p.holds .queueLock = caller.inExpire) (h : testPaused caller d = (op, p', d')) :
    op.Moves p.holds p'.holds := by
  obtain ⟨hb, hb'⟩ := holds_back caller
  rw [testPaused] at h
  split at h
  · cases h
    exact moves_release hp rfl hq.symm
  · cases h
    exact moves_release hp hb (hb'.trans hq.symm)

/-- The places hold what the steps acquire and release. -/
theorem moves {c : Progress} {p p' : CpuPc} {d d' : Members} {op : LockOp Lock}
    (h : next c p d = some (op, p', d')) : op.Moves p.holds p'.holds := by
  cases c with
  | hit addr =>
    cases p <;> simp only [next, reduceCtorEq] at h
    obtain ⟨b, -, h⟩ := Option.map_eq_some_iff.mp h
    cases h
    exact moves_skip rfl rfl
  | expire =>
    cases p <;> simp only [next, reduceCtorEq] at h
    cases h
    exact moves_skip rfl rfl
  | call n =>
    cases p <;> simp only [next, reduceCtorEq] at h
    obtain ⟨e, -, h⟩ := Option.map_eq_some_iff.mp h
    cases e <;> cases h <;> exact moves_skip rfl rfl
  | expired =>
    cases p <;> simp only [next, reduceCtorEq] at h
    cases h
    exact moves_release rfl rfl rfl
  | go =>
    cases p with
    | running => cases h
    | hit b =>
      cases h
      exact moves_acquire rfl rfl rfl
    | hitLocked b =>
      cases h
      exact moves_release rfl rfl rfl
    | movedFn b w =>
      simp only [next] at h
      split at h <;> cases h <;> exact moves_skip rfl rfl
    | leave =>
      cases h
      exact moves_acquire rfl rfl rfl
    | leaveLocked =>
      cases h
      exact moves_release rfl rfl rfl
    | paused caller =>
      cases h
      exact moves_acquire rfl rfl rfl
    | pausedLocked caller => exact moves_paused caller rfl rfl (Option.some.inj h)
    | parked caller =>
      cases h
      exact moves_skip rfl rfl
    | waking caller =>
      cases h
      exact moves_acquire rfl rfl rfl
    | woken caller => exact moves_paused caller rfl rfl (Option.some.inj h)
    | expire =>
      cases h
      exact moves_acquire rfl rfl rfl
    | expiring => cases h
    | step =>
      cases h
      exact moves_acquire rfl rfl rfl
    | stepLocked =>
      cases h
      exact moves_release rfl rfl rfl

end CpuPc

abbrev threads : Threads Thread Members Lock where
  Pc
    | .debugger => DebuggerPc
    | .cpu => CpuPc
  Input
    | .debugger => Command
    | .cpu => Progress
  next
    | .debugger => DebuggerPc.next
    | .cpu => CpuPc.next
  holds
    | .debugger => DebuggerPc.holds
    | .cpu => CpuPc.holds
  moves {i _ _ _ _ _ _} h :=
    match i with
    | .debugger => DebuggerPc.moves h
    | .cpu => CpuPc.moves h

def start (crossThread : Bool) : threads.State where
  pc
    | .debugger => DebuggerPc.idle
    | .cpu => CpuPc.running
  data := .construct crossThread

def startLocked (crossThread : Bool) : threads.Locked := ⟨start crossThread, fun _ => none⟩

theorem owned_startLocked (crossThread : Bool) : threads.Owned (startLocked crossThread) := by
  intro l i
  cases i <;> cases l <;> simp [startLocked, start, DebuggerPc.holds, CpuPc.holds]

theorem step_debugger {c : Command} {s t : threads.State}
    (h : threads.step ⟨.debugger, c⟩ s = some t) :
    ∃ op, DebuggerPc.next c (s.pc .debugger) s.data = some (op, t.pc .debugger, t.data) ∧
      t.pc .cpu = s.pc .cpu := by
  obtain ⟨op, p, d, hn, rfl⟩ := Threads.step_some h
  exact ⟨op, hn, rfl⟩

theorem step_cpu {c : Progress} {s t : threads.State}
    (h : threads.step ⟨.cpu, c⟩ s = some t) :
    ∃ op, CpuPc.next c (s.pc .cpu) s.data = some (op, t.pc .cpu, t.data) ∧
      t.pc .debugger = s.pc .debugger := by
  obtain ⟨op, p, d, hn, rfl⟩ := Threads.step_some h
  exact ⟨op, hn, rfl⟩

def withCpu (s : threads.State) (q : CpuPc) (d : Members) : threads.State :=
  ⟨Function.update s.pc .cpu q, d⟩

theorem withCpu_self (s : threads.State) : withCpu s (s.pc .cpu) s.data = s := by
  rw [withCpu, Function.update_eq_self]

theorem step_withCpu {c : Progress} {q q' : CpuPc} {d d' : Members} {op : LockOp Lock}
    (s : threads.State) (hn : CpuPc.next c q d = some (op, q', d')) :
    threads.step ⟨.cpu, c⟩ (withCpu s q d) = some (withCpu s q' d') := by
  have h := Threads.step_of_next (T := threads) (i := .cpu) (a := c) (s := withCpu s q d) hn
  rw [h, withCpu, withCpu, Function.update_idem]

theorem lockStep_withCpu {c : Progress} {q q' : CpuPc} {d d' : Members} {op : LockOp Lock}
    {owner owner' : Lock → Option Thread} (s : threads.State)
    (hn : CpuPc.next c q d = some (op, q', d')) (hg : op.grant Thread.cpu owner = some owner') :
    threads.lockStep ⟨.cpu, c⟩ ⟨withCpu s q d, owner⟩ = some ⟨withCpu s q' d', owner'⟩ := by
  have h := Threads.lockStep_of_next (T := threads) (i := .cpu) (a := c)
    (s := ⟨withCpu s q d, owner⟩) hn hg
  rw [h]
  simp only [withCpu, Function.update_idem]

/-- A step of the debugger and `n` that follow it. -/
def debuggerSteps (c : Command) (n : ℕ) : List threads.Move :=
  ⟨.debugger, c⟩ :: List.replicate n ⟨.debugger, Command.go⟩

/-- A step of the CPU thread and `n` that follow it. -/
def cpuSteps (c : Progress) (n : ℕ) : List threads.Move :=
  ⟨.cpu, c⟩ :: List.replicate n ⟨.cpu, Progress.go⟩

/-- `Pause` finds the CPU running, and its event parks the CPU. -/
def pausing : List threads.Move :=
  debuggerSteps (.pause true) 5 ++ cpuSteps .expire 1 ++ cpuSteps (.call 0) 2 ++ debuggerSteps .go 1

end RetroCpu.DebugInterface
