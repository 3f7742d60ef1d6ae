import RetroCpu.DebugInterface.Pause

/-!
# The order of the locks

`Pause` takes the lock of the queue while it has `pause_lock`, and an event that `Expire`
calls takes `pause_lock` while the CPU has the lock of the queue.  The two meet only when
`Pause` finds the counter at 0 and an event of an earlier `Pause` or `SingleStep` is still
in the queue or being called.
-/

namespace RetroCpu.DebugInterface

/-- The event does not take `pause_lock`. -/
def Event.isRequest : Event → Bool
  | pausedFunc => false
  | singleStepFunc => false
  | request _ => true

/-- In `PausedFunc` or `SingleStepFunc`, called by `Expire`. -/
def CpuPc.inCall : CpuPc → Bool
  | paused caller | pausedLocked caller | parked caller | waking caller | woken caller =>
    caller.inExpire
  | step | stepLocked => true
  | _ => false

/-- No event is left of an earlier `Pause` or `SingleStep`. -/
def fresh (q : CpuPc) (d : Members) : Bool := d.entries.all Event.isRequest && !q.inCall

/-- `Pause` schedules its event only when no earlier event is left. -/
def freshPause (s : threads.Locked) : threads.Move → Bool
  | ⟨.debugger, .go⟩ =>
    match s.pc .debugger with
    | DebuggerPc.pauseLocked true => s.data.pause ≠ 0 || fresh (s.pc .cpu) s.data
    | _ => true
  | _ => true

/-- In `Pause`, at the lock of the queue or with it. -/
def DebuggerPc.schedules : DebuggerPc → Bool
  | pauseSchedule | pauseScheduleLocked => true
  | _ => false

/-- While `Pause` schedules its event no other is left. -/
def Quiet (s : threads.State) : Prop :=
  (s.pc .debugger).schedules = true → fresh (s.pc .cpu) s.data = true

theorem DebuggerPc.schedules_of_next {c : Command} {p p' : DebuggerPc} {d d' : Members}
    {op : LockOp Lock} (hn : next c p d = some (op, p', d')) (hp' : p'.schedules = true) :
    d'.entries = d.entries ∧
      (p.schedules = true ∨ c = .go ∧ p = pauseLocked true ∧ d.pause = 0) := by
  have hresumed : ∀ step, (resumed step).schedules = false := fun step => by cases step <;> rfl
  cases c with
  | go =>
    cases p with
    | pauseLocked b =>
      simp only [next] at hn
      split at hn
      · cases hn
        cases hp'
      · next hzero =>
        split at hn
        · next hb =>
          cases hn
          exact ⟨rfl, .inr ⟨rfl, by rw [hb], not_not.mp hzero⟩⟩
        · cases hn
          split at hp' <;> cases hp'
    | pauseSchedule =>
      cases hn
      exact ⟨rfl, .inl rfl⟩
    | pauseTest =>
      cases hn
      split at hp' <;> cases hp'
    | resumeLocked step =>
      cases hn
      split at hp'
      · cases hp'
      · rw [hresumed] at hp'
        cases hp'
    | resumeTest step =>
      cases hn
      split at hp'
      · cases hp'
      · rw [hresumed] at hp'
        cases hp'
    | stepTest =>
      cases hn
      split at hp' <;> cases hp'
    | _ =>
      cases hn
      try cases hp'
  | setBreakpoint addr pauseOnHit =>
    cases p <;> simp only [next, reduceCtorEq, request] at hn
    split at hn <;> cases hn <;> cases hp'
  | clearBreakpoint addr =>
    cases p <;> simp only [next, reduceCtorEq, request] at hn
    split at hn <;> cases hn <;> cases hp'
  | _ =>
    cases p <;> cases hn
    cases hp'

theorem CpuPc.not_inCall_back (caller : Caller) : (back caller).inCall = false := by
  cases caller <;> rfl

theorem CpuPc.fresh_of_next {c : Progress} {q q' : CpuPc} {d d' : Members} {op : LockOp Lock}
    (hq : fresh q d = true) (hn : next c q d = some (op, q', d')) : fresh q' d' = true := by
  obtain ⟨he, hcall⟩ := Bool.and_eq_true_iff.mp hq
  -- a step that leaves the queue alone
  have hsame : d'.entries = d.entries → q'.inCall = false → fresh q' d' = true := by
    intro hd hq'
    rw [fresh, hd, he, hq']
    rfl
  have htest : ∀ caller d₁, d₁.entries = d.entries → caller.inExpire = false →
      testPaused caller d₁ = (op, q', d') → fresh q' d' = true := by
    intro caller d₁ hd hc h
    rw [testPaused] at h
    split at h
    · cases h
      exact hsame hd hc
    · cases h
      exact hsame hd (not_inCall_back caller)
  cases c with
  | call n =>
    cases q <;> simp only [next, reduceCtorEq] at hn
    obtain ⟨e, hmem, hn⟩ := Option.map_eq_some_iff.mp hn
    have hreq := List.all_eq_true.mp he e (List.mem_of_getElem? hmem)
    have hrest : (d.entries.eraseIdx n).all Event.isRequest = true :=
      List.all_eq_true.mpr fun x hx =>
        List.all_eq_true.mp he x (List.mem_of_mem_eraseIdx hx)
    cases e with
    | request r =>
      cases hn
      rw [fresh, hrest]
      rfl
    | _ => cases hreq
  | hit addr =>
    cases q <;> simp only [next, reduceCtorEq] at hn
    obtain ⟨b, -, hn⟩ := Option.map_eq_some_iff.mp hn
    cases hn
    exact hsame rfl rfl
  | go =>
    have hc : q.inCall = false := by simpa using hcall
    cases q with
    | pausedLocked caller =>
      simp only [next, Option.some.injEq] at hn
      refine htest caller _ ?_ hc hn
      rfl
    | woken caller => exact htest caller _ rfl hc (Option.some.inj hn)
    | movedFn b w =>
      simp only [next] at hn
      split at hn <;> cases hn <;> exact hsame rfl rfl
    | hitLocked b =>
      cases hn
      refine hsame ?_ rfl
      split <;> rfl
    | _ =>
      cases hn
      try exact hsame rfl hc
  | _ =>
    cases q <;> cases hn
    exact hsame rfl rfl

theorem quiet_start (crossThread : Bool) : Quiet (start crossThread) := by
  intro hp
  cases hp

theorem quiet_step {m : threads.Move} {s t : threads.Locked} (h : Quiet s.toState)
    (hm : freshPause s m = true) (hs : threads.lockStep m s = some t) : Quiet t.toState := by
  intro hp
  have hs' := Threads.step_of_lockStep hs
  obtain ⟨i, c⟩ := m
  cases i with
  | debugger =>
    obtain ⟨op, hn, hcpu⟩ := step_debugger hs'
    obtain ⟨hd, hp' | ⟨rfl, hp', hzero⟩⟩ := DebuggerPc.schedules_of_next hn hp
    · have hf := h hp'
      rw [hcpu, fresh, hd]
      exact hf
    · have hf : fresh (s.pc .cpu) s.data = true := by
        simpa [freshPause, hp', hzero] using hm
      rw [hcpu, fresh, hd]
      exact hf
  | cpu =>
    obtain ⟨op, hn, hdebugger⟩ := step_cpu hs'
    rw [hdebugger] at hp
    exact CpuPc.fresh_of_next (h hp) hn

theorem DebuggerPc.waits_queueLock {c : Command} {p p' : DebuggerPc} {d d' : Members}
    (hn : next c p d = some (.acquire .queueLock, p', d')) (hp : p.holds .pauseLock = true) :
    p = pauseSchedule := by
  cases p with
  | pauseSchedule => rfl
  | pauseLocked b =>
    cases c <;> simp only [next, reduceCtorEq] at hn
    split at hn
    · cases hn
    · split at hn <;> cases hn
  | idle => cases hp
  | schedule r => cases hp
  | _ => cases c <;> cases hn

theorem CpuPc.waits_pauseLock {c : Progress} {q q' : CpuPc} {d d' : Members}
    (hn : next c q d = some (.acquire .pauseLock, q', d')) (hq : q.holds .queueLock = true) :
    q.inCall = true := by
  cases q with
  | paused caller => exact hq
  | waking caller => exact hq
  | step => rfl
  | expiring =>
    cases c with
    | call n =>
      obtain ⟨e, -, hn⟩ := Option.map_eq_some_iff.mp hn
      cases e <;> cases hn
    | _ => cases hn
  | pausedLocked caller => exact hq
  | parked caller => exact hq
  | woken caller => exact hq
  | stepLocked => rfl
  | _ => cases hq

theorem not_deadlock_of_quiet {s : threads.Locked} (ho : threads.Owned s) (h : Quiet s.toState) :
    ¬threads.Deadlock s .debugger .cpu .pauseLock .queueLock := by
  rintro ⟨hd, ⟨c, p, d, hn⟩, hc, ⟨c', p', d', hn'⟩⟩
  have hp := DebuggerPc.waits_queueLock hn ((ho _ _).mp hd)
  have hq := CpuPc.waits_pauseLock hn' ((ho _ _).mp hc)
  have hf := h (by rw [hp]; rfl)
  rw [fresh, hq] at hf
  simp at hf

/-- **No deadlock** of the debugger and the CPU over `pause_lock` and the lock of the queue, in
any run in which `Pause` schedules its event only when no earlier one is left. -/
theorem no_deadlock (crossThread : Bool) (s : threads.Locked)
    (h : Run threads.lockStep (fun s m => freshPause s m = true) (startLocked crossThread) s) :
    ¬threads.Deadlock s .debugger .cpu .pauseLock .queueLock := by
  have hq : Quiet s.toState := h.invariant (P := fun s => Quiet s.toState)
    (quiet_start crossThread) fun _ _ _ ht hm hs => quiet_step ht hm hs
  exact not_deadlock_of_quiet (Threads.owned_run (owned_startLocked crossThread) h) hq

/-- `Pause` with a CPU that runs. -/
theorem no_deadlock_pausing : ∃ s : threads.Locked,
    runList (fun m s => if freshPause s m then threads.lockStep m s else none) pausing
        (startLocked true) = some s ∧ s.owner .queueLock = some .cpu ∧
      ¬threads.Deadlock s .debugger .cpu .pauseLock .queueLock := by
  have hrun : (runList (fun m s => if freshPause s m then threads.lockStep m s else none) pausing
      (startLocked true)).map (·.owner .queueLock) = some (some .cpu) := by decide
  obtain ⟨s, hs, ho⟩ := Option.map_eq_some_iff.mp hrun
  exact ⟨s, hs, ho, no_deadlock true s (Run.of_checked freshPause hs)⟩

/-! ### A stale event -/

theorem deadlock_of_calls {s : threads.Locked} (hp : s.owner .pauseLock = some .debugger)
    (hq : s.owner .queueLock = some .cpu) (hd : s.pc .debugger = DebuggerPc.pauseSchedule)
    {caller : Caller} (hc : s.pc .cpu = CpuPc.paused caller ∨ s.pc .cpu = CpuPc.step) :
    threads.Deadlock s .debugger .cpu .pauseLock .queueLock := by
  refine ⟨hp, ⟨Command.go, _, _, by rw [hd]; rfl⟩, hq, ?_⟩
  rcases hc with hc | hc
  · exact ⟨Progress.go, _, _, by rw [hc]; rfl⟩
  · exact ⟨Progress.go, _, _, by rw [hc]; rfl⟩

/-- **A stale event is enough**: while `Pause` is at the lock of the queue, a CPU that runs with
such an event in its queue closes the circle. -/
theorem exists_deadlock_of_stale {s : threads.Locked} (hp : s.owner .pauseLock = some .debugger)
    (hd : s.pc .debugger = DebuggerPc.pauseSchedule) (hc : s.pc .cpu = CpuPc.running)
    (hq : s.owner .queueLock = none) {n : ℕ} {e : Event} (he : s.data.entries[n]? = some e)
    (hr : e.isRequest = false) :
    ∃ t, Run threads.lockStep (fun _ m => m.1 = .cpu) s t ∧
      threads.Deadlock t .debugger .cpu .pauseLock .queueLock := by
  let owner := Function.update s.owner .queueLock (some Thread.cpu)
  let d := { s.data with entries := s.data.entries.eraseIdx n }
  -- the event is called with the lock of the queue in hand
  obtain ⟨q, hcall, hq'⟩ : ∃ q, CpuPc.next (.call n) .expiring s.data = some (.skip, q, d) ∧
      (q = .paused .expire ∨ q = .step) := by
    cases e with
    | pausedFunc => exact ⟨.paused .expire, by rw [CpuPc.next, he]; rfl, .inl rfl⟩
    | singleStepFunc => exact ⟨.step, by rw [CpuPc.next, he]; rfl, .inr rfl⟩
    | request r => cases hr
  have hs : ⟨withCpu s.toState .running s.data, s.owner⟩ = s := by rw [← hc, withCpu_self]
  have h1 := lockStep_withCpu (c := .expire) s.toState
    (show CpuPc.next .expire .running s.data = some (.skip, .expire, s.data) from rfl)
    (show LockOp.skip.grant Thread.cpu s.owner = some s.owner from rfl)
  have h2 := lockStep_withCpu (c := .go) s.toState
    (show CpuPc.next .go .expire s.data = some (.acquire .queueLock, .expiring, s.data) from rfl)
    (show (LockOp.acquire Lock.queueLock).grant Thread.cpu s.owner = some owner from if_pos hq)
  have h3 := lockStep_withCpu s.toState hcall
    (show LockOp.skip.grant Thread.cpu owner = some owner from rfl)
  rw [hs] at h1
  refine ⟨_, .tail _ (.tail _ (.tail _ .refl rfl h1) rfl h2) rfl h3, ?_⟩
  exact deadlock_of_calls hp rfl hd hq'

/-- A breakpoint parks the CPU before the event of `Pause` does, and the event stays behind. -/
def staleEvent : List threads.Move :=
  debuggerSteps (.setBreakpoint 0 true) 2 ++ cpuSteps .expire 1 ++ cpuSteps (.call 0) 0 ++
    cpuSteps .expired 0 ++ debuggerSteps (.pause true) 5 ++ cpuSteps (.hit 0) 5 ++
    debuggerSteps .go 1 ++ debuggerSteps .resume 2 ++ debuggerSteps .resume 2 ++
    cpuSteps .go 2 ++ debuggerSteps .go 1

/-- `Pause` and the stale event take their first locks. -/
def staleDeadlock : List threads.Move :=
  staleEvent ++ debuggerSteps (.pause true) 2 ++ cpuSteps .expire 1 ++ cpuSteps (.call 0) 0

/-- A debugger that resumes only what it has to resume reaches the deadlock. -/
theorem staleDeadlock_deadlock : ∃ s : threads.Locked,
    Run threads.lockStep (fun s m => disciplined s.toState m = true) (startLocked true) s ∧
      threads.Deadlock s .debugger .cpu .pauseLock .queueLock := by
  have hrun : (runList (fun m s => if disciplined s.toState m then threads.lockStep m s else none)
      staleDeadlock (startLocked true)).map
        (fun s => (s.owner .pauseLock, s.owner .queueLock, s.pc .debugger, s.pc .cpu)) =
      some (some .debugger, some .cpu, DebuggerPc.pauseSchedule, CpuPc.paused .expire) := by
    decide
  obtain ⟨s, hs, h⟩ := Option.map_eq_some_iff.mp hrun
  simp only [Prod.mk.injEq] at h
  obtain ⟨hp, hq, hd, hc⟩ := h
  exact ⟨s, Run.of_checked (fun (s : threads.Locked) m => disciplined s.toState m) hs,
    deadlock_of_calls hp hq hd (.inl hc)⟩

end RetroCpu.DebugInterface
