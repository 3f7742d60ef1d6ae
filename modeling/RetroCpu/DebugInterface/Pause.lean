import RetroCpu.DebugInterface.Program

/-!
# The pause counter

`pause` counts what the debugger has to resume and, from the breakpoint or the step on that
makes the CPU stop until it waits, the CPU itself.  `Balanced` says so, and `Sound` is what
the counter is for: it is never negative, a CPU that stops of its own waits, and the
debugger sees that it does.

`bp_fn` takes one off the counter when the CPU does not stop, also when it had put none on.
So the balance needs that every breakpoint that is hit puts one on: `breakpoints_pause` is
set and no step is pending.
-/

namespace RetroCpu.DebugInterface

/-! ### What is asked of the two threads -/

/-- The debugger resumes only what it has to resume, and steps when it is paused once. -/
def disciplined (s : threads.State) : threads.Move → Bool
  | ⟨.debugger, .resume⟩ => 0 < s.data.outstanding
  | ⟨.debugger, .singleStep⟩ => 0 < s.data.outstanding ∧ s.data.pause = 1
  | _ => true

def counts (s : threads.State) : threads.Move → Bool
  | ⟨.cpu, .go⟩ =>
    match s.pc .cpu with
    | CpuPc.hitLocked _ => s.data.breakpointsPause && !s.data.stepPending
    | _ => true
  | _ => true

/-! ### The balance -/

namespace DebuggerPc

def owes : DebuggerPc → Bool
  | pauseSchedule | pauseScheduleLocked | pauseTest | pauseWait | resume _ | resumeLocked _ => true
  | _ => false

/-- Waiting for `pause_response` at the end of `SingleStep`. -/
def awaitsStep : DebuggerPc → Bool
  | stepWait | stepTest => true
  | _ => false

/-- Waiting for `pause_response`. -/
def waits : DebuggerPc → Bool
  | pauseSchedule | pauseScheduleLocked | pauseTest | pauseWait | stepWait | stepTest => true
  | _ => false

/-- At the condition of a loop that waits for `pause_response`. -/
def tests : DebuggerPc → Bool
  | pauseTest | stepTest => true
  | _ => false

theorem owes_or_awaitsStep {p : DebuggerPc} (h : p.waits = true) :
    p.owes = true ∨ p.awaitsStep = true := by
  cases p <;> simp_all [waits, owes, awaitsStep]

end DebuggerPc

namespace CpuPc

def counted : CpuPc → ℕ
  | movedFn _ _ | leave | leaveLocked => 1
  | paused caller | pausedLocked caller => caller.isStop.toNat
  | _ => 0

/-- In the loop of `PausedFunc`. -/
def inLoop : CpuPc → Bool
  | parked _ | waking _ | woken _ => true
  | _ => false

@[simp] theorem counted_back (caller : Caller) : (back caller).counted = 0 := by
  cases caller <;> rfl

@[simp] theorem inLoop_back (caller : Caller) : (back caller).inLoop = false := by
  cases caller <;> rfl

end CpuPc

structure Balanced (p : DebuggerPc) (q : CpuPc) (d : Members) : Prop where
  pause : d.pause = d.outstanding + q.counted
  response : d.pauseResponse = q.inLoop
  owes : p.owes = true → 0 < d.outstanding
  awaited : p.awaitsStep = true → q.inLoop = true → d.pause ≠ 0

theorem balanced_start (crossThread : Bool) :
    Balanced .idle .running (.construct crossThread) := by
  cases crossThread <;> constructor <;> simp [Members.construct, CpuPc.counted, CpuPc.inLoop,
    DebuggerPc.owes, DebuggerPc.awaitsStep]

namespace Balanced

variable {p p' : DebuggerPc} {q q' : CpuPc} {d d' : Members} {op : LockOp Lock}

theorem nonneg (h : Balanced p q d) : 0 ≤ d.pause := by
  rw [h.pause]
  omega

/-- The balance is about three of the members. -/
theorem of_members (h : Balanced p q d) (hp : d'.pause = d.pause)
    (ho : d'.outstanding = d.outstanding) (hr : d'.pauseResponse = d.pauseResponse) :
    Balanced p q d' where
  pause := by rw [hp, ho]; exact h.pause
  response := by rw [hr]; exact h.response
  owes := by rw [ho]; exact h.owes
  awaited := by rw [hp]; exact h.awaited

/-- The debugger goes to a place where it waits for nothing. -/
theorem to_idle (h : Balanced p q d) (ho : p'.owes = false) (ha : p'.awaitsStep = false) :
    Balanced p' q d where
  pause := h.pause
  response := h.response
  owes hp := by rw [ho] at hp; cases hp
  awaited hp := by rw [ha] at hp; cases hp

/-- The debugger goes on in a call that leaves it something to resume. -/
theorem to_owing (h : Balanced p q d) (ho : 0 < d.outstanding) (ha : p'.awaitsStep = false) :
    Balanced p' q d where
  pause := h.pause
  response := h.response
  owes _ := ho
  awaited hp := by rw [ha] at hp; cases hp

/-- The debugger goes on in the wait of `SingleStep`. -/
theorem to_step (h : Balanced p q d) (ho : p'.owes = false)
    (ha : q.inLoop = true → d.pause ≠ 0) : Balanced p' q d where
  pause := h.pause
  response := h.response
  owes hp := by rw [ho] at hp; cases hp
  awaited _ := ha

/-- The loop of `Resume`. -/
theorem testResume (h : Balanced p q d) (step : Bool) :
    Balanced (DebuggerPc.testResume step d).2.1 q d := by
  simp only [DebuggerPc.testResume]
  split
  · exact h.to_idle rfl rfl
  · next hloop =>
    cases step with
    | false => exact h.to_idle rfl rfl
    | true =>
      -- the CPU waits again already, or has left
      refine h.to_step rfl fun hq hp => hloop ⟨?_, hp⟩
      rw [h.response, hq]

theorem debugger {c : Command} (h : Balanced p q d)
    (hresume : c = .resume ∨ c = .singleStep → 0 < d.outstanding)
    (hn : DebuggerPc.next c p d = some (op, p', d')) : Balanced p' q d' := by
  cases c with
  | pause b =>
    cases p <;> simp only [DebuggerPc.next, reduceCtorEq] at hn
    cases hn
    exact h.to_idle rfl rfl
  | resume =>
    cases p <;> simp only [DebuggerPc.next, reduceCtorEq] at hn
    cases hn
    exact h.to_owing (hresume (.inl rfl)) rfl
  | singleStep =>
    cases p <;> simp only [DebuggerPc.next, reduceCtorEq] at hn
    cases hn
    have ho := hresume (.inr rfl)
    split
    · exact h.to_owing ho rfl
    · exact (h.to_owing ho rfl).of_members rfl rfl rfl
  | setBreakpoint addr pauseOnHit =>
    cases p <;> simp only [DebuggerPc.next, reduceCtorEq, DebuggerPc.request] at hn
    split at hn
    · cases hn
      exact (h.to_idle rfl rfl).of_members rfl rfl rfl
    · cases hn
      exact h.to_idle rfl rfl
  | clearBreakpoint addr =>
    cases p <;> simp only [DebuggerPc.next, reduceCtorEq, DebuggerPc.request] at hn
    split at hn
    · cases hn
      exact (h.to_idle rfl rfl).of_members rfl rfl rfl
    · cases hn
      exact h.to_idle rfl rfl
  | go =>
    cases p with
    | idle => cases hn
    | pause b =>
      cases hn
      exact h.to_idle rfl rfl
    | pauseLocked b =>
      -- the pause is the debugger's
      have hd : ∀ p, p.awaitsStep = false →
          Balanced p q { d with pause := d.pause + 1, outstanding := d.outstanding + 1 } := by
        intro p hp
        refine ⟨?_, h.response, fun _ => Nat.succ_pos _, fun ha => ?_⟩
        · have := h.pause
          push_cast
          omega
        · rw [hp] at ha
          cases ha
      simp only [DebuggerPc.next] at hn
      split at hn
      · cases hn
        exact hd _ rfl
      · split at hn
        · cases hn
          exact hd _ rfl
        · cases hn
          refine hd _ ?_
          split <;> rfl
    | pauseSchedule =>
      cases hn
      exact h.to_owing (h.owes rfl) rfl
    | pauseScheduleLocked =>
      cases hn
      exact (h.to_owing (h.owes rfl) rfl).of_members rfl rfl rfl
    | pauseTest =>
      cases hn
      split
      · exact h.to_idle rfl rfl
      · exact h.to_owing (h.owes rfl) rfl
    | pauseWait =>
      cases hn
      exact h.to_owing (h.owes rfl) rfl
    | resume step =>
      cases hn
      exact h.to_owing (h.owes rfl) rfl
    | resumeLocked step =>
      cases hn
      have ho := h.owes rfl
      have hd : Balanced .idle q
          { d with pause := d.pause - 1, outstanding := d.outstanding - 1 } := by
        refine ⟨?_, h.response, fun hp => ?_, fun hp => ?_⟩
        · have := h.pause
          simp only
          omega
        · cases hp
        · cases hp
      exact hd.testResume step
    | resumeWait step =>
      cases hn
      exact h.to_idle rfl rfl
    | resumeTest step =>
      cases hn
      exact h.testResume step
    | stepWait =>
      cases hn
      exact h.to_step rfl (h.awaited rfl)
    | stepTest =>
      cases hn
      split
      · exact h.to_idle rfl rfl
      · exact h.to_step rfl (h.awaited rfl)
    | schedule r =>
      cases hn
      exact h.to_idle rfl rfl
    | scheduleLocked r =>
      cases hn
      exact (h.to_idle rfl rfl).of_members rfl rfl rfl

/-- The CPU goes on outside the loop, with as much on the counter. -/
theorem to_free (h : Balanced p q d) (hl : q.inLoop = false) (hq : q'.counted = q.counted)
    (hl' : q'.inLoop = false) : Balanced p q' d where
  pause := by rw [hq]; exact h.pause
  response := by rw [hl', ← hl]; exact h.response
  owes := h.owes
  awaited _ hin := by rw [hl'] at hin; cases hin

/-- The loop of `PausedFunc`. -/
theorem testPaused {caller : Caller} (hp : d.pause = d.outstanding)
    (hr : d.pauseResponse = true) (ho : p.owes = true → 0 < d.outstanding)
    (hn : CpuPc.testPaused caller d = (op, q', d')) : Balanced p q' d' := by
  rw [CpuPc.testPaused] at hn
  split at hn
  · next hne =>
    cases hn
    exact ⟨by rw [hp]; rfl, hr, ho, fun _ _ => hne⟩
  · cases hn
    refine ⟨?_, ?_, ho, fun _ hin => ?_⟩
    · rw [CpuPc.counted_back, hp]
      rfl
    · rw [CpuPc.inLoop_back]
    · rw [CpuPc.inLoop_back] at hin
      cases hin

theorem cpu {c : Progress} (h : Balanced p q d)
    (hcounts : c = .go → ∀ b, q = .hitLocked b →
      d.breakpointsPause = true ∧ d.stepPending = false)
    (hn : CpuPc.next c q d = some (op, q', d')) : Balanced p q' d' := by
  cases c with
  | hit addr =>
    cases q <;> simp only [CpuPc.next, reduceCtorEq] at hn
    obtain ⟨b, -, hn⟩ := Option.map_eq_some_iff.mp hn
    cases hn
    exact h.to_free rfl rfl rfl
  | expire =>
    cases q <;> simp only [CpuPc.next, reduceCtorEq] at hn
    cases hn
    exact h.to_free rfl rfl rfl
  | call n =>
    cases q <;> simp only [CpuPc.next, reduceCtorEq] at hn
    obtain ⟨e, -, hn⟩ := Option.map_eq_some_iff.mp hn
    cases e <;> cases hn <;> exact of_members (h.to_free rfl rfl rfl) rfl rfl rfl
  | expired =>
    cases q <;> simp only [CpuPc.next, reduceCtorEq] at hn
    cases hn
    exact h.to_free rfl rfl rfl
  | go =>
    cases q with
    | running => cases hn
    | hit b =>
      cases hn
      exact h.to_free rfl rfl rfl
    | hitLocked b =>
      obtain ⟨hb, hs⟩ := hcounts rfl b rfl
      cases hn
      rw [if_pos ⟨hb, by rw [hs]; exact Bool.false_ne_true⟩]
      refine ⟨?_, h.response, h.owes, fun _ hin => ?_⟩
      · have := h.pause
        simp only [CpuPc.counted] at this ⊢
        omega
      · cases hin
    | movedFn b w =>
      simp only [CpuPc.next] at hn
      split at hn <;> cases hn <;> exact h.to_free rfl rfl rfl
    | leave =>
      cases hn
      exact h.to_free rfl rfl rfl
    | leaveLocked =>
      cases hn
      refine ⟨?_, h.response, h.owes, fun _ hin => ?_⟩
      · have := h.pause
        simp only [CpuPc.counted] at this ⊢
        omega
      · cases hin
    | paused caller =>
      cases hn
      exact h.to_free rfl rfl rfl
    | pausedLocked caller =>
      -- a stop is now the debugger's to resume
      have hp := h.pause
      simp only [CpuPc.counted] at hp
      refine testPaused ?_ rfl (fun ha => ?_) (Option.some.inj hn)
      · cases hs : caller.isStop with
        | false =>
          rw [hs] at hp
          simpa using hp
        | true =>
          rw [hs, Bool.toNat_true] at hp
          simp only [true_and]
          split <;> omega
      · have := h.owes ha
        simp only
        split <;> omega
    | parked caller =>
      cases hn
      exact ⟨h.pause, h.response, h.owes, fun ha _ => h.awaited ha rfl⟩
    | waking caller =>
      cases hn
      exact ⟨h.pause, h.response, h.owes, fun ha _ => h.awaited ha rfl⟩
    | woken caller =>
      exact testPaused (by rw [h.pause]; rfl) (by rw [h.response]; rfl) h.owes
        (Option.some.inj hn)
    | expire =>
      cases hn
      exact h.to_free rfl rfl rfl
    | expiring => cases hn
    | step =>
      cases hn
      exact h.to_free rfl rfl rfl
    | stepLocked =>
      cases hn
      refine ⟨?_, h.response, h.owes, fun _ hin => ?_⟩
      · have := h.pause
        simp only [CpuPc.counted, Caller.isStop, Bool.toNat_true] at this ⊢
        omega
      · cases hin

end Balanced

def keeps (s : threads.State) (m : threads.Move) : Bool := disciplined s m && counts s m

theorem balanced_step {m : threads.Move} {s t : threads.State}
    (h : Balanced (s.pc .debugger) (s.pc .cpu) s.data) (hm : keeps s m = true)
    (hs : threads.step m s = some t) : Balanced (t.pc .debugger) (t.pc .cpu) t.data := by
  obtain ⟨hd, hc⟩ := (Bool.and_eq_true_iff).mp hm
  obtain ⟨i, c⟩ := m
  cases i with
  | debugger =>
    obtain ⟨op, hn, hcpu⟩ := step_debugger hs
    rw [hcpu]
    refine h.debugger (fun hc => ?_) hn
    rcases hc with rfl | rfl
    · simpa [disciplined] using hd
    · exact (by simpa [disciplined] using hd : _ ∧ _).1
  | cpu =>
    obtain ⟨op, hn, hdebugger⟩ := step_cpu hs
    rw [hdebugger]
    refine h.cpu (fun hgo b hb => ?_) hn
    subst hgo
    simpa [counts, hb] using hc

theorem balanced_run {crossThread : Bool} {s : threads.State}
    (h : Run threads.step (fun s m => keeps s m = true) (start crossThread) s) :
    Balanced (s.pc .debugger) (s.pc .cpu) s.data :=
  h.invariant (P := fun s => Balanced (s.pc .debugger) (s.pc .cpu) s.data)
    (balanced_start crossThread) fun _ _ _ ht hm hs => balanced_step ht hm hs

/-! ### What the counter is for -/

structure Sound (s : threads.State) : Prop where
  nonneg : 0 ≤ s.data.pause
  /-- A CPU that calls `PausedFunc` for a breakpoint or a step waits in it. -/
  enters : ∀ caller, caller.isStop = true →
    s.pc .cpu = CpuPc.paused caller ∨ s.pc .cpu = CpuPc.pausedLocked caller → 0 < s.data.pause
  parks : ∀ caller t, caller.isStop = true → s.pc .cpu = CpuPc.pausedLocked caller →
    threads.step ⟨.cpu, .go⟩ s = some t →
    t.pc .cpu = CpuPc.parked caller ∧ t.data.pauseResponse = true
  /-- A debugger that waits finds the response as long as the CPU waits, and the CPU waits as
  long as the debugger does. -/
  response : (s.pc .debugger).waits = true → (s.pc .cpu).inLoop = true →
    s.data.pauseResponse = true
  stays : (s.pc .debugger).waits = true → (s.pc .cpu).inLoop = true →
    ∀ c t, threads.step ⟨.cpu, c⟩ s = some t → (t.pc .cpu).inLoop = true
  returns : (s.pc .debugger).tests = true → (s.pc .cpu).inLoop = true →
    ∀ t, threads.step ⟨.debugger, .go⟩ s = some t → t.pc .debugger = DebuggerPc.idle

theorem DebuggerPc.returns {p p' : DebuggerPc} {d d' : Members} {op : LockOp Lock}
    (hp : p.tests = true) (hr : d.pauseResponse = true)
    (hn : next .go p d = some (op, p', d')) : p' = idle := by
  cases p with
  | pauseTest =>
    cases hn
    exact if_pos hr
  | stepTest =>
    cases hn
    exact if_pos hr
  | _ => cases hp

theorem CpuPc.testPaused_of_ne {caller : Caller} {d : Members} (h : d.pause ≠ 0) :
    testPaused caller d = (.release .pauseLock, parked caller, d) := if_pos h

theorem CpuPc.parks {caller : Caller} {q' : CpuPc} {d d' : Members} {op : LockOp Lock}
    (hp : d.pause ≠ 0) (hn : next .go (pausedLocked caller) d = some (op, q', d')) :
    q' = parked caller ∧ d'.pauseResponse = true := by
  simp only [next, testPaused, if_pos hp] at hn
  cases hn
  exact ⟨rfl, rfl⟩

theorem CpuPc.stays {c : Progress} {q q' : CpuPc} {d d' : Members} {op : LockOp Lock}
    (hq : q.inLoop = true) (hp : d.pause ≠ 0) (hn : next c q d = some (op, q', d')) :
    q'.inLoop = true := by
  cases q with
  | parked caller =>
    cases c <;> cases hn
    rfl
  | waking caller =>
    cases c <;> cases hn
    rfl
  | woken caller =>
    cases c <;> simp only [next, reduceCtorEq] at hn
    rw [testPaused_of_ne hp] at hn
    cases hn
    rfl
  | _ => cases hq

theorem Balanced.pause_pos {p : DebuggerPc} {q : CpuPc} {d : Members} (h : Balanced p q d)
    (hp : p.waits = true) (hq : q.inLoop = true) : 0 < d.pause := by
  have hn := h.nonneg
  rcases DebuggerPc.owes_or_awaitsStep hp with ho | ha
  · have := h.owes ho
    have := h.pause
    omega
  · have := h.awaited ha hq
    omega

theorem sound_of_balanced {s : threads.State}
    (h : Balanced (s.pc .debugger) (s.pc .cpu) s.data) : Sound s := by
  have henters : ∀ caller, caller.isStop = true →
      s.pc .cpu = CpuPc.paused caller ∨ s.pc .cpu = CpuPc.pausedLocked caller →
      0 < s.data.pause := by
    intro caller hc hq
    have hp := h.pause
    rcases hq with hq | hq
    · rw [hq] at hp
      simp only [CpuPc.counted, hc, Bool.toNat_true] at hp
      omega
    · rw [hq] at hp
      simp only [CpuPc.counted, hc, Bool.toNat_true] at hp
      omega
  refine ⟨h.nonneg, henters, ?_, ?_, ?_, ?_⟩
  · intro caller t hc hq hs
    have hpos := henters caller hc (.inr hq)
    obtain ⟨op, hn, -⟩ := step_cpu hs
    rw [hq] at hn
    exact CpuPc.parks hpos.ne' hn
  · intro _ hq
    rw [h.response, hq]
  · intro hp hq c t hs
    have hpos := h.pause_pos hp hq
    obtain ⟨op, hn, -⟩ := step_cpu hs
    exact CpuPc.stays hq hpos.ne' hn
  · intro hp hq t hs
    have hr : s.data.pauseResponse = true := by rw [h.response, hq]
    obtain ⟨op, hn, -⟩ := step_debugger hs
    exact DebuggerPc.returns hp hr hn

/-- **The pause counter.**  Whatever the order of the steps of the debugger and the CPU, when
each breakpoint that is hit finds `breakpoints_pause` set and no step pending, `pause` is
never negative, a CPU that calls `PausedFunc` for a step or a breakpoint waits in it, and a
debugger that waits for it sees `pause_response`. -/
theorem pause_sound (crossThread : Bool) (s : threads.State)
    (h : Run threads.step (fun s m => keeps s m = true) (start crossThread) s) : Sound s :=
  sound_of_balanced (balanced_run h)

/-- After `Pause` the CPU is parked. -/
theorem pause_sound_pausing : ∃ s : threads.State,
    runList (fun m s => if keeps s m then threads.step m s else none) pausing (start true) =
      some s ∧ s.data.pauseResponse = true ∧ Sound s := by
  have hrun : (runList (fun m s => if keeps s m then threads.step m s else none) pausing
      (start true)).map (·.data.pauseResponse) = some true := by decide
  obtain ⟨s, hs, hr⟩ := Option.map_eq_some_iff.mp hrun
  exact ⟨s, hs, hr, pause_sound true s (Run.of_checked keeps hs)⟩

/-- A breakpoint that is hit and does not put one on the counter takes one off that belongs to
the debugger. -/
theorem uncounted_hit {s : threads.State} {b : Bool}
    (h : Balanced (s.pc .debugger) (s.pc .cpu) s.data) (hq : s.pc .cpu = CpuPc.hitLocked b)
    (hc : counts s ⟨.cpu, Progress.go⟩ = false) :
    ∃ t, runList threads.step (List.replicate 4 ⟨.cpu, Progress.go⟩) s = some t ∧
      t.data.pause = t.data.outstanding - 1 := by
  have hp := h.pause
  rw [hq] at hp
  have hc' : ¬(s.data.breakpointsPause = true ∧ ¬s.data.stepPending = true) := by
    simp only [counts, hq] at hc
    intro ⟨hb, hs⟩
    simp [hb, hs] at hc
  -- `bp_fn` finds that it was stepping, or that it does not pause
  have h1 : CpuPc.next .go (.hitLocked b) s.data =
      some (.release .pauseLock, .movedFn b s.data.stepPending, s.data) := by
    simp only [CpuPc.next, if_neg hc']
  have h2 : CpuPc.next .go (.movedFn b s.data.stepPending) s.data =
      some (.skip, .leave, s.data) := if_neg fun h => hc' h.2
  have h3 : CpuPc.next .go .leave s.data = some (.acquire .pauseLock, .leaveLocked, s.data) := rfl
  have h4 : CpuPc.next .go .leaveLocked s.data =
      some (.release .pauseLock, .running, { s.data with pause := s.data.pause - 1 }) := rfl
  have hrun : runList threads.step (List.replicate 4 ⟨.cpu, Progress.go⟩)
      (withCpu s (.hitLocked b) s.data) =
        some (withCpu s .running { s.data with pause := s.data.pause - 1 }) := by
    simp only [List.replicate, runList, step_withCpu s h1, step_withCpu s h2, step_withCpu s h3,
      step_withCpu s h4, Option.bind_some]
  rw [← hq, withCpu_self] at hrun
  refine ⟨_, hrun, ?_⟩
  simp only [CpuPc.counted] at hp
  simp only [withCpu]
  omega

/-- A breakpoint is set where the CPU is paused, and `SingleStep` runs the CPU into it. -/
def steppedIntoBreakpoint : List threads.Move :=
  pausing ++ debuggerSteps (.setBreakpoint 0 true) 0 ++ debuggerSteps .singleStep 2 ++
    cpuSteps .go 2 ++ cpuSteps .expired 0 ++ debuggerSteps .go 1 ++ cpuSteps (.hit 0) 5

/-- The breakpoint takes one off the counter that it has not put on, with all locks kept. -/
theorem steppedIntoBreakpoint_not_sound : ∃ s : threads.Locked,
    Run threads.lockStep (fun s m => disciplined s.toState m = true) (startLocked true) s ∧
      s.data.pause = -1 ∧ ¬Sound s.toState := by
  have hrun : (runList (fun m s => if disciplined s.toState m then threads.lockStep m s else none)
      steppedIntoBreakpoint (startLocked true)).map (·.data.pause) = some (-1) := by decide
  obtain ⟨s, hs, hp⟩ := Option.map_eq_some_iff.mp hrun
  refine ⟨s, Run.of_checked (fun (s : threads.Locked) m => disciplined s.toState m) hs, hp,
    fun hsound => ?_⟩
  have hn := hsound.nonneg
  rw [hp] at hn
  exact absurd hn (by decide)

end RetroCpu.DebugInterface
