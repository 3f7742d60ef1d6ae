import RetroCpu.DebugInterface.Session

/-!
# Single steps

`SingleStep(1)` schedules `SingleStepFunc` for the next cycle and resumes the CPU.  The CPU may
be parked in `Expire`, in a breakpoint before an instruction or at the end of a time slice, and
each of these comes to look at `*cycle` at another point of the loop.

* `Before`: until the next call the clock stands still, so that `SingleStepFunc` is not due.
* `After`: from that call on it is due, so that the CPU makes no other call.
* `singleStep_runs_one`: the CPU makes one call of `emu` or `interrupt` before it parks again.
-/

namespace RetroCpu.DebugSession

variable {σ ε : Type} {cpu : HostedCpu σ ε} {H : StdHeap (Event ε)}

/-- In the states of `J`, which the CPU does not leave without a call, every call advances the
clock. -/
structure Advances (cpu : HostedCpu σ ε) (J : σ → Prop) : Prop where
  mask : ∀ {s}, J s → J (cpu.maskIp s)
  call : ∀ {s}, J s → ∀ f, J (cpu.call f s).1
  setCycleStop : ∀ {s}, J s → ∀ stop, J (cpu.setCycleStop stop s)
  invoke : ∀ {s}, J s → ∀ c, ∃ s' es, cpu.invoke c s = some (s', es) ∧ cpu.cycle s < cpu.cycle s'

/-! ### The step in the queue -/

/-- A `SingleStepFunc` is scheduled for `t`, and nothing else pauses. -/
structure Armed (t : BitVec 64) (q : EventQueue (Event ε)) : Prop where
  mem : ⟨t, .singleStepFunc⟩ ∈ q.entries
  only : ∀ e ∈ q.entries, e.f.pauses = true → e = ⟨t, .singleStepFunc⟩

namespace Armed

variable {t u : BitVec 64} {q q' : EventQueue (Event ε)}

theorem scheduleNoLock (hq : H.IsHeap q.entries)
    (h : ∀ e ∈ q.entries, e.f.pauses = false) :
    Armed t (q.scheduleNoLock H ⟨t, .singleStepFunc⟩) where
  mem := (mem_scheduleNoLock hq _ _).mpr (.inr rfl)
  only e he hp := by
    rcases (mem_scheduleNoLock hq _ _).mp he with he | he
    · rw [h e he] at hp
      cases hp
    · exact he

theorem pauses_other {es : List (Entry ε)} {e : Entry (Event ε)} (h : e ∈ es.map other) :
    e.f.pauses = false := by
  obtain ⟨x, -, rfl⟩ := List.mem_map.mp h
  rfl

theorem scheduleAll (h : Armed t q) (hq : H.IsHeap q.entries) (es : List (Entry ε)) :
    Armed t (q.scheduleAll H (es.map other)) where
  mem := (mem_scheduleAll hq _ _).mpr (.inl h.mem)
  only e he hp := by
    rcases (mem_scheduleAll hq _ _).mp he with he | he
    · exact h.only e he hp
    · rw [pauses_other he] at hp
      cases hp

/-- The function that is called is the one of `t` or not one of `DebugInterface`. -/
theorem popDue (h : Armed t q) (hq : H.IsHeap q.entries) {f : Event ε}
    (hd : q.popDue H u = some (f, q')) :
    f = .singleStepFunc ∧ t ≤ u ∨ (∃ g, f = .other g) ∧ Armed t q' := by
  obtain ⟨x, l, hl, hx, rfl, -, hp, -⟩ := EventQueue.popDue_some hq hd
  have hmem : x ∈ q.entries := by
    rw [hl]
    exact List.mem_cons_self ..
  cases hf : x.f with
  | other g =>
    refine .inr ⟨⟨g, rfl⟩, ?_, fun e he => h.only e (mem_popDue hq hd he)⟩
    rcases mem_of_popDue hq hd h.mem with he | ⟨he, -⟩
    · exact he
    · rw [hf] at he
      cases he
  | singleStepFunc =>
    refine .inl ⟨rfl, ?_⟩
    have hx' := h.only x hmem (by rw [hf]; rfl)
    rw [hx'] at hx
    exact hx
  | pausedFunc =>
    have hx' := h.only x hmem (by rw [hf]; rfl)
    rw [hx'] at hf
    cases hf

theorem popDue_ne_pausedFunc (h : Armed t q) (hq : H.IsHeap q.entries) :
    q.popDue H u ≠ some (.pausedFunc, q') := by
  intro hd
  rcases h.popDue hq hd with ⟨hf, -⟩ | ⟨⟨g, hg⟩, -⟩
  · cases hf
  · cases hg

/-- A loop of `Expire` that ends leaves the step for later. -/
theorem lt_of_popDue (h : Armed t q) (hq : H.IsHeap q.entries) (hd : q.popDue H u = none) :
    u < t := EventQueue.popDue_none hq hd _ h.mem

end Armed

/-! ### Before the call -/

/-- The loop of a CPU that was resumed for a step at the time `t` and has made no call. -/
structure Before (cpu : HostedCpu σ ε) (J : σ → Prop) (t : BitVec 64) (l : Loop σ (Event ε)) :
    Prop where
  state : J l.state
  clock : cpu.cycle l.state = t
  armed : Armed (t + 1) l.events
  bounded : l.pc = .test ∨ (∃ c, l.pc = .call c) → l.events.Bounded
  done : l.pc = .done → ∀ e ∈ l.events.entries, t < e.t

structure After (cpu : HostedCpu σ ε) (t : BitVec 64) (l : Loop σ (Event ε)) : Prop where
  clock : t + 1 ≤ cpu.cycle l.state
  armed : Armed (t + 1) l.events
  place : l.pc = .test ∧ l.events.Bounded ∨ l.pc = .expire (cpu.cycle l.state)

theorem not_inner (t : BitVec 64) : ¬(Pc.expire t = .test ∨ ∃ c, Pc.expire t = .call c) := by
  rintro (h | ⟨c, h⟩) <;> cases h

theorem lt_succ {J : σ → Prop} (hJ : Advances cpu J) {s : σ} (h : J s) :
    cpu.cycle s < cpu.cycle s + 1 := by
  obtain ⟨s', -, -, hlt⟩ := hJ.invoke h .emu
  bv_omega

theorem Before.emulates {J : σ → Prop} {t : BitVec 64} {l l' : Loop σ (Event ε)}
    {place : Place σ ε} {tr : List Seen} (hc : Orderly cpu) (hJ : Advances cpu J)
    (h : Before cpu J t l) (ht : Timed cpu H l) (hb : breakpointAt cpu l = none)
    (he : Emulates cpu H l place l' tr) :
    place = .emulate ∧
      (tr = [] ∧ Before cpu J t l' ∨ ∃ c, tr = [.invoked c] ∧ After cpu t l') := by
  obtain ⟨hs, hclock, harmed, hbound, -⟩ := h
  have hlt := lt_succ hJ hs
  cases he with
  | hit hf =>
    rw [hf] at hb
    cases hb
  | enter =>
    refine ⟨rfl, .inl ⟨rfl, hJ.mask hs, (cpu.cycle_maskIp _).trans hclock, harmed, fun _ => ?_,
      nofun⟩⟩
    exact hbound (.inl rfl)
  | leave =>
    exact ⟨rfl, .inl ⟨rfl, hs, hclock, harmed, fun h => absurd h (not_inner _), nofun⟩⟩
  | call hi =>
    obtain ⟨s', es, hi', hlt'⟩ := hJ.invoke hs _
    rw [hi] at hi'
    cases hi'
    refine ⟨rfl, .inr ⟨_, rfl, ?_, harmed.scheduleAll ht.isHeap _, .inl ⟨rfl, ?_⟩⟩⟩
    · rw [← hclock]
      bv_omega
    · exact EventQueue.bounded_scheduleAll ht.isHeap (hbound (.inr ⟨_, rfl⟩)) _
  | pausedFunc hd =>
    exact absurd hd (harmed.popDue_ne_pausedFunc ht.isHeap)
  | singleStepFunc hd =>
    -- the step is not due while the clock stands still
    have hle : t + 1 ≤ t := by
      rcases harmed.popDue ht.isHeap hd with ⟨-, hle⟩ | ⟨⟨g, hg⟩, -⟩
      · rw [← ht.expire _ rfl, hclock] at hle
        exact hle
      · cases hg
    rw [hclock] at hlt
    exact absurd hle (BitVec.not_le.mpr hlt)
  | event hd =>
    rcases harmed.popDue ht.isHeap hd with ⟨hf, -⟩ | ⟨-, harmed⟩
    · cases hf
    · obtain ⟨hq, -⟩ := EventQueue.isHeap_popDue ht.isHeap hd
      exact ⟨rfl, .inl ⟨rfl, hJ.call hs _, (hc.cycle_call _ _).trans hclock,
        harmed.scheduleAll hq _, fun h => absurd h (not_inner _), nofun⟩⟩
  | expired hd =>
    refine ⟨rfl, .inl ⟨rfl, hs, hclock, ⟨harmed.mem, harmed.only⟩, fun _ => ?_, fun _ => ?_⟩⟩
    · exact EventQueue.bounded_refresh ht.isHeap
    · have hnone := EventQueue.popDue_none ht.isHeap hd
      rw [← ht.expire _ rfl, hclock] at hnone
      exact hnone

theorem After.emulates {t : BitVec 64} {l l' : Loop σ (Event ε)} {place : Place σ ε}
    {tr : List Seen} (hc : Orderly cpu) (h : After cpu t l) (ht : Timed cpu H l)
    (he : Emulates cpu H l place l' tr) :
    tr = [] ∧ (place = .emulate ∧ After cpu t l' ∨ place = .step) := by
  obtain ⟨hclock, harmed, hplace⟩ := h
  -- the bound is not past the step
  have hstop : ∀ {s q}, l = ⟨s, q, .test⟩ → ¬cpu.cycle s < q.cycle := by
    rintro s q rfl
    rcases hplace with ⟨-, hb⟩ | hpc
    · exact BitVec.not_lt.mpr (BitVec.le_trans (hb.entries _ harmed.mem) hclock)
    · cases hpc
  cases he with
  | hit hf =>
    rw [breakpointAt_of_not_lt (hstop rfl)] at hf
    cases hf
  | enter _ hlt => exact absurd hlt (hstop rfl)
  | leave => exact ⟨rfl, .inl ⟨rfl, hclock, harmed, .inr rfl⟩⟩
  | call =>
    rcases hplace with ⟨hpc, -⟩ | hpc <;> cases hpc
  | pausedFunc hd =>
    exact absurd hd (harmed.popDue_ne_pausedFunc ht.isHeap)
  | singleStepFunc => exact ⟨rfl, .inr rfl⟩
  | event hd =>
    rcases harmed.popDue ht.isHeap hd with ⟨hf, -⟩ | ⟨-, harmed⟩
    · cases hf
    · obtain ⟨hq, -⟩ := EventQueue.isHeap_popDue ht.isHeap hd
      have hcycle := hc.cycle_call
      refine ⟨rfl, .inl ⟨rfl, ?_, harmed.scheduleAll hq _, .inr ?_⟩⟩
      · rw [hcycle]
        exact hclock
      · rw [hcycle, ht.expire _ rfl]
  | expired hd =>
    have hlt := harmed.lt_of_popDue ht.isHeap hd
    rw [← ht.expire _ rfl] at hlt
    exact absurd hclock (BitVec.not_le.mpr hlt)

/-! ### The stages of a step -/

def Debugger.Awaits (d : Debugger) : Prop := d = .resumeWait true ∨ d = .stepWait

/-- Where the session `t` is with a `SingleStep(1)` that was called in `s`. -/
inductive Stage (cpu : HostedCpu σ ε) (J : σ → Prop) (s t : State σ ε) : Prop
  /-- `Resume` is still to come. -/
  | held (hl : Before cpu J (cpu.cycle s.loop.state) t.loop) (ht : t.trace = s.trace)
      (hp : t.place = .parked) (hn : t.pause = 1) (hd : t.debugger = .resume true)
  /-- The CPU is still in its wait. -/
  | released (hl : Before cpu J (cpu.cycle s.loop.state) t.loop) (ht : t.trace = s.trace)
      (hp : t.place = .parked) (hn : t.pause = 0) (hd : t.debugger = .resumeWait true)
  | before (hl : Before cpu J (cpu.cycle s.loop.state) t.loop) (ht : t.trace = s.trace)
      (hp : t.place = .emulate) (hn : t.pause = 0) (hd : t.debugger.Awaits)
  | after (c : Call) (hl : After cpu (cpu.cycle s.loop.state) t.loop)
      (ht : t.trace = s.trace ++ [.invoked c])
      (hp : t.place = .emulate) (hn : t.pause = 0) (hd : t.debugger.Awaits)
  | stepping (c : Call) (ht : t.trace = s.trace ++ [.invoked c])
      (hp : t.place = .step) (hn : t.pause = 0) (hd : t.debugger.Awaits)
  | stopping (c : Call) (ht : t.trace = s.trace ++ [.invoked c])
      (hp : t.place = .paused) (hn : t.pause = 1) (hd : t.debugger.Awaits)
  | stopped (c : Call) (ht : t.trace = s.trace ++ [.invoked c, .parked])
      (hp : t.place = .parked) (hn : t.pause = 1) (hd : t.debugger.Awaits ∨ t.debugger = .idle)

theorem debuggerStep_awaits {t t' : State σ ε} (hd : t.debugger.Awaits)
    (h : t.debuggerStep H = some t') : t' = { t with debugger := t'.debugger } ∧
      (t'.debugger.Awaits ∨ t.pauseResponse = true ∧ t'.debugger = .idle) := by
  obtain ⟨l, place, d, n, response, pending, bp, trace⟩ := t
  rcases hd with hd | hd
  · obtain rfl : d = .resumeWait true := hd
    simp only [State.debuggerStep, State.testResume, if_true, Option.some.injEq] at h
    split at h <;> subst h
    · exact ⟨rfl, .inl (.inl rfl)⟩
    · exact ⟨rfl, .inl (.inr rfl)⟩
  · obtain rfl : d = .stepWait := hd
    simp only [State.debuggerStep, Option.some.injEq] at h
    split at h
    · next hr =>
      subst h
      exact ⟨rfl, .inr ⟨hr, rfl⟩⟩
    · subst h
      exact ⟨rfl, .inl (.inr rfl)⟩

namespace Stage

variable {J : σ → Prop} {s t t' : State σ ε}

theorem debuggerStep (h : Stage cpu J s t) (hs : Sane cpu H t)
    (ht : t.debuggerStep H = some t') : Stage cpu J s t' := by
  have hawaits : t.debugger.Awaits → t.place ≠ .parked →
      t' = { t with debugger := t'.debugger } ∧ t'.debugger.Awaits := by
    intro hd hp
    obtain ⟨he, hd' | ⟨hr, -⟩⟩ := debuggerStep_awaits hd ht
    · exact ⟨he, hd'⟩
    · exact absurd (hs.response.mp hr) hp
  cases h with
  | held hl htr hp hn hd =>
    simp only [State.debuggerStep, hd, State.testResume, hs.response.mpr hp, hn,
      Option.some.injEq] at ht
    subst ht
    exact .released hl htr hp rfl rfl
  | released hl htr hp hn hd =>
    simp only [State.debuggerStep, hd, State.testResume, hs.response.mpr hp, hn,
      Option.some.injEq] at ht
    subst ht
    exact .released hl htr hp rfl rfl
  | before hl htr hp hn hd =>
    obtain ⟨he, hd'⟩ := hawaits hd (by simp [hp])
    rw [he]
    exact .before hl htr hp hn hd'
  | after c hl htr hp hn hd =>
    obtain ⟨he, hd'⟩ := hawaits hd (by simp [hp])
    rw [he]
    exact .after c hl htr hp hn hd'
  | stepping c htr hp hn hd =>
    obtain ⟨he, hd'⟩ := hawaits hd (by simp [hp])
    rw [he]
    exact .stepping c htr hp hn hd'
  | stopping c htr hp hn hd =>
    obtain ⟨he, hd'⟩ := hawaits hd (by simp [hp])
    rw [he]
    exact .stopping c htr hp hn hd'
  | stopped c htr hp hn hd =>
    rcases hd with hd | hd
    · obtain ⟨he, hd'⟩ := debuggerStep_awaits hd ht
      rw [he]
      exact .stopped c htr hp hn (hd'.imp_right And.right)
    · simp only [State.debuggerStep, hd, reduceCtorEq] at ht

theorem cpuStep (hc : Orderly cpu) (hJ : Advances cpu J) (h : Stage cpu J s t)
    (hs : Sane cpu H t) (hb : t.trace = s.trace → breakpointAt cpu t.loop = none)
    (ht : t.cpuStep cpu H = some t') : Stage cpu J s t' := by
  cases h with
  | held hl htr hp hn hd =>
    have hne : t.pause ≠ 0 := by rw [hn]; decide
    simp only [State.cpuStep, hp, State.wake, if_pos hne, Option.some.injEq] at ht
    rw [← ht]
    exact .held hl htr hp hn hd
  | released hl htr hp hn hd =>
    simp only [State.cpuStep, hp, State.wake, hn, ne_eq, not_true, if_false,
      Option.some.injEq] at ht
    rw [← ht]
    exact .before hl htr rfl rfl (.inl hd)
  | before hl htr hp hn hd =>
    simp only [State.cpuStep, hp] at ht
    obtain ⟨place, loop, tr, he, rfl⟩ := State.emulates_of_emulateStep hp ht
    obtain ⟨rfl, ⟨rfl, hl'⟩ | ⟨c, rfl, hl'⟩⟩ := hl.emulates hc hJ hs.timed (hb htr) he
    · exact .before hl' (by rw [List.append_nil, htr]) rfl hn hd
    · exact .after c hl' (by rw [htr]) rfl hn hd
  | after c hl htr hp hn hd =>
    simp only [State.cpuStep, hp] at ht
    obtain ⟨place, loop, tr, he, rfl⟩ := State.emulates_of_emulateStep hp ht
    obtain ⟨rfl, ⟨rfl, hl'⟩ | rfl⟩ := hl.emulates hc hs.timed he
    · exact .after c hl' (by rw [List.append_nil, htr]) rfl hn hd
    · exact .stepping c (by rw [List.append_nil, htr]) rfl hn hd
  | stepping c htr hp hn hd =>
    simp only [State.cpuStep, hp, State.singleStepFunc, Option.some.injEq] at ht
    rw [← ht]
    exact .stopping c htr rfl (by rw [hn]; rfl) hd
  | stopping c htr hp hn hd =>
    have hne : t.pause ≠ 0 := by rw [hn]; decide
    simp only [State.cpuStep, hp, State.pausedFunc, if_pos hne, Option.some.injEq] at ht
    rw [← ht]
    exact .stopped c (by rw [htr, List.append_assoc]; rfl) rfl hn (.inl hd)
  | stopped c htr hp hn hd =>
    have hne : t.pause ≠ 0 := by rw [hn]; decide
    simp only [State.cpuStep, hp, State.wake, if_pos hne, Option.some.injEq] at ht
    rw [← ht]
    exact .stopped c htr hp hn hd

/-- The host calls `Emulate` again only if the call is still to come. -/
theorem emulate (hJ : Advances cpu J) {stop : BitVec 64} (h : Stage cpu J s t)
    (hs : Sane cpu H t) (ht : t.emulate cpu stop = some t') : Stage cpu J s t' := by
  obtain ⟨⟨x, q, pc⟩, place, d, n, response, pending, bp, trace⟩ := t
  simp only [State.emulate] at ht
  split at ht
  · cases ht
    cases h with
    | before hl htr hp hn hd =>
      refine .before ⟨hJ.setCycleStop hl.state stop, ?_, ?_, fun _ => ?_, fun hd => ?_⟩
        htr rfl hn hd
      · exact (cpu.cycle_setCycleStop stop x).trans hl.clock
      · exact ⟨hl.armed.mem, hl.armed.only⟩
      · exact EventQueue.bounded_start hs.timed.isHeap _
      · cases hd
    | after c hl =>
      rcases hl.place with ⟨hpc, -⟩ | hpc <;> cases hpc
    | held _ _ hp | released _ _ hp => cases hp
    | stepping _ _ hp | stopping _ _ hp | stopped _ _ hp => cases hp
  · cases ht

theorem step (hc : Orderly cpu) (hJ : Advances cpu J) {m : Move ε} (h : Stage cpu J s t)
    (hs : Sane cpu H t) (hb : t.trace = s.trace → breakpointAt cpu t.loop = none)
    (hm : m.quiet = true) (ht : step cpu H m t = some t') : Stage cpu J s t' := by
  cases m with
  | command c => cases hm
  | debugger => exact h.debuggerStep hs ht
  | cpu => exact h.cpuStep hc hJ hs hb ht
  | emulate stop => exact h.emulate hJ hs ht

end Stage

/-! ### The step is made -/

theorem due_event (hc : Orderly cpu) {x : σ} {q q' : EventQueue (Event ε)} {u : BitVec 64} {f : ε}
    (ht : Timed cpu H ⟨x, q, .expire u⟩) (hd : q.popDue H u = some (.other f, q')) :
    (q'.scheduleAll H ((cpu.call f x).2.map other)).due u < q.due u := by
  obtain ⟨hq, -⟩ := EventQueue.isHeap_popDue ht.isHeap hd
  have hdue : q'.due u + 1 = q.due u := EventQueue.due_popDue ht.isHeap hd
  have hlater : ∀ e ∈ (cpu.call f x).2.map other, u < e.t := by
    intro e he
    obtain ⟨e', he', rfl⟩ := List.mem_map.mp he
    have hlt := hc.later f x e' he'
    rwa [ht.expire u rfl] at hlt
  rw [EventQueue.due_scheduleAll hq hlater]
  omega

/-- What is left of a step that was called when the trace had the length `n`. -/
def rank (cpu : HostedCpu σ ε) (n : ℕ) (t : State σ ε) : ℕ × ℕ :=
  if t.trace.length = n then
    match t.place with
    | .parked => if t.pause = 0 then (11, 0) else (12, 0)
    | _ =>
      match t.loop.pc with
      | .test => if cpu.cycle t.loop.state < t.loop.events.cycle then (7, 0) else (10, 0)
      | .expire u => (9, t.loop.events.due u)
      | .done => (8, 0)
      | .call _ => (6, 0)
  else
    match t.place with
    | .emulate =>
      match t.loop.pc with
      | .expire u => (4, t.loop.events.due u)
      | _ => (5, 0)
    | .step => (3, 0)
    | .paused => (2, 0)
    | _ =>
      match t.debugger with
      | .resumeWait _ => (1, 1)
      | .stepWait => (1, 0)
      | _ => (0, 0)

theorem rank_emulate_le (cpu : HostedCpu σ ε) (l : Loop σ (Event ε)) (d : Debugger) (n : ℤ)
    (response pending bp : Bool) (trace : List Seen) :
    (rank cpu trace.length ⟨l, .emulate, d, n, response, pending, bp, trace⟩).1 ≤ 10 := by
  obtain ⟨x, q, pc⟩ := l
  cases pc with
  | test =>
    simp only [rank, if_true]
    split <;> decide
  | _ => simp [rank]

def Descends (cpu : HostedCpu σ ε) (H : StdHeap (Event ε)) (n : ℕ) (t : State σ ε) : Prop :=
  ∃ m t', m.quiet = true ∧ step cpu H m t = some t' ∧ Loop.Less (rank cpu n t') (rank cpu n t)

theorem Before.descends {J : σ → Prop} {u : BitVec 64} (hc : Orderly cpu) (hJ : Advances cpu J)
    {t : State σ ε} (hl : Before cpu J u t.loop) (ht : Timed cpu H t.loop)
    (hb : breakpointAt cpu t.loop = none) (hp : t.place = .emulate) :
    Descends cpu H t.trace.length t := by
  obtain ⟨⟨x, q, pc⟩, place, d, n, response, pending, bp, trace⟩ := t
  obtain rfl : place = .emulate := hp
  cases pc with
  | test =>
    by_cases hlt : cpu.cycle x < q.cycle
    · refine ⟨.cpu, _, rfl, step_cpu_of_emulates rfl (.enter hb hlt), ?_⟩
      simp [rank, hlt, Loop.less_iff]
    · refine ⟨.cpu, _, rfl, step_cpu_of_emulates rfl (.leave hlt), ?_⟩
      simp [rank, hlt, Loop.less_iff]
  | call c =>
    obtain ⟨x', es, hi, -⟩ := hJ.invoke hl.state c
    refine ⟨.cpu, _, rfl, step_cpu_of_emulates rfl (.call hi), ?_⟩
    simp [rank, Loop.less_iff]
  | expire v =>
    obtain rfl : cpu.cycle x = v := ht.expire v rfl
    obtain rfl : cpu.cycle x = u := hl.clock
    cases hd : q.popDue H (cpu.cycle x) with
    | none =>
      refine ⟨.cpu, _, rfl, step_cpu_of_emulates rfl (.expired hd), ?_⟩
      by_cases hlt : cpu.cycle x < cpu.cycleStop x
      · have hs : cpu.cycle x < q.stop := by
          rw [ht.stop]
          exact hlt
        have hcycle := EventQueue.lt_cycle_refresh hs (EventQueue.popDue_none ht.isHeap hd)
        simp [rank, hlt, hcycle, Loop.less_iff]
      · simp [rank, hlt, Loop.less_iff]
    | some r =>
      obtain ⟨f, q'⟩ := r
      rcases hl.armed.popDue ht.isHeap hd with ⟨-, hle⟩ | ⟨⟨g, rfl⟩, -⟩
      · exact absurd hle (BitVec.not_le.mpr (lt_succ hJ hl.state))
      · refine ⟨.cpu, _, rfl, step_cpu_of_emulates rfl (.event hd), ?_⟩
        have hdue := due_event hc ht hd
        simp [rank, hdue, Loop.less_iff]
  | done =>
    obtain ⟨stop, hstop⟩ : ∃ stop, cpu.cycle x < stop := ⟨_, lt_succ hJ hl.state⟩
    have hstep : step cpu H (.emulate stop)
        ⟨⟨x, q, .done⟩, .emulate, d, n, response, pending, bp, trace⟩ =
        some ⟨⟨cpu.setCycleStop stop x, q.start stop stop, .test⟩, .emulate, d, n, response,
          pending, bp, trace⟩ := by
      simp only [step, State.emulate, Loop.start, queued, cpu.cycleStop_setCycleStop]
    have hcycle : cpu.cycle (cpu.setCycleStop stop x) < (q.start stop stop).cycle := by
      rw [cpu.cycle_setCycleStop]
      refine EventQueue.lt_cycle_start hstop ?_
      rw [show cpu.cycle x = u from hl.clock]
      exact hl.done rfl
    refine ⟨_, _, rfl, hstep, ?_⟩
    simp [rank, hcycle, Loop.less_iff]

theorem After.descends {u : BitVec 64} (hc : Orderly cpu) {t : State σ ε}
    (hl : After cpu u t.loop) (ht : Timed cpu H t.loop) (hp : t.place = .emulate) {n : ℕ}
    (hn : t.trace.length ≠ n) : Descends cpu H n t := by
  obtain ⟨⟨x, q, pc⟩, place, d, m, response, pending, bp, trace⟩ := t
  obtain rfl : place = .emulate := hp
  rcases hl.place with ⟨hpc, hb⟩ | hpc
  · obtain rfl : pc = .test := hpc
    have hlt : ¬cpu.cycle x < q.cycle := by
      refine BitVec.not_lt.mpr (BitVec.le_trans ?_ hl.clock)
      exact hb.entries _ hl.armed.mem
    refine ⟨.cpu, _, rfl, step_cpu_of_emulates rfl (.leave hlt), ?_⟩
    simp [rank, hn, Loop.less_iff]
  · obtain rfl : pc = .expire (cpu.cycle x) := hpc
    cases hd : q.popDue H (cpu.cycle x) with
    | none =>
      have hlt := hl.armed.lt_of_popDue ht.isHeap hd
      exact absurd hl.clock (BitVec.not_le.mpr hlt)
    | some r =>
      obtain ⟨f, q'⟩ := r
      rcases hl.armed.popDue ht.isHeap hd with ⟨rfl, -⟩ | ⟨⟨g, rfl⟩, -⟩
      · refine ⟨.cpu, _, rfl, step_cpu_of_emulates rfl (.singleStepFunc hd), ?_⟩
        simp [rank, hn, Loop.less_iff]
      · refine ⟨.cpu, _, rfl, step_cpu_of_emulates rfl (.event hd), ?_⟩
        have hdue := due_event hc ht hd
        simp [rank, hn, hdue, Loop.less_iff]

namespace Stage

variable {J : σ → Prop} {s t : State σ ε}

/-- The CPU has made its call and is parked, and `SingleStep` has returned. -/
def Ended (s t : State σ ε) : Prop :=
  t.debugger = .idle ∧ t.place = .parked ∧ ∃ c, t.trace = s.trace ++ [.invoked c, .parked]

theorem descends_released (hl : t.trace = s.trace) (hp : t.place = .parked) (hn : t.pause = 0) :
    Descends cpu H s.trace.length t := by
  obtain ⟨l, place, d, n, response, pending, bp, trace⟩ := t
  obtain rfl : place = .parked := hp
  obtain rfl : n = 0 := hn
  obtain rfl : trace = s.trace := hl
  have hstep : DebugSession.step cpu H .cpu ⟨l, .parked, d, 0, response, pending, bp, s.trace⟩ =
      some ⟨l, .emulate, d, 0, false, pending, bp, s.trace⟩ := rfl
  refine ⟨_, _, rfl, hstep, Loop.less_iff.mpr (.inl ?_)⟩
  have hle := rank_emulate_le cpu l d 0 false pending bp s.trace
  have hrank : (rank cpu s.trace.length
      ⟨l, .parked, d, 0, response, pending, bp, s.trace⟩).1 = 11 := by simp [rank]
  omega

theorem descends_stopping {c : Call} (ht : t.trace = s.trace ++ [.invoked c])
    (hp : t.place = .paused) (hn : t.pause = 1) (hd : t.debugger.Awaits) :
    Descends cpu H s.trace.length t := by
  obtain ⟨l, place, d, n, response, pending, bp, trace⟩ := t
  obtain rfl : place = .paused := hp
  obtain rfl : n = 1 := hn
  obtain rfl : trace = s.trace ++ [.invoked c] := ht
  refine ⟨.cpu, _, rfl, rfl, Loop.less_iff.mpr (.inl ?_)⟩
  have hle : (rank cpu s.trace.length (State.pausedFunc ⟨l, .paused, d, 1, response, pending, bp,
      s.trace ++ [.invoked c]⟩)).1 ≤ 1 := by
    rcases hd with rfl | rfl <;> simp [rank, State.pausedFunc]
  have hrank : (rank cpu s.trace.length ⟨l, .paused, d, 1, response, pending, bp,
      s.trace ++ [.invoked c]⟩).1 = 2 := by simp [rank]
  omega

/-- The debugger comes to see that the CPU is parked. -/
theorem descends_stopped {c : Call} (hs : Sane cpu H t)
    (ht : t.trace = s.trace ++ [.invoked c, .parked]) (hp : t.place = .parked)
    (hn : t.pause = 1) (hd : t.debugger.Awaits) : Descends cpu H s.trace.length t := by
  have hr := hs.response.mpr hp
  obtain ⟨l, place, d, n, response, pending, bp, trace⟩ := t
  obtain rfl : place = .parked := hp
  obtain rfl : n = 1 := hn
  obtain rfl : response = true := hr
  obtain rfl : trace = s.trace ++ [.invoked c, .parked] := ht
  refine ⟨.debugger, ?_⟩
  rcases hd with hd | hd
  · obtain rfl : d = .resumeWait true := hd
    refine ⟨_, rfl, rfl, ?_⟩
    simp [rank, State.testResume, Loop.less_iff]
  · obtain rfl : d = .stepWait := hd
    refine ⟨_, rfl, rfl, ?_⟩
    simp [rank, Loop.less_iff]

/-- A step that has not ended goes on. -/
theorem ended_or_descends (hc : Orderly cpu) (hJ : Advances cpu J) (h : Stage cpu J s t)
    (hs : Sane cpu H t) (hb : t.trace = s.trace → breakpointAt cpu t.loop = none) :
    Ended s t ∨ Descends cpu H s.trace.length t := by
  cases h with
  | held hl htr hp hn hd =>
    obtain ⟨l, place, d, n, response, pending, bp, trace⟩ := t
    obtain rfl : place = .parked := hp
    obtain rfl : d = .resume true := hd
    obtain rfl : n = 1 := hn
    obtain rfl : trace = s.trace := htr
    refine .inr ⟨.debugger, _, rfl, rfl, ?_⟩
    simp [rank, State.testResume, Loop.less_iff]
  | released hl htr hp hn hd => exact .inr (descends_released htr hp hn)
  | before hl htr hp hn hd =>
    rw [← htr]
    exact .inr (hl.descends hc hJ hs.timed (hb htr) hp)
  | after c hl htr hp hn hd =>
    refine .inr (hl.descends hc hs.timed hp ?_)
    rw [htr, List.length_append, List.length_singleton]
    omega
  | stepping c htr hp hn hd =>
    obtain ⟨l, place, d, n, response, pending, bp, trace⟩ := t
    obtain rfl : place = .step := hp
    obtain rfl : trace = s.trace ++ [.invoked c] := htr
    refine .inr ⟨.cpu, _, rfl, rfl, ?_⟩
    simp [rank, State.singleStepFunc, Loop.less_iff]
  | stopping c htr hp hn hd => exact .inr (descends_stopping htr hp hn hd)
  | stopped c htr hp hn hd =>
    rcases hd with hd | hd
    · exact .inr (descends_stopped hs htr hp hn hd)
    · exact .inl ⟨hd, hp, c, htr⟩

/-- `SingleStep(1)` up to its call of `Resume`. -/
theorem start (hs : Sane cpu H s) (hp : s.place = .parked) (hn : s.pause = 1)
    (hq : ∀ e ∈ s.loop.events.entries, e.f.pauses = false) (hx : J s.loop.state)
    (h : DebugSession.step cpu H (.command (.singleStep 1)) s = some t) : Stage cpu J s t := by
  have hpending : ¬s.stepPending = true := by
    intro h
    rcases hs.pending h with hstep | ⟨e, he, hf⟩
    · rw [hp] at hstep
      cases hstep
    · have hpauses := hq e he
      rw [hf] at hpauses
      cases hpauses
  simp only [DebugSession.step] at h
  split at h
  · cases h
    have he : s.command cpu H (.singleStep 1) =
        { { s with stepPending := true }.schedule H
            ⟨cpu.cycle s.loop.state + 1, .singleStepFunc⟩ with debugger := .resume true } := by
      simp only [State.command, State.singleStep, if_neg hpending]
      rfl
    rw [he]
    refine .held ⟨hx, rfl, .scheduleNoLock hs.timed.isHeap hq, fun _ => ?_, fun hd => ?_⟩
      rfl hp hn rfl
    · exact EventQueue.bounded_scheduleNoLock hs.timed.isHeap _
    · have hat := hs.place
      rw [hp] at hat
      rcases hat with hpc | ⟨u, hpc⟩ <;> rw [show s.loop.pc = .done from hd] at hpc <;> cases hpc
  · cases h

end Stage

/-- What the debugger, the CPU and the host may do in a run without a new call. -/
abbrev Quiet (_ : State σ ε) (m : Move ε) : Prop := m.quiet = true

theorem stage_of_run {J : σ → Prop} (hc : Orderly cpu) (hJ : Advances cpu J) {s s₁ t : State σ ε}
    (hs : Sane cpu H s₁) (h : Stage cpu J s s₁)
    (hb : ∀ t, Run (step cpu H) Quiet s₁ t → t.trace = s.trace → breakpointAt cpu t.loop = none)
    (ht : Run (step cpu H) Quiet s₁ t) : Sane cpu H t ∧ Stage cpu J s t := by
  induction ht with
  | refl => exact ⟨hs, h⟩
  | tail m hrun hm hst ih => exact ⟨ih.1.step hc hst, ih.2.step hc hJ ih.1 (hb _ hrun) hm hst⟩

/-- **A single step runs one step.**  In `s` the CPU is parked once, at an event or at a
breakpoint, no queued event pauses, and the debugger calls `SingleStep(1)` and nothing else.  If
there is no breakpoint where the CPU looks for one before it has made a call, then however the
threads and the host go on, what the CPU does is one call of `emu` or `interrupt` and then to
park again; `SingleStep` does not return before that, and it can always come to it. -/
theorem singleStep_runs_one {J : σ → Prop} (hc : Orderly cpu) (hJ : Advances cpu J)
    {crossThread : Bool} {x : σ} {q : EventQueue (Event ε)} (hq : H.IsHeap q.entries)
    {s : State σ ε} (hs : Run (step cpu H) (fun _ _ => True) (start cpu crossThread x q) s)
    (hparked : s.place = .parked) (hpause : s.pause = 1)
    (hquiet : ∀ e ∈ s.loop.events.entries, e.f.pauses = false) (hx : J s.loop.state)
    {s₁ : State σ ε} (h₁ : step cpu H (.command (.singleStep 1)) s = some s₁)
    (hb : ∀ t, Run (step cpu H) Quiet s₁ t → t.trace = s.trace → breakpointAt cpu t.loop = none)
    {t : State σ ε} (ht : Run (step cpu H) Quiet s₁ t) :
    (t.trace = s.trace ∨ ∃ c, t.trace = s.trace ++ [.invoked c] ∨
      t.trace = s.trace ++ [.invoked c, .parked]) ∧
    (t.debugger = .idle →
      t.place = .parked ∧ ∃ c, t.trace = s.trace ++ [.invoked c, .parked]) ∧
    ∃ u, Run (step cpu H) Quiet t u ∧ u.debugger = .idle ∧ u.place = .parked ∧
      ∃ c, u.trace = s.trace ++ [.invoked c, .parked] := by
  have hsane := sane_of_run hc hq hs
  have hstart : Stage cpu J s s₁ := .start hsane hparked hpause hquiet hx h₁
  have hsane₁ := hsane.step hc h₁
  obtain ⟨-, hstage⟩ := stage_of_run hc hJ hsane₁ hstart hb ht
  refine ⟨?_, fun hidle => ?_, ?_⟩
  · cases hstage with
    | held _ htr | released _ htr | before _ htr => exact .inl htr
    | after c _ htr => exact .inr ⟨c, .inl htr⟩
    | stepping c htr | stopping c htr => exact .inr ⟨c, .inl htr⟩
    | stopped c htr => exact .inr ⟨c, .inr htr⟩
  · cases hstage with
    | stopped c htr hp => exact ⟨hp, c, htr⟩
    | held _ _ _ _ hd | released _ _ _ _ hd =>
      rw [hd] at hidle
      cases hidle
    | before _ _ _ _ hd | after _ _ _ _ _ hd | stepping _ _ _ _ hd | stopping _ _ _ _ hd =>
      rw [hidle] at hd
      rcases hd with hd | hd <;> cases hd
  · have hwf : WellFounded fun t t' : State σ ε =>
        Loop.Less (rank cpu s.trace.length t) (rank cpu s.trace.length t') :=
      InvImage.wf _ (Prod.lex ⟨_, Nat.lt_wfRel.wf⟩ ⟨_, Nat.lt_wfRel.wf⟩).wf
    have hends : ∃ u, Run (step cpu H) Quiet t u ∧ Run (step cpu H) Quiet s₁ u ∧
        Stage.Ended s u := by
      refine Run.reaches hwf (fun t ht => ?_) ht
      obtain ⟨hsane, hstage⟩ := stage_of_run hc hJ hsane₁ hstart hb ht
      refine (hstage.ended_or_descends hc hJ hsane (hb t ht)).imp_right ?_
      rintro ⟨m, t', hm, hst, hless⟩
      exact ⟨m, t', hm, hst, .tail m ht hm hst, hless⟩
    obtain ⟨u, hu, -, hd, hp, hc⟩ := hends
    exact ⟨u, hu, hd, hp, hc⟩

/-- A CPU of which each call takes three cycles.  Its state is the clock and `cycle_stop`. -/
def threeCycles : HostedCpu (BitVec 64 × BitVec 64) Unit where
  cycle s := s.1
  cycleStop s := s.2
  interrupts _ := 0
  pendingInterrupts _ := 0
  maskIp s := s
  invoke _ s := some ((s.1 + 3, s.2), [])
  breakpoint _ := none
  call _ s := (s, [])
  cycle_maskIp _ := rfl
  cycleStop_maskIp _ := rfl
  pauseOnHit _ := true
  setCycleStop stop s := (s.1, stop)
  cycle_setCycleStop _ _ := rfl
  cycleStop_setCycleStop _ _ := rfl

/-- The CPU is parked when its first call has crossed `cycle_stop`, so that it can make the next
one only when the host has called `Emulate` again. -/
theorem singleStep_runs_one_crossing :
    let s : State (BitVec 64 × BitVec 64) Unit := ⟨⟨(3, 2), ⟨[], 2, 0⟩, .expire 3⟩, .parked, .idle,
      1, true, false, true, [.invoked .emu, .parked]⟩
    ∃ s₁ u, step threeCycles (.select _) (.command (.singleStep 1)) s = some s₁ ∧
      Run (step threeCycles (.select _)) Quiet s₁ u ∧ u.debugger = .idle ∧ u.place = .parked ∧
      ∃ c, u.trace = [.invoked .emu, .parked, .invoked c, .parked] := by
  intro s
  have horderly : Orderly threeCycles := by
    refine ⟨fun _ _ => rfl, fun _ _ => rfl, fun c s s' es h => ?_, nofun, nofun⟩
    cases h
    rfl
  have hadvances : Advances threeCycles fun s => s.1 < 100 := by
    refine ⟨fun h => h, fun h _ => h, fun h _ => h, fun {s} h c => ⟨_, _, rfl, ?_⟩⟩
    show s.1 < s.1 + 3
    change s.1 < 100 at h
    bv_omega
  have hheap : (StdHeap.select (Event Unit)).IsHeap [] := nofun
  have hs : runList (step threeCycles (.select _)) [.cpu, .cpu, .cpu, .command (.pause true),
      .debugger, .cpu, .cpu, .debugger] (start threeCycles true (0, 2) ⟨[], 0, 0⟩) = some s := rfl
  have hrun : Run (step threeCycles (.select _)) (fun _ _ => True)
      (start threeCycles true (0, 2) ⟨[], 0, 0⟩) s := Run.of_runList (fun _ _ _ => trivial) hs
  obtain ⟨-, -, u, hu, hd, hp, hc⟩ := singleStep_runs_one horderly hadvances hheap hrun rfl rfl
    nofun (show (3 : BitVec 64) < 100 by decide) rfl
    (fun t _ _ => breakpointAt_eq_none (fun _ => rfl) t.loop) .refl
  exact ⟨_, u, rfl, hu, hd, hp, hc⟩

end RetroCpu.DebugSession
