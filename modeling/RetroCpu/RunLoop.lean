import RetroCpu.EventQueue
import RetroCpu.Lib.Run

/-!
# The run loop

`EmulatedCpu` is a CPU as `EmulatedCpu::Emulate` uses it: the fields of its
`CpuState` that the loop reads, the two calls of its `ExecInfo`, its breakpoints,
and the effect of an event.  A call may schedule events, and it may not return.

`Loop.step` is one step of `Emulate` with an event queue.  The program counter
`Pc` tells the test of the inner loop from the call it leads to and from the loop
inside `Expire`, so the states with a call next are those at which the source
invokes `emu` or `interrupt`.

`timely_of_run` says that no event is due at a call or when `Emulate` returns, and
`emulate_returns` says that it does return if the CPU makes progress.
-/

namespace RetroCpu

/-- The calls of the inner loop. -/
inductive Call
  | emu
  | interrupt (type : BitVec 32)
  deriving DecidableEq

/-- `EmulatedCpu`. -/
structure EmulatedCpu (σ ε : Type) where
  cycle : σ → BitVec 64
  cycleStop : σ → BitVec 64
  interrupts : σ → BitVec 32
  pendingInterrupts : σ → BitVec 32
  /-- `ip &= ip_mask`. -/
  maskIp : σ → σ
  /-- `exec->emu` and `exec->interrupt`. -/
  invoke : Call → σ → Option (σ × List (Entry ε))
  /-- The breakpoint at the current address. -/
  breakpoint : σ → Option (σ → σ × List (Entry ε))
  /-- The function of an event. -/
  call : ε → σ → σ × List (Entry ε)
  cycle_maskIp : ∀ s, cycle (maskIp s) = cycle s
  cycleStop_maskIp : ∀ s, cycleStop (maskIp s) = cycleStop s

/-- Where `Emulate` is. -/
inductive Pc
  /-- At the condition of the inner loop. -/
  | test
  | call (c : Call)
  /-- In the loop of `Expire(t)`. -/
  | expire (t : BitVec 64)
  | done
  deriving DecidableEq

/-- The state of a run of `Emulate`. -/
structure Loop (σ ε : Type) where
  state : σ
  events : EventQueue ε
  pc : Pc

variable {σ ε : Type}

/-- The call the inner loop makes. -/
def EmulatedCpu.choose (cpu : EmulatedCpu σ ε) (s : σ) : Call :=
  if 3 ≤ cpu.pendingInterrupts s + cpu.interrupts s then
    .interrupt (if cpu.pendingInterrupts s &&& 4 ≠ 0 then 1 else 0)
  else .emu

/-- One iteration of the inner loop, where there is no breakpoint. -/
def EmulatedCpu.iterate (cpu : EmulatedCpu σ ε) (s : σ) : Option (σ × List (Entry ε)) :=
  cpu.invoke (cpu.choose (cpu.maskIp s)) (cpu.maskIp s)

namespace Loop

variable (cpu : EmulatedCpu σ ε) (H : StdHeap ε)

/-- The entry of `Emulate(events)`. -/
def start (s : σ) (events : EventQueue ε) : Loop σ ε :=
  ⟨s, events.start (cpu.cycleStop s) (cpu.cycleStop s), .test⟩

/-- The body of the inner loop up to its call. -/
def enter (l : Loop σ ε) : Loop σ ε :=
  let s := cpu.maskIp l.state
  match cpu.choose s with
  | .interrupt type => { l with state := s, pc := .call (.interrupt type) }
  | .emu =>
    match cpu.breakpoint s with
    | none => { l with state := s, pc := .call .emu }
    | some f => ⟨(f s).1, l.events.scheduleAll H (f s).2, .call .emu⟩

/-- One step of `Emulate`. -/
def step (_ : Unit) (l : Loop σ ε) : Option (Loop σ ε) :=
  match l.pc with
  | .test =>
    some (if cpu.cycle l.state < l.events.cycle then l.enter cpu H
      else { l with pc := .expire (cpu.cycle l.state) })
  | .call c =>
    (cpu.invoke c l.state).map fun r => ⟨r.1, l.events.scheduleAll H r.2, .test⟩
  | .expire t =>
    match l.events.popDue H t with
    | some (f, events) =>
      some ⟨(cpu.call f l.state).1, events.scheduleAll H (cpu.call f l.state).2, .expire t⟩
    | none =>
      some { l with
        events := l.events.refresh
        pc := if cpu.cycle l.state < cpu.cycleStop l.state then .test else .done }
  | .done => none

/-- The run of `Emulate(events)` in the state `s` comes to `l`. -/
abbrev Runs (s : σ) (events : EventQueue ε) (l : Loop σ ε) : Prop :=
  Run (step cpu H) (fun _ _ => True) (start cpu s events) l

variable {cpu H}

theorem enter_eq {l : Loop σ ε} (hb : ∀ s, cpu.breakpoint s = none) :
    l.enter cpu H = { l with
      state := cpu.maskIp l.state, pc := .call (cpu.choose (cpu.maskIp l.state)) } := by
  rw [enter]
  cases hc : cpu.choose (cpu.maskIp l.state) with
  | interrupt type => rfl
  | emu => rw [hb]

/-! ### No event is late -/

def NoneDue (cpu : EmulatedCpu σ ε) (l : Loop σ ε) : Prop :=
  ∀ e ∈ l.events.entries, cpu.cycle l.state < e.t

/-- What each program counter knows of the bound and the clock. -/
def Timely (cpu : EmulatedCpu σ ε) (l : Loop σ ε) : Prop :=
  match l.pc with
  | .test => l.events.Bounded
  | .call _ => l.events.Bounded ∧ cpu.cycle l.state < l.events.cycle
  | .expire t => cpu.cycle l.state = t
  | .done => cpu.cycleStop l.state ≤ cpu.cycle l.state ∧ l.NoneDue cpu

theorem timely_step (hb : ∀ s, cpu.breakpoint s = none)
    (hc : ∀ f s, cpu.cycle (cpu.call f s).1 = cpu.cycle s) {l l' : Loop σ ε}
    (hq : H.IsHeap l.events.entries) (hl : l.Timely cpu) (h : step cpu H () l = some l') :
    H.IsHeap l'.events.entries ∧ l'.Timely cpu := by
  obtain ⟨s, events, pc⟩ := l
  cases pc with
  | test =>
    simp only [step, Option.some.injEq] at h
    have hbound : events.Bounded := hl
    split at h
    · next hlt =>
      rw [enter_eq hb] at h
      subst h
      refine ⟨hq, hbound, ?_⟩
      rw [cpu.cycle_maskIp]
      exact hlt
    · subst h
      exact ⟨hq, rfl⟩
  | call c =>
    obtain ⟨r, -, rfl⟩ := Option.map_eq_some_iff.mp h
    exact ⟨EventQueue.isHeap_scheduleAll hq _, EventQueue.bounded_scheduleAll hq hl.1 _⟩
  | expire t =>
    have ht : cpu.cycle s = t := hl
    cases hp : events.popDue H t with
    | some r =>
      obtain ⟨f, q⟩ := r
      simp only [step, hp, Option.some.injEq] at h
      subst h
      obtain ⟨hq', -⟩ := EventQueue.isHeap_popDue hq hp
      exact ⟨EventQueue.isHeap_scheduleAll hq' _, (hc f s).trans ht⟩
    | none =>
      simp only [step, hp, Option.some.injEq] at h
      subst h
      refine ⟨hq, ?_⟩
      split
      · exact EventQueue.bounded_refresh hq
      · next hlt =>
        refine ⟨BitVec.not_lt.mp hlt, fun e he => ?_⟩
        show cpu.cycle s < e.t
        rw [ht]
        exact EventQueue.popDue_none hq hp e he
  | done => cases h

/-- **Events are on time.**  Whenever `Emulate` invokes `emu` or `interrupt` no queued event is
due, and when it returns the clock has reached `cycle_stop` and no queued event is due. -/
theorem timely_of_run (hb : ∀ s, cpu.breakpoint s = none)
    (hc : ∀ f s, cpu.cycle (cpu.call f s).1 = cpu.cycle s) {s : σ} {events : EventQueue ε}
    (hq : H.IsHeap events.entries) {l : Loop σ ε} (h : Runs cpu H s events l) :
    (∀ c, l.pc = .call c → l.NoneDue cpu) ∧
      (l.pc = .done → cpu.cycleStop l.state ≤ cpu.cycle l.state ∧ l.NoneDue cpu) := by
  have hs : (start cpu s events).Timely cpu := EventQueue.bounded_start hq _
  have hl : H.IsHeap l.events.entries ∧ l.Timely cpu :=
    Run.invariant (P := fun l : Loop σ ε => H.IsHeap l.events.entries ∧ l.Timely cpu)
      ⟨hq, hs⟩ (fun _ _ _ hl _ hs => timely_step hb hc hl.1 hl.2 hs) h
  obtain ⟨-, ht⟩ := hl
  constructor
  · intro c hpc e he
    rw [Timely, hpc] at ht
    have hle := ht.1.entries e he
    have hlt := ht.2
    bv_omega
  · intro hpc
    rw [Timely, hpc] at ht
    exact ht

/-- A CPU of which each call takes two cycles.  The first call schedules an event for cycle 1,
and that event, which is run at cycle 2, one for cycle 3. -/
def ticker : EmulatedCpu (BitVec 64) Unit where
  cycle s := s
  cycleStop _ := 5
  interrupts _ := 0
  pendingInterrupts _ := 0
  maskIp s := s
  invoke _ s := some (s + 2, if s = 0 then [⟨1, ()⟩] else [])
  breakpoint _ := none
  call _ s := (s, if s = 2 then [⟨3, ()⟩] else [])
  cycle_maskIp _ := rfl
  cycleStop_maskIp _ := rfl

theorem timely_ticker : ∃ l, Runs ticker (.select Unit) 0 ⟨[], 0, 0⟩ l ∧ l.pc = .done ∧
    l.state = 6 ∧ ticker.cycleStop l.state ≤ ticker.cycle l.state ∧ l.NoneDue ticker := by
  have hs : (runList (step ticker (.select Unit)) (List.replicate 14 ())
      (start ticker 0 ⟨[], 0, 0⟩)).map (fun l => (l.pc, l.state)) = some (.done, 6) := by
    decide +kernel
  obtain ⟨l, hl, hx⟩ := Option.map_eq_some_iff.mp hs
  obtain ⟨hd, h6⟩ := Prod.mk.inj hx
  have hrun : Runs ticker (.select Unit) 0 ⟨[], 0, 0⟩ l :=
    Run.of_runList (fun _ _ _ => trivial) hl
  have hheap : (StdHeap.select Unit).IsHeap [] := nofun
  exact ⟨l, hrun, hd, h6, (timely_of_run (fun _ => rfl) (fun _ _ => rfl) hheap hrun).2 hd⟩

/-! ### The loop returns -/

/-- A CPU that makes progress in the states of `J` that are `ready`, and events that only
schedule later ones. -/
structure Progresses (cpu : EmulatedCpu σ ε) (J ready : σ → Prop) : Prop where
  noBreakpoints : ∀ s, cpu.breakpoint s = none
  mask : ∀ {s}, J s → J (cpu.maskIp s)
  invoke : ∀ {s}, J s → ready s → cpu.cycle s < cpu.cycleStop s →
    ∃ s' es, cpu.invoke (cpu.choose s) s = some (s', es) ∧ J s' ∧
      cpu.cycle s < cpu.cycle s' ∧ cpu.cycleStop s' = cpu.cycleStop s
  call : ∀ {s}, J s → ∀ f, J (cpu.call f s).1
  cycle_call : ∀ f s, cpu.cycle (cpu.call f s).1 = cpu.cycle s
  cycleStop_call : ∀ f s, cpu.cycleStop (cpu.call f s).1 = cpu.cycleStop s
  later : ∀ f s, ∀ e ∈ (cpu.call f s).2, cpu.cycle s < e.t

/-- What a run keeps besides `Timely`. -/
structure Steady (cpu : EmulatedCpu σ ε) (H : StdHeap ε) (J : σ → Prop) (l : Loop σ ε) : Prop where
  isHeap : H.IsHeap l.events.entries
  timely : l.Timely cpu
  stop : l.events.stop = cpu.cycleStop l.state
  state : J l.state
  choose : ∀ c, l.pc = .call c → c = cpu.choose l.state

/-- The time that is left, and the steps before the next call or the end. -/
def rank (cpu : EmulatedCpu σ ε) (l : Loop σ ε) : ℕ × ℕ :=
  ((cpu.cycleStop l.state).toNat - (cpu.cycle l.state).toNat,
    match l.pc with
    | .test =>
      if cpu.cycle l.state < l.events.cycle then 1 else l.events.due (cpu.cycle l.state) + 3
    | .call _ => 0
    | .expire t => l.events.due t + 2
    | .done => 0)

def Less : ℕ × ℕ → ℕ × ℕ → Prop := Prod.Lex (· < ·) (· < ·)

theorem less_iff {p q : ℕ × ℕ} : Less p q ↔ p.1 < q.1 ∨ p.1 = q.1 ∧ p.2 < q.2 := Prod.lex_def

theorem less_snd {p q : ℕ × ℕ} (h : p.1 = q.1) (h' : p.2 < q.2) : Less p q :=
  less_iff.mpr (.inr ⟨h, h'⟩)

variable {J ready : σ → Prop}

theorem steady_start {s : σ} {events : EventQueue ε} (hq : H.IsHeap events.entries) (hs : J s) :
    (start cpu s events).Steady cpu H J where
  isHeap := hq
  timely := EventQueue.bounded_start (H := H) hq _
  stop := rfl
  state := hs
  choose _ h := by cases h

/-! ### One step from each place of the loop -/

theorem steady_test (hp : Progresses cpu J ready) {s : σ} {events : EventQueue ε}
    (hl : (⟨s, events, .test⟩ : Loop σ ε).Steady cpu H J) :
    ∃ l', step cpu H () ⟨s, events, .test⟩ = some l' ∧ l'.Steady cpu H J ∧
      Less (l'.rank cpu) (rank cpu ⟨s, events, .test⟩) := by
  have htime : ∀ l', step cpu H () ⟨s, events, .test⟩ = some l' →
      H.IsHeap l'.events.entries ∧ l'.Timely cpu :=
    fun l' => timely_step hp.noBreakpoints hp.cycle_call hl.isHeap hl.timely
  obtain ⟨isHeap, timely, stop, state, choose⟩ := hl
  by_cases hlt : cpu.cycle s < events.cycle
  · have h : step cpu H () ⟨s, events, .test⟩ =
        some ⟨cpu.maskIp s, events, .call (cpu.choose (cpu.maskIp s))⟩ := by
      simp only [step, if_pos hlt, enter_eq hp.noBreakpoints]
    obtain ⟨hq', ht'⟩ := htime _ h
    refine ⟨_, h, ⟨hq', ht', ?_, hp.mask state, ?_⟩, less_snd ?_ ?_⟩
    · exact stop.trans (cpu.cycleStop_maskIp s).symm
    · intro c hc
      cases hc
      rfl
    · simp only [rank, cpu.cycle_maskIp, cpu.cycleStop_maskIp]
    · simp [rank, hlt]
  · have h : step cpu H () ⟨s, events, .test⟩ = some ⟨s, events, .expire (cpu.cycle s)⟩ := by
      simp only [step, if_neg hlt]
    obtain ⟨hq', ht'⟩ := htime _ h
    refine ⟨_, h, ⟨hq', ht', stop, state, nofun⟩, less_snd rfl ?_⟩
    simp [rank, hlt]

theorem steady_call (hp : Progresses cpu J ready) {s : σ} {events : EventQueue ε} {c : Call}
    (hl : (⟨s, events, .call c⟩ : Loop σ ε).Steady cpu H J) (hr : ready s) :
    ∃ l', step cpu H () ⟨s, events, .call c⟩ = some l' ∧ l'.Steady cpu H J ∧
      Less (l'.rank cpu) (rank cpu ⟨s, events, .call c⟩) := by
  have htime : ∀ l', step cpu H () ⟨s, events, .call c⟩ = some l' →
      H.IsHeap l'.events.entries ∧ l'.Timely cpu :=
    fun l' => timely_step hp.noBreakpoints hp.cycle_call hl.isHeap hl.timely
  obtain ⟨isHeap, timely, stop, state, choose⟩ := hl
  obtain rfl : c = cpu.choose s := choose c rfl
  obtain ⟨hb, hlt⟩ := timely
  have hstop : cpu.cycle s < cpu.cycleStop s := by
    have hle := hb.stop
    rw [stop] at hle
    show cpu.cycle s < cpu.cycleStop s
    change cpu.cycle s < events.cycle at hlt
    change events.cycle ≤ cpu.cycleStop s at hle
    bv_omega
  obtain ⟨s', es, hs', hJ, hcycle, hcs⟩ := hp.invoke state hr hstop
  have h : step cpu H () ⟨s, events, .call (cpu.choose s)⟩ =
      some ⟨s', events.scheduleAll H es, .test⟩ := by
    simp only [step, hs', Option.map_some]
  obtain ⟨hq', ht'⟩ := htime _ h
  refine ⟨_, h, ⟨hq', ht', ?_, hJ, nofun⟩, Prod.Lex.left _ _ ?_⟩
  · exact (EventQueue.stop_scheduleAll events es).trans (stop.trans hcs.symm)
  · show (cpu.cycleStop s').toNat - (cpu.cycle s').toNat <
      (cpu.cycleStop s).toNat - (cpu.cycle s).toNat
    rw [hcs]
    bv_omega

theorem steady_expire (hp : Progresses cpu J ready) {s : σ} {events : EventQueue ε} {t : BitVec 64}
    (hl : (⟨s, events, .expire t⟩ : Loop σ ε).Steady cpu H J) :
    ∃ l', step cpu H () ⟨s, events, .expire t⟩ = some l' ∧ l'.Steady cpu H J ∧
      Less (l'.rank cpu) (rank cpu ⟨s, events, .expire t⟩) := by
  have htime : ∀ l', step cpu H () ⟨s, events, .expire t⟩ = some l' →
      H.IsHeap l'.events.entries ∧ l'.Timely cpu :=
    fun l' => timely_step hp.noBreakpoints hp.cycle_call hl.isHeap hl.timely
  obtain ⟨isHeap, timely, stop, state, choose⟩ := hl
  have ht : cpu.cycle s = t := timely
  cases hpop : events.popDue H t with
  | some r =>
    obtain ⟨f, q⟩ := r
    have h : step cpu H () ⟨s, events, .expire t⟩ =
        some ⟨(cpu.call f s).1, q.scheduleAll H (cpu.call f s).2, .expire t⟩ := by
      simp only [step, hpop]
    obtain ⟨hq', ht'⟩ := htime _ h
    obtain ⟨hq, hs⟩ := EventQueue.isHeap_popDue isHeap hpop
    refine ⟨_, h, ⟨hq', ht', ?_, hp.call state f, nofun⟩, less_snd ?_ ?_⟩
    · exact (EventQueue.stop_scheduleAll q _).trans
        (hs.trans (stop.trans (hp.cycleStop_call f s).symm))
    · simp only [rank, hp.cycle_call, hp.cycleStop_call]
    · have hdue := EventQueue.due_popDue isHeap hpop
      have hlater : ∀ e ∈ (cpu.call f s).2, t < e.t := by
        rw [← ht]
        exact hp.later f s
      show (q.scheduleAll H (cpu.call f s).2).due t + 2 < events.due t + 2
      rw [EventQueue.due_scheduleAll hq hlater]
      change q.due t + 1 = events.due t at hdue
      omega
  | none =>
    have h : step cpu H () ⟨s, events, .expire t⟩ = some ⟨s, events.refresh,
        if cpu.cycle s < cpu.cycleStop s then .test else .done⟩ := by
      simp only [step, hpop]
    obtain ⟨hq', ht'⟩ := htime _ h
    refine ⟨_, h, ⟨hq', ht', stop, state, ?_⟩, less_snd rfl ?_⟩
    · intro c hc
      change (if _ then Pc.test else Pc.done) = _ at hc
      split at hc <;> cases hc
    · by_cases hlt : cpu.cycle s < cpu.cycleStop s
      · have hnone : ∀ e ∈ events.entries, cpu.cycle s < e.t := by
          rw [ht]
          exact EventQueue.popDue_none isHeap hpop
        have hs : cpu.cycle s < events.stop := by
          change events.stop = cpu.cycleStop s at stop
          rw [stop]
          exact hlt
        have hlt' := EventQueue.lt_cycle_refresh hs hnone
        simp [rank, hlt, hlt']
      · simp [rank, hlt]

/-- From a state that is not the end the loop steps down in rank. -/
theorem steady_step (hp : Progresses cpu J ready) {l : Loop σ ε} (hl : l.Steady cpu H J)
    (hr : ∀ c, l.pc = .call c → ready l.state) (hd : l.pc ≠ .done) :
    ∃ l', step cpu H () l = some l' ∧ l'.Steady cpu H J ∧ Less (l'.rank cpu) (l.rank cpu) := by
  obtain ⟨s, events, pc⟩ := l
  cases pc with
  | test => exact steady_test hp hl
  | call c => exact steady_call hp hl (hr c rfl)
  | expire t => exact steady_expire hp hl
  | done => exact absurd rfl hd

/-- **`Emulate` returns** with the clock at `cycle_stop` or later, if every state in which it
makes a call is ready for it. -/
theorem emulate_returns (hp : Progresses cpu J ready) {s : σ} (hs : J s)
    {events : EventQueue ε} (hq : H.IsHeap events.entries)
    (hr : ∀ l, Runs cpu H s events l → ∀ c, l.pc = .call c → ready l.state) :
    ∃ l, Runs cpu H s events l ∧ J l.state ∧ l.pc = .done ∧
      cpu.cycleStop l.state ≤ cpu.cycle l.state := by
  have hwf : WellFounded (fun l l' : Loop σ ε => Less (l.rank cpu) (l'.rank cpu)) :=
    InvImage.wf (rank cpu) (Prod.lex ⟨_, Nat.lt_wfRel.wf⟩ ⟨_, Nat.lt_wfRel.wf⟩).wf
  have hend : ∃ l, Runs cpu H s events l ∧
      (l.Steady cpu H J ∧ Runs cpu H s events l) ∧ l.pc = .done := by
    refine Run.reaches hwf (fun l hl => ?_) ⟨steady_start hq hs, .refl⟩
    by_cases hd : l.pc = .done
    · exact Or.inl hd
    · obtain ⟨l', h, hl', hless⟩ := steady_step hp hl.1 (hr l hl.2) hd
      exact Or.inr ⟨(), l', trivial, h, ⟨hl', .tail () hl.2 trivial h⟩, hless⟩
  obtain ⟨l, hl, ⟨hsteady, -⟩, hd⟩ := hend
  have ht := hsteady.timely
  rw [Timely, hd] at ht
  exact ⟨l, hl, hsteady.state, hd, ht.1⟩

end Loop

end RetroCpu
