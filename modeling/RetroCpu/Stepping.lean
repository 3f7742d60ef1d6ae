import RetroCpu.CycleProcessing

/-!
# Running by single steps

`EmulatedCpu::SingleStep` is a third copy of the body of the run loop: it runs what is due in the
queue, and then makes one call.  `Stepped` is what a debugger makes of it: a loop of single steps
up to `cycle_stop`, and one `Expire` at the end.

* `expires_settled`: what the loop of `Expire` leaves.
* `stepped_iff`: **the loop of single steps does what `Emulate` does**, call for call.
-/

namespace RetroCpu

variable {σ ε φ : Type} (cpu : DebuggedCpu σ ε φ) (H : StdHeap ε)

/-- The loop of `Expire(t)`. -/
inductive Expires (t : BitVec 64) : Running σ ε φ → Running σ ε φ → Prop
  | none {l : Running σ ε φ} {q : EventQueue ε} (hq : l.events = some q)
      (h : q.popDue H t = none) :
      Expires t l ({ l with events := some q.refresh } : Running σ ε φ).sync
  | some {l l' : Running σ ε φ} {q q' : EventQueue ε} {f : ε} (hq : l.events = some q)
      (h : q.popDue H t = some (f, q')) (rest : Expires t (l.expire H cpu f q').sync l') :
      Expires t l l'

/-- `SingleStep` between `Expire` and its call. -/
def SingleStep.enter (l : Running σ ε φ) : Running σ ε φ :=
  let l := l.mask cpu
  match cpu.interruptType l.state with
  | some type => l.calls (.interrupt type)
  | none =>
    let addr := cpu.getCanonicalAddress l.state
    match l.breakpoints.find addr with
    | none => l.calls .emu
    | some fn => (l.hit H cpu addr fn).sync.calls .emu

def Running.callOf (l : Running σ ε φ) : Call :=
  match l.pc with
  | .call c => c
  | _ => .emu

def Running.called (l : Running σ ε φ) : Option (Running σ ε φ) :=
  (cpu.invoke l.callOf l.state).map fun r => { (l.returned H r).sync with pc := .test }

/-- `SingleStep(events)` returns. -/
def SingleSteps (l l' : Running σ ε φ) : Prop :=
  ∃ m, Expires cpu H (cpu.cycle l.state) l m ∧ (SingleStep.enter cpu H m).called cpu H = some l'

/-- `while(state->cycle < state->cycle_stop) SingleStep(events);` and then
`events->Expire(state->cycle)`. -/
inductive Stepped : Running σ ε φ → Running σ ε φ → Prop
  | stop {l l' : Running σ ε φ} (h : ¬cpu.cycle l.state < cpu.cycleStop l.state)
      (he : Expires cpu H (cpu.cycle l.state) l l') : Stepped l { l' with pc := .done }
  | step {l m l' : Running σ ε φ} (h : cpu.cycle l.state < cpu.cycleStop l.state)
      (hs : SingleSteps cpu H l m) (rest : Stepped m l') : Stepped l l'

/-- Calls and events that leave `cycle_stop` alone, and events that leave the clock alone. -/
structure KeepsClock : Prop where
  mask : ∀ s, cpu.cycleStop (cpu.maskIp s) = cpu.cycleStop s
  invoke : ∀ c s r, cpu.invoke c s = some r → cpu.cycleStop r.1 = cpu.cycleStop s
  hit : ∀ fn s, cpu.cycleStop (cpu.hit fn s).1 = cpu.cycleStop s
  call : ∀ f s, cpu.cycle (cpu.call f s).1 = cpu.cycle s ∧
    cpu.cycleStop (cpu.call f s).1 = cpu.cycleStop s

structure Settled (l : Running σ ε φ) (q : EventQueue ε) : Prop where
  events : l.events = some q
  isHeap : H.IsHeap q.entries
  stop : q.stop = cpu.cycleStop l.state
  built : l.breakpoints.Built

structure Head (l : Running σ ε φ) (q : EventQueue ε) : Prop extends Settled cpu H l q where
  fresh : q.refresh = q
  bound : l.eventCycle = q.cycle
  pc : l.pc = .test

variable {cpu H}

theorem state_effect (l : Running σ ε φ) (e : Effect ε φ) : (l.effect H e).state = l.state := by
  cases e <;> rfl

theorem state_returned (l : Running σ ε φ) (r : σ × List (Effect ε φ)) :
    (l.returned H r).state = r.1 :=
  Running.returned_invariant (P := fun l' => l'.state = r.1)
    (fun l' e h => (state_effect l' e).trans h) rfl

theorem pc_returned (l : Running σ ε φ) (r : σ × List (Effect ε φ)) :
    (l.returned H r).pc = l.pc :=
  Running.returned_invariant (P := fun l' => l'.pc = l.pc)
    (fun l' e h => by cases e <;> exact h) rfl

/-- What a call does to the queue. -/
theorem Settled.returned {l : Running σ ε φ} {q : EventQueue ε} (h : Settled cpu H l q)
    {r : σ × List (Effect ε φ)} (hr : cpu.cycleStop r.1 = cpu.cycleStop l.state) :
    ∃ q', Settled cpu H (l.returned H r) q' ∧ (q.refresh = q → q'.refresh = q') := by
  have key : ∃ q' : EventQueue ε, ((l.returned H r).events = some q' ∧ H.IsHeap q'.entries ∧
      q'.stop = q.stop ∧ (l.returned H r).breakpoints.Built) ∧
      (q.refresh = q → q'.refresh = q') := by
    refine Running.returned_invariant (P := fun l' => ∃ q' : EventQueue ε, (l'.events = some q' ∧
      H.IsHeap q'.entries ∧ q'.stop = q.stop ∧ l'.breakpoints.Built) ∧
        (q.refresh = q → q'.refresh = q')) ?_ ⟨q, ⟨h.events, h.isHeap, rfl, h.built⟩, id⟩
    rintro l' e ⟨q', ⟨he, hq, hs, hb⟩, hf⟩
    cases e with
    | schedule e =>
      refine ⟨q'.scheduleNoLock H e, ⟨?_, EventQueue.isHeap_scheduleNoLock hq e, hs, hb⟩,
        fun _ => rfl⟩
      show l'.events.map _ = _
      rw [he]
      rfl
    | addBreakpoint addr fn => exact ⟨q', ⟨he, hq, hs, hb.add addr fn⟩, hf⟩
    | removeBreakpoint addr => exact ⟨q', ⟨he, hq, hs, hb.remove addr⟩, hf⟩
  obtain ⟨q', ⟨he, hq, hs, hb⟩, hf⟩ := key
  exact ⟨q', ⟨he, hq, by rw [hs, h.stop, state_returned, hr], hb⟩, hf⟩

theorem Settled.sync {l : Running σ ε φ} {q : EventQueue ε} (h : Settled cpu H l q) :
    Settled cpu H l.sync q ∧ l.sync.eventCycle = q.cycle := by
  refine ⟨⟨h.events, h.isHeap, h.stop, h.built⟩, ?_⟩
  show l.pointee l.eventCycle = q.cycle
  rw [Running.pointee, h.events]

/-! ### The loop of `Expire` -/

/-- What the loop of `Expire` leaves at the time `t`. -/
structure Expired (cpu : DebuggedCpu σ ε φ) (H : StdHeap ε) (t : BitVec 64)
    (l l' : Running σ ε φ) (q : EventQueue ε) : Prop extends Settled cpu H l' q where
  fresh : q.refresh = q
  bound : l'.eventCycle = q.cycle
  none_due : ∀ e ∈ q.entries, t < e.t
  pc : l'.pc = l.pc
  cycle : cpu.cycle l'.state = cpu.cycle l.state
  cycleStop : cpu.cycleStop l'.state = cpu.cycleStop l.state

theorem expires_settled (hk : KeepsClock cpu) {t : BitVec 64} {l l' : Running σ ε φ}
    (he : Expires cpu H t l l') {q : EventQueue ε} (h : Settled cpu H l q) :
    ∃ q', Expired cpu H t l l' q' := by
  induction he generalizing q with
  | @none l q₀ hq hp =>
    obtain rfl : q₀ = q := Option.some.inj (hq.symm.trans h.events)
    have hs : Settled cpu H ({ l with events := some q₀.refresh } : Running σ ε φ) q₀.refresh :=
      ⟨rfl, h.isHeap, h.stop, h.built⟩
    obtain ⟨hsync, hbound⟩ := hs.sync
    exact ⟨q₀.refresh, hsync, rfl, hbound, fun e he => EventQueue.popDue_none h.isHeap hp e he, rfl,
      rfl, rfl⟩
  | @some l l' q₀ q₁ f hq hp _ ih =>
    obtain rfl : q₀ = q := Option.some.inj (hq.symm.trans h.events)
    obtain ⟨hheap, hstop⟩ := EventQueue.isHeap_popDue h.isHeap hp
    have hs : Settled cpu H ({ l with events := some q₁, actions := l.actions ++ [.expire f] } :
        Running σ ε φ) q₁ := ⟨rfl, hheap, hstop.trans h.stop, h.built⟩
    obtain ⟨hc, hcs⟩ := hk.call f l.state
    obtain ⟨q₂, hs₂, -⟩ := hs.returned (r := cpu.call f l.state) hcs
    obtain ⟨q', hx⟩ := ih hs₂.sync.1
    have hstate : (l.expire H cpu f q₁).sync.state = (cpu.call f l.state).1 := state_returned _ _
    have hpc : (l.expire H cpu f q₁).sync.pc = l.pc := pc_returned _ _
    refine ⟨q', hx.toSettled, hx.fresh, hx.bound, hx.none_due, hx.pc.trans hpc, ?_, ?_⟩
    · rw [hx.cycle, hstate, hc]
    · rw [hx.cycleStop, hstate, hcs]

/-- Where nothing is due `Expire` changes nothing. -/
theorem expires_self {t : BitVec 64} {l : Running σ ε φ} {q : EventQueue ε}
    (h : Settled cpu H l q) (hf : q.refresh = q) (hb : l.eventCycle = q.cycle)
    (hn : ∀ e ∈ q.entries, t < e.t) : Expires cpu H t l l := by
  have hp : q.popDue H t = none := by
    cases hp : q.popDue H t with
    | none => rfl
    | some r =>
      obtain ⟨f, q'⟩ := r
      obtain ⟨x, l, hl, hx, -⟩ := EventQueue.popDue_some h.isHeap hp
      exact absurd (hn x (by rw [hl]; exact List.mem_cons_self ..)) (BitVec.not_lt.mpr hx)
  have hx : Expires cpu H t l _ := .none h.events hp
  have hsame : ({ l with events := some q.refresh } : Running σ ε φ).sync = l := by
    obtain ⟨state, ec, b, events, pc, actions⟩ := l
    have he : events = some q := h.events
    have hc : ec = q.cycle := hb
    subst he hc
    rw [hf]
    rfl
  rw [hsame] at hx
  exact hx

theorem expires_unique {t : BitVec 64} {l m m' : Running σ ε φ} (h : Expires cpu H t l m)
    (h' : Expires cpu H t l m') : m = m' := by
  induction h with
  | none hq hp =>
    cases h' with
    | none hq' hp' =>
      cases Option.some.inj (hq.symm.trans hq')
      rfl
    | some hq' hp' _ =>
      cases Option.some.inj (hq.symm.trans hq')
      rw [hp] at hp'
      cases hp'
  | some hq hp _ ih =>
    cases h' with
    | none hq' hp' =>
      cases Option.some.inj (hq.symm.trans hq')
      rw [hp] at hp'
      cases hp'
    | some hq' hp' rest =>
      cases Option.some.inj (hq.symm.trans hq')
      rw [hp] at hp'
      cases hp'
      exact ih rest

def Running.at (l : Running σ ε φ) (pc : LoopPc) : Running σ ε φ := { l with pc := pc }

theorem returned_at (l : Running σ ε φ) (pc : LoopPc) (r : σ × List (Effect ε φ)) :
    (l.at pc).returned H r = (l.returned H r).at pc := by
  have h : ∀ (es : List (Effect ε φ)) (l : Running σ ε φ),
      es.foldl (Running.effect H) (l.at pc) = (es.foldl (Running.effect H) l).at pc := by
    intro es
    induction es with
    | nil => exact fun _ => rfl
    | cons e es ih =>
      intro l
      rw [List.foldl_cons, List.foldl_cons, ← ih]
      cases e <;> rfl
  exact h r.2 { l with state := r.1 }

theorem expires_at {t : BitVec 64} {l l' : Running σ ε φ} (h : Expires cpu H t l l')
    (pc : LoopPc) : Expires cpu H t (l.at pc) (l'.at pc) := by
  induction h with
  | none hq hp => exact .none hq hp
  | @some l l' q q' f hq hp _ ih =>
    refine .some hq hp ?_
    have he : ((l.at pc).expire H cpu f q').sync = (l.expire H cpu f q').sync.at pc :=
      congrArg Running.sync (returned_at
        ({ l with events := some q', actions := l.actions ++ [.expire f] } : Running σ ε φ) pc _)
    rw [he]
    exact ih

/-- `Emulate` in the loop of `Expire`. -/
theorem stepN_of_expires {t : BitVec 64} {l l' : Running σ ε φ} (h : Expires cpu H t l l')
    (hpc : l.pc = .expire t) : ∃ n, stepN (Emulate.step cpu H) n l = some (l'.outer cpu) := by
  induction h with
  | @none l q hq hp =>
    refine ⟨1, ?_⟩
    simp only [stepN, Emulate.step, hpc, hq, hp, Option.map_some, Option.bind_some]
  | @some l l' q q' f hq hp _ ih =>
    obtain ⟨n, hn⟩ := ih (by
      show (l.expire H cpu f q').pc = .expire t
      exact (pc_returned _ _).trans hpc)
    refine ⟨n + 1, ?_⟩
    rw [stepN]
    have hstep : Emulate.step cpu H l = some (l.expire H cpu f q').sync := by
      simp only [Emulate.step, hpc, hq, hp, Option.map_some]
    rw [hstep]
    exact hn

/-- A run of `Emulate` that ends leaves the loop of `Expire`. -/
theorem expires_of_stepN {t : BitVec 64} (n : ℕ) {l l' : Running σ ε φ} (hpc : l.pc = .expire t)
    (he : l.events.isSome) (h : stepN (Emulate.step cpu H) n l = some l') (hd : l'.pc = .done) :
    ∃ m k, Expires cpu H t l m ∧ k < n ∧ stepN (Emulate.step cpu H) k (m.outer cpu) = some l' := by
  induction n generalizing l with
  | zero =>
    cases h
    rw [hpc] at hd
    cases hd
  | succ n ih =>
    obtain ⟨q, hq⟩ := Option.isSome_iff_exists.mp he
    rw [stepN] at h
    cases hp : q.popDue H t with
    | none =>
      have hstep : Emulate.step cpu H l =
          some (({ l with events := some q.refresh } : Running σ ε φ).sync.outer cpu) := by
        simp only [Emulate.step, hpc, hq, hp, Option.map_some]
      rw [hstep] at h
      exact ⟨_, n, .none hq hp, Nat.lt_succ_self n, h⟩
    | some r =>
      obtain ⟨f, q'⟩ := r
      have hstep : Emulate.step cpu H l = some (l.expire H cpu f q').sync := by
        simp only [Emulate.step, hpc, hq, hp, Option.map_some]
      rw [hstep] at h
      have hpc' : (l.expire H cpu f q').sync.pc = .expire t := (pc_returned _ _).trans hpc
      have he' : (l.expire H cpu f q').sync.events.isSome :=
        Running.returned_invariant (P := fun l => l.events.isSome = true)
          (fun l e hl => by cases e <;> first | exact (Option.isSome_map ..).trans hl | exact hl)
          rfl
      obtain ⟨m, k, hm, hk, hrest⟩ := ih hpc' he' h
      exact ⟨m, k, .some hq hp hm, Nat.lt_succ_of_lt hk, hrest⟩

/-! ### One call -/

/-- The two bodies are the same. -/
theorem enter_eq {l : Running σ ε φ} (hb : l.breakpoints.Built) :
    Emulate.enter cpu H l = SingleStep.enter cpu H l := by
  have hfind := hb.find_eq (cpu.getCanonicalAddress (l.mask cpu).state)
  unfold Emulate.enter SingleStep.enter
  dsimp only
  show (match cpu.interruptType (l.mask cpu).state with
    | some type => _
    | none =>
      match if l.breakpoints.hasBreakpoints then
          l.breakpoints.find (cpu.getCanonicalAddress (l.mask cpu).state) else none with
      | none => _
      | some fn => _) = _
  rw [hfind]
  rfl

theorem enter_call (cpu : DebuggedCpu σ ε φ) (H : StdHeap ε) (l : Running σ ε φ) :
    ∃ c, (SingleStep.enter cpu H l).pc = .call c := by
  unfold SingleStep.enter
  dsimp only
  split
  · exact ⟨_, rfl⟩
  · split <;> exact ⟨_, rfl⟩

/-- `Emulate` makes the call of a single step. -/
theorem step_call {l : Running σ ε φ} {c : Call} (h : l.pc = .call c) :
    Emulate.step cpu H l = l.called cpu H := by
  have hc : l.callOf = c := by rw [Running.callOf, h]
  rw [Running.called, hc]
  simp only [Emulate.step, h]

theorem enter_settled (hk : KeepsClock cpu) {l : Running σ ε φ} {q : EventQueue ε}
    (h : Settled cpu H l q) (hf : q.refresh = q) :
    ∃ q', Settled cpu H (SingleStep.enter cpu H l) q' ∧ q'.refresh = q' := by
  have hmask : Settled cpu H (l.mask cpu) q :=
    ⟨h.events, h.isHeap, h.stop.trans (hk.mask l.state).symm, h.built⟩
  unfold SingleStep.enter
  dsimp only
  split
  · exact ⟨q, ⟨hmask.events, hmask.isHeap, hmask.stop, hmask.built⟩, hf⟩
  · next heq =>
    split
    · exact ⟨q, ⟨hmask.events, hmask.isHeap, hmask.stop, hmask.built⟩, hf⟩
    · next fn hfn =>
      have hs : Settled cpu H ({ l.mask cpu with
          actions := (l.mask cpu).actions ++
            [.breakpoint (cpu.getCanonicalAddress (l.mask cpu).state)] } : Running σ ε φ) q :=
        ⟨hmask.events, hmask.isHeap, hmask.stop, hmask.built⟩
      obtain ⟨q', hs', hf'⟩ := hs.returned (r := cpu.hit fn (l.mask cpu).state)
        (hk.hit fn _)
      exact ⟨q', ⟨hs'.events, hs'.isHeap, hs'.stop, hs'.built⟩, hf' hf⟩

/-- After a call the loop is at its head. -/
theorem head_called (hk : KeepsClock cpu) {l l' : Running σ ε φ} {q : EventQueue ε}
    (h : Settled cpu H l q) (hf : q.refresh = q) (hl : l.called cpu H = some l') :
    ∃ q', Head cpu H l' q' := by
  obtain ⟨r, hr, rfl⟩ := Option.map_eq_some_iff.mp hl
  obtain ⟨q', hs, hf'⟩ := h.returned (hk.invoke _ _ r hr)
  obtain ⟨hsync, hbound⟩ := hs.sync
  exact ⟨q', ⟨hsync.events, hsync.isHeap, hsync.stop, hsync.built⟩, hf' hf, hbound, rfl⟩

theorem head_singleSteps (hk : KeepsClock cpu) {l l' : Running σ ε φ} {q : EventQueue ε}
    (h : Head cpu H l q) (hs : SingleSteps cpu H l l') : ∃ q', Head cpu H l' q' := by
  obtain ⟨m, hm, hc⟩ := hs
  obtain ⟨q₁, hx⟩ := expires_settled hk hm h.toSettled
  obtain ⟨q₂, hs₂, hf₂⟩ := enter_settled hk hx.toSettled hx.fresh
  exact head_called hk hs₂ hf₂ hc

/-! ### The two loops -/

/-- Until the bound there is time left, and nothing is due. -/
theorem Head.none_due {l : Running σ ε φ} {q : EventQueue ε} (h : Head cpu H l q)
    (hlt : cpu.cycle l.state < l.eventCycle) :
    cpu.cycle l.state < cpu.cycleStop l.state ∧ ∀ e ∈ q.entries, cpu.cycle l.state < e.t := by
  have hb : q.Bounded := by
    rw [← h.fresh]
    exact EventQueue.bounded_refresh h.isHeap
  rw [h.bound] at hlt
  have hstop := hb.stop
  rw [h.stop] at hstop
  exact ⟨Nat.lt_of_lt_of_le hlt hstop, fun e he => Nat.lt_of_lt_of_le hlt (hb.entries e he)⟩

/-- What `Expire` leaves of the head of the loop, while there is time left. -/
theorem head_expired {l m : Running σ ε φ} {q q' : EventQueue ε} (h : Head cpu H l q)
    (hx : Expired cpu H (cpu.cycle l.state) l m q')
    (hlt : cpu.cycle l.state < cpu.cycleStop l.state) :
    Head cpu H m q' ∧ cpu.cycle m.state < m.eventCycle := by
  refine ⟨⟨hx.toSettled, hx.fresh, hx.bound, hx.pc.trans h.pc⟩, ?_⟩
  rw [hx.cycle, hx.bound, ← hx.fresh]
  refine EventQueue.lt_cycle_refresh ?_ hx.none_due
  rw [hx.stop, hx.cycleStop]
  exact hlt

theorem outer_expired {t : BitVec 64} {l m : Running σ ε φ} {q : EventQueue ε}
    (hx : Expired cpu H t l m q) (pc : LoopPc) :
    (m.at pc).outer cpu =
      m.at (if cpu.cycle l.state < cpu.cycleStop l.state then .test else .done) := by
  rw [← hx.cycle, ← hx.cycleStop]
  rfl

/-- `Emulate` leaves its inner loop. -/
theorem step_leave {l : Running σ ε φ} {q : EventQueue ε} (h : Head cpu H l q)
    (hlt : ¬cpu.cycle l.state < l.eventCycle) :
    Emulate.step cpu H l = some (l.at (.expire (cpu.cycle l.state))) := by
  simp only [Emulate.step, h.pc, if_neg hlt, h.events, Running.at]

/-- `Emulate` enters the body of its inner loop. -/
theorem step_enter {l : Running σ ε φ} {q : EventQueue ε} (h : Head cpu H l q)
    (hlt : cpu.cycle l.state < l.eventCycle) :
    Emulate.step cpu H l = some (SingleStep.enter cpu H l) := by
  simp only [Emulate.step, h.pc, if_pos hlt, enter_eq h.built]

/-- `Emulate` leaves and comes back to where a single step makes its call. -/
theorem stepN_expired (hk : KeepsClock cpu) {l m : Running σ ε φ} {q : EventQueue ε}
    (h : Head cpu H l q) (he : Expires cpu H (cpu.cycle l.state) l m)
    (hlt : cpu.cycle l.state < cpu.cycleStop l.state) :
    ∃ n, stepN (Emulate.step cpu H) n l = some m := by
  by_cases hb : cpu.cycle l.state < l.eventCycle
  · have hself := expires_self h.toSettled h.fresh h.bound (h.none_due hb).2
    exact ⟨0, congrArg some (expires_unique hself he)⟩
  · obtain ⟨q', hx⟩ := expires_settled hk he h.toSettled
    obtain ⟨n, hn⟩ := stepN_of_expires (expires_at he (.expire (cpu.cycle l.state))) rfl
    refine ⟨n + 1, ?_⟩
    rw [stepN, step_leave h hb, Option.bind_some, hn, outer_expired hx, if_pos hlt]
    exact congrArg some (by rw [← (hx.pc.trans h.pc)]; rfl)

/-- What the loop of single steps does `Emulate` does. -/
theorem emulate_of_stepped (hk : KeepsClock cpu) {l l' : Running σ ε φ}
    (hs : Stepped cpu H l l') {q : EventQueue ε} (h : Head cpu H l q) :
    ∃ n, stepN (Emulate.step cpu H) n l = some l' ∧ l'.pc = .done := by
  induction hs generalizing q with
  | @stop l l' hlt he =>
    have hb : ¬cpu.cycle l.state < l.eventCycle := fun hb => hlt (h.none_due hb).1
    obtain ⟨q', hx⟩ := expires_settled hk he h.toSettled
    obtain ⟨n, hn⟩ := stepN_of_expires (expires_at he (.expire (cpu.cycle l.state))) rfl
    refine ⟨n + 1, ?_, rfl⟩
    rw [stepN, step_leave h hb, Option.bind_some, hn, outer_expired hx, if_neg hlt]
    rfl
  | @step l m l' hlt hs _ ih =>
    obtain ⟨q₁, h₁⟩ := head_singleSteps hk h hs
    obtain ⟨x, he, hcall⟩ := hs
    obtain ⟨q', hx⟩ := expires_settled hk he h.toSettled
    obtain ⟨hhead, hbound⟩ := head_expired h hx hlt
    obtain ⟨c, hc⟩ := enter_call cpu H x
    obtain ⟨n₁, hn₁⟩ := stepN_expired hk h he hlt
    obtain ⟨n₂, hn₂, hd⟩ := ih h₁
    have hbody : stepN (Emulate.step cpu H) (n₂ + 2) x = some l' := by
      rw [stepN, step_enter hhead hbound, Option.bind_some, stepN, step_call hc, hcall,
        Option.bind_some, hn₂]
    exact ⟨n₁ + (n₂ + 2), by rw [stepN_add, hn₁, Option.bind_some, hbody], hd⟩

theorem stepN_done {n : ℕ} {l l' : Running σ ε φ} (hd : l.pc = .done)
    (h : stepN (Emulate.step cpu H) n l = some l') : l = l' := by
  cases n with
  | zero => exact Option.some.inj h
  | succ n =>
    have hstep : Emulate.step cpu H l = none := by simp only [Emulate.step, hd]
    rw [stepN, hstep] at h
    cases h

/-- `Expire` twice at one time is `Expire` once. -/
theorem stepped_of_expired (hk : KeepsClock cpu) {l m l' : Running σ ε φ} {q : EventQueue ε}
    (h : Head cpu H l q) (he : Expires cpu H (cpu.cycle l.state) l m)
    (hlt : cpu.cycle l.state < cpu.cycleStop l.state) (hs : Stepped cpu H m l') :
    Stepped cpu H l l' := by
  obtain ⟨q', hx⟩ := expires_settled hk he h.toSettled
  obtain ⟨hhead, hbound⟩ := head_expired h hx hlt
  cases hs with
  | stop hstop _ =>
    rw [hx.cycle, hx.cycleStop] at hstop
    exact absurd hlt hstop
  | step _ hs rest =>
    obtain ⟨y, hy, hcall⟩ := hs
    have hself := expires_self hhead.toSettled hhead.fresh hhead.bound (hhead.none_due hbound).2
    obtain rfl : m = y := expires_unique hself hy
    exact .step hlt ⟨m, he, hcall⟩ rest

/-- What `Emulate` does up to its return the loop of single steps does. -/
theorem stepped_of_emulate (hk : KeepsClock cpu) (n : ℕ) {l l' : Running σ ε φ}
    {q : EventQueue ε} (h : Head cpu H l q)
    (hn : stepN (Emulate.step cpu H) n l = some l') (hd : l'.pc = .done) :
    Stepped cpu H l l' := by
  induction n using Nat.strongRecOn generalizing l q with
  | _ n ih =>
    cases n with
    | zero =>
      cases hn
      rw [h.pc] at hd
      cases hd
    | succ n =>
      rw [stepN] at hn
      by_cases hb : cpu.cycle l.state < l.eventCycle
      · rw [step_enter h hb, Option.bind_some] at hn
        obtain ⟨c, hc⟩ := enter_call cpu H l
        cases n with
        | zero =>
          cases hn
          rw [hc] at hd
          cases hd
        | succ n =>
          rw [stepN, step_call hc] at hn
          obtain ⟨m, hm, hn⟩ := Option.bind_eq_some_iff.mp hn
          obtain ⟨hlt, hnone⟩ := h.none_due hb
          have hs : SingleSteps cpu H l m :=
            ⟨l, expires_self h.toSettled h.fresh h.bound hnone, hm⟩
          obtain ⟨q', h'⟩ := head_singleSteps hk h hs
          exact .step hlt hs (ih n (by omega) h' hn)
      · rw [step_leave h hb, Option.bind_some] at hn
        have hsome : (l.at (.expire (cpu.cycle l.state))).events.isSome := by
          show l.events.isSome
          rw [h.events]
          rfl
        obtain ⟨m', k, hm', hk', hrest⟩ := expires_of_stepN n rfl hsome hn hd
        have hpc : (l.at (.expire (cpu.cycle l.state))).at .test = l := by rw [← h.pc]; rfl
        have he : Expires cpu H (cpu.cycle l.state) l (m'.at .test) := by
          have he := expires_at hm' .test
          rwa [hpc] at he
        obtain ⟨q', hx⟩ := expires_settled hk he h.toSettled
        have hout : m'.outer cpu = _ := outer_expired hx m'.pc
        rw [hout] at hrest
        by_cases hlt : cpu.cycle l.state < cpu.cycleStop l.state
        · rw [if_pos hlt] at hrest
          have hhead := (head_expired h hx hlt).1
          exact stepped_of_expired hk h he hlt (ih k (by omega) hhead hrest)
        · rw [if_neg hlt] at hrest
          obtain rfl := stepN_done rfl hrest
          exact .stop hlt he

theorem head_start {s : σ} {b : Breakpoints φ} {q : EventQueue ε} (hb : b.Built)
    (hq : H.IsHeap q.entries) :
    ∃ q', Head cpu H (Emulate.start cpu s b (some q)) q' := by
  refine ⟨q.start (cpu.cycleStop s) (cpu.cycleStop s), ⟨rfl, hq, rfl, hb⟩, ?_, rfl, rfl⟩
  unfold EventQueue.start EventQueue.refresh
  rfl

/-- **The loop of single steps does what `Emulate` does.**  From the start of `Emulate`, the loop
`while(cycle < cycle_stop) SingleStep(events)` with one `Expire` after it comes to an end if and
only if `Emulate` returns, and it leaves the same state, queue and breakpoints and has made the
same calls of `emu`, of `interrupt`, of breakpoints and of events in the same order. -/
theorem stepped_iff (hk : KeepsClock cpu) {s : σ} {b : Breakpoints φ} {q : EventQueue ε}
    (hb : b.Built) (hq : H.IsHeap q.entries) (l : Running σ ε φ) :
    Stepped cpu H (Emulate.start cpu s b (some q)) l ↔
      ∃ n, Emulate.after cpu H s b (some q) n = some l ∧ l.pc = .done := by
  obtain ⟨q', h⟩ : ∃ q', Head cpu H (Emulate.start cpu s b (some q)) q' := head_start hb hq
  constructor
  · intro hs
    exact emulate_of_stepped hk hs h
  · rintro ⟨n, hn, hd⟩
    exact stepped_of_emulate hk n h hn hd

theorem keepsClock_metronome : KeepsClock metronome where
  mask _ := rfl
  invoke _ _ _ _ := rfl
  hit _ _ := rfl
  call _ _ := ⟨rfl, rfl⟩

/-- The metronome, stepped: an instruction, the event it scheduled, an interrupt. -/
theorem stepped_metronome :
    KeepsClock metronome ∧ (.empty : Breakpoints Unit).Built ∧
      (StdHeap.select Unit).IsHeap ([] : List (Entry Unit)) ∧
      ∃ l, Stepped metronome (.select Unit)
        (Emulate.start metronome 0 .empty (some ⟨[], 0, 0⟩)) l ∧ l.state = 4 := by
  have hheap : (StdHeap.select Unit).IsHeap ([] : List (Entry Unit)) := nofun
  have hrun : ((Emulate.after metronome (.select Unit) 0 .empty (some ⟨[], 0, 0⟩) 8).map
      fun l => (l.pc, l.state)) = some (.done, 4) := by
    decide +kernel
  obtain ⟨l, hl, hx⟩ := Option.map_eq_some_iff.mp hrun
  obtain ⟨hd, h4⟩ := Prod.mk.inj hx
  exact ⟨keepsClock_metronome, .empty, hheap, l,
    (stepped_iff keepsClock_metronome .empty hheap l).mpr ⟨8, hl, hd⟩, h4⟩

end RetroCpu
