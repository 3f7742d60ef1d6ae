import RetroCpu.EventQueue
import RetroCpu.Lib.Run

/-!
# What the event queue delivers

`Expire(t)` calls the function of each entry it takes off the heap, and that function may
schedule more.  What a function does besides is of no concern to the queue, so a call of
`Expire` is given by `calls`: for each function that is called, in order, the entries it
schedules.  `expire` gives the entries whose functions are called and the queue that is left,
and nothing when `Expire` does not call just as many functions as `calls` has.

`expired_of_expire`: those entries are the ones that were due, the ones scheduled meanwhile
among them, each one once.  `delivery_of_run` puts this together for every sequence of calls
on a queue, with the bound that each of them leaves in `*cycle`.
-/

namespace RetroCpu

namespace EventQueue

variable {ε : Type}

/-- `next`. -/
def next (q : EventQueue ε) : BitVec 64 :=
  match q.entries.head? with
  | none => ~~~0
  | some e => e.t

/-- `*cycle` is the minimum of `stop` and the time of the next entry. -/
def Exported (q : EventQueue ε) : Prop := q.cycle = minStop q.stop q.next

variable (H : StdHeap ε)

/-- The loop of `Expire(t)` after a round for each member of `calls`. -/
def rounds (t : BitVec 64) :
    List (List (Entry ε)) → EventQueue ε → Option (List (Entry ε) × EventQueue ε)
  | [], q => some ([], q)
  | es :: calls, q =>
    match q.entries.head?, q.popDue H t with
    | some e, some (_, q') =>
      (rounds t calls (q'.scheduleAll H es)).map fun r => (e :: r.1, r.2)
    | _, _ => none

/-- `Expire(t)`, where the functions that are called schedule the members of `calls`. -/
def expire (t : BitVec 64) (calls : List (List (Entry ε))) (q : EventQueue ε) :
    Option (List (Entry ε) × EventQueue ε) :=
  (rounds H t calls q).bind fun r =>
    match r.2.popDue H t with
    | none => some (r.1, r.2.refresh)
    | some _ => none

variable {H} {q q' : EventQueue ε} {t : BitVec 64}

/-! ### The exported bound -/

theorem exported_refresh (q : EventQueue ε) : q.refresh.Exported := by
  cases hx : q.entries.head? with
  | none =>
    have hn : q.refresh.next = ~~~0 := by simp only [next, refresh, hx]
    have hlt : ¬~~~0 < q.stop := by
      intro h
      have h' : (~~~0 : BitVec 64).toNat < q.stop.toNat := h
      have hs := q.stop.isLt
      rw [show (~~~0 : BitVec 64).toNat = 2 ^ 64 - 1 from rfl] at h'
      omega
    rw [Exported, hn, minStop]
    simp only [refresh, hx, if_neg hlt]
  | some e => simp [Exported, refresh, next, hx]

theorem exported_start (q : EventQueue ε) (stop : BitVec 64) : (q.start stop stop).Exported := by
  rw [start_eq_refresh]
  exact exported_refresh _

theorem exported_scheduleNoLock (q : EventQueue ε) (e : Entry ε) :
    (q.scheduleNoLock H e).Exported := exported_refresh _

theorem scheduleAll_concat (q : EventQueue ε) (es : List (Entry ε)) (e : Entry ε) :
    q.scheduleAll H (es ++ [e]) = (q.scheduleAll H es).scheduleNoLock H e := by
  rw [scheduleAll, List.foldl_append]
  rfl

theorem scheduleAll_perm (hq : H.IsHeap q.entries) (es : List (Entry ε)) :
    (q.scheduleAll H es).entries.Perm (q.entries ++ es) := by
  induction es generalizing q with
  | nil => rw [List.append_nil]; exact .refl _
  | cons e es ih =>
    have hp : (q.scheduleNoLock H e).entries.Perm (q.entries ++ [e]) := H.push_perm hq e
    rw [scheduleAll_cons, List.append_cons]
    exact (ih (isHeap_scheduleNoLock hq e)).trans (hp.append_right es)

/-! ### The rounds of `Expire` -/

/-- One round, with the entry it takes off the heap. -/
theorem rounds_cons {es : List (Entry ε)} {calls : List (List (Entry ε))}
    {invoked : List (Entry ε)} (hq : H.IsHeap q.entries)
    (h : rounds H t (es :: calls) q = some (invoked, q')) :
    ∃ (e : Entry ε) (l : List (Entry ε)) (q₁ : EventQueue ε) (invoked' : List (Entry ε)),
      q.entries = e :: l ∧ e.t ≤ t ∧ H.IsHeap q₁.entries ∧ q₁.entries.Perm l ∧
      q₁.stop = q.stop ∧ invoked = e :: invoked' ∧
      rounds H t calls (q₁.scheduleAll H es) = some (invoked', q') := by
  rw [rounds] at h
  split at h
  · next e f q₁ he hpop =>
    obtain ⟨x, l, hl, ht, -, hheap, hp, hs⟩ := popDue_some hq hpop
    obtain ⟨r, hr, hr'⟩ := Option.map_eq_some_iff.mp h
    obtain ⟨rfl, rfl⟩ := Prod.mk.inj hr'
    rw [hl, List.head?_cons, Option.some.injEq] at he
    subst he
    exact ⟨x, l, q₁, r.1, hl, ht, hheap, hp, hs, rfl, hr⟩
  · cases h

theorem isHeap_rounds {calls : List (List (Entry ε))} {invoked : List (Entry ε)}
    (hq : H.IsHeap q.entries) (h : rounds H t calls q = some (invoked, q')) :
    H.IsHeap q'.entries ∧ q'.stop = q.stop := by
  induction calls generalizing q invoked with
  | nil =>
    cases h
    exact ⟨hq, rfl⟩
  | cons es calls ih =>
    obtain ⟨e, l, q₁, invoked', -, -, hheap, -, hs, -, hr⟩ := rounds_cons hq h
    obtain ⟨hq', hs'⟩ := ih (isHeap_scheduleAll hheap es) hr
    exact ⟨hq', hs'.trans ((stop_scheduleAll q₁ es).trans hs)⟩

/-- **No entry is lost and none is made up**: what was in the queue and what the functions
scheduled is what was called and what is left. -/
theorem perm_rounds {calls : List (List (Entry ε))} {invoked : List (Entry ε)}
    (hq : H.IsHeap q.entries) (h : rounds H t calls q = some (invoked, q')) :
    (q.entries ++ calls.flatten).Perm (invoked ++ q'.entries) := by
  induction calls generalizing q invoked with
  | nil =>
    cases h
    rw [List.flatten_nil, List.append_nil]
    exact .refl _
  | cons es calls ih =>
    obtain ⟨e, l, q₁, invoked', hl, -, hheap, hp, -, rfl, hr⟩ := rounds_cons hq h
    have hih := ih (isHeap_scheduleAll hheap es) hr
    have hes := (scheduleAll_perm hheap es).trans (hp.append_right es)
    rw [hl, List.flatten_cons, List.cons_append, List.cons_append, ← List.append_assoc]
    exact ((hes.append_right calls.flatten).symm.trans hih).cons e

theorem le_of_mem_rounds {calls : List (List (Entry ε))} {invoked : List (Entry ε)}
    (hq : H.IsHeap q.entries) (h : rounds H t calls q = some (invoked, q')) :
    ∀ e ∈ invoked, e.t ≤ t := by
  induction calls generalizing q invoked with
  | nil =>
    cases h
    exact fun e he => absurd he List.not_mem_nil
  | cons es calls ih =>
    obtain ⟨e, l, q₁, invoked', -, ht, hheap, -, -, rfl, hr⟩ := rounds_cons hq h
    intro x hx
    rcases List.mem_cons.mp hx with rfl | hx
    · exact ht
    · exact ih (isHeap_scheduleAll hheap es) hr x hx

/-- No function schedules an entry earlier than its own time. -/
def Forward (invoked : List (Entry ε)) (calls : List (List (Entry ε))) : Prop :=
  ∀ p ∈ invoked.zip calls, ∀ e ∈ p.2, p.1.t ≤ e.t

/-- The induction behind `Expired.ordered`: what is called is not before `b` if nothing in the
queue is. -/
theorem ordered_rounds {calls : List (List (Entry ε))} {invoked : List (Entry ε)}
    (hq : H.IsHeap q.entries) (h : rounds H t calls q = some (invoked, q'))
    (hf : Forward invoked calls) {b : BitVec 64} (hb : ∀ e ∈ q.entries, b ≤ e.t) :
    invoked.Pairwise (·.t ≤ ·.t) ∧ ∀ e ∈ invoked, b ≤ e.t := by
  induction calls generalizing q invoked b with
  | nil =>
    cases h
    exact ⟨.nil, fun e he => absurd he List.not_mem_nil⟩
  | cons es calls ih =>
    obtain ⟨e, l, q₁, invoked', hl, -, hheap, hp, -, rfl, hr⟩ := rounds_cons hq h
    have hbe : b ≤ e.t := hb e (by rw [hl]; exact List.mem_cons_self ..)
    have hlater : ∀ x ∈ (q₁.scheduleAll H es).entries, e.t ≤ x.t := by
      intro x hx
      rcases List.mem_append.mp ((scheduleAll_perm hheap es).mem_iff.mp hx) with hx | hx
      · rw [hl] at hq
        exact H.front_le hq x (hp.mem_iff.mp hx)
      · exact hf (e, es) (List.mem_cons_self ..) x hx
    have hf' : Forward invoked' calls := fun p hp => hf p (List.mem_cons_of_mem _ hp)
    obtain ⟨hpair, hle⟩ := ih (isHeap_scheduleAll hheap es) hr hf' hlater
    refine ⟨List.pairwise_cons.mpr ⟨hle, hpair⟩, fun x hx => ?_⟩
    rcases List.mem_cons.mp hx with rfl | hx
    · exact hbe
    · exact BitVec.le_trans hbe (hle x hx)

/-- **The bound is right while `Expire` runs too**, after each entry that a function schedules. -/
theorem exported_rounds {calls : List (List (Entry ε))} {es : List (Entry ε)} {e : Entry ε}
    {invoked : List (Entry ε)} (hq : H.IsHeap q.entries)
    (h : rounds H t (calls ++ [es ++ [e]]) q = some (invoked, q')) : q'.Exported := by
  induction calls generalizing q invoked with
  | nil =>
    obtain ⟨_, _, q₁, _, -, -, -, -, -, -, hr⟩ := rounds_cons hq h
    cases hr
    rw [scheduleAll_concat]
    exact exported_scheduleNoLock _ e
  | cons es₁ calls ih =>
    obtain ⟨_, _, q₁, _, -, -, hheap, -, -, -, hr⟩ := rounds_cons hq h
    exact ih (isHeap_scheduleAll hheap es₁) hr

/-! ### `Expire` as a whole -/

/-- What a call of `Expire(t)` that returns has done to `q`: `invoked` are the entries whose
functions were called, in order, `calls` what each of them scheduled, and `q'` the queue that
is left. -/
structure Expired (q : EventQueue ε) (t : BitVec 64) (calls : List (List (Entry ε)))
    (invoked : List (Entry ε)) (q' : EventQueue ε) : Prop where
  due : invoked.Perm ((q.entries ++ calls.flatten).filter (·.t ≤ t))
  left : q'.entries.Perm ((q.entries ++ calls.flatten).filter (t < ·.t))
  ordered : Forward invoked calls → invoked.Pairwise (·.t ≤ ·.t)
  exported : q'.Exported

/-- **`Expire` calls the entries that are due, each one once and in order.** -/
theorem expired_of_expire {calls : List (List (Entry ε))} {invoked : List (Entry ε)}
    (hq : H.IsHeap q.entries) (h : q.expire H t calls = some (invoked, q')) :
    Expired q t calls invoked q' := by
  obtain ⟨⟨invoked', q₁⟩, hr, h⟩ := Option.bind_eq_some_iff.mp h
  simp only at h
  split at h
  · next hpop =>
    obtain ⟨rfl, rfl⟩ := Prod.mk.inj (Option.some.inj h)
    obtain ⟨hq₁, -⟩ := isHeap_rounds hq hr
    have hdue := le_of_mem_rounds hq hr
    have hleft := popDue_none hq₁ hpop
    have hperm := perm_rounds hq hr
    refine ⟨?_, ?_, fun hf => ?_, exported_refresh q₁⟩
    · have hnil : q₁.entries.filter (·.t ≤ t) = [] :=
        List.filter_eq_nil_iff.mpr fun e he => by simpa using hleft e he
      have hself : invoked'.filter (·.t ≤ t) = invoked' :=
        List.filter_eq_self.mpr fun e he => by simpa using hdue e he
      have hfilter := hperm.filter (·.t ≤ t)
      rw [List.filter_append invoked' q₁.entries, hnil, hself, List.append_nil] at hfilter
      exact hfilter.symm
    · have hnil : invoked'.filter (t < ·.t) = [] :=
        List.filter_eq_nil_iff.mpr fun e he => by simpa using hdue e he
      have hself : q₁.entries.filter (t < ·.t) = q₁.entries :=
        List.filter_eq_self.mpr fun e he => by simpa using hleft e he
      have hfilter := hperm.filter (t < ·.t)
      rw [List.filter_append invoked' q₁.entries, hnil, hself, List.nil_append] at hfilter
      exact hfilter.symm
    · exact (ordered_rounds hq hr hf (b := 0) fun e _ => Nat.zero_le e.t.toNat).1
  · cases h

end EventQueue

/-! ### Every sequence of calls -/

inductive QueueCall (ε : Type)
  | schedule (e : Entry ε)
  | scheduleNoLock (e : Entry ε)
  | expire (t : BitVec 64) (calls : List (List (Entry ε)))

/-- A queue with the entries that were scheduled on it and those whose functions it has called. -/
structure Delivery (ε : Type) where
  queue : EventQueue ε
  scheduled : List (Entry ε)
  invoked : List (Entry ε)

namespace Delivery

variable {ε : Type} (H : StdHeap ε)

/-- After `Start(&cycle, stop)`, with `stop` in `cycle`. -/
def start (q : EventQueue ε) (stop : BitVec 64) : Delivery ε := ⟨q.start stop stop, [], []⟩

def step : QueueCall ε → Delivery ε → Option (Delivery ε)
  | .schedule e, d | .scheduleNoLock e, d =>
    some { d with queue := d.queue.scheduleNoLock H e, scheduled := d.scheduled ++ [e] }
  | .expire t calls, d =>
    (d.queue.expire H t calls).map fun r =>
      ⟨r.2, d.scheduled ++ calls.flatten, d.invoked ++ r.1⟩

/-- What the calls keep: `initial` are the entries that were there at the start. -/
structure Delivers (initial : List (Entry ε)) (stop : BitVec 64) (d : Delivery ε) : Prop where
  isHeap : H.IsHeap d.queue.entries
  stop : d.queue.stop = stop
  exported : d.queue.Exported
  once : (initial ++ d.scheduled).Perm (d.invoked ++ d.queue.entries)

variable {H}

theorem delivers_step {initial : List (Entry ε)} {stop : BitVec 64} (call : QueueCall ε)
    {d d' : Delivery ε} (hd : d.Delivers H initial stop) (h : step H call d = some d') :
    d'.Delivers H initial stop := by
  have hschedule : ∀ e : Entry ε, Delivers H initial stop
      { d with queue := d.queue.scheduleNoLock H e, scheduled := d.scheduled ++ [e] } := by
    intro e
    refine ⟨EventQueue.isHeap_scheduleNoLock hd.isHeap e, hd.stop,
      EventQueue.exported_scheduleNoLock _ e, ?_⟩
    have hp : (d.queue.scheduleNoLock H e).entries.Perm (d.queue.entries ++ [e]) :=
      H.push_perm hd.isHeap e
    rw [← List.append_assoc]
    refine (hd.once.append_right [e]).trans ?_
    rw [List.append_assoc]
    exact hp.symm.append_left d.invoked
  cases call with
  | schedule e =>
    cases h
    exact hschedule e
  | scheduleNoLock e =>
    cases h
    exact hschedule e
  | expire t calls =>
    obtain ⟨⟨invoked, q'⟩, hr, rfl⟩ := Option.map_eq_some_iff.mp h
    have hexp := EventQueue.expired_of_expire hd.isHeap hr
    obtain ⟨⟨invoked', q₁⟩, hr, hr'⟩ := Option.bind_eq_some_iff.mp hr
    obtain ⟨hq₁, hs⟩ := EventQueue.isHeap_rounds hd.isHeap hr
    have hp := EventQueue.perm_rounds hd.isHeap hr
    simp only at hr'
    split at hr'
    · obtain ⟨rfl, rfl⟩ := Prod.mk.inj (Option.some.inj hr')
      refine ⟨hq₁, hs.trans hd.stop, hexp.exported, ?_⟩
      show (initial ++ (d.scheduled ++ calls.flatten)).Perm ((d.invoked ++ invoked') ++ q₁.entries)
      rw [← List.append_assoc, List.append_assoc d.invoked]
      refine (hd.once.append_right calls.flatten).trans ?_
      rw [List.append_assoc]
      exact hp.append_left d.invoked
    · cases hr'

theorem delivers_of_run {q : EventQueue ε} (hq : H.IsHeap q.entries) {stop : BitVec 64}
    {d : Delivery ε} (h : Run (step H) (fun _ _ => True) (start q stop) d) :
    d.Delivers H q.entries stop := by
  refine h.invariant (P := Delivers H q.entries stop) ?_ fun call _ _ hd _ hs =>
    delivers_step call hd hs
  refine ⟨hq, rfl, EventQueue.exported_start q stop, ?_⟩
  show (q.entries ++ []).Perm ([] ++ q.entries)
  rw [List.append_nil, List.nil_append]

/-- **The queue delivers each event once and in order.**  In every state that calls of
`Schedule`, `ScheduleNoLock` and `Expire` lead to after `Start`, each entry that came in was
called once or is still there, and `*cycle` is the minimum of `stop` and `next()`; the bound
is the same after each `ScheduleNoLock` inside an `Expire`; and an `Expire(t)` that returns has
called the entries that were due, each one once, and in the order of their times if no
function schedules an entry earlier than its own. -/
theorem delivery_of_run {q : EventQueue ε} (hq : H.IsHeap q.entries) {stop : BitVec 64}
    {d : Delivery ε} (h : Run (step H) (fun _ _ => True) (start q stop) d) :
    (q.entries ++ d.scheduled).Perm (d.invoked ++ d.queue.entries) ∧
    d.queue.stop = stop ∧ d.queue.Exported ∧
    (∀ t calls es e invoked q', d.queue.rounds H t (calls ++ [es ++ [e]]) = some (invoked, q') →
      q'.stop = stop ∧ q'.Exported) ∧
    ∀ t calls invoked q', d.queue.expire H t calls = some (invoked, q') →
      d.queue.Expired t calls invoked q' := by
  have hd := delivers_of_run hq h
  refine ⟨hd.once, hd.stop, hd.exported, ?_, fun t calls invoked q' hr =>
    EventQueue.expired_of_expire hd.isHeap hr⟩
  intro t calls es e invoked q' hr
  obtain ⟨-, hs⟩ := EventQueue.isHeap_rounds hd.isHeap hr
  exact ⟨hs.trans hd.stop, EventQueue.exported_rounds hd.isHeap hr⟩

/-- An event at 5 that schedules one at its own time and one for later. -/
theorem delivery_of_run_reentrant :
    let q : EventQueue Nat := ⟨[], 0, 0⟩
    let d : Delivery Nat := ⟨⟨[⟨9, 3⟩], 20, 9⟩, [⟨5, 1⟩, ⟨9, 3⟩, ⟨5, 2⟩], [⟨5, 1⟩, ⟨5, 2⟩]⟩
    Run (step (.select Nat)) (fun _ _ => True) (start q 20) d ∧
      (q.entries ++ d.scheduled).Perm (d.invoked ++ d.queue.entries) ∧
      d.queue.stop = 20 ∧ d.queue.Exported := by
  intro q d
  have hq : (StdHeap.select Nat).IsHeap q.entries := fun x hx => by cases hx
  have h : runList (step (.select Nat))
      [.schedule ⟨5, 1⟩, .expire 5 [[⟨9, 3⟩, ⟨5, 2⟩], []]] (start q 20) = some d := rfl
  have hrun : Run (step (.select Nat)) (fun _ _ => True) (start q 20) d :=
    Run.of_runList (fun _ _ _ => trivial) h
  obtain ⟨honce, hstop, hexported, -⟩ := delivery_of_run hq hrun
  exact ⟨hrun, honce, hstop, hexported⟩

end Delivery

end RetroCpu
