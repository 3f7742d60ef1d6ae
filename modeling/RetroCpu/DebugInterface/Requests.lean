import RetroCpu.CycleProcessing
import RetroCpu.Lib.BinaryHeap
import Mathlib.Data.List.Induction
import Mathlib.Tactic.IntervalCases

/-!
# Breakpoint requests

While the CPU runs, `SetBreakpoint` and `ClearBreakpoint` do not touch the map of
breakpoints: they schedule the change as an event of time 0, and `Expire` makes it.
A binary heap does not keep the order of entries of one time, so what is left in the map
depends on the order in which the heap hands the requests back.

That order depends on times only.  `returnOrder` finds it with tickets for the requests,
and `breakpoints_inOrder_iff` says for which requests it does no harm.
-/

namespace RetroCpu

/-! ### The heap -/

/-- The key that `std::greater<uint64_t>` compares. -/
def Entry.key {ε : Type} (e : Entry ε) : ℕ := e.t.toNat

/-- `std::push_heap` and `std::pop_heap` of libstdc++. -/
def StdHeap.libstdcxx (ε : Type) : StdHeap ε where
  IsHeap := BinaryHeap.Heap Entry.key
  pushHeap := BinaryHeap.pushHeap Entry.key
  popHeap := BinaryHeap.popHeap Entry.key
  front_le h _ he := h.head_le he
  push_perm _ _ := BinaryHeap.pushHeap_perm _ _
  isHeap_push h e := h.push e
  pop_perm _ := BinaryHeap.popHeap_perm _ _ _
  isHeap_pop h := h.pop

namespace DebugInterface

variable {φ : Type}

/-- What `SetBreakpoint` and `ClearBreakpoint` bind to schedule it. -/
inductive Request (φ : Type)
  | addBreakpoint (addr : CpuAddr) (fn : φ)
  | removeBreakpoint (addr : CpuAddr)
  deriving DecidableEq

namespace Request

/-- The call of `EmulatedCpu`. -/
def apply (b : Breakpoints φ) : Request φ → Breakpoints φ
  | addBreakpoint addr fn => (b.addBreakpoint addr fn).2
  | removeBreakpoint addr => b.removeBreakpoint addr

def sets (a : CpuAddr) : Request φ → Option φ
  | addBreakpoint addr fn => if addr = a then some fn else none
  | removeBreakpoint _ => none

def addr : Request φ → CpuAddr
  | addBreakpoint addr _ | removeBreakpoint addr => addr

def clears (a : CpuAddr) : Request φ → Bool
  | addBreakpoint _ _ => false
  | removeBreakpoint addr => addr = a

end Request

/-- The members of `DebugInterface` and `EmulatedCpu` that requests are about.  An entry `none`
stands for any other event of the queue. -/
structure Debugged (φ : Type) where
  pause : ℤ
  breakpoints : Breakpoints φ
  events : EventQueue (Option (Request φ))

namespace Debugged

/-- A request is made at once when the CPU is paused. -/
def request (d : Debugged φ) (r : Request φ) : Debugged φ :=
  if d.pause ≠ 0 then { d with breakpoints := r.apply d.breakpoints }
  else { d with events := d.events.scheduleNoLock (.libstdcxx _) ⟨0, some r⟩ }

/-- `SetBreakpoint`, where `fn` is `bp_fn`. -/
def setBreakpoint (d : Debugged φ) (addr : CpuAddr) (fn : φ) : Debugged φ :=
  d.request (.addBreakpoint addr fn)

/-- `ClearBreakpoint`. -/
def clearBreakpoint (d : Debugged φ) (addr : CpuAddr) : Debugged φ :=
  d.request (.removeBreakpoint addr)

/-- One round of the loop in `Expire(t)`, or its end. -/
def expire (d : Debugged φ) (t : BitVec 64) : Debugged φ :=
  match d.events.popDue (.libstdcxx _) t with
  | none => { d with events := d.events.refresh }
  | some (none, events) => { d with events := events }
  | some (some r, events) => { d with events := events, breakpoints := r.apply d.breakpoints }

end Debugged

/-- What happens while the CPU runs. -/
inductive Move (φ : Type)
  | setBreakpoint (addr : CpuAddr) (fn : φ)
  | clearBreakpoint (addr : CpuAddr)
  /-- Another event is scheduled. -/
  | schedule (t : BitVec 64)
  | expire (t : BitVec 64)

namespace Debugged

def move (d : Debugged φ) : Move φ → Debugged φ
  | .setBreakpoint addr fn => d.setBreakpoint addr fn
  | .clearBreakpoint addr => d.clearBreakpoint addr
  | .schedule t => { d with events := d.events.scheduleNoLock (.libstdcxx _) ⟨t, none⟩ }
  | .expire t => d.expire t

def run (d : Debugged φ) (ms : List (Move φ)) : Debugged φ := ms.foldl move d

def Served (d : Debugged φ) : Prop := ∀ e ∈ d.events.entries, e.f = none

end Debugged

def Move.request? : Move φ → Option (Request φ)
  | setBreakpoint addr fn => some (.addBreakpoint addr fn)
  | clearBreakpoint addr => some (.removeBreakpoint addr)
  | schedule _ => none
  | expire _ => none

def requests (ms : List (Move φ)) : List (Request φ) := ms.filterMap Move.request?

/-! ### The order of return -/

/-- What of a move the order depends on. -/
inductive Turn
  | request
  | schedule (t : BitVec 64)
  | expire (t : BitVec 64)
  deriving DecidableEq

def Move.turn : Move φ → Turn
  | setBreakpoint _ _ => .request
  | clearBreakpoint _ => .request
  | schedule t => .schedule t
  | expire t => .expire t

/-- The queue with a ticket in the place of each request. -/
structure Tickets where
  entries : List (Entry (Option ℕ))
  issued : ℕ
  returned : List ℕ

namespace Tickets

def enter (k : Tickets) (e : Entry (Option ℕ)) : List (Entry (Option ℕ)) :=
  BinaryHeap.pushHeap Entry.key (k.entries ++ [e])

def turn (k : Tickets) : Turn → Tickets
  | .request => { k with entries := k.enter ⟨0, some k.issued⟩, issued := k.issued + 1 }
  | .schedule t => { k with entries := k.enter ⟨t, none⟩ }
  | .expire t =>
    match k.entries with
    | [] => k
    | e :: l =>
      if e.t ≤ t then
        { k with
          entries := (BinaryHeap.popHeap Entry.key (e :: l)).dropLast
          returned := k.returned ++ e.f.toList }
      else k

end Tickets

/-- The order in which a queue that holds the times `ts` hands the requests back. -/
def returnOrder (ts : List (BitVec 64)) (turns : List Turn) : List ℕ :=
  (turns.foldl Tickets.turn ⟨ts.map (⟨·, none⟩), 0, []⟩).returned

def inOrder (rs : List (Request φ)) (order : List ℕ) : List (Request φ) := order.filterMap (rs[·]?)

/-! ### The function at an address -/

/-- The first breakpoint set at `a` after the last time that `a` is cleared. -/
def settled (a : CpuAddr) (rs : List (Request φ)) : Option φ :=
  (rs.reverse.takeWhile fun r => !r.clears a).reverse.findSome? (·.sets a)

def Same (b b' : Breakpoints φ) : Prop :=
  b.hasBreakpoints = b'.hasBreakpoints ∧ ∀ a, b.find a = b'.find a

/-- The request that decides what is at `a` does the same in both orders, or none does. -/
def Unaffected (b : Breakpoints φ) (rs rs' : List (Request φ)) (a : CpuAddr) : Prop :=
  (b.find a).isSome ∧ rs.any (·.clears a) = false ∨ settled a rs' = settled a rs

theorem lookup_cons_ite (a addr : CpuAddr) (fn : φ) (l : List (CpuAddr × φ)) :
    ((addr, fn) :: l).lookup a = if addr = a then some fn else l.lookup a := by
  rw [List.lookup_cons]
  by_cases h : addr = a
  · rw [h, if_pos rfl, beq_self_eq_true]
  · rw [if_neg h, beq_false_of_ne (Ne.symm h)]

theorem find_addBreakpoint (b : Breakpoints φ) (addr : CpuAddr) (fn : φ) (a : CpuAddr) :
    (b.addBreakpoint addr fn).2.find a =
      (b.find a).or (if addr = a then some fn else none) := by
  rw [Breakpoints.addBreakpoint]
  cases h : b.find addr with
  | some fn' =>
    have hf : Breakpoints.find ⟨true, b.breakpoints⟩ a = b.find a := rfl
    simp only [hf]
    split
    · next ha =>
      rw [← ha, h]
      rfl
    · rw [Option.or_none]
  | none =>
    have hf : Breakpoints.find ⟨true, (addr, fn) :: b.breakpoints⟩ a =
        if addr = a then some fn else b.find a := lookup_cons_ite a addr fn b.breakpoints
    simp only [hf]
    by_cases ha : addr = a
    · rw [if_pos ha, if_pos ha, ← ha, h]
      rfl
    · rw [if_neg ha, if_neg ha, Option.or_none]

theorem lookup_filter_ne (l : List (CpuAddr × φ)) (addr a : CpuAddr) :
    (l.filter (·.1 ≠ addr)).lookup a = if addr = a then none else l.lookup a := by
  induction l with
  | nil => simp
  | cons p l ih =>
    obtain ⟨addr', fn⟩ := p
    by_cases hp : addr' = addr
    · rw [List.filter_cons_of_neg (by simpa using hp), ih, lookup_cons_ite, hp]
      by_cases ha : addr = a
      · rw [if_pos ha, if_pos ha]
      · rw [if_neg ha, if_neg ha, if_neg ha]
    · rw [List.filter_cons_of_pos (by simpa using hp), lookup_cons_ite, lookup_cons_ite, ih]
      by_cases ha : addr = a
      · rw [if_pos ha, if_pos ha, if_neg fun h => hp (h.trans ha.symm)]
      · rw [if_neg ha, if_neg ha]

theorem find_removeBreakpoint (b : Breakpoints φ) (addr a : CpuAddr) :
    (b.removeBreakpoint addr).find a = if addr = a then none else b.find a :=
  lookup_filter_ne b.breakpoints addr a

/-- **What one request leaves at an address.** -/
theorem find_apply (r : Request φ) (b : Breakpoints φ) (a : CpuAddr) :
    (r.apply b).find a = if r.clears a then none else (b.find a).or (r.sets a) := by
  cases r with
  | addBreakpoint addr fn =>
    simp only [Request.apply, Request.clears, Request.sets, Bool.false_eq_true, if_false]
    exact find_addBreakpoint b addr fn a
  | removeBreakpoint addr =>
    simp only [Request.apply, Request.clears, Request.sets, Option.or_none, decide_eq_true_eq]
    exact find_removeBreakpoint b addr a

theorem settled_concat (a : CpuAddr) (rs : List (Request φ)) (r : Request φ) :
    settled a (rs ++ [r]) =
      if r.clears a then none else (settled a rs).or (r.sets a) := by
  rw [settled, List.reverse_concat]
  cases h : r.clears a with
  | true =>
    rw [List.takeWhile_cons_of_neg (by simp [h])]
    rfl
  | false =>
    rw [List.takeWhile_cons_of_pos (by simp [h]), List.reverse_cons, List.findSome?_append]
    simp [settled]

/-- **What a list of requests leaves at an address.** -/
theorem find_foldl_apply (rs : List (Request φ)) (b : Breakpoints φ) (a : CpuAddr) :
    (rs.foldl (fun b r => r.apply b) b).find a =
      if rs.any (·.clears a) then settled a rs else (b.find a).or (settled a rs) := by
  induction rs using List.reverseRecOn with
  | nil =>
    simp [settled]
  | append_singleton rs r ih =>
    rw [List.foldl_concat, find_apply, settled_concat, ih, List.any_append]
    cases hr : r.clears a with
    | true => simp [hr]
    | false =>
      by_cases h : rs.any (·.clears a)
      · simp [h]
      · simp [h, hr, Option.or_assoc]

/-- **The flag goes with the map** once a request has been made. -/
theorem hasBreakpoints_apply (r : Request φ) (b : Breakpoints φ) :
    (r.apply b).hasBreakpoints = !(r.apply b).breakpoints.isEmpty := by
  cases r with
  | addBreakpoint addr fn =>
    simp only [Request.apply, Breakpoints.addBreakpoint]
    cases h : b.find addr with
    | none => rfl
    | some fn' =>
      cases hb : b.breakpoints with
      | nil =>
        rw [Breakpoints.find, hb] at h
        cases h
      | cons _ _ => rfl
  | removeBreakpoint addr => rfl

theorem isEmpty_iff_find (b : Breakpoints φ) :
    b.breakpoints.isEmpty = true ↔ ∀ a, b.find a = none := by
  constructor
  · intro h a
    rw [Breakpoints.find, List.isEmpty_iff.mp h]
    rfl
  · intro h
    cases hb : b.breakpoints with
    | nil => rfl
    | cons p l =>
      have ha := h p.1
      rw [Breakpoints.find, hb] at ha
      obtain ⟨addr, fn⟩ := p
      rw [lookup_cons_ite, if_pos rfl] at ha
      cases ha

/-- Two maps are the same when they give the same functions, if both were made by requests. -/
theorem same_iff {b b' : Breakpoints φ} (h : b.hasBreakpoints = !b.breakpoints.isEmpty)
    (h' : b'.hasBreakpoints = !b'.breakpoints.isEmpty) :
    Same b b' ↔ ∀ a, b.find a = b'.find a := by
  refine ⟨And.right, fun hf => ⟨?_, hf⟩⟩
  have he : b.breakpoints.isEmpty = b'.breakpoints.isEmpty := by
    rw [Bool.eq_iff_iff, isEmpty_iff_find, isEmpty_iff_find]
    simp only [hf]
  rw [h, h', he]

/-- **What two orders of the same requests leave.** -/
theorem same_foldl_iff {rs rs' : List (Request φ)} (hp : rs'.Perm rs) (b : Breakpoints φ) :
    Same (rs'.foldl (fun b r => r.apply b) b) (rs.foldl (fun b r => r.apply b) b) ↔
      ∀ a, Unaffected b rs rs' a := by
  have hfind : ∀ a, (rs'.foldl (fun b r => r.apply b) b).find a =
      (rs.foldl (fun b r => r.apply b) b).find a ↔ Unaffected b rs rs' a := by
    intro a
    rw [find_foldl_apply, find_foldl_apply, hp.any_eq, Unaffected]
    cases hc : rs.any (·.clears a) with
    | true => simp
    | false =>
      cases hf : b.find a with
      | none => simp
      | some fn => simp
  rcases List.eq_nil_or_concat' rs with rfl | ⟨l, r, rfl⟩
  · obtain rfl := hp.eq_nil
    exact ⟨fun h a => (hfind a).mp rfl, fun _ => ⟨rfl, fun _ => rfl⟩⟩
  · have hne : rs' ≠ [] := by
      intro h
      rw [h] at hp
      simpa using hp.length_eq
    obtain ⟨l', r', rfl⟩ := (List.eq_nil_or_concat' rs').resolve_left hne
    simp only [List.foldl_concat] at hfind ⊢
    rw [same_iff (hasBreakpoints_apply r' _) (hasBreakpoints_apply r _)]
    exact forall_congr' hfind

/-! ### The queue and the tickets -/

/-- The entry that a ticket stands for. -/
def relabel (rs : List (Request φ)) (e : Entry (Option ℕ)) : Entry (Option (Request φ)) :=
  ⟨e.t, e.f.bind (rs[·]?)⟩

structure Tracks (rs : List (Request φ)) (b : Breakpoints φ) (d : Debugged φ) (k : Tickets) :
    Prop where
  pause : d.pause = 0
  entries : d.events.entries = k.entries.map (relabel rs)
  breakpoints : d.breakpoints = (inOrder rs k.returned).foldl (fun b r => r.apply b) b
  tickets : (k.returned ++ k.entries.filterMap (·.f)).Perm (List.range k.issued)

variable {rs : List (Request φ)} {b : Breakpoints φ} {d : Debugged φ} {k : Tickets}

theorem key_relabel (rs : List (Request φ)) (e : Entry (Option ℕ)) :
    (relabel rs e).key = e.key := rfl

theorem Tracks.enter (h : Tracks rs b d k) (e : Entry (Option ℕ)) :
    (d.events.scheduleNoLock (.libstdcxx _) (relabel rs e)).entries =
      (k.enter e).map (relabel rs) := by
  rw [Tickets.enter, ← BinaryHeap.pushHeap_map (relabel rs) (key_relabel rs), List.map_append,
    ← h.entries]
  rfl

theorem Tickets.enter_perm (k : Tickets) (e : Entry (Option ℕ)) :
    ((k.enter e).filterMap (·.f)).Perm (k.entries.filterMap (·.f) ++ e.f.toList) := by
  have hp := (BinaryHeap.pushHeap_perm Entry.key (k.entries ++ [e])).filterMap (·.f)
  rw [List.filterMap_append] at hp
  refine hp.trans (List.Perm.of_eq ?_)
  cases h : e.f with
  | none => rw [List.filterMap_cons_none h]; rfl
  | some i => rw [List.filterMap_cons_some h]; rfl

theorem Tracks.request (h : Tracks rs b d k) {r : Request φ} (hr : rs[k.issued]? = some r) :
    Tracks rs b (d.request r) (k.turn .request) := by
  have he := h.enter ⟨0, some k.issued⟩
  have hl : relabel rs ⟨0, some k.issued⟩ = ⟨0, some r⟩ := by
    simp only [relabel, Option.bind_some, hr]
  rw [hl] at he
  rw [Debugged.request, if_neg (not_not_intro h.pause)]
  refine ⟨h.pause, he, h.breakpoints, ?_⟩
  rw [Tickets.turn, List.range_succ]
  refine ((k.enter_perm ⟨0, some k.issued⟩).append_left k.returned).trans ?_
  rw [← List.append_assoc]
  exact h.tickets.append_right [k.issued]

theorem Tracks.schedule (h : Tracks rs b d k) (t : BitVec 64) :
    Tracks rs b (d.move (.schedule t)) (k.turn (.schedule t)) := by
  refine ⟨h.pause, h.enter ⟨t, none⟩, h.breakpoints, ?_⟩
  have hp := (k.enter_perm ⟨t, none⟩).append_left k.returned
  rw [Option.toList_none, List.append_nil] at hp
  exact hp.trans h.tickets

theorem inOrder_append (rs : List (Request φ)) (l l' : List ℕ) :
    inOrder rs (l ++ l') = inOrder rs l ++ inOrder rs l' := List.filterMap_append

theorem inOrder_toList (rs : List (Request φ)) (o : Option ℕ) :
    inOrder rs o.toList = (o.bind (rs[·]?)).toList := by
  cases o with
  | none => rfl
  | some i =>
    rw [inOrder, Option.toList_some, Option.bind_some]
    cases h : rs[i]? with
    | none => rw [List.filterMap_cons_none h]; rfl
    | some r => rw [List.filterMap_cons_some h]; rfl

theorem Tracks.expire (h : Tracks rs b d k) (t : BitVec 64) :
    Tracks rs b (d.expire t) (k.turn (.expire t)) := by
  cases hk : k.entries with
  | nil =>
    have hd : d.events.entries = [] := by rw [h.entries, hk]; rfl
    have hpop : d.events.popDue (.libstdcxx _) t = none := by rw [EventQueue.popDue, hd]
    rw [Debugged.expire, hpop, Tickets.turn, hk]
    exact ⟨h.pause, h.entries, h.breakpoints, h.tickets⟩
  | cons e l =>
    have hd : d.events.entries = relabel rs e :: l.map (relabel rs) := by rw [h.entries, hk]; rfl
    by_cases ht : e.t ≤ t
    · have hpop : d.events.popDue (.libstdcxx _) t =
          some (e.f.bind (rs[·]?), { d.events with
            entries := ((BinaryHeap.popHeap Entry.key (e :: l)).dropLast).map (relabel rs) }) := by
        have hm := BinaryHeap.popHeap_map (relabel rs) (key_relabel rs) (e :: l)
        rw [List.map_cons] at hm
        rw [EventQueue.popDue, hd]
        simp only [relabel, ht, if_true, List.map_dropLast, ← hm]
        rfl
      have htick : ((k.returned ++ e.f.toList) ++
          (BinaryHeap.popHeap Entry.key (e :: l)).dropLast.filterMap (·.f)).Perm
          (List.range k.issued) := by
        refine List.Perm.trans ?_ h.tickets
        have hp := (BinaryHeap.popHeap_perm Entry.key e l).filterMap (·.f)
        rw [List.append_assoc, hk]
        refine List.Perm.append_left k.returned ((hp.append_left e.f.toList).trans
          (List.Perm.of_eq ?_))
        cases hf : e.f with
        | none => rw [List.filterMap_cons_none hf]; rfl
        | some i => rw [List.filterMap_cons_some hf]; rfl
      have hb : (inOrder rs (k.returned ++ e.f.toList)).foldl (fun b r => r.apply b) b =
          ((e.f.bind (rs[·]?)).toList).foldl (fun b r => r.apply b) d.breakpoints := by
        rw [inOrder_append, List.foldl_append, inOrder_toList, ← h.breakpoints]
      rw [Debugged.expire, hpop, Tickets.turn, hk]
      simp only [if_pos ht]
      cases hf : e.f.bind (rs[·]?) with
      | none =>
        rw [hf] at hb
        exact ⟨h.pause, rfl, hb.symm, htick⟩
      | some r =>
        rw [hf] at hb
        exact ⟨h.pause, rfl, hb.symm, htick⟩
    · have hpop : d.events.popDue (.libstdcxx _) t = none := by
        rw [EventQueue.popDue, hd]
        exact if_neg ht
      rw [Debugged.expire, hpop, Tickets.turn, hk]
      simp only [if_neg ht]
      exact ⟨h.pause, h.entries, h.breakpoints, h.tickets⟩

theorem Tickets.issued_expire (k : Tickets) (t : BitVec 64) :
    (k.turn (.expire t)).issued = k.issued := by
  simp only [turn]
  split
  · rfl
  · split <;> rfl

/-- **The queue and the tickets go together** through a run with the last requests of `rs`. -/
theorem Tracks.run (h : Tracks rs b d k) (ms : List (Move φ)) (before : List (Request φ))
    (hrs : rs = before ++ requests ms) (hk : before.length = k.issued) :
    Tracks rs b (d.run ms) ((ms.map Move.turn).foldl Tickets.turn k) ∧
      ((ms.map Move.turn).foldl Tickets.turn k).issued = rs.length := by
  induction ms generalizing d k before with
  | nil =>
    refine ⟨h, ?_⟩
    rw [hrs, requests, List.filterMap_nil, List.append_nil, hk]
    rfl
  | cons m ms ih =>
    -- a call takes the next request
    have hcall : ∀ r, m.request? = some r →
        rs[k.issued]? = some r ∧ rs = (before ++ [r]) ++ requests ms ∧
          (before ++ [r]).length = k.issued + 1 := by
      intro r hr
      rw [requests, List.filterMap_cons_some hr] at hrs
      refine ⟨?_, ?_, ?_⟩
      · rw [hrs, ← hk, List.getElem?_append_right le_rfl, Nat.sub_self]
        rfl
      · rw [hrs, List.append_assoc]
        rfl
      · rw [List.length_append, hk]
        rfl
    have hother : m.request? = none → rs = before ++ requests ms := by
      intro hr
      rw [hrs, requests, List.filterMap_cons_none hr]
      rfl
    cases m with
    | setBreakpoint addr fn =>
      obtain ⟨hr, hrs', hlen⟩ := hcall _ rfl
      exact ih (h.request hr) _ hrs' hlen
    | clearBreakpoint addr =>
      obtain ⟨hr, hrs', hlen⟩ := hcall _ rfl
      exact ih (h.request hr) _ hrs' hlen
    | schedule t => exact ih (h.schedule t) before (hother rfl) hk
    | expire t =>
      exact ih (h.expire t) before (hother rfl) (hk.trans (k.issued_expire t).symm)

/-- No ticket is out when no request waits. -/
theorem Tracks.returned_perm (h : Tracks rs b d k) (hk : k.issued = rs.length)
    (hd : d.Served) : k.returned.Perm (List.range rs.length) := by
  have hout : k.entries.filterMap (·.f) = [] := by
    refine List.filterMap_eq_nil_iff.mpr fun e he => ?_
    have hf : e.f.bind (rs[·]?) = none := by
      refine hd (relabel rs e) ?_
      rw [h.entries]
      exact List.mem_map_of_mem he
    cases hi : e.f with
    | none => rfl
    | some i =>
      have hmem : i ∈ k.returned ++ k.entries.filterMap (·.f) :=
        List.mem_append_right _ (List.mem_filterMap.mpr ⟨e, he, hi⟩)
      have hlt := List.mem_range.mp (h.tickets.subset hmem)
      rw [hi, Option.bind_some, List.getElem?_eq_none_iff] at hf
      omega
  have ht := h.tickets
  rwa [hout, List.append_nil, hk] at ht

def Debugged.times (d : Debugged φ) : List (BitVec 64) := d.events.entries.map (·.t)

theorem tracks_start (rs : List (Request φ)) (hp : d.pause = 0) (hd : d.Served) :
    Tracks rs d.breakpoints d ⟨d.times.map (⟨·, none⟩), 0, []⟩ where
  pause := hp
  entries := by
    rw [Debugged.times, List.map_map, List.map_map]
    refine (List.map_id _).symm.trans (List.map_congr_left fun e he => ?_)
    have hf := hd e he
    obtain ⟨t, f⟩ := e
    simp only at hf
    rw [hf]
    rfl
  breakpoints := rfl
  tickets := by
    have hf : (d.times.map fun t => (⟨t, none⟩ : Entry (Option ℕ))).filterMap (·.f) = [] := by
      rw [List.filterMap_map]
      exact List.filterMap_eq_nil_iff.mpr fun _ _ => rfl
    rw [hf]
    exact .nil

/-- **What a run leaves** once no request waits: the requests have been made in the order of
return, which has each of them once. -/
theorem run_breakpoints (hp : d.pause = 0) (hd : d.Served) {ms : List (Move φ)}
    (hms : (d.run ms).Served) :
    (d.run ms).breakpoints =
        (inOrder (requests ms) (returnOrder d.times (ms.map Move.turn))).foldl
          (fun b r => r.apply b) d.breakpoints ∧
      (returnOrder d.times (ms.map Move.turn)).Perm (List.range (requests ms).length) := by
  obtain ⟨ht, hi⟩ := (tracks_start (requests ms) hp hd).run ms [] rfl rfl
  exact ⟨ht.breakpoints, ht.returned_perm hi hms⟩

theorem inOrder_range (rs : List (Request φ)) : inOrder rs (List.range rs.length) = rs := by
  induction rs using List.reverseRecOn with
  | nil => rfl
  | append_singleton rs r ih =>
    rw [List.length_append, List.length_singleton, List.range_succ, inOrder_append]
    have hlast : inOrder (rs ++ [r]) [rs.length] = [r] := by
      rw [inOrder, List.filterMap_cons_some (b := r) (by simp)]
      rfl
    have hinit : inOrder (rs ++ [r]) (List.range rs.length) =
        inOrder rs (List.range rs.length) := by
      refine List.filterMap_congr fun i hi => ?_
      exact List.getElem?_append_left (List.mem_range.mp hi)
    rw [hlast, hinit, ih]

theorem inOrder_perm {rs : List (Request φ)} {order : List ℕ}
    (h : order.Perm (List.range rs.length)) : (inOrder rs order).Perm rs := by
  have hid := inOrder_range rs
  rw [inOrder] at hid
  have hrs := h.filterMap (rs[·]?)
  rwa [hid] at hrs

def programOrder (b : Breakpoints φ) (ms : List (Move φ)) : Breakpoints φ :=
  (requests ms).foldl (fun b r => r.apply b) b

/-! ### `Expire` -/

/-- The queue of a debugged CPU: a heap in which requests have time 0. -/
structure Queued (d : Debugged φ) : Prop where
  isHeap : (StdHeap.libstdcxx _).IsHeap d.events.entries
  zero : ∀ e ∈ d.events.entries, e.f ≠ none → e.t = 0

theorem Queued.scheduleNoLock (h : Queued d) {e : Entry (Option (Request φ))}
    (he : e.f ≠ none → e.t = 0) :
    Queued { d with events := d.events.scheduleNoLock (.libstdcxx _) e } where
  isHeap := EventQueue.isHeap_scheduleNoLock h.isHeap e
  zero e' he' := by
    have hmem := ((StdHeap.libstdcxx _).push_perm h.isHeap e).subset he'
    rcases List.mem_append.mp hmem with hmem | hmem
    · exact h.zero e' hmem
    · rw [List.mem_singleton.mp hmem]
      exact he

theorem Queued.expire (h : Queued d) (t : BitVec 64) : Queued (d.expire t) := by
  rw [Debugged.expire]
  cases hpop : d.events.popDue (.libstdcxx _) t with
  | none => exact ⟨h.isHeap, h.zero⟩
  | some p =>
    obtain ⟨f, events⟩ := p
    obtain ⟨x, l, hl, -, -, hheap, hp, -⟩ := EventQueue.popDue_some h.isHeap hpop
    have hzero : ∀ e ∈ events.entries, e.f ≠ none → e.t = 0 := by
      intro e he
      refine h.zero e ?_
      rw [hl]
      exact List.mem_cons_of_mem x (hp.subset he)
    cases f with
    | none => exact ⟨hheap, hzero⟩
    | some r => exact ⟨hheap, hzero⟩

theorem due_expire (h : Queued d) (t : BitVec 64) :
    (d.expire t).events.due t = d.events.due t - 1 := by
  rw [Debugged.expire]
  cases hpop : d.events.popDue (.libstdcxx _) t with
  | none =>
    have hz : d.events.due t = 0 := by
      refine List.countP_eq_zero.mpr fun e he => ?_
      have hlt := EventQueue.popDue_none h.isHeap hpop e he
      simpa using BitVec.not_le.mpr hlt
    have hr : d.events.refresh.due t = d.events.due t := rfl
    simp only [hr, hz]
  | some p =>
    obtain ⟨f, events⟩ := p
    have hdue := EventQueue.due_popDue h.isHeap hpop
    cases f with
    | none => exact (Nat.sub_eq_of_eq_add hdue.symm).symm
    | some r => exact (Nat.sub_eq_of_eq_add hdue.symm).symm

/-- Requests are due at any time. -/
theorem Queued.served (h : Queued d) {t : BitVec 64} (ht : d.events.due t = 0) : d.Served := by
  intro e he
  by_contra hf
  have hle : e.t ≤ t := by
    rw [h.zero e he hf]
    exact Nat.zero_le _
  exact List.countP_eq_zero.mp ht e he (by simpa using hle)

/-- **`Expire` runs the requests**, with one round for each entry that is due. -/
theorem Queued.served_expire (h : Queued d) (t : BitVec 64) :
    (d.run (List.replicate (d.events.due t) (.expire t))).Served := by
  have hrun : ∀ n (d : Debugged φ), Queued d → d.events.due t = n →
      (d.run (List.replicate n (.expire t))).Served := by
    intro n
    induction n with
    | zero => exact fun d hd hn => hd.served hn
    | succ n ih =>
      intro d hd hn
      refine ih (d.expire t) (hd.expire t) ?_
      rw [due_expire hd, hn, Nat.add_sub_cancel]
  exact hrun _ d h rfl

theorem Queued.move (h : Queued d) (m : Move φ) : Queued (d.move m) := by
  have hrequest (r : Request φ) : Queued (d.request r) := by
    rw [Debugged.request]
    split
    · exact ⟨h.isHeap, h.zero⟩
    · exact h.scheduleNoLock fun _ => rfl
  cases m with
  | setBreakpoint addr fn => exact hrequest _
  | clearBreakpoint addr => exact hrequest _
  | schedule t => exact h.scheduleNoLock fun hne => absurd rfl hne
  | expire t => exact h.expire t

theorem Queued.run (h : Queued d) (ms : List (Move φ)) : Queued (d.run ms) := by
  induction ms generalizing d with
  | nil => exact h
  | cons m ms ih => exact ih (h.move m)

/-- **Whatever has been called, `Expire` runs all requests in the end.** -/
theorem Queued.exists_served (h : Queued d) (ms : List (Move φ)) (t : BitVec 64) :
    ∃ n, (d.run (ms ++ List.replicate n (.expire t))).Served := by
  refine ⟨(d.run ms).events.due t, ?_⟩
  rw [Debugged.run, List.foldl_append]
  exact (h.run ms).served_expire t

/-- **Requests of a running CPU.**  When `Expire` has run them, the breakpoints are those of the
calls in program order exactly when at each address the request that decides is the same in
the order of return. -/
theorem breakpoints_inOrder_iff (d : Debugged φ) (ms : List (Move φ)) (hp : d.pause = 0)
    (hd : d.Served) (hms : (d.run ms).Served) :
    Same (d.run ms).breakpoints (programOrder d.breakpoints ms) ↔
      ∀ a, Unaffected d.breakpoints (requests ms)
        (inOrder (requests ms) (returnOrder d.times (ms.map Move.turn))) a := by
  obtain ⟨hb, hperm⟩ := run_breakpoints hp hd hms
  rw [hb, programOrder]
  exact same_foldl_iff (inOrder_perm hperm) d.breakpoints

/-- A CPU without breakpoints that runs with an empty queue. -/
def Debugged.running : Debugged φ := ⟨0, .empty, ⟨[], 0, 0⟩⟩

/-- A breakpoint is set and cleared again. -/
theorem breakpoints_inOrder_running :
    Same (Debugged.running.run
        [.setBreakpoint 1 (), .clearBreakpoint 1, .expire 0, .expire 0]).breakpoints
      (programOrder Debugged.running.breakpoints
        [.setBreakpoint 1 (), .clearBreakpoint 1, .expire 0, .expire 0]) :=
  (breakpoints_inOrder_iff Debugged.running _ rfl (by unfold Debugged.Served; decide)
    (by unfold Debugged.Served; decide)).mpr fun _ => .inr rfl

/-! ### Requests for different addresses -/

def Uniform (rs : List (Request φ)) : Prop :=
  ∀ r ∈ rs, ∀ r' ∈ rs, r.addr = r'.addr → r = r'

/-- What decides at an address are the requests for it. -/
theorem settled_filter (a : CpuAddr) (rs : List (Request φ)) :
    settled a (rs.filter fun r => r.addr = a) = settled a rs := by
  induction rs using List.reverseRecOn with
  | nil => rfl
  | append_singleton rs r ih =>
    rw [List.filter_append, settled_concat, ← ih]
    by_cases hr : r.addr = a
    · rw [List.filter_cons_of_pos (by simpa using hr), List.filter_nil, settled_concat]
    · rw [List.filter_cons_of_neg (by simpa using hr), List.filter_nil, List.append_nil]
      have hother : r.clears a = false ∧ r.sets a = none := by
        cases r with
        | addBreakpoint addr fn => exact ⟨rfl, if_neg hr⟩
        | removeBreakpoint addr => exact ⟨decide_eq_false hr, rfl⟩
      rw [hother.1, hother.2, Option.or_none]
      rfl

/-- Requests for one address that are all the same have no order. -/
theorem settled_perm {rs rs' : List (Request φ)} (hp : rs'.Perm rs) (hu : Uniform rs)
    (a : CpuAddr) : settled a rs' = settled a rs := by
  have hfilter := hp.filter fun r => decide (r.addr = a)
  rw [← settled_filter, ← settled_filter a rs]
  congr 1
  cases hl : rs.filter fun r => decide (r.addr = a) with
  | nil =>
    rw [hl] at hfilter
    exact hfilter.eq_nil
  | cons r l =>
    have hr := List.mem_filter.mp (hl ▸ List.mem_cons_self : r ∈ rs.filter _)
    have hall : ∀ r' ∈ rs.filter (fun r => decide (r.addr = a)), r' = r := by
      intro r' hr'
      obtain ⟨hmem, ha⟩ := List.mem_filter.mp hr'
      exact hu r' hmem r hr.1 ((of_decide_eq_true ha).trans (of_decide_eq_true hr.2).symm)
    rw [← hl, List.eq_replicate_of_mem hall,
      List.eq_replicate_of_mem fun r' hr' => hall r' (hfilter.subset hr'), hfilter.length_eq]

/-- **Any number of requests takes effect in program order** if no two different ones are for one
address. -/
theorem same_of_uniform (hp : d.pause = 0) (hd : d.Served) {ms : List (Move φ)}
    (hms : (d.run ms).Served) (hu : Uniform (requests ms)) :
    Same (d.run ms).breakpoints (programOrder d.breakpoints ms) := by
  obtain ⟨hb, hperm⟩ := run_breakpoints hp hd hms
  have hrs := inOrder_perm hperm
  rw [hb, programOrder]
  exact (same_foldl_iff hrs d.breakpoints).mpr fun a => .inr (settled_perm hrs hu a)

/-! ### Bursts -/

theorem returned_expire_zero (i : ℕ) (l : List (Entry (Option ℕ))) (issued : ℕ)
    (returned : List ℕ) (t : BitVec 64) (n : ℕ) :
    (List.replicate (n + 1) (Turn.expire t)).foldl Tickets.turn
        ⟨⟨0, some i⟩ :: l, issued, returned⟩ =
      (List.replicate n (Turn.expire t)).foldl Tickets.turn
        ⟨(BinaryHeap.popHeap Entry.key (⟨0, some i⟩ :: l)).dropLast, issued, returned ++ [i]⟩ := by
  have h : (0 : BitVec 64) ≤ t := Nat.zero_le _
  rw [List.replicate_succ, List.foldl_cons, Tickets.turn.eq_def]
  simp only [h, if_true]
  rfl

/-- **Up to three requests** that find the queue empty are made in program order. -/
theorem returnOrder_of_le_three {n : ℕ} (hn : n ≤ 3) (t : BitVec 64) :
    returnOrder [] (List.replicate n .request ++ List.replicate n (.expire t)) = List.range n := by
  have hk : (List.replicate n Turn.request).foldl Tickets.turn ⟨[], 0, []⟩ =
      ⟨(List.range n).map (⟨0, some ·⟩), n, []⟩ := by
    interval_cases n <;> rfl
  -- the last entry takes the place of the first
  have h3 : (BinaryHeap.popHeap Entry.key [⟨0, some 0⟩, ⟨0, some 1⟩, ⟨0, some 2⟩]).dropLast =
      ([⟨0, some 1⟩, ⟨0, some 2⟩] : List (Entry (Option ℕ))) := by decide
  have h2 : ∀ i j, (BinaryHeap.popHeap Entry.key [⟨0, some i⟩, ⟨0, some j⟩]).dropLast =
      ([⟨0, some j⟩] : List (Entry (Option ℕ))) := fun _ _ =>
    List.perm_singleton.mp (BinaryHeap.popHeap_perm _ _ _)
  rw [returnOrder, List.foldl_append, List.map_nil, hk]
  interval_cases n
  · rfl
  · exact congrArg Tickets.returned (returned_expire_zero 0 [] 1 [] t 0)
  · have h := returned_expire_zero 0 [⟨0, some 1⟩] 2 [] t 1
    rw [h2] at h
    exact congrArg Tickets.returned (h.trans (returned_expire_zero 1 [] 2 [0] t 0))
  · have h := returned_expire_zero 0 [⟨0, some 1⟩, ⟨0, some 2⟩] 3 [] t 2
    have h' := returned_expire_zero 1 [⟨0, some 2⟩] 3 [0] t 1
    rw [h3] at h
    rw [h2] at h'
    exact congrArg Tickets.returned
      (h.trans (h'.trans (returned_expire_zero 2 [] 3 [0, 1] t 0)))

theorem length_requests (ms : List (Move φ)) :
    (requests ms).length = (ms.map Move.turn).count .request := by
  induction ms with
  | nil => rfl
  | cons m ms ih =>
    rw [requests, List.map_cons, List.count_cons, ← ih]
    cases m <;> rfl

theorem same_of_le_three (hp : d.pause = 0) (hd : d.events.entries = []) {n : ℕ} (hn : n ≤ 3)
    {t : BitVec 64} {ms : List (Move φ)}
    (hms : ms.map Move.turn = List.replicate n .request ++ List.replicate n (.expire t)) :
    (d.run ms).breakpoints = programOrder d.breakpoints ms := by
  have hserved : d.Served := by
    intro e he
    rw [hd] at he
    cases he
  obtain ⟨ht, -⟩ := (tracks_start (requests ms) hp hserved).run ms [] rfl rfl
  have horder : returnOrder d.times (ms.map Move.turn) = List.range (requests ms).length := by
    have hlen : (requests ms).length = n := by
      rw [length_requests, hms]
      simp [List.count_replicate]
    have htimes : d.times = [] := by rw [Debugged.times, hd]; rfl
    rw [hlen, htimes, hms]
    exact returnOrder_of_le_three hn t
  rw [programOrder, ht.breakpoints, ← returnOrder, horder, inOrder_range]

/-- Four requests come before `Expire`. -/
def burst : List (Move Unit) :=
  [.setBreakpoint 1 (), .setBreakpoint 2 (), .clearBreakpoint 2, .setBreakpoint 3 (),
    .expire 0, .expire 0, .expire 0, .expire 0]

/-- The second breakpoint is set after it has been cleared. -/
theorem burst_not_inOrder : (Debugged.running.run burst).Served ∧
    ¬Same (Debugged.running.run burst).breakpoints
      (programOrder Debugged.running.breakpoints burst) := by
  have hfind : (Debugged.running.run burst).breakpoints.find 2 ≠
      (programOrder Debugged.running.breakpoints burst).find 2 := by decide
  refine ⟨by unfold Debugged.Served; decide, fun h => hfind (h.2 2)⟩

end DebugInterface

end RetroCpu
