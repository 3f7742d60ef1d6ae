import Mathlib.Order.Lattice
import Mathlib.Order.Nat
import Mathlib.Tactic.Common

/-!
# Well-nested runs

A stack discipline has operations that come in pairs.  An opening operation stores
something, and the closing one that matches it takes it back.  `Trace` is a run of
such operations with its nesting made explicit, and with links between them for
whatever else may happen.

`Discipline.Sound` asks for one rule about a single pair, in which the run between
the two operations is known only by what every trace keeps.  `Sound.trace` is the
induction over the nesting: every pair of the trace, however deep, takes back what
it stored.
-/

/-- A well-nested run through the states `σ`, with pairs of the kinds `κ`. -/
inductive Trace (κ σ : Type)
  | link (s t : σ)
  /-- The opening step from `s` to `s'`, what happens until `t`, and the closing step to `t'`. -/
  | pair (k : κ) (s s' : σ) (body : Trace κ σ) (t t' : σ)
  | append (x y : Trace κ σ)

/-- The steps of a stack discipline.  A link may depend on how many values are stored. -/
structure Discipline (κ σ : Type) where
  size : κ → σ → ℕ
  link : ℕ → σ → σ → Prop
  opens : κ → σ → σ → Prop
  /-- The step from `t` to `t'` closes the pair opened in `s`. -/
  closes : κ → σ → σ → σ → Prop

variable {κ σ α : Type}

namespace Trace

def first : Trace κ σ → σ
  | link s _ => s
  | pair _ s _ _ _ _ => s
  | append x _ => x.first

def last : Trace κ σ → σ
  | link _ t => t
  | pair _ _ _ _ _ t' => t'
  | append _ y => y.last

/-- The steps of the trace are those of the discipline, from `d` stored values on. -/
def Follows (D : Discipline κ σ) : ℕ → Trace κ σ → Prop
  | d, link s t => D.link d s t
  | d, pair k s s' body t t' =>
    D.opens k s s' ∧ body.first = s' ∧ body.Follows D (d + D.size k s) ∧ body.last = t ∧
      D.closes k s t t'
  | d, append x y => x.Follows D d ∧ x.last = y.first ∧ y.Follows D d

/-- The most values that the trace has stored at a time. -/
def height (D : Discipline κ σ) : Trace κ σ → ℕ
  | link _ _ => 0
  | pair k s _ body _ _ => D.size k s + body.height D
  | append x y => max (x.height D) (y.height D)

/-- Every pair of the trace has the property. -/
def ForPairs (P : κ → σ → σ → σ → Prop) : Trace κ σ → Prop
  | link _ _ => True
  | pair k s _ body t t' => P k s t t' ∧ body.ForPairs P
  | append x y => x.ForPairs P ∧ y.ForPairs P

end Trace

/-- `I vs s` says that `vs` is stored in `s`, and `Frame` is what a trace keeps.  A pair keeps it
too and has the property `Restored`, if what happens in between does. -/
structure Discipline.Sound (D : Discipline κ σ) (cap : ℕ) (I : List α → σ → Prop)
    (Frame : σ → σ → Prop) (Restored : κ → σ → σ → σ → Prop) : Prop where
  trans : ∀ {s t u}, Frame s t → Frame t u → Frame s u
  link : ∀ {vs s t}, I vs s → D.link vs.length s t → I vs t ∧ Frame s t
  pair : ∀ {vs k s s'}, I vs s → D.opens k s s' → vs.length + D.size k s ≤ cap →
    ∃ new : List α, new.length = D.size k s ∧ I (new ++ vs) s' ∧
      ∀ t t', I (new ++ vs) t → Frame s' t → D.closes k s t t' →
        I vs t' ∧ Frame s t' ∧ Restored k s t t'

/-- **Every pair of a well-nested run takes back what it stored.** -/
theorem Discipline.Sound.trace {D : Discipline κ σ} {cap : ℕ} {I : List α → σ → Prop}
    {Frame : σ → σ → Prop} {Restored : κ → σ → σ → σ → Prop} (h : D.Sound cap I Frame Restored)
    (x : Trace κ σ) {vs : List α} (hs : I vs x.first) (hx : x.Follows D vs.length)
    (hcap : vs.length + x.height D ≤ cap) :
    I vs x.last ∧ Frame x.first x.last ∧ x.ForPairs Restored := by
  induction x generalizing vs with
  | link s t =>
    obtain ⟨ht, hf⟩ := h.link hs hx
    exact ⟨ht, hf, trivial⟩
  | pair k s s' body t t' ih =>
    obtain ⟨hopen, rfl, hbody, rfl, hclose⟩ := hx
    change I vs s at hs
    have hcap' : vs.length + (D.size k s + body.height D) ≤ cap := hcap
    obtain ⟨new, hlen, hs', hrest⟩ := h.pair hs hopen (by omega)
    have hlen' : (new ++ vs).length = vs.length + D.size k s := by
      rw [List.length_append, hlen, Nat.add_comm]
    obtain ⟨ht, hf, hp⟩ := ih hs' (hlen' ▸ hbody) (by omega)
    obtain ⟨ht', hf', hr⟩ := hrest _ _ ht hf hclose
    exact ⟨ht', hf', hr, hp⟩
  | append x y ihx ihy =>
    obtain ⟨hx, he, hy⟩ := hx
    change I vs x.first at hs
    have hcap' : vs.length + max (x.height D) (y.height D) ≤ cap := hcap
    obtain ⟨hm, hf, hp⟩ := ihx hs hx (by omega)
    rw [he] at hm hf
    obtain ⟨ht, hf', hp'⟩ := ihy hm hy (by omega)
    exact ⟨ht, h.trans hf hf', hp, hp'⟩

/-! ### Conditions on the closing steps -/

/-- The discipline with a condition on the state in which a pair is closed. -/
def Discipline.restrict (D : Discipline κ σ) (C : κ → σ → Prop) : Discipline κ σ where
  size := D.size
  link := D.link
  opens := D.opens
  closes k s t t' := D.closes k s t t' ∧ C k t

namespace Trace

variable {D : Discipline κ σ} {C : κ → σ → Prop}

theorem Follows.restrict {x : Trace κ σ} {d : ℕ} (h : x.Follows D d)
    (hC : x.ForPairs fun k _ t _ => C k t) : x.Follows (D.restrict C) d := by
  induction x generalizing d with
  | link s t => exact h
  | pair k s s' body t t' ih =>
    obtain ⟨hopen, hfirst, hbody, hlast, hclose⟩ := h
    exact ⟨hopen, hfirst, ih hbody hC.2, hlast, hclose, hC.1⟩
  | append x y ihx ihy => exact ⟨ihx h.1 hC.1, h.2.1, ihy h.2.2 hC.2⟩

theorem height_restrict (x : Trace κ σ) : x.height (D.restrict C) = x.height D := by
  induction x with
  | link s t => rfl
  | pair k s s' body t t' ih => exact congrArg (D.size k s + ·) ih
  | append x y ihx ihy => rw [height, height, ihx, ihy]

end Trace
