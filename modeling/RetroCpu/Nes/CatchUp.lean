import Mathlib.Algebra.Group.Nat.Defs
import RetroCpu.Lib.Run
import RetroCpu.Nes.Settings

/-!
# Catching up

`CatchUpToCpu` is called at the end of an instruction and before each access of a register.
`catchUp_lazy` says that it does not matter how often: calls at several times in order leave
what one call at the last of them leaves.
-/

namespace RetroCpu.Nes.Ppu

/-- The loop of `CatchUpToCpu` is over. -/
def CaughtUp (cpuCycle : BitVec 64) (p : Ppu) : Prop := ¬p.lastPpuCycle < cpuCycle

instance (cpuCycle : BitVec 64) : DecidablePred (CaughtUp cpuCycle) := fun p =>
  inferInstanceAs (Decidable ¬p.lastPpuCycle < cpuCycle)

theorem catchUpToCpu_eq_runUntil (cpuCycle : BitVec 64) (fuel : Nat) (p : Ppu) :
    catchUpToCpu cpuCycle fuel p = runUntil (CaughtUp cpuCycle) clockStep fuel p := by
  induction fuel generalizing p with
  | zero => rfl
  | succ fuel ih =>
    rw [catchUpToCpu, runUntil, ih]
    by_cases h : p.lastPpuCycle < cpuCycle
    · have hdone : ¬CaughtUp cpuCycle p := not_not.mpr h
      rw [if_pos h, if_neg hdone]
      rfl
    · have hdone : CaughtUp cpuCycle p := h
      rw [if_neg h, if_pos hdone]

/-- `CatchUpToCpu` returns with `q`. -/
def CatchesUp (cpuCycle : BitVec 64) (p q : Ppu) : Prop :=
  ∃ fuel, catchUpToCpu cpuCycle fuel p = some q

theorem catchesUp_iff {cpuCycle : BitVec 64} {p q : Ppu} :
    CatchesUp cpuCycle p q ↔ EndsIn (CaughtUp cpuCycle) clockStep p q := by
  unfold CatchesUp EndsIn
  simp only [catchUpToCpu_eq_runUntil]

theorem ppuClockSize_clockStep (p : Ppu) : p.clockStep.ppuClockSize = p.ppuClockSize :=
  congrArg Settings.ppuClockSize (settings_ppuStep p.tick)

theorem lastPpuCycle_clockStep (p : Ppu) :
    p.clockStep.lastPpuCycle = p.lastPpuCycle + p.ppuClockSize.setWidth 64 :=
  congrArg Settings.lastPpuCycle (settings_ppuStep p.tick)

theorem toNat_lastPpuCycle_le (p : Ppu) :
    p.clockStep.lastPpuCycle.toNat ≤ p.lastPpuCycle.toNat + p.ppuClockSize.toNat := by
  rw [lastPpuCycle_clockStep, BitVec.toNat_add, BitVec.toNat_setWidth_of_le (by decide)]
  exact Nat.mod_le _ _

/-! ### One call -/

/-- A call ends no sooner than the CPU's cycle, and no later than a step after it. -/
theorem CatchesUp.bounds {c : BitVec 64} {p q : Ppu} (h : CatchesUp c p q) :
    q.ppuClockSize = p.ppuClockSize ∧ c ≤ q.lastPpuCycle ∧
      (p.lastPpuCycle.toNat < c.toNat + p.ppuClockSize.toNat →
        q.lastPpuCycle.toNat < c.toNat + p.ppuClockSize.toNat) := by
  have hends := catchesUp_iff.mp h
  have hsize := (hends.invariant (P := fun r => r.ppuClockSize = p.ppuClockSize)
    (fun r hr _ => (ppuClockSize_clockStep r).trans hr) rfl).1
  refine ⟨hsize, BitVec.not_lt.mp hends.isDone, fun hlt => ?_⟩
  have hinv := hends.invariant
    (P := fun r => r.ppuClockSize = p.ppuClockSize ∧
      r.lastPpuCycle.toNat < c.toNat + p.ppuClockSize.toNat)
    (fun r hr hdone => by
      have hround := toNat_lastPpuCycle_le r
      have hbehind : r.lastPpuCycle.toNat < c.toNat := not_not.mp hdone
      rw [hr.1] at hround
      exact ⟨(ppuClockSize_clockStep r).trans hr.1, by omega⟩)
    ⟨rfl, hlt⟩
  exact hinv.1.2

/-- A call returns if the clock does not run over before it reaches the CPU's cycle. -/
theorem exists_catchUpToCpu {c : BitVec 64} {p : Ppu} {fuel : Nat} (hsize : 0 < p.ppuClockSize)
    (hc : c.toNat + p.ppuClockSize.toNat ≤ 2 ^ 64) (hfuel : c.toNat < fuel) :
    ∃ q, catchUpToCpu c fuel p = some q := by
  have hpos : 0 < p.ppuClockSize.toNat := hsize
  rw [catchUpToCpu_eq_runUntil]
  refine exists_runUntil (P := fun r => r.ppuClockSize = p.ppuClockSize)
    (fun r => c.toNat - r.lastPpuCycle.toNat) (fun r hr hdone => ?_) rfl
    (Nat.lt_of_le_of_lt (Nat.sub_le _ _) hfuel)
  have hbehind : r.lastPpuCycle.toNat < c.toNat := not_not.mp hdone
  have hround : r.clockStep.lastPpuCycle.toNat = r.lastPpuCycle.toNat + p.ppuClockSize.toNat := by
    rw [lastPpuCycle_clockStep, BitVec.toNat_add, BitVec.toNat_setWidth_of_le (by decide), hr]
    exact Nat.mod_eq_of_lt (by omega)
  refine ⟨(ppuClockSize_clockStep r).trans hr, ?_⟩
  show c.toNat - r.clockStep.lastPpuCycle.toNat < c.toNat - r.lastPpuCycle.toNat
  omega

theorem exists_catchesUp {c : BitVec 64} {p : Ppu} (hsize : 0 < p.ppuClockSize)
    (hc : c.toNat + p.ppuClockSize.toNat ≤ 2 ^ 64) : ∃ q, CatchesUp c p q := by
  obtain ⟨q, hq⟩ := exists_catchUpToCpu hsize hc (Nat.lt_succ_self _)
  exact ⟨q, _, hq⟩

/-! ### Several calls -/

/-- `CatchUpToCpu` at each of the cycles in order. -/
inductive CatchesUps : List (BitVec 64) → Ppu → Ppu → Prop
  | nil (p : Ppu) : CatchesUps [] p p
  | cons {c : BitVec 64} {cs : List (BitVec 64)} {p q r : Ppu} (h : CatchesUp c p q)
      (hs : CatchesUps cs q r) : CatchesUps (c :: cs) p r

theorem CatchesUps.ppuClockSize {cs : List (BitVec 64)} {p q : Ppu} (h : CatchesUps cs p q) :
    q.ppuClockSize = p.ppuClockSize := by
  induction h with
  | nil p => rfl
  | cons h _ ih => exact ih.trans h.bounds.1

theorem catchesUp_catchesUp_iff {c d : BitVec 64} (hcd : c ≤ d) {p r : Ppu} :
    (∃ q, CatchesUp c p q ∧ CatchesUp d q r) ↔ CatchesUp d p r := by
  simp only [catchesUp_iff]
  exact endsIn_endsIn_iff fun q hd hc => hd (by bv_omega)

theorem catchesUps_concat_iff {cs : List (BitVec 64)} {c : BitVec 64}
    (hcs : ∀ d ∈ cs, d ≤ c) {p r : Ppu} : CatchesUps (cs ++ [c]) p r ↔ CatchesUp c p r := by
  induction cs generalizing p with
  | nil =>
    constructor
    · intro h
      cases h with
      | cons h hs =>
        cases hs
        exact h
    · intro h
      exact .cons h (.nil r)
  | cons d cs ih =>
    have hrest : ∀ e ∈ cs, e ≤ c := fun e he => hcs e (List.mem_cons_of_mem d he)
    rw [← catchesUp_catchesUp_iff (hcs d List.mem_cons_self)]
    constructor
    · intro h
      cases h with
      | cons h hs => exact ⟨_, h, (ih hrest).mp hs⟩
    · rintro ⟨q, hq, hr⟩
      exact .cons hq ((ih hrest).mpr hr)

/-- What calls of `CatchUpToCpu` at the cycles of `cs` and then at `c` do. -/
structure CatchUpLazy (cs : List (BitVec 64)) (c : BitVec 64) (p : Ppu) : Prop where
  /-- They leave what one call at `c` leaves. -/
  same : ∀ q, CatchesUps (cs ++ [c]) p q ↔ CatchesUp c p q
  /-- After each call the picture processor is where the CPU is, and within a step of it if it
  was before. -/
  bounds : ∀ ds d es, cs ++ [c] = ds ++ d :: es → ∀ q r, CatchesUps ds p q → CatchesUp d q r →
    d ≤ r.lastPpuCycle ∧
      (q.lastPpuCycle.toNat < d.toNat + p.ppuClockSize.toNat →
        r.lastPpuCycle.toNat < d.toNat + p.ppuClockSize.toNat)
  /-- They return, as long as the clock does not run over. -/
  returns : c.toNat + p.ppuClockSize.toNat ≤ 2 ^ 64 → ∃ q, CatchesUps (cs ++ [c]) p q

/-- **Catching up often or once is the same.** -/
theorem catchUp_lazy (p : Ppu) (cs : List (BitVec 64)) (c : BitVec 64)
    (hsize : 0 < p.ppuClockSize) (hcs : (cs ++ [c]).Pairwise (· ≤ ·)) : CatchUpLazy cs c p := by
  have hle : ∀ d ∈ cs, d ≤ c := fun d hd =>
    (List.pairwise_append.mp hcs).2.2 d hd c (List.mem_singleton_self c)
  refine ⟨fun q => catchesUps_concat_iff hle, ?_, fun hc => ?_⟩
  · intro ds d es _ q r hq hr
    obtain ⟨-, hd, hlt⟩ := hr.bounds
    rw [hq.ppuClockSize] at hlt
    exact ⟨hd, hlt⟩
  · obtain ⟨q, hq⟩ := exists_catchesUp hsize hc
    exact ⟨q, (catchesUps_concat_iff hle).mpr hq⟩

theorem catchUp_lazy_zeroed : CatchUpLazy [5, 8] 21 { zeroed with ppuClockSize := 4 } :=
  catchUp_lazy _ [5, 8] 21 (by decide) (by decide)

end RetroCpu.Nes.Ppu
