import RetroCpu.Wdc65816.ExecCourse

/-!
# Every instruction stays within its footprint and its budget

`Spends f n` relates two states of the machine when the CPU has changed within
the footprint `f`, the clock has advanced by at most `n` charges, and everything
that bus accesses keep has been kept.  A charge is at most `2 ^ 33` cycles: the
price of an access and the time a device holds the CPU are 32-bit numbers each.

A course spends what its parts spend, so `exec_spends` follows from the course of an
instruction.
-/

namespace RetroCpu

open WordBytes Machine StateFn

variable {β : Type} [Bus β]

/-- The clock has been charged at most `n` times, and what bus accesses keep has been kept. -/
structure Advances (n : ℕ) (m m' : Machine β) : Prop where
  clock : ∃ k ≤ n * 2 ^ 33, m'.cycle = m.cycle + BitVec.ofNat 64 k
  cycleStop : m'.cycleStop = m.cycleStop
  bus : ∀ P : β → Prop, Bus.Invariant P → P m.bus → P m'.bus

/-- The CPU has changed within `f` and has been charged at most `n` times. -/
structure Spends (f : Footprint) (n : ℕ) (m m' : Machine β) : Prop extends Advances n m m' where
  core : m.core.Coherent → f.Rel m.core m'.core

/-- A change of the CPU alone costs nothing. -/
theorem Advances.core (m : Machine β) (c : Core) : Advances 0 m { m with core := c } where
  clock := ⟨0, Nat.zero_le _, (BitVec.add_zero _).symm⟩
  cycleStop := rfl
  bus := fun _ _ h => h

theorem Advances.trans {a b : ℕ} {m m' m'' : Machine β} (h : Advances a m m')
    (h' : Advances b m' m'') : Advances (a + b) m m'' where
  clock := by
    obtain ⟨j, hj, ej⟩ := h.clock
    obtain ⟨k, hk, ek⟩ := h'.clock
    refine ⟨j + k, by rw [Nat.add_mul]; omega, ?_⟩
    rw [ek, ej, BitVec.add_assoc, ← BitVec.ofNat_add]
  cycleStop := h'.cycleStop.trans h.cycleStop
  bus := fun P hP hb => h'.bus P hP (h.bus P hP hb)

theorem Advances.mono {a b : ℕ} {m m' : Machine β} (hab : a ≤ b) (h : Advances a m m') :
    Advances b m m' where
  clock := by
    obtain ⟨k, hk, ek⟩ := h.clock
    exact ⟨k, hk.trans (Nat.mul_le_mul_right _ hab), ek⟩
  cycleStop := h.cycleStop
  bus := h.bus

variable {f : Footprint}

theorem graded_spends : Graded (Spends (β := β) f) where
  refl m := { Advances.core m m.core with core := Footprint.rel_refl }
  trans h h' :=
    { h.toAdvances.trans h'.toAdvances with
      core := fun hc => (h.core hc).trans (h'.core (h.core hc).coherent) }
  mono hab h := { h.toAdvances.mono hab with core := h.core }

/-! ### What the parts of a course spend -/

theorem spends_readU8 (addr : CpuAddr) : Within (Spends (β := β) f) 1 (readU8 addr) := by
  intro m
  have hn := (Bus.readByte m.bus m.cycle addr).cycles.isLt
  exact
    { core := Footprint.rel_refl
      clock := ⟨(Bus.readByte m.bus m.cycle addr).cycles.toNat, by omega,
        by rw [BitVec.ofNat_toNat]; rfl⟩
      cycleStop := rfl
      bus := fun _ hP h => hP.read h _ _ }

theorem spends_writeU8 (addr : CpuAddr) (v : Byte) :
    Within (Spends (β := β) f) 1 (writeU8 addr v) := by
  intro m
  have hs := (Bus.writeByte m.bus m.cycle addr v).stall.isLt
  have hn := (Bus.writeByte m.bus m.cycle addr v).cycles.isLt
  refine
    { core := Footprint.rel_refl
      clock := ⟨(Bus.writeByte m.bus m.cycle addr v).stall.toNat +
        (Bus.writeByte m.bus m.cycle addr v).cycles.toNat, by omega, ?_⟩
      cycleStop := rfl
      bus := fun _ hP h => hP.write h _ _ _ }
  rw [BitVec.ofNat_add, BitVec.ofNat_toNat, BitVec.ofNat_toNat, ← BitVec.add_assoc]
  rfl

/-- Internal cycles are one charge, however many they are. -/
theorem spends_internalOp (n : BitVec 32) : Within (Spends (β := β) f) 1 (internalOp n) := by
  intro m
  have hn := (m.core.internalCycleTiming * n).isLt
  exact
    { core := Footprint.rel_refl
      clock := ⟨(m.core.internalCycleTiming * n).toNat, by omega,
        by rw [BitVec.ofNat_toNat]; rfl⟩
      cycleStop := rfl
      bus := fun _ _ h => h }

theorem spends_internal (m : Machine β) (n : BitVec 32) :
    Spends f n.toNat m (internalOp n m).2 := by
  by_cases hn : n.toNat = 0
  · have hzero : n = 0 := BitVec.eq_of_toNat_eq hn
    rw [hn, hzero]
    exact
      { core := Footprint.rel_refl
        clock := ⟨0, Nat.zero_le _, by
          have htiming : m.core.internalCycleTiming * 0 = 0 := BitVec.mul_zero
          show m.cycle + (m.core.internalCycleTiming * 0).setWidth 64 = _
          rw [htiming]
          rfl⟩
        cycleStop := rfl
        bus := fun _ _ h => h }
  · exact graded_spends.mono (Nat.one_le_iff_ne_zero.mpr hn) (spends_internalOp n m)

theorem spends_irqTaken (m : Machine β) (type : BitVec 32) :
    Spends f 0 m { m with bus := Bus.irqTaken m.bus type } where
  core := Footprint.rel_refl
  clock := ⟨0, Nat.zero_le _, (BitVec.add_zero _).symm⟩
  cycleStop := rfl
  bus := fun _ hP h => hP.irqTaken h _

/-- **What a course spends.** -/
theorem Course.spends {irq : Prop} {n : ℕ} {m m' : Machine β}
    (h : Course (f.allowance irq) n m m') : Spends f n m m' :=
  h.related graded_spends
    (fun m _ hc => { Advances.core m _ with core := fun hm => Core.Change.rel hc hm })
    spends_internal (fun m addr => spends_readU8 addr m) (fun _ m addr v => spends_writeU8 addr v m)
    fun _ => spends_irqTaken

theorem spends_of_course {α : Type} {n : ℕ} {x : Exec β α}
    (h : Within (Course (f.allowance True)) n x) : Within (Spends f) n x :=
  fun m => (h m).spends

/-! ### Instructions -/

namespace Op

def budget : ℕ := 2 ^ 18

theorem ticks_le (op : Op) : op.ticks ≤ budget ∨ ∃ n bytes, op = .nop n bytes := by
  have hshort : 24 ≤ budget := by decide
  have hmove : 2 ^ 17 + 2 ≤ budget := by decide
  cases op with
  | nop n bytes => exact .inr ⟨n, bytes, rfl⟩
  | mvn | mvp => exact .inl hmove
  | _ => exact .inl hshort

/-- **Every instruction but `XCE` stays within its footprint and its budget.** -/
theorem exec_spends (op : Op) (hop : op ≠ .xce) :
    Within (Spends (β := β) op.footprint) budget op.exec := by
  rcases op.ticks_le with h | ⟨n, bytes, rfl⟩
  · exact graded_spends.le (spends_of_course (op.course_exec hop)) h
  · exact graded_spends.le (graded_spends.bind (spends_internalOp _) fun _ =>
      spends_of_course (course_addIp _)) (by decide)

end Op

end RetroCpu
