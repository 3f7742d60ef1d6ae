import RetroCpu.Wdc65816.BlockMove

/-!
# How many bytes a block move copies

A block move with `n` in A is to copy `n + 1` bytes, and A is `0xFFFF` after the last.
`0xFFFF` in A is therefore both the longest move, of 65536 bytes, and the sign that a move is over,
and `BlockMove` takes it for the sign only.

`CopiesAll` is stated on the accesses of the whole run, so that a move that leaves memory as a
longer one would is not taken for it.
-/

namespace RetroCpu

open WordBytes Machine StateFn Copy

variable {β : Type}

def BusAccess.written : BusAccess → Option (BitVec 24 × Byte)
  | read _ _ => none
  | write addr data => some (addr, data)

variable [Bus β] {R : CpuAddr → Prop} {ram : PlainRam β R}

def PlainRam.traced (ram : PlainRam β R) : PlainRam (Traced β) R where
  ok b := ram.ok b.bus
  peek b := ram.peek b.bus
  invariant :=
    { read := fun h t a => ram.invariant.read h t a
      write := fun h t a v => ram.invariant.write h t a v
      irqTaken := fun h type => ram.invariant.irqTaken h type }
  read_data h := ram.read_data h
  peek_read h := ram.peek_read h
  peek_write h := ram.peek_write h
  peek_irqTaken h := ram.peek_irqTaken h

theorem Machine.AtBlockMove.traced {move : BlockMove} {n : ℕ} {m : Machine β}
    (h : m.AtBlockMove ram move n) : m.traced.AtBlockMove ram.traced move n :=
  ⟨h.ok, h.handler, h.destBank, h.srcBank, h.code, h.src, h.dest, h.apart⟩

/-- The writes are those that have been written down. -/
theorem trace_writes {ws : List (CpuAddr × Byte)} {b b' : Traced β} (h : Bus.Writes ws b b') :
    b'.trace.filterMap BusAccess.written =
      b.trace.filterMap BusAccess.written ++ ws.map fun w => (w.1.setWidth 24, w.2) := by
  induction h with
  | refl b => simp
  | read t a _ ih =>
    rw [ih]
    simp [Bus.readByte, BusAccess.written]
  | write t a v _ ih =>
    rw [ih]
    simp [Bus.writeByte, BusAccess.written]

namespace BlockMove

variable {move : BlockMove} {n : ℕ} {m m' : Machine β}

/-- From `m` to `s` all `A + 1` bytes have been copied, in order, and no other byte has changed,
and A, X, Y and the data bank are as after the last. -/
structure CopiesAll (ram : PlainRam β R) (move : BlockMove) (m : Machine β)
    (s : Machine (Traced β)) : Prop where
  copies : s.bus.trace.filterMap BusAccess.written =
    (move.writes ram m (m.core.a.toNat + 1)).map fun w => (w.1.setWidth 24, w.2)
  memory : ∀ a, R a → ram.peek s.bus.bus a =
    copied (move.src m.core) (move.dest m.core) (ram.peek m.bus) (m.core.a.toNat + 1) a
  others : ∀ a, R a → (∀ i < m.core.a.toNat + 1, a ≠ move.dest m.core i) →
    ram.peek s.bus.bus a = ram.peek m.bus a
  a : s.core.a = 0xFFFF
  x : s.core.x = m.core.x + (m.core.a + 1) * move.increment
  y : s.core.y = m.core.y + (m.core.a + 1) * move.increment
  dataBank : s.core.dataSegmentBase = move.destBank.setWidth 32 <<< 16

/-- A move runs to its end in either setting of `fast_block_moves`. -/
theorem exists_completes (h : m.AtBlockMove ram move (m.core.a + 1).toNat) :
    ∃ s, m.RunsPast s ∧ Completes ram move m s := by
  cases hf : m.core.fastBlockMoves with
  | false => exact completes_slow h rfl hf
  | true =>
    obtain ⟨s, hs, hc⟩ := completes_fast h hf
    refine ⟨s, .last hs ?_, hc⟩
    rw [hc.ip_eq]
    exact addIp_ne _

theorem copiesAll_of_completes {s : Machine (Traced β)}
    (h : m.AtBlockMove ram move (m.core.a.toNat + 1)) (ha : m.core.a ≠ 0xFFFF)
    (hs : Completes ram.traced move m.traced s) : CopiesAll ram move m s := by
  have hn : (m.core.a + 1).toNat = m.core.a.toNat + 1 := by bv_omega
  have hmemory : ∀ a, R a → ram.peek s.bus.bus a =
      copied (move.src m.core) (move.dest m.core) (ram.peek m.bus) (m.core.a.toNat + 1) a := by
    intro a haR
    rw [← hn]
    refine hs.peek h.ok ?_ haR
    intro i hi
    exact h.dest i (hn ▸ hi)
  have hcopies := trace_writes hs.bus
  obtain ⟨num, hcore⟩ := hs.core
  refine ⟨?_, hmemory, ?_, ?_, ?_, ?_, ?_⟩
  · rw [← hn, hcopies]
    rfl
  · intro a haR hne
    rw [hmemory a haR, copied_of_ne hne]
  · rw [hcore]
    rfl
  · rw [hcore]
    rfl
  · rw [hcore]
    rfl
  · rw [hcore]
    exact if_neg ha

/-- With `0xFFFF` in A nothing is copied. -/
theorem not_copiesAll_of_max {s : Machine (Traced β)} (h : m.AtBlockMove ram move n)
    (ha : m.core.a = 0xFFFF) (hrun : m.traced.RunsPast s) : ¬CopiesAll ram move m s := by
  intro hc
  obtain ⟨s', hs', hbus, hcore⟩ := emulateInstruction_done h.traced ha
  have hip : s'.core.ip ≠ m.traced.core.ip := by
    rw [hcore]
    exact addIp_ne _
  obtain rfl : s = s' := RunsPast.unique (.last hs' hip) hrun
  have hnone : s.bus.trace.filterMap BusAccess.written = [] := trace_writes hbus
  have hlen := congrArg List.length (hc.copies.symm.trans hnone)
  rw [List.length_map, writes, copyLog, List.length_map, List.length_range] at hlen
  exact Nat.succ_ne_zero _ hlen

/-- **`MVN` and `MVP` copy all their bytes unless A is `0xFFFF`**: of the longest move they copy
none.  It holds for both settings of `fast_block_moves`. -/
theorem blockMove_copies_iff (ram : PlainRam β R) (move : BlockMove) {m : Machine β}
    (h : m.AtBlockMove ram move (m.core.a.toNat + 1)) :
    (∃ s, m.traced.RunsPast s ∧ move.CopiesAll ram m s) ↔ m.core.a ≠ 0xFFFF := by
  constructor
  · rintro ⟨s, hrun, hs⟩ ha
    exact not_copiesAll_of_max h ha hrun hs
  · intro ha
    have hn : (m.core.a + 1).toNat = m.core.a.toNat + 1 := by bv_omega
    have h' : m.traced.AtBlockMove ram.traced move (m.core.a + 1).toNat := by
      rw [hn]
      exact h.traced
    obtain ⟨s, hrun, hs⟩ := exists_completes (m := m.traced) h'
    exact ⟨s, hrun, copiesAll_of_completes h ha hs⟩

/-- Three bytes. -/
theorem blockMove_copies_iff_three :
    (∃ s, (moving 2).traced.RunsPast s ∧
      CopiesAll SystemBus.simpleRam ⟨1, 2, 1⟩ (moving 2) s) ↔ (moving 2).core.a ≠ 0xFFFF :=
  blockMove_copies_iff SystemBus.simpleRam ⟨1, 2, 1⟩ (atBlockMove_moving 2)

/-- `MVN` with `0xFFFF` in A, in native mode with 16-bit index registers. -/
theorem blockMove_copies_none :
    (moving 0xFFFF).core.modeLongXy = true ∧ (moving 0xFFFF).core.a = 0xFFFF ∧
      (moving 0xFFFF).AtBlockMove SystemBus.simpleRam ⟨1, 2, 1⟩ 65536 ∧
      ¬∃ s, (moving 0xFFFF).traced.RunsPast s ∧
        CopiesAll SystemBus.simpleRam ⟨1, 2, 1⟩ (moving 0xFFFF) s := by
  have h : (moving 0xFFFF).AtBlockMove SystemBus.simpleRam ⟨1, 2, 1⟩ 65536 :=
    atBlockMove_moving 0xFFFF
  have ha : (moving 0xFFFF).core.a = 0xFFFF := rfl
  refine ⟨rfl, ha, h, ?_⟩
  rintro ⟨s, hrun, hs⟩
  exact not_copiesAll_of_max h ha hrun hs

end BlockMove

end RetroCpu
