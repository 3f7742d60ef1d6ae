import RetroCpu.Wdc65816.Bisimulation
import RetroCpu.Wdc65816.StatusRegister

/-!
# A restored machine runs on as the saved one

`Restored` compares two states.  Here the comparison is of all that can happen from them on: a
program, or the owner of the CPU object, can tell the restored machine from the saved one at no
later time.

* `Core.near_of_status`: the flags of two cores with one status register.
* `alike_restored`: what `LoadState` makes of the image of a state.
* `saveData_complete`: **the image holds all of the state that matters**.
-/

namespace RetroCpu

open WordBytes Machine StateFn

/-- No run tells the two machines on one bus apart. -/
abbrev Machine.Same {β : Type} [Bus β] : Machine β → Machine β → Prop :=
  Machine.Alike (Accord.refl β) False

namespace Core

/-- Two words with the same bit in one place. -/
theorem and_eq_of_ne_zero {v w : BitVec 32} (k : ℕ)
    (h : (v &&& BitVec.twoPow 32 k != 0) = (w &&& BitVec.twoPow 32 k != 0)) :
    v &&& BitVec.twoPow 32 k = w &&& BitVec.twoPow 32 k := by
  rw [BitVec.and_twoPow, BitVec.and_twoPow] at h ⊢
  cases hv : v.getLsbD k <;> cases hw : w.getLsbD k <;> simp [hv, hw] at h ⊢
  · exact h.symm
  · exact h

theorem flagAt_of_status {c c' : Core} (h : c.getStatusRegister = c'.getStatusRegister) {i : ℕ}
    (hi : i < 8) : c.flagAt i = c'.flagAt i := by
  rw [← getLsbD_getStatusRegister c hi, ← getLsbD_getStatusRegister c' hi, h]

/-- What the flags show of the words that hold them. -/
structure SameStatus (c c' : Core) : Prop where
  zero : c.zero = 0 ↔ c'.zero = 0
  negative : c.negative &&& (1 : BitVec 32) = c'.negative &&& 1
  interrupts : c.interrupts = c'.interrupts
  carry : c.carry &&& 2 = c'.carry &&& 2
  otherFlags : c.otherFlags &&& 0x48 = c'.otherFlags &&& 0x48

/-- **One status register, one set of flags**, where `interrupts` is 0 or 1. -/
theorem sameStatus_of_status {c c' : Core} (h : c.getStatusRegister = c'.getStatusRegister)
    (hi : c.MaskFits) (hi' : c'.MaskFits) : SameStatus c c' := by
  have hz : (c.zero == 0) = (c'.zero == 0) := flagAt_of_status h (i := 1) (by omega)
  have hn : (c.negative &&& 1 != 0) = (c'.negative &&& 1 != 0) :=
    flagAt_of_status h (i := 7) (by omega)
  have hint : (c.interrupts == 0) = (c'.interrupts == 0) := flagAt_of_status h (i := 2) (by omega)
  have hc : (c.carry &&& 2 != 0) = (c'.carry &&& 2 != 0) := flagAt_of_status h (i := 0) (by omega)
  have hd : c.otherFlags.getLsbD 3 = c'.otherFlags.getLsbD 3 :=
    flagAt_of_status h (i := 3) (by omega)
  have hv : c.otherFlags.getLsbD 6 = c'.otherFlags.getLsbD 6 :=
    flagAt_of_status h (i := 6) (by omega)
  refine ⟨?_, and_eq_of_ne_zero 0 hn, ?_, and_eq_of_ne_zero 1 hc, ?_⟩
  · rw [Bool.eq_iff_iff, beq_iff_eq, beq_iff_eq] at hz
    exact hz
  · rcases hi with hi | hi <;> rcases hi' with hi' | hi' <;> rw [hi, hi'] at hint ⊢ <;>
      exact absurd hint (by decide)
  · have key : ∀ u : BitVec 32, u &&& 0x48 =
        u &&& BitVec.twoPow 32 3 ||| u &&& BitVec.twoPow 32 6 := fun u => by
      rw [← BitVec.and_or_distrib_left]
      rfl
    rw [key, key, BitVec.and_twoPow, BitVec.and_twoPow, BitVec.and_twoPow, BitVec.and_twoPow, hd,
      hv]

end Core

section Restored

variable {β : Type} [Bus β]

/-- The settings of the object, which its owner makes and `SaveData` does not hold. -/
structure Machine.SameSettings (m m' : Machine β) : Prop where
  bus : m'.bus = m.bus
  supportsDecimal : m'.core.supportsDecimal = m.core.supportsDecimal
  fastBlockMoves : m'.core.fastBlockMoves = m.core.fastBlockMoves
  internalCycleTiming : m'.core.internalCycleTiming = m.core.internalCycleTiming

theorem Core.maskFits_load (c : Core) (s : SaveData) :
    ((c.loadMode s).loadRegisters s).MaskFits := by
  have h : ((c.loadMode s).loadRegisters s).interrupts = (c.setFlags s.flags).interrupts := by
    show (c.loadMode s).interrupts = _
    rw [loadMode, onUpdateMode_setStatusRegister]
    exact interrupts_onUpdateMode _
  rw [MaskFits, h]
  exact one_sub_bit s.flags

/-- `LoadState` leaves the settings alone. -/
theorem Core.settings_load (c : Core) (s : SaveData) :
    ((c.loadMode s).loadRegisters s).supportsDecimal = c.supportsDecimal ∧
      ((c.loadMode s).loadRegisters s).fastBlockMoves = c.fastBlockMoves ∧
      ((c.loadMode s).loadRegisters s).internalCycleTiming = c.internalCycleTiming := by
  rw [loadMode, onUpdateMode_setStatusRegister, onUpdateMode_eq]
  exact ⟨rfl, rfl, rfl⟩

/-- What is loaded is coherent. -/
theorem Core.coherent_load (c : Core) (s : SaveData) :
    ((c.loadMode s).loadRegisters s).Coherent :=
  (Core.coherent_onUpdateMode _).of_modes rfl

/-- **`LoadState` of the image of a state makes a machine that no run tells from it.** -/
theorem same_loaded {m m' : Machine β} (hc : m.core.Coherent) (hi : m.core.MaskFits)
    (hcode : Core.IsBank m.core.codeSegmentBase) (hdata : Core.IsBank m.core.dataSegmentBase)
    (hs : m.SameSettings m') : m.Same
      { m' with
        core := (m'.core.loadMode m.saveData).loadRegisters m.saveData, cycle := m.cycle } := by
  have hr := restored_loadRegisters hc m'
  have hst := Core.sameStatus_of_status hr.status.symm hi (Core.maskFits_load _ _)
  obtain ⟨hdec, hfast, htiming⟩ := m'.core.settings_load m.saveData
  refine ⟨⟨?_, hc, Core.coherent_load _ _⟩, ⟨rfl, hs.bus.symm⟩⟩
  exact
    { native := fun _ => hr.modeNative6502.symm
      emulated := fun h => h.elim
      modeEmulation := hr.modeEmulation.symm
      modeLongA := hr.modeLongA.symm
      modeLongXy := hr.modeLongXy.symm
      a := hr.a.symm, x := hr.x.symm, y := hr.y.symm, d := hr.d.symm, sp := hr.sp.symm
      codeSegmentBase := hcode.eq
      dataSegmentBase := hdata.eq
      codeBank := hcode
      dataBank := hdata
      pc := hr.pc.symm
      zero := hst.zero
      negative := hst.negative
      interrupts := hst.interrupts
      carry := hst.carry
      otherFlags := hst.otherFlags
      supportsDecimal := (hdec.trans hs.supportsDecimal).symm
      fastBlockMoves := (hfast.trans hs.fastBlockMoves).symm
      numEmulatedInstructions := hr.numEmulatedInstructions.symm
      internalCycleTiming := (htiming.trans hs.internalCycleTiming).symm }

/-- Whatever happens to machines that no run tells apart, they stay so. -/
theorem same_step {m m' : Machine β} (i : Stimulus β) (h : m.Same m') (hi : i.Fits) :
    Option.Rel Machine.Same (Machine.step i m) (Machine.step i m') :=
  alike_step i h hi (fun hr _ => ⟨rfl, hr.2⟩) (fun _ _ => ⟨h.bus.1, rfl⟩) fun hm => hm.elim

theorem same_run {m m' : Machine β} (h : m.Same m') {is : List (Stimulus β)}
    (his : ∀ i ∈ is, i.Fits) :
    Option.Rel Machine.Same (runList Machine.step is m) (runList Machine.step is m') :=
  runList_rel (fun i _ _ h (hi : i.Fits) => same_step i h hi) is h (admissible_of_forall his m)

/-- **In every state that a CPU reaches the banks are bank bytes.** -/
theorem same_of_run {storage : Core} {bus : β} {o : CpuSettings} {m : Machine β}
    (h : Run Machine.step (fun _ i => i.Fits) (switchedOn storage bus o) m) : m.Same m := by
  have hon : (switchedOn storage bus o).Same (switchedOn storage bus o) :=
    alike_switchedOn storage ⟨rfl, rfl⟩ (fun _ => rfl) rfl rfl rfl
  refine Run.invariant (P := fun m => m.Same m) hon ?_ h
  intro i t u ht hi hu
  have hs := same_step i ht hi
  rw [hu] at hs
  cases hs with
  | some hs => exact hs

theorem maskFits_switchedOn {storage : Core} {bus : β} {o : CpuSettings} {m : Machine β}
    (h : Run Machine.step (fun _ i => i.Fits) (switchedOn storage bus o) m) : m.core.MaskFits :=
  Run.invariant (P := fun m => m.core.MaskFits) (Or.inl (Core.interrupts_onUpdateMode _))
    (fun _ _ _ hm _ hs => maskFits_step hm hs) h

/-- **The image of a state holds all that matters.**  A CPU that has been switched on is in the
state `m`, whatever has happened to it, and another object on the same bus loads the image of `m`:
then the two cannot be told apart by anything that happens to both of them, for any number of
steps. -/
theorem saveData_complete (storage : Core) (bus : β) (o : CpuSettings) {m m' : Machine β}
    (h : Run Machine.step (fun _ i => i.Fits) (switchedOn storage bus o) m)
    (hs : m.SameSettings m') {padding : List Byte} (hp : padding.length = 7) :
    ∃ r, m'.loadState (m.saveData.members ++ padding) = (true, [], r) ∧
      ∀ is : List (Stimulus β), (∀ i ∈ is, i.Fits) →
        Option.Rel Machine.Same (runList Machine.step is m) (runList Machine.step is r) := by
  have hm := same_of_run h
  have hmask := maskFits_switchedOn h
  have hlen : (m.saveData.members ++ padding).length = SaveData.sizeof := by
    rw [List.length_append, SaveData.length_members, hp]
    rfl
  refine ⟨_, ?_, fun is his => same_run (same_loaded hm.core.left hmask hm.core.codeBank
    hm.core.dataBank hs) his⟩
  rw [loadState, if_neg (by omega), SaveData.ofMemory_members, List.drop_eq_nil_of_le (by omega)]
  rfl

end Restored

/-- A CPU that has pushed a byte, and an object that has been a 6502 with other registers. -/
theorem saveData_complete_pushed : ∃ m r,
    (switchedOn default (SystemBus.simple 24 (SystemBus.program [0x48])) {}).emulateInstruction =
      some m ∧
    ({ m with
      core := { m.core with a := 0x1234, sp := 0x17F, zero := 0, modeNative6502 := true }
      cycle := 5 }).loadState (m.saveData.members ++ List.replicate 7 0) = (true, [], r) ∧
    ∀ is : List (Stimulus (SystemBus Unit)), (∀ i ∈ is, i.Fits) →
      Option.Rel Machine.Same (runList Machine.step is m) (runList Machine.step is r) := by
  have hsome : (switchedOn default (SystemBus.simple 24 (SystemBus.program [0x48]))
      {}).emulateInstruction.isSome = true := by decide +kernel
  obtain ⟨m, hm⟩ := Option.isSome_iff_exists.mp hsome
  have hlen : (List.replicate 7 (0 : Byte)).length = 7 := rfl
  have hset : m.SameSettings { m with
      core := { m.core with a := 0x1234, sp := 0x17F, zero := 0, modeNative6502 := true }
      cycle := 5 } := ⟨rfl, rfl, rfl, rfl⟩
  obtain ⟨r, hr⟩ := saveData_complete default _ {} (.tail .emulateInstruction .refl trivial hm)
    hset hlen
  exact ⟨m, r, hm, hr⟩

end RetroCpu
