import RetroCpu.Wdc65816.Coherence

/-!
# 8-bit index registers

While `mode_long_xy` is clear, X and Y should have no high byte: the addressing
modes add the whole registers.  Every instruction of every opcode row keeps that,
with the exception of `MVN` and `MVP`: a block move steps X and Y as 16-bit words
in every mode, and a move that carries out of the low byte leaves a high byte
behind.  `indexFits_of_run` has that as its condition and `indexFits_fails` is a
program that breaks it.
-/

namespace RetroCpu

open WordBytes Machine StateFn

variable {β : Type}

/-! ### What a block move does to X and Y -/

def Core.blockMoveCount (c : Core) : Word :=
  if c.a = 0xFFFF then 0 else if c.fastBlockMoves then c.a + 1 else 1

def Op.blockMoveIncrement : Op → Option Word
  | mvn => some 1
  | mvp => some 0xFFFF
  | _ => none

/-- X and Y have made `n` steps. -/
def Core.Stepped (n increment : Word) (c c' : Core) : Prop :=
  c'.x = c.x + n * increment ∧ c'.y = c.y + n * increment

/-- One step and those of the other bytes are the steps of all. -/
theorem add_step (v a increment : Word) :
    v + increment + (a - 1 + 1) * increment = v + (a + 1) * increment := by
  grind

variable [Bus β]

/-! The branches of `BlockMove`. -/

section Branches

variable {srcBank destBank : BitVec 32} {increment : Word} {m : Machine β}

theorem blockMove_done (ha : m.core.a = 0xFFFF) :
    blockMove srcBank destBank increment m = (true, m) := by
  rw [blockMove, bind_apply, getCore, get_apply, if_pos ha, pure_apply]

theorem blockMove_fast (ha : m.core.a ≠ 0xFFFF) (hf : m.core.fastBlockMoves = true) :
    blockMove srcBank destBank increment m =
      (true, (fastBlockMove srcBank destBank increment m).2) := by
  rw [blockMove, bind_apply, getCore, get_apply, if_neg ha, bind_apply, getCore, get_apply, hf,
    if_pos rfl]
  rfl

theorem blockMove_slow (ha : m.core.a ≠ 0xFFFF) (hf : m.core.fastBlockMoves = false) :
    blockMove srcBank destBank increment m =
      (false, (update (fun c => { c with dataSegmentBase := destBank <<< 16 })
        (blockMoveByte (srcBank <<< 16) (destBank <<< 16) increment m).2).2) := by
  rw [blockMove, bind_apply, getCore, get_apply, if_neg ha, bind_apply, getCore, get_apply, hf,
    if_neg Bool.false_ne_true]
  rfl

end Branches

theorem stepped_fastBlockMoveLoop (srcBank destBank : CpuAddr) (increment : Word) (fuel : ℕ)
    (m : Machine β) (h : (m.core.a + 1).toNat ≤ fuel) :
    Core.Stepped (m.core.a + 1) increment m.core
      (fastBlockMoveLoop srcBank destBank increment fuel m).2.core := by
  induction fuel generalizing m with
  | zero =>
    have h0 : m.core.a + 1 = 0 := BitVec.eq_of_toNat_eq (Nat.le_zero.mp h)
    rw [h0]
    simp [Core.Stepped, fastBlockMoveLoop]
  | succ fuel ih =>
    by_cases ha : m.core.a = 0xFFFF
    · simp [Core.Stepped, fastBlockMoveLoop, getCore, ha]
    · have hne : (m.core.a != 0xFFFF) = true := by simpa using ha
      simp only [fastBlockMoveLoop, getCore, bind_apply, get_apply, hne, when_true]
      have hn : (m.core.a - 1 + 1).toNat ≤ fuel := by bv_omega
      obtain ⟨hx, hy⟩ := ih (blockMoveByte srcBank destBank increment m).2 hn
      exact ⟨hx.trans (add_step _ _ _), hy.trans (add_step _ _ _)⟩

theorem stepped_fastBlockMove (srcBank destBank : BitVec 32) (increment : Word) (m : Machine β) :
    Core.Stepped (m.core.a + 1) increment m.core
      (fastBlockMove srcBank destBank increment m).2.core := by
  have h := stepped_fastBlockMoveLoop (srcBank <<< 16) (destBank <<< 16) increment
    (m.core.a.toNat + 1) m (by bv_omega)
  simp only [fastBlockMove, getCore, bind_apply, get_apply, update, modify_apply]
  generalize fastBlockMoveLoop (srcBank <<< 16) (destBank <<< 16) increment
    (m.core.a.toNat + 1) m = q at h ⊢
  exact ⟨h.1, h.2⟩

theorem stepped_blockMove (srcBank destBank : BitVec 32) (increment : Word) (m : Machine β) :
    Core.Stepped m.core.blockMoveCount increment m.core
      (blockMove srcBank destBank increment m).2.core := by
  rw [Core.blockMoveCount]
  by_cases ha : m.core.a = 0xFFFF
  · rw [if_pos ha, blockMove_done ha]
    simp [Core.Stepped]
  · rw [if_neg ha]
    cases hf : m.core.fastBlockMoves with
    | true =>
      rw [if_pos rfl, blockMove_fast ha hf]
      exact stepped_fastBlockMove srcBank destBank increment m
    | false =>
      rw [if_neg Bool.false_ne_true, blockMove_slow ha hf]
      have h1 : ∀ v : Word, v + increment = v + 1 * increment := by
        intro v
        grind
      exact ⟨h1 _, h1 _⟩

/-- A block move instruction steps X and Y as the move does. -/
theorem stepped_execBlockMove (increment : Word) (m : Machine β) :
    Core.Stepped m.core.blockMoveCount increment m.core
      (Op.execBlockMove increment m).2.core := by
  simp only [Op.execBlockMove, bind_apply, getCore, get_apply]
  generalize hr : readPBR .u16 (m.core.ip + 1) m = r
  have hcore : r.2.core = m.core := by
    rw [← hr]
    rfl
  have h := stepped_blockMove ((hi r.1).setWidth 32) ((lo r.1).setWidth 32) increment r.2
  rw [hcore] at h
  generalize blockMove ((hi r.1).setWidth 32) ((lo r.1).setWidth 32) increment r.2 = q at h ⊢
  cases q.1
  · exact h
  · exact h

theorem perform_blockMove {op : Op} {increment : Word}
    (hop : op.blockMoveIncrement = some increment) (m : Machine β) :
    ∃ num, (perform op m).2.core =
      { (Op.execBlockMove increment m).2.core with numEmulatedInstructions := num } := by
  cases op with
  | mvn =>
    cases hop
    exact ⟨_, rfl⟩
  | mvp =>
    cases hop
    exact ⟨_, rfl⟩
  | _ => exact absurd hop nofun

theorem stepped_perform {op : Op} {increment : Word} (hop : op.blockMoveIncrement = some increment)
    (m : Machine β) :
    Core.Stepped m.core.blockMoveCount increment m.core (perform op (fetch m).2).2.core := by
  obtain ⟨num, h⟩ := perform_blockMove hop (fetch m).2
  rw [h]
  exact stepped_execBlockMove increment (fetch m).2

/-! ### The invariant -/

/-- If the next instruction is a block move and the index registers are 8 bits wide, X and Y
stay below `0x100`. -/
def Machine.BlockMoveFits (m : Machine β) : Prop :=
  ∀ increment ∈ m.handler.bind Op.blockMoveIncrement,
    m.core.modeLongXy = false →
      hi (m.core.x + m.core.blockMoveCount * increment) = 0 ∧
        hi (m.core.y + m.core.blockMoveCount * increment) = 0

/-- An operation of a row with 8-bit index registers writes X and Y in that width, unless it is
a block move. -/
def Op.keepsIndex (mode : Mode) (op : Op) : Bool :=
  mode.sizeXy != .u8 || op.blockMoveIncrement.isSome ||
    (op.footprint.x != .full && op.footprint.y != .full)

theorem keepsIndex_execOps (mode : Mode) :
    (execOps mode).all (fun o => o.all (Op.keepsIndex mode)) = true := by
  cases mode <;> decide +kernel

theorem Core.Coherent.sizeXy {c : Core} (hc : c.Coherent) (h : c.modeLongXy = false) :
    c.mode.sizeXy = .u8 := by
  rw [hc.mode, h]
  split
  · rfl
  · split
    · rfl
    · cases c.modeLongA <;> rfl

theorem Level.Rel.hi_eq_zero {l : Level} (hl : l ≠ .full) {v v' : Word} (h : l.Rel v v')
    (hv : hi v = 0) : hi v' = 0 := by
  cases l
  · rw [show v' = v from h]
    exact hv
  · rcases h with h | h
    · exact h.trans hv
    · exact h
  · exact absurd rfl hl

/-- A footprint that leaves the high bytes of 8-bit index registers alone. -/
theorem Footprint.Rel.indexFits {f : Footprint} {c c' : Core} (h : f.Rel c c')
    (hf : c.modeLongXy = false → f.x ≠ .full ∧ f.y ≠ .full) (hi : c.IndexFits) :
    c'.IndexFits := by
  cases hw : f.widths
  · intro hxy
    have hxy' : c.modeLongXy = false := (h.modeLongXy hw).symm.trans hxy
    obtain ⟨hx, hy⟩ := hi hxy'
    obtain ⟨hfx, hfy⟩ := hf hxy'
    exact ⟨h.x.hi_eq_zero hfx hx, h.y.hi_eq_zero hfy hy⟩
  · exact h.index hw hi

theorem Core.indexFits_afterXce {c : Core} (hi : c.IndexFits) : c.afterXce.IndexFits := by
  have h : (c.addIp 1).xce.IndexFits := by
    rcases (c.addIp 1).xce_cases with h | h
    · rw [h]
      exact hi
    · rw [h]
      exact indexFits_onUpdateMode _
  exact h

theorem indexFits_emulateInstruction {m m' : Machine β} (hm : m.core.Coherent)
    (hi : m.core.IndexFits) (hb : m.BlockMoveFits) (h : m.emulateInstruction = some m') :
    m'.core.IndexFits := by
  rcases emulateInstruction_cases h with ⟨op, hop, -, hs⟩ | ⟨-, -, hx⟩
  · have hrel := hs.core hm
    cases hbm : op.blockMoveIncrement with
    | none =>
      refine hrel.indexFits (fun hxy => ?_) hi
      have hk := of_handler hm (keepsIndex_execOps _) hop
      simpa [Op.keepsIndex, hm.sizeXy hxy, hbm] using hk
    | some increment =>
      obtain ⟨op', hop', rfl⟩ := Option.map_eq_some_iff.mp h
      obtain rfl : op' = op := Option.some.inj (hop'.symm.trans hop)
      intro hxy
      obtain ⟨hx, hy⟩ := stepped_perform hbm m
      have hw : op'.footprint.widths = false := by
        cases op' <;> first | rfl | exact absurd hbm nofun
      rw [hx, hy]
      refine hb increment ?_ ((hrel.modeLongXy hw).symm.trans hxy)
      rw [hop]
      exact hbm
  · rw [hx]
    exact Core.indexFits_afterXce hi

/-- The calls of the owners that drive the CPU: all but `LoadState`. -/
def Stimulus.Driven : Stimulus β → Prop
  | loadState _ => False
  | _ => True

theorem indexFits_step {i : Stimulus β} {m m' : Machine β} (hm : m.core.Coherent)
    (hi : m.core.IndexFits) (hd : i.Driven) (hb : i = .emulateInstruction → m.BlockMoveFits)
    (h : Machine.step i m = some m') : m'.core.IndexFits := by
  cases i with
  | powerOn =>
    cases h
    exact Core.indexFits_onUpdateMode _
  | reset =>
    cases h
    exact Core.indexFits_onUpdateMode _
  | emulateInstruction => exact indexFits_emulateInstruction hm hi (hb rfl) h
  | interrupt param =>
    cases h
    exact ((spends_interrupt param m).core hm).indexFits (fun _ => by decide) hi
  | loadState inData => exact absurd hd id
  | setRegister reg value =>
    cases h
    obtain ⟨f, hf, hxy, -⟩ := rel_setRegister hm reg value
    exact hf.indexFits hxy hi
  | world bus =>
    cases h
    exact hi

/-- **While the index registers are 8 bits wide their high bytes are zero**, in every state
reached from `PowerOn` by instructions, interrupts, resets and `SetRegister` in which no block
move carries out of the low byte of an 8-bit X or Y. -/
theorem indexFits_of_run (start : Machine β) {m : Machine β}
    (h : Run Machine.step (fun m i => i.Driven ∧ (i = .emulateInstruction → m.BlockMoveFits))
      (powerOn start).2 m) : m.core.IndexFits :=
  (Run.invariant (P := fun m => m.core.Coherent ∧ m.core.IndexFits)
    ⟨Core.coherent_onUpdateMode _, Core.indexFits_onUpdateMode _⟩
    (fun _ _ _ hm hok hs => ⟨coherent_step hm.1 hs, indexFits_step hm.1 hm.2 hok.1 hok.2 hs⟩)
    h).2

/-- A block move that does not carry. -/
theorem indexFits_blockMove : ∃ m,
    Machine.step .emulateInstruction (running [0x54, 0, 0]) = some m ∧
      m.core.x = 1 ∧ m.core.IndexFits := by
  have hs : ((running [0x54, 0, 0]).emulateInstruction.map (·.core.x)) = some 1 := by decide +kernel
  have hop : (running [0x54, 0, 0]).handler = some .mvn := by decide +kernel
  have hx : (running [0x54, 0, 0]).core.x = 0 := by decide +kernel
  have hy : (running [0x54, 0, 0]).core.y = 0 := by decide +kernel
  have hn : (running [0x54, 0, 0]).core.blockMoveCount = 1 := by decide +kernel
  obtain ⟨m, hm, hx'⟩ := Option.map_eq_some_iff.mp hs
  refine ⟨m, hm, hx', indexFits_of_run _ (.tail .emulateInstruction .refl
    ⟨trivial, fun _ increment hinc _ => ?_⟩ hm)⟩
  change increment ∈ (running [0x54, 0, 0]).handler.bind Op.blockMoveIncrement at hinc
  rw [hop] at hinc
  cases hinc
  change hi ((running [0x54, 0, 0]).core.x + (running [0x54, 0, 0]).core.blockMoveCount * 1) = 0 ∧
    hi ((running [0x54, 0, 0]).core.y + (running [0x54, 0, 0]).core.blockMoveCount * 1) = 0
  rw [hx, hy, hn]
  decide

/-- `LDX #$FF` and a block move after it. -/
theorem indexFits_fails : ∃ m, Run Machine.step (fun _ i => i.Driven)
    (running [0xA2, 0xFF, 0x54, 0, 0]) m ∧ ¬m.core.IndexFits := by
  have hs : (runList Machine.step [.emulateInstruction, .emulateInstruction]
      (running [0xA2, 0xFF, 0x54, 0, 0])).map (fun m => (m.core.modeLongXy, hi m.core.x)) =
        some (false, 1) := by decide +kernel
  obtain ⟨m, hm, hx⟩ := Option.map_eq_some_iff.mp hs
  obtain ⟨hl, hx⟩ := Prod.mk.inj hx
  refine ⟨m, Run.of_runList (by simp [Stimulus.Driven]) hm, fun h => ?_⟩
  exact absurd (hx.symm.trans (h hl).1) (by decide)

end RetroCpu
