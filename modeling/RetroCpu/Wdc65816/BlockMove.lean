import RetroCpu.Lib.Copy
import RetroCpu.Wdc65816.Fetch
import RetroCpu.Wdc65816.IndexWidth
import RetroCpu.Wdc65816.Stack

/-!
# Block moves

`MVN` and `MVP` copy bytes until A has counted down to `0xFFFF`.  With
`fast_block_moves` one execution copies them all; without, each execution copies one
byte and leaves `ip` where it is, so the instruction is fetched again, with its
operands, from memory that has changed meanwhile.

`BlockMove.MovedByte` is what one byte does to the machine.  The loop of `FastBlockMove`
and the repeated instruction are both a byte and then the rest, so an induction on the
bytes to go gives the same `Finished` state for both, and the writes of the copy in
`Lib.Copy`.
-/

namespace RetroCpu

open WordBytes Machine StateFn Copy

variable {β : Type} [Bus β] {R : CpuAddr → Prop} {ram : PlainRam β R}

/-! ### The writes of a program -/

/-- The bus goes from `b` to `b'` by accesses whose writes are those of the list. -/
inductive Bus.Writes : List (CpuAddr × Byte) → β → β → Prop
  | refl (b : β) : Writes [] b b
  | read {ws : List (CpuAddr × Byte)} {b b' : β} (t : BitVec 64) (a : CpuAddr) :
    Writes ws (Bus.readByte b t a).bus b' → Writes ws b b'
  | write {ws : List (CpuAddr × Byte)} {b b' : β} (t : BitVec 64) (a : CpuAddr) (v : Byte) :
    Writes ws (Bus.writeByte b t a v).bus b' → Writes ((a, v) :: ws) b b'

theorem Bus.Writes.trans {ws ws' : List (CpuAddr × Byte)} {b b' b'' : β} (h : Writes ws b b')
    (h' : Writes ws' b' b'') : Writes (ws ++ ws') b b'' := by
  induction h with
  | refl => exact h'
  | read t a _ ih => exact .read t a (ih h')
  | write t a v _ ih => exact .write t a v (ih h')

theorem Bus.Writes.after_reads {ws : List (CpuAddr × Byte)} {b b' b'' : β} (h : Writes [] b b')
    (h' : Writes ws b' b'') : Writes ws b b'' :=
  h.trans h'

theorem PlainRam.ok_writes (ram : PlainRam β R) {ws : List (CpuAddr × Byte)} {b b' : β}
    (h : Bus.Writes ws b b') (hok : ram.ok b) : ram.ok b' := by
  induction h with
  | refl => exact hok
  | read t a _ ih => exact ih (ram.invariant.read hok t a)
  | write t a v _ ih => exact ih (ram.invariant.write hok t a v)

/-- Plain memory after accesses is what their writes make of it. -/
theorem PlainRam.peek_writes (ram : PlainRam β R) {ws : List (CpuAddr × Byte)} {b b' : β}
    (h : Bus.Writes ws b b') (hok : ram.ok b) (hR : ∀ w ∈ ws, R w.1) {a : CpuAddr} (ha : R a) :
    ram.peek b' a = store (ram.peek b) ws a := by
  induction h with
  | refl => rfl
  | read t a' _ ih =>
    rw [ih (ram.invariant.read hok t a') hR]
    exact store_congr _ (ram.peek_read hok t a' a ha)
  | write t a' v _ ih =>
    obtain ⟨ha', hws⟩ := List.forall_mem_cons.mp hR
    rw [ih (ram.invariant.write hok t a' v) hws]
    refine store_congr _ ?_
    rw [ram.peek_write hok t a' v a ha' ha, Function.update_apply]

/-! ### One byte -/

def bankAddr (bank : Byte) (offset : Word) : CpuAddr :=
  (bank.setWidth 32 <<< 16) ||| offset.setWidth 32

theorem toNat_bankAddr (bank : Byte) (offset : Word) :
    (bankAddr bank offset).toNat = bank.toNat * 65536 + offset.toNat := by
  have h := toNat_codeAddr bank (offset.setWidth 32)
  rw [setWidth_and_wordMask] at h
  rw [bankAddr, h, BitVec.setWidth_setWidth_of_le _ (by decide), BitVec.setWidth_eq]

structure BlockMove where
  srcBank : Byte
  destBank : Byte
  increment : Word

namespace BlockMove

variable (move : BlockMove)

def src (c : Core) (i : ℕ) : CpuAddr :=
  bankAddr move.srcBank (c.x + BitVec.ofNat 16 i * move.increment)

def dest (c : Core) (i : ℕ) : CpuAddr :=
  bankAddr move.destBank (c.y + BitVec.ofNat 16 i * move.increment)

def writes (ram : PlainRam β R) (m : Machine β) (n : ℕ) : List (CpuAddr × Byte) :=
  copyLog (move.src m.core) (move.dest m.core) (ram.peek m.bus) n

structure MovedByte (ram : PlainRam β R) (m m' : Machine β) : Prop where
  a : m'.core.a = m.core.a - 1
  x : m'.core.x = m.core.x + move.increment
  y : m'.core.y = m.core.y + move.increment
  bus : Bus.Writes (move.writes ram m 1) m.bus m'.bus

variable {move} {m m' : Machine β}

omit [Bus β] in
theorem src_zero (c : Core) : move.src c 0 = bankAddr move.srcBank c.x := by
  simp [src]

omit [Bus β] in
theorem dest_zero (c : Core) : move.dest c 0 = bankAddr move.destBank c.y := by
  simp [dest]

omit [Bus β] in
theorem add_ofNat_succ_mul (v increment : Word) (i : ℕ) :
    v + BitVec.ofNat 16 (i + 1) * increment = v + increment + BitVec.ofNat 16 i * increment := by
  rw [BitVec.ofNat_add]
  grind

theorem MovedByte.src_succ (h : move.MovedByte ram m m') (i : ℕ) :
    move.src m.core (i + 1) = move.src m'.core i := by
  rw [src, src, add_ofNat_succ_mul, h.x]

theorem MovedByte.dest_succ (h : move.MovedByte ram m m') (i : ℕ) :
    move.dest m.core (i + 1) = move.dest m'.core i := by
  rw [dest, dest, add_ofNat_succ_mul, h.y]

theorem MovedByte.peek (h : move.MovedByte ram m m') (hok : ram.ok m.bus)
    (hdest : R (move.dest m.core 0)) {a : CpuAddr} (ha : R a) :
    ram.peek m'.bus a = Function.update (ram.peek m.bus) (move.dest m.core 0)
      (ram.peek m.bus (move.src m.core 0)) a := by
  refine ram.peek_writes h.bus hok ?_ ha
  intro w hw
  obtain rfl : w = _ := List.mem_singleton.mp hw
  exact hdest

/-- A copy is its first byte and then the rest. -/
theorem MovedByte.writes_succ (h : move.MovedByte ram m m') (hok : ram.ok m.bus) {n : ℕ}
    (hsrc : ∀ i < n + 1, R (move.src m.core i)) (hdest : R (move.dest m.core 0)) :
    move.writes ram m (n + 1) = move.writes ram m 1 ++ move.writes ram m' n := by
  rw [writes, copyLog_succ, writes, writes]
  simp only [h.src_succ, h.dest_succ]
  rw [← copyLog_congr (S := R) (fun a ha => h.peek hok hdest ha)]
  · rfl
  · intro i hi
    rw [← h.src_succ]
    exact hsrc (i + 1) (Nat.succ_lt_succ hi)

theorem movedByte_blockMoveByte (hok : ram.ok m.bus) (hsrc : R (move.src m.core 0)) :
    move.MovedByte ram m (blockMoveByte (move.srcBank.setWidth 32 <<< 16)
      (move.destBank.setWidth 32 <<< 16) move.increment m).2 where
  a := rfl
  x := rfl
  y := rfl
  bus := by
    have hw : move.writes ram m 1 =
        [(bankAddr move.destBank m.core.y, ram.peek m.bus (bankAddr move.srcBank m.core.x))] := by
      rw [← src_zero, ← dest_zero]
      rfl
    rw [src_zero] at hsrc
    rw [hw, ← ram.read_data hok m.cycle _ hsrc]
    exact .read _ _ (.write _ _ _ (.refl _))

/-! ### The loop of `FastBlockMove` -/

def finished (move : BlockMove) (c : Core) : Core :=
  { c with
    a := 0xFFFF
    x := c.x + (c.a + 1) * move.increment
    y := c.y + (c.a + 1) * move.increment }

omit [Bus β] in
theorem finished_self {c : Core} (h : c.a = 0xFFFF) : move.finished c = c := by
  have h1 : c.a + 1 = 0 := by
    rw [h]
    rfl
  rw [finished, h1, ← h]
  simp

omit [Bus β] in
theorem finished_moveByte (c : Core) :
    move.finished { c with x := c.x + move.increment, y := c.y + move.increment, a := c.a - 1 } =
      move.finished c := by
  simp only [finished, add_step]

theorem fastBlockMoveLoop_spec (ram : PlainRam β R) (move : BlockMove) {m : Machine β} (fuel : ℕ)
    (hfuel : (m.core.a + 1).toNat ≤ fuel) (hok : ram.ok m.bus)
    (hsrc : ∀ i < (m.core.a + 1).toNat, R (move.src m.core i))
    (hdest : ∀ i < (m.core.a + 1).toNat, R (move.dest m.core i)) :
    let m' := (fastBlockMoveLoop (move.srcBank.setWidth 32 <<< 16)
      (move.destBank.setWidth 32 <<< 16) move.increment fuel m).2
    m'.core = move.finished m.core ∧
      Bus.Writes (move.writes ram m (m.core.a + 1).toNat) m.bus m'.bus := by
  induction fuel generalizing m with
  | zero =>
    have h0 : m.core.a + 1 = 0 := BitVec.eq_of_toNat_eq (Nat.le_zero.mp hfuel)
    have ha : m.core.a = 0xFFFF := by bv_omega
    rw [h0]
    exact ⟨(finished_self ha).symm, .refl _⟩
  | succ fuel ih =>
    by_cases ha : m.core.a = 0xFFFF
    · have h0 : m.core.a + 1 = 0 := by
        rw [ha]
        rfl
      rw [h0]
      simp only [fastBlockMoveLoop, getCore, bind_apply, get_apply, ha, bne_self_eq_false,
        when_false, pure_apply]
      exact ⟨(finished_self ha).symm, .refl _⟩
    · have hne : (m.core.a != 0xFFFF) = true := by simpa using ha
      obtain ⟨n, hn⟩ : ∃ n, (m.core.a + 1).toNat = n + 1 := ⟨m.core.a.toNat, by bv_omega⟩
      simp only [fastBlockMoveLoop, getCore, bind_apply, get_apply, hne, when_true]
      rw [hn] at hsrc hdest hfuel ⊢
      have hb : move.MovedByte ram m _ :=
        movedByte_blockMoveByte hok (hsrc 0 (Nat.succ_pos n))
      have hcore : (blockMoveByte (move.srcBank.setWidth 32 <<< 16)
          (move.destBank.setWidth 32 <<< 16) move.increment m).2.core =
            { m.core with
              x := m.core.x + move.increment, y := m.core.y + move.increment
              a := m.core.a - 1 } := rfl
      generalize (blockMoveByte (move.srcBank.setWidth 32 <<< 16)
          (move.destBank.setWidth 32 <<< 16) move.increment m).2 = m₁ at hb hcore ⊢
      have hn₁ : (m₁.core.a + 1).toNat = n := by
        rw [hb.a]
        bv_omega
      have hrest := @ih m₁ (by omega) (ram.ok_writes hb.bus hok)
        (fun i hi => by
          rw [← hb.src_succ]
          exact hsrc (i + 1) (by omega))
        (fun i hi => by
          rw [← hb.dest_succ]
          exact hdest (i + 1) (by omega))
      obtain ⟨hc, hw⟩ := hrest
      refine ⟨?_, ?_⟩
      · rw [hc, hcore, finished_moveByte]
      · rw [hb.writes_succ hok hsrc (hdest 0 (Nat.succ_pos n))]
        rw [hn₁] at hw
        exact hb.bus.trans hw

end BlockMove

/-! ### One execution of the instruction -/

def Core.blockMoveCode (c : Core) : List CpuAddr :=
  [c.getCanonicalAddress, c.codeAddr (c.ip + 1), c.codeAddr (c.ip + 1) + 1]

/-- The next instruction is the block move `move`, over plain memory, and the next `n` bytes do
not go to the instruction itself. -/
structure Machine.AtBlockMove (ram : PlainRam β R) (move : BlockMove) (n : ℕ) (m : Machine β) :
    Prop where
  ok : ram.ok m.bus
  handler : ∃ op, m.handler = some op ∧ op.blockMoveIncrement = some move.increment
  destBank : ram.peek m.bus (m.core.codeAddr (m.core.ip + 1)) = move.destBank
  srcBank : ram.peek m.bus (m.core.codeAddr (m.core.ip + 1) + 1) = move.srcBank
  code : ∀ a ∈ m.core.blockMoveCode, R a
  src : ∀ i < n, R (move.src m.core i)
  dest : ∀ i < n, R (move.dest m.core i)
  apart : ∀ i < n, move.dest m.core i ∉ m.core.blockMoveCode

namespace BlockMove

variable {move : BlockMove} {n : ℕ} {m m' : Machine β}

theorem perform_eq {op : Op} {increment : Word} (hop : op.blockMoveIncrement = some increment)
    (m : Machine β) :
    (perform op m).2 = (update (fun c =>
      { c with numEmulatedInstructions := c.numEmulatedInstructions + 1 })
        (Op.execBlockMove increment m).2).2 := by
  cases op with
  | mvn =>
    cases hop
    rfl
  | mvp =>
    cases hop
    rfl
  | _ => exact absurd hop nofun

/-- The opcode and the operands are read, and then the banks are known. -/
theorem emulateInstruction_eq (h : m.AtBlockMove ram move n) :
    ∃ m₁, m₁.core = m.core ∧ Bus.Writes [] m.bus m₁.bus ∧
      let q := blockMove (move.srcBank.setWidth 32) (move.destBank.setWidth 32) move.increment m₁
      m.emulateInstruction = some (update (fun c =>
        { c with numEmulatedInstructions := c.numEmulatedInstructions + 1 })
          (when q.1 (addIp 3) q.2).2).2 := by
  obtain ⟨op, hop, hincrement⟩ := h.handler
  have hlo : R (m.core.codeAddr (m.core.ip + 1)) := h.code _ (by simp [Core.blockMoveCode])
  have hhi : R (m.core.codeAddr (m.core.ip + 1) + 1) := h.code _ (by simp [Core.blockMoveCode])
  let r := readPBR .u16 (m.core.ip + 1) (fetch m).2
  have hw : Bus.Writes [] m.bus r.2.bus := .read _ _ (.read _ _ (.read _ _ (.refl _)))
  have hq : Quiet ram m (fetch m).2 := quiet_fetch m
  have hq' : Quiet ram m (readU8 (m.core.codeAddr (m.core.ip + 1)) (fetch m).2).2 :=
    graded_quiet.bind quiet_fetch (fun _ => quiet_readU8 _) m
  have hr : r.1 = move.srcBank ++ move.destBank := by
    rw [← h.srcBank, ← h.destBank, ← hq.peek h.ok _ hlo, ← hq'.peek h.ok _ hhi,
      ← ram.read_data (hq.ok h.ok) _ _ hlo, ← ram.read_data (hq'.ok h.ok) _ _ hhi]
    rfl
  refine ⟨r.2, rfl, hw, ?_⟩
  rw [emulateInstruction, hop, Option.map_some, perform_eq hincrement]
  have hexec : Op.execBlockMove move.increment (fetch m).2 = (do
      let done ← blockMove ((hi r.1).setWidth 32) ((lo r.1).setWidth 32) move.increment
      when done (addIp 3)) r.2 := rfl
  rw [hexec, hr, hi_append, lo_append, bind_apply]

/-- Reads change nothing of what is left to copy. -/
theorem writes_of_reads {m₁ : Machine β} (hcore : m₁.core = m.core)
    (hbus : Bus.Writes [] m.bus m₁.bus) (hok : ram.ok m.bus)
    (hsrc : ∀ i < n, R (move.src m.core i)) : move.writes ram m₁ n = move.writes ram m n := by
  rw [writes, writes, hcore]
  exact copyLog_congr (S := R) (fun a ha => ram.peek_writes hbus hok (fun _ hw => by cases hw) ha)
    hsrc

/-- A move that is over is left. -/
theorem emulateInstruction_done (h : m.AtBlockMove ram move n) (ha : m.core.a = 0xFFFF) :
    ∃ m', m.emulateInstruction = some m' ∧ Bus.Writes [] m.bus m'.bus ∧ m'.core =
      { m.core with
        ip := m.core.ip + 3
        numEmulatedInstructions := m.core.numEmulatedInstructions + 1 } := by
  obtain ⟨m₁, hcore, hw, hs⟩ := emulateInstruction_eq h
  rw [← hcore] at ha
  rw [blockMove_done ha] at hs
  refine ⟨_, hs, hw, ?_⟩
  rw [← hcore]
  rfl

omit [Bus β] in
theorem toNat_add_one_le (a : Word) : (a + 1).toNat ≤ a.toNat + 1 := by
  bv_omega

/-- With `fast_block_moves` one execution moves all bytes. -/
theorem emulateInstruction_fast (h : m.AtBlockMove ram move (m.core.a + 1).toNat)
    (ha : m.core.a ≠ 0xFFFF) (hf : m.core.fastBlockMoves = true) :
    ∃ m', m.emulateInstruction = some m' ∧
      Bus.Writes (move.writes ram m (m.core.a + 1).toNat) m.bus m'.bus ∧ m'.core =
        { move.finished m.core with
          dataSegmentBase := move.destBank.setWidth 32 <<< 16
          ip := m.core.ip + 3
          numEmulatedInstructions := m.core.numEmulatedInstructions + 1 } := by
  obtain ⟨m₁, hcore, hw, hs⟩ := emulateInstruction_eq h
  have hwrites := writes_of_reads hcore hw h.ok h.src
  have hspec := fastBlockMoveLoop_spec ram move (m₁.core.a.toNat + 1) (toNat_add_one_le _)
    (ram.ok_writes hw h.ok) (by rw [hcore]; exact h.src) (by rw [hcore]; exact h.dest)
  have hloop : fastBlockMove (move.srcBank.setWidth 32) (move.destBank.setWidth 32)
      move.increment m₁ =
        update (fun c => { c with dataSegmentBase := move.destBank.setWidth 32 <<< 16 })
          (fastBlockMoveLoop (move.srcBank.setWidth 32 <<< 16) (move.destBank.setWidth 32 <<< 16)
            move.increment (m₁.core.a.toNat + 1) m₁).2 := rfl
  rw [← hcore] at ha hf
  rw [blockMove_fast ha hf, hloop] at hs
  simp only at hspec
  generalize fastBlockMoveLoop (move.srcBank.setWidth 32 <<< 16)
    (move.destBank.setWidth 32 <<< 16) move.increment (m₁.core.a.toNat + 1) m₁ = q at hspec hs
  obtain ⟨hc, hbus⟩ := hspec
  rw [hcore, hwrites] at hbus
  rw [hcore] at hc
  obtain ⟨u, c₂, _, _, _⟩ := q
  have hc : c₂ = _ := hc
  subst hc
  exact ⟨_, hs, hw.after_reads hbus, rfl⟩

/-- Without, one byte is moved and the instruction is next again. -/
theorem emulateInstruction_slow (h : m.AtBlockMove ram move (n + 1)) (ha : m.core.a ≠ 0xFFFF)
    (hf : m.core.fastBlockMoves = false) :
    ∃ m', m.emulateInstruction = some m' ∧ move.MovedByte ram m m' ∧ m'.core =
      { m.core with
        x := m.core.x + move.increment
        y := m.core.y + move.increment
        a := m.core.a - 1
        dataSegmentBase := move.destBank.setWidth 32 <<< 16
        numEmulatedInstructions := m.core.numEmulatedInstructions + 1 } := by
  obtain ⟨m₁, hcore, hw, hs⟩ := emulateInstruction_eq h
  have hwrites : move.writes ram m₁ 1 = move.writes ram m 1 :=
    writes_of_reads hcore hw h.ok fun i hi => h.src i (by omega)
  have hb : move.MovedByte ram m₁ _ :=
    movedByte_blockMoveByte (ram.ok_writes hw h.ok) (by rw [hcore]; exact h.src 0 n.succ_pos)
  rw [← hcore] at ha hf
  rw [blockMove_slow ha hf] at hs
  have hc : (blockMoveByte (move.srcBank.setWidth 32 <<< 16)
      (move.destBank.setWidth 32 <<< 16) move.increment m₁).2.core =
        { m₁.core with
          x := m₁.core.x + move.increment, y := m₁.core.y + move.increment
          a := m₁.core.a - 1 } := rfl
  generalize blockMoveByte (move.srcBank.setWidth 32 <<< 16)
    (move.destBank.setWidth 32 <<< 16) move.increment m₁ = q at hs hb hc
  have hbus : Bus.Writes (move.writes ram m 1) m.bus q.2.bus := by
    rw [← hwrites]
    exact hw.trans hb.bus
  rw [hcore] at hc
  obtain ⟨d, c₂, _, _, _⟩ := q
  have hc : c₂ = _ := hc
  subst hc
  exact ⟨_, hs, ⟨rfl, rfl, rfl, hbus⟩, rfl⟩

/-! ### The whole move -/

/-- The CPU's own state after the whole move and the instruction. -/
def completed (move : BlockMove) (c : Core) (num : BitVec 64) : Core :=
  { move.finished c with
    dataSegmentBase :=
      if c.a = 0xFFFF then c.dataSegmentBase else move.destBank.setWidth 32 <<< 16
    ip := c.ip + 3
    numEmulatedInstructions := num }

structure Completes (ram : PlainRam β R) (move : BlockMove) (m m' : Machine β) : Prop where
  core : ∃ num, m'.core = move.completed m.core num
  bus : Bus.Writes (move.writes ram m (m.core.a + 1).toNat) m.bus m'.bus

omit [Bus β] in
theorem completed_moveByte {c : Core} (ha : c.a ≠ 0xFFFF) (num num' : BitVec 64) :
    move.completed { c with
        x := c.x + move.increment
        y := c.y + move.increment
        a := c.a - 1
        dataSegmentBase := move.destBank.setWidth 32 <<< 16
        numEmulatedInstructions := num } num' =
      move.completed c num' := by
  simp only [completed, finished, add_step, ite_self, if_neg ha]

omit [Bus β] in
theorem addIp_ne (ip : CpuAddr) : ip + 3 ≠ ip := by
  bv_omega

/-- A completed move has left its instruction. -/
theorem Completes.ip_eq (h : Completes ram move m m') : m'.core.ip = m.core.ip + 3 := by
  obtain ⟨num, hc⟩ := h.core
  rw [hc, completed]

theorem completes_of_done (ha : m.core.a = 0xFFFF) {num : BitVec 64}
    (hcore : m'.core = { m.core with ip := m.core.ip + 3, numEmulatedInstructions := num })
    (hbus : Bus.Writes [] m.bus m'.bus) : Completes ram move m m' := by
  refine ⟨⟨num, ?_⟩, ?_⟩
  · rw [hcore, completed, finished_self ha, if_pos ha]
  · rw [ha]
    exact hbus

/-- After a byte the same instruction is next, with a byte less to go. -/
theorem atBlockMove_of_movedByte (h : m.AtBlockMove ram move (n + 1))
    (hb : move.MovedByte ram m m') (hip : m'.core.ip = m.core.ip)
    (hbase : m'.core.codeSegmentBase = m.core.codeSegmentBase)
    (hset : m'.core.currentInstructionSet = m.core.currentInstructionSet) :
    m'.AtBlockMove ram move n := by
  have hok : ram.ok m'.bus := ram.ok_writes hb.bus h.ok
  have haddr : m'.core.getCanonicalAddress = m.core.getCanonicalAddress := by
    rw [Core.getCanonicalAddress, Core.getCanonicalAddress, hip, hbase]
  have hoperand : m'.core.codeAddr (m'.core.ip + 1) = m.core.codeAddr (m.core.ip + 1) := by
    rw [Core.codeAddr, Core.codeAddr, hip, hbase]
  have hcode : m'.core.blockMoveCode = m.core.blockMoveCode := by
    rw [Core.blockMoveCode, Core.blockMoveCode, haddr, hoperand]
  have hpeek : ∀ a ∈ m.core.blockMoveCode, ram.peek m'.bus a = ram.peek m.bus a := by
    intro a ha
    have hne : a ≠ move.dest m.core 0 := fun he => h.apart 0 n.succ_pos (he ▸ ha)
    rw [hb.peek h.ok (h.dest 0 n.succ_pos) (h.code a ha), Function.update_of_ne hne]
  have hopcode : m.core.getCanonicalAddress ∈ m.core.blockMoveCode := by simp [Core.blockMoveCode]
  have hhandler : m'.handler = m.handler := by
    have hfetch : (fetch m').1 = (fetch m).1 := by
      have hR := h.code _ hopcode
      have hR' : R m'.core.getCanonicalAddress := by
        rw [haddr]
        exact hR
      calc (fetch m').1 = ram.peek m'.bus m'.core.getCanonicalAddress :=
            ram.read_data hok _ _ hR'
        _ = ram.peek m.bus m.core.getCanonicalAddress := by rw [haddr, hpeek _ hopcode]
        _ = (fetch m).1 := (ram.read_data h.ok _ _ hR).symm
    rw [handler, handler, hset, hfetch]
  refine ⟨hok, ?_, ?_, ?_, ?_, ?_, ?_, ?_⟩
  · rw [hhandler]
    exact h.handler
  · rw [hoperand, hpeek _ (by simp [Core.blockMoveCode])]
    exact h.destBank
  · rw [hoperand, hpeek _ (by simp [Core.blockMoveCode])]
    exact h.srcBank
  · rw [hcode]
    exact h.code
  · intro i hi
    rw [← hb.src_succ]
    exact h.src (i + 1) (Nat.succ_lt_succ hi)
  · intro i hi
    rw [← hb.dest_succ]
    exact h.dest (i + 1) (Nat.succ_lt_succ hi)
  · intro i hi
    rw [← hb.dest_succ, hcode]
    exact h.apart (i + 1) (Nat.succ_lt_succ hi)

end BlockMove

/-- The instruction at `ip` is executed until `ip` moves. -/
inductive Machine.RunsPast : Machine β → Machine β → Prop
  | last {m s : Machine β} : m.emulateInstruction = some s → s.core.ip ≠ m.core.ip → RunsPast m s
  | again {m m' s : Machine β} : m.emulateInstruction = some m' → m'.core.ip = m.core.ip →
    RunsPast m' s → RunsPast m s

/-- There is one way to run past an instruction. -/
theorem Machine.RunsPast.unique {m s s' : Machine β} (h : m.RunsPast s) (h' : m.RunsPast s') :
    s' = s := by
  induction h with
  | last hs hip =>
    cases h' with
    | last hs' hip' => exact Option.some.inj (hs'.symm.trans hs)
    | again hm hip' _ =>
      obtain rfl := Option.some.inj (hm.symm.trans hs)
      exact absurd hip' hip
  | again hm hip _ ih =>
    cases h' with
    | last hs' hip' =>
      obtain rfl := Option.some.inj (hs'.symm.trans hm)
      exact absurd hip hip'
    | again hm' _ hrun =>
      obtain rfl := Option.some.inj (hm'.symm.trans hm)
      exact ih hrun

namespace BlockMove

variable {move : BlockMove} {n : ℕ} {m m' : Machine β}

/-- With `fast_block_moves` the move is one execution. -/
theorem completes_fast (h : m.AtBlockMove ram move (m.core.a + 1).toNat)
    (hf : m.core.fastBlockMoves = true) :
    ∃ s, m.emulateInstruction = some s ∧ Completes ram move m s := by
  by_cases ha : m.core.a = 0xFFFF
  · obtain ⟨s, hs, hbus, hcore⟩ := emulateInstruction_done h ha
    exact ⟨s, hs, completes_of_done ha hcore hbus⟩
  · obtain ⟨s, hs, hbus, hcore⟩ := emulateInstruction_fast h ha hf
    refine ⟨s, hs, ⟨m.core.numEmulatedInstructions + 1, ?_⟩, hbus⟩
    rw [hcore, completed, if_neg ha]

/-- Without, it is an execution for each byte and one to leave. -/
theorem completes_slow (h : m.AtBlockMove ram move n) (hn : (m.core.a + 1).toNat = n)
    (hf : m.core.fastBlockMoves = false) : ∃ s, m.RunsPast s ∧ Completes ram move m s := by
  induction n generalizing m with
  | zero =>
    have ha : m.core.a = 0xFFFF := by bv_omega
    obtain ⟨s, hs, hbus, hcore⟩ := emulateInstruction_done h ha
    have hc : Completes ram move m s := completes_of_done ha hcore hbus
    refine ⟨s, .last hs ?_, hc⟩
    rw [hc.ip_eq]
    exact addIp_ne _
  | succ n ih =>
    have ha : m.core.a ≠ 0xFFFF := by bv_omega
    obtain ⟨m', hm', hb, hcore⟩ := emulateInstruction_slow h ha hf
    have hip : m'.core.ip = m.core.ip := by rw [hcore]
    have h' : m'.AtBlockMove ram move n :=
      atBlockMove_of_movedByte h hb hip (by rw [hcore]) (by rw [hcore])
    have hn' : (m'.core.a + 1).toNat = n := by
      rw [hb.a]
      bv_omega
    have hf' : m'.core.fastBlockMoves = false := by
      rw [hcore]
      exact hf
    obtain ⟨s, hrun, ⟨num, hc⟩, hbus⟩ := ih h' hn' hf'
    refine ⟨s, .again hm' hip hrun, ⟨num, ?_⟩, ?_⟩
    · rw [hc, hcore, completed_moveByte ha]
    · rw [hn, hb.writes_succ h.ok h.src (h.dest 0 n.succ_pos)]
      rw [hn'] at hbus
      exact hb.bus.trans hbus

/-- Memory after the whole move is the copy. -/
theorem Completes.peek (h : Completes ram move m m') (hok : ram.ok m.bus)
    (hdest : ∀ i < (m.core.a + 1).toNat, R (move.dest m.core i)) {a : CpuAddr} (ha : R a) :
    ram.peek m'.bus a =
      copied (move.src m.core) (move.dest m.core) (ram.peek m.bus) (m.core.a + 1).toNat a := by
  rw [← store_copyLog]
  refine ram.peek_writes h.bus hok ?_ ha
  intro w hw
  obtain ⟨i, hi, hwi⟩ := mem_copyLog hw
  rw [hwi]
  exact hdest i hi

end BlockMove

/-! ### Both ways agree -/

/-- The CPU with `fast_block_moves` set or clear. -/
def Machine.withFastBlockMoves (on : Bool) (m : Machine β) : Machine β :=
  { m with core := { m.core with fastBlockMoves := on } }

theorem Machine.AtBlockMove.withFastBlockMoves {move : BlockMove} {n : ℕ} {m : Machine β}
    (h : m.AtBlockMove ram move n) (on : Bool) :
    (m.withFastBlockMoves on).AtBlockMove ram move n :=
  ⟨h.ok, h.handler, h.destBank, h.srcBank, h.code, h.src, h.dest, h.apart⟩

/-- **A fast block move ends like the slow one**: one execution with `fast_block_moves` set, and
executions with it clear until `ip` has moved past the instruction, leave the same memory and,
but for the setting itself and the instruction count, the same CPU. -/
theorem fastBlockMove_eq_slow (ram : PlainRam β R) (move : BlockMove) {m : Machine β}
    (h : m.AtBlockMove ram move (m.core.a + 1).toNat) :
    ∃ f s, (m.withFastBlockMoves true).emulateInstruction = some f ∧
      (m.withFastBlockMoves false).RunsPast s ∧ f.core.ip = m.core.ip + 3 ∧
      f.core = { s.core with
        fastBlockMoves := true
        numEmulatedInstructions := f.core.numEmulatedInstructions } ∧
      ∀ a, R a → ram.peek f.bus a = ram.peek s.bus a := by
  obtain ⟨f, hf, hfast⟩ := BlockMove.completes_fast (m := m.withFastBlockMoves true)
    (h.withFastBlockMoves true) rfl
  obtain ⟨s, hs, hslow⟩ := BlockMove.completes_slow (m := m.withFastBlockMoves false)
    (h.withFastBlockMoves false) rfl rfl
  refine ⟨f, s, hf, hs, hfast.ip_eq, ?_, ?_⟩
  · obtain ⟨num, hcf⟩ := hfast.core
    obtain ⟨num', hcs⟩ := hslow.core
    rw [hcf, hcs]
    rfl
  · intro a ha
    rw [hfast.peek h.ok h.dest ha, hslow.peek h.ok h.dest ha]
    rfl

/-- `MVN` from bank 1 to bank 2 in native mode, with 16-bit registers. -/
def Machine.moving (a : Word) : Machine (SystemBus Unit) :=
  let m := construct default (SystemBus.simple 24 (SystemBus.program [0x54, 0x02, 0x01]))
  { m with core := ({ m.core with
    ip := 0x200, a := a, modeEmulation := false, modeLongA := true
    modeLongXy := true }).onUpdateMode }

theorem atBlockMove_moving (a : Word) :
    (moving a).AtBlockMove SystemBus.simpleRam ⟨1, 2, 1⟩ (a.toNat + 1) := by
  have hcode : (moving a).core.blockMoveCode = [0x200, 0x201, 0x202] := by
    show (moving 0).core.blockMoveCode = _
    decide +kernel
  have hlow : ∀ addr ∈ (moving a).core.blockMoveCode, addr.toNat < 0x20000 := by
    rw [hcode]
    simp
  have hhandler : (moving a).handler = some .mvn := by
    show (moving 0).handler = _
    decide +kernel
  have hbank : ∀ (bank : Byte) (offset : Word), bankAddr bank offset < 0x1000000 := by
    intro bank offset
    have h := toNat_bankAddr bank offset
    have hb := bank.isLt
    have ho := offset.isLt
    bv_omega
  refine ⟨SystemBus.ok_simpleRam _, ⟨.mvn, hhandler, rfl⟩, ?_, ?_, ?_, ?_, ?_, ?_⟩
  · show SystemBus.simpleRam.peek (moving 0).bus
      ((moving 0).core.codeAddr ((moving 0).core.ip + 1)) = 2
    decide +kernel
  · show SystemBus.simpleRam.peek (moving 0).bus
      ((moving 0).core.codeAddr ((moving 0).core.ip + 1) + 1) = 1
    decide +kernel
  · intro addr haddr
    have h := hlow addr haddr
    bv_omega
  · exact fun i _ => hbank _ _
  · exact fun i _ => hbank _ _
  · intro i _ hi
    have hdest := toNat_bankAddr 2 ((moving a).core.y + BitVec.ofNat 16 i * 1)
    have hlt : (bankAddr 2 ((moving a).core.y + BitVec.ofNat 16 i * 1)).toNat < 0x20000 :=
      hlow _ hi
    rw [hdest] at hlt
    have h2 : (2 : Byte).toNat = 2 := by decide
    omega

/-- Three bytes. -/
theorem fastBlockMove_eq_slow_moving :
    ∃ f s, ((moving 2).withFastBlockMoves true).emulateInstruction = some f ∧
      ((moving 2).withFastBlockMoves false).RunsPast s ∧
      f.core.ip = (moving 2).core.ip + 3 ∧
      f.core = { s.core with
        fastBlockMoves := true
        numEmulatedInstructions := f.core.numEmulatedInstructions } ∧
      ∀ a, a < 0x1000000 → SystemBus.simpleRam.peek f.bus a = SystemBus.simpleRam.peek s.bus a :=
  fastBlockMove_eq_slow SystemBus.simpleRam ⟨1, 2, 1⟩ (atBlockMove_moving 2)

end RetroCpu
