import RetroCpu.Wdc65816.Disassembler
import RetroCpu.Wdc65816.Reach

/-!
# Disassembling between instructions

A read leaves something behind even where nothing reacts to it: the byte stays on the data
lines.  `ReadLines` says of a bus which bytes those are and which reads leave nothing else, so
that the reads of a call can be followed on the lines alone.  A call is quiet when its reads
are of that kind and the lines end as they began.

`unobserved` carries this through runs: calls that are quiet where they are made can be left
out of a run, and it ends in the same state.
-/

namespace RetroCpu

open StateFn Machine

structure ReadLines (β Lines : Type) [Bus β] where
  /-- What is asked of the bus. -/
  Ok : β → Prop
  lines : β → Lines
  setLines : β → Lines → β
  /-- The lines after a read. -/
  drive : β → CpuAddr → Lines → Lines
  /-- A read moves nothing but the lines. -/
  Harmless : β → BitVec 64 → CpuAddr → Prop
  setLines_lines : ∀ {b : β}, Ok b → setLines b (lines b) = b
  lines_setLines : ∀ (b : β) (ℓ : Lines), lines (setLines b ℓ) = ℓ
  read : ∀ {b : β} {t : BitVec 64} {a : CpuAddr}, Ok b → Harmless b t a → ∀ ℓ : Lines,
    (Bus.readByte (setLines b ℓ) t a).bus = setLines b (drive b a ℓ)

variable {β Lines : Type} [Bus β]

/-- What happens to a machine that somebody looks at. -/
inductive Watched (β : Type)
  | stimulus (i : Stimulus β)
  | disassembleOneInstruction (config : Disassembler.Config) (start : CpuAddr)
  | disassemble (config : Disassembler.Config) (start : CpuAddr)

/-- What is left of it when nobody does. -/
def Watched.stimulus? : Watched β → Option (Stimulus β)
  | .stimulus i => some i
  | _ => none

def Machine.watch : Watched β → Machine β → Option (Machine β)
  | .stimulus i, m => m.step i
  | .disassembleOneInstruction config start, m =>
    (m.disassembleOneInstruction config start).map (·.2)
  | .disassemble config start, m => (m.disassemble config start).map (·.2)

namespace ReadLines

variable (L : ReadLines β Lines) {m : Machine β} {start : CpuAddr} {op : Op}

/-- The lines after the reads of a call that finds `op` at `start`. -/
def after (b : β) (op : Op) (start : CpuAddr) : Lines :=
  (op.peekAddrs start).foldl (fun ℓ a => L.drive b a ℓ) (L.lines b)

/-- `DisassembleOneInstruction` finds `op` at `start`, and its reads leave the lines as they
were and move nothing else. -/
structure Quiet (m : Machine β) (start : CpuAddr) (op : Op) : Prop where
  disassembleFn : m.disassembleFn start = some op
  harmless : ∀ a ∈ op.peekAddrs start, L.Harmless m.bus m.cycle a
  lines : L.after m.bus op start = L.lines m.bus

/-- The next `n` instructions from `start` on are quiet. -/
def QuietFor (m : Machine β) : Nat → CpuAddr → Prop
  | 0, _ => True
  | n + 1, start =>
    ∃ op, L.Quiet m start op ∧ QuietFor m n (start + BitVec.ofNat 32 op.kBytes)

/-- A call is made where it is quiet; `happens` says what else may happen. -/
def Admits (happens : Machine β → Stimulus β → Prop) (m : Machine β) : Watched β → Prop
  | .stimulus i => happens m i
  | .disassembleOneInstruction _ start => L.QuietFor m 1 start
  | .disassemble config start => L.QuietFor m config.maxInstructionCount.toNat start

/-! ### One call -/

theorem foldl_read {b : β} {t : BitVec 64} (hb : L.Ok b) (l : List CpuAddr)
    (hl : ∀ a ∈ l, L.Harmless b t a) (ℓ : Lines) :
    l.foldl (fun b a => (Bus.readByte b t a).bus) (L.setLines b ℓ) =
      L.setLines b (l.foldl (fun ℓ a => L.drive b a ℓ) ℓ) := by
  induction l generalizing ℓ with
  | nil => rfl
  | cons a l ih =>
    rw [List.foldl_cons, List.foldl_cons, L.read hb (hl a List.mem_cons_self)]
    exact ih (fun a' ha' => hl a' (List.mem_cons_of_mem a ha')) _

theorem bus_afterReads (hm : L.Ok m.bus)
    (hl : ∀ a ∈ op.peekAddrs start, L.Harmless m.bus m.cycle a) :
    (m.afterReads (op.peekAddrs start)).bus = L.setLines m.bus (L.after m.bus op start) := by
  have h := L.foldl_read hm _ hl (L.lines m.bus)
  rw [L.setLines_lines hm] at h
  exact h

/-- Where its reads move the lines alone, a call leaves the machine as it was if and only if it
leaves the lines. -/
theorem afterReads_eq_iff (hm : L.Ok m.bus)
    (hl : ∀ a ∈ op.peekAddrs start, L.Harmless m.bus m.cycle a) :
    m.afterReads (op.peekAddrs start) = m ↔ L.after m.bus op start = L.lines m.bus := by
  have hbus := L.bus_afterReads hm hl
  constructor
  · intro h
    rw [h] at hbus
    exact (L.lines_setLines m.bus _).symm.trans (congrArg L.lines hbus.symm)
  · intro h
    rw [h, L.setLines_lines hm] at hbus
    obtain ⟨core, cycle, cycleStop, bus⟩ := m
    exact congrArg (Machine.mk core cycle cycleStop) hbus

variable {L}

theorem Quiet.afterReads (h : L.Quiet m start op) (hm : L.Ok m.bus) :
    m.afterReads (op.peekAddrs start) = m := (L.afterReads_eq_iff hm h.harmless).mpr h.lines

/-- **Where no read moves more than the lines, a call leaves the machine as it was if and only
if it is quiet.** -/
theorem disassembleOneInstruction_iff (hm : L.Ok m.bus)
    (h : ∀ a, L.Harmless m.bus m.cycle a) (config : Disassembler.Config) (start : CpuAddr) :
    (m.disassembleOneInstruction config start).map (·.2) = some m ↔ ∃ op, L.Quiet m start op := by
  cases hop : m.disassembleFn start with
  | none =>
    rw [Machine.disassembleOneInstruction, hop]
    constructor
    · intro h
      cases h
    · rintro ⟨op, hquiet⟩
      cases hop.symm.trans hquiet.disassembleFn
  | some op =>
    obtain ⟨insn, hinsn⟩ := disassembleOneInstruction_eq config start m hop
    have hiff : m.afterReads (op.peekAddrs start) = m ↔ _ :=
      L.afterReads_eq_iff hm fun a _ => h a
    rw [hinsn, Option.map_some, Option.some_inj, hiff]
    constructor
    · intro hlines
      exact ⟨op, hop, fun a _ => h a, hlines⟩
    · rintro ⟨op', hquiet⟩
      cases hop.symm.trans hquiet.disassembleFn
      exact hquiet.lines

/-! ### Any number of calls -/

/-- Quiet instructions are listed and nothing changes. -/
theorem disassembleLoop_of_quietFor (hm : L.Ok m.bus) (config : Disassembler.Config) (n : Nat)
    {start : CpuAddr} (h : L.QuietFor m n start) :
    ∃ r, disassembleLoop config n start m = some (r, m) := by
  induction n generalizing start with
  | zero => exact ⟨([], start), rfl⟩
  | succ n ih =>
    obtain ⟨op, hquiet, hrest⟩ := h
    obtain ⟨insn, hinsn⟩ := disassembleOneInstruction_eq config start m hquiet.disassembleFn
    obtain ⟨⟨insns, addr⟩, hloop⟩ := ih hrest
    rw [hquiet.afterReads hm] at hinsn
    refine ⟨(insn :: insns, addr), ?_⟩
    rw [disassembleLoop, hinsn]
    show (disassembleLoop config n _ m).bind _ = _
    rw [hloop]
    rfl

theorem watch_of_quietFor (hm : L.Ok m.bus) {happens : Machine β → Stimulus β → Prop}
    {w : Watched β} (hw : L.Admits happens m w) (hcall : w.stimulus? = none) :
    m.watch w = some m := by
  cases w with
  | stimulus i => cases hcall
  | disassembleOneInstruction config start =>
    obtain ⟨op, hquiet, -⟩ := hw
    obtain ⟨insn, hinsn⟩ := disassembleOneInstruction_eq config start m hquiet.disassembleFn
    rw [watch, hinsn, hquiet.afterReads hm]
    rfl
  | disassemble config start =>
    obtain ⟨r, hr⟩ := disassembleLoop_of_quietFor hm config _ hw
    rw [watch, Machine.disassemble, hr]
    rfl

/-! ### Runs -/

variable (L)

/-- A run with calls that are quiet where they are made ends as the run without them. -/
def Unobserved (happens : Machine β → Stimulus β → Prop) (m : Machine β) : Prop :=
  ∀ ws : List (Watched β), Admissible watch (L.Admits happens) ws m →
    runList watch ws m = runList Machine.step (ws.filterMap Watched.stimulus?) m

/-- **Quiet calls can be left out of a run.** -/
theorem unobserved {happens : Machine β → Stimulus β → Prop}
    (hok : ∀ (i : Stimulus β) (m m' : Machine β), L.Ok m.bus → happens m i →
      m.step i = some m' → L.Ok m'.bus) (hm : L.Ok m.bus) : L.Unobserved happens m := by
  intro ws hws
  refine runList_filterMap (P := fun m => L.Ok m.bus) ?_ ?_ ?_ ws hm hws
  · intro w m m' hm hw hstep
    cases hcall : w.stimulus? with
    | none =>
      have heq := (watch_of_quietFor hm hw hcall).symm.trans hstep
      cases heq
      exact hm
    | some i =>
      cases w with
      | stimulus j => exact hok j m m' hm hw hstep
      | disassembleOneInstruction => cases hcall
      | disassemble => cases hcall
  · intro w m i hw
    cases w with
    | stimulus j =>
      cases hw
      rfl
    | disassembleOneInstruction => cases hw
    | disassemble => cases hw
  · intro w m hm hw hcall
    exact watch_of_quietFor hm hw hcall

end ReadLines

end RetroCpu
