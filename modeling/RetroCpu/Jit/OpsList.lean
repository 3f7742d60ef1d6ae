import RetroCpu.Bus
import Mathlib.Data.List.Basic

/-!
# Lists of JIT operations

An instruction is a list of operations, and an operation may stand for another list.
`buildOpsList` puts the operations of all these lists in one.

* `OpTree`: the lists below a list, as a tree.  `Unfolds heap ops t`: `t` is what is at `ops`.
* `OpTree.flatten`: the operations of a tree in order, where a list that is not to be duplicated is
  left out after its first occurrence.
* `buildOpsList_unfolds`: **`buildOpsList` gives all operations of the tree**, duplicates too.
* `OpTree.flatten_eq_operations_iff`: when that is the same.
-/

namespace RetroCpu.Jit

/-- `JitOperation::Oper`. -/
inductive Oper
  | kEnd
  | kExecuteSublist
  | kCustom
  | kInterrupt
  | kMove
  | kAdd
  | kAnd
  | kAndImm
  | kOr
  | kXor
  | kClearFlag
  | kSetFlag
  | kShiftLeftImm
  | kIncrementIP
  | kUpdateFlags
  | kRead
  | kReadNoSegment
  | kReadImm
  | kWrite
  | kWriteNoSegment
  deriving DecidableEq

/-- `const JitOperation *`: the entry at `index` of a list. -/
structure Ptr where
  list : ℕ
  index : ℕ
  deriving DecidableEq

def Ptr.next (p : Ptr) : Ptr := { p with index := p.index + 1 }

structure JitOperation where
  op : Oper
  destination : BitVec 32
  sourceOrImm : BitVec 32
  sublist : Ptr
  deriving DecidableEq

def kNoDuplicateList : BitVec 32 := 0x80

/-- `source_or_imm & kNoDuplicateList`. -/
def JitOperation.noDuplicate (e : JitOperation) : Bool := e.sourceOrImm &&& kNoDuplicateList != 0

abbrev Heap := Ptr → JitOperation

/-- `BuildOpsList`, from the entry at `ops` on.  `lists` is the local variable of the call, and
`fuel` bounds the entries read. -/
def buildOpsList (heap : Heap) :
    ℕ → List Ptr → List JitOperation → Ptr → Option (List JitOperation)
  | 0, _, _, _ => none
  | fuel + 1, lists, resolvedOps, ops =>
    if (heap ops).op = .kEnd then some resolvedOps
    else if (heap ops).op = .kExecuteSublist then
      -- `std::find` looks for the entry and not for its sublist
      if (heap ops).noDuplicate ∧ ops ∈ lists then
        buildOpsList heap fuel lists resolvedOps ops.next
      else
        (buildOpsList heap fuel [] resolvedOps (heap ops).sublist).bind fun resolvedOps =>
          buildOpsList heap fuel (lists ++ [(heap ops).sublist]) resolvedOps ops.next
    else buildOpsList heap fuel lists (resolvedOps ++ [heap ops]) ops.next

/-! ### Trees of lists -/

inductive OpTree
  | done
  | op (e : JitOperation) (rest : OpTree)
  | sub (noDuplicate : Bool) (target : Ptr) (list rest : OpTree)

/-- What is at `ops` is a finite tree of lists. -/
inductive Unfolds (heap : Heap) : Ptr → OpTree → Prop
  | done {ops : Ptr} : (heap ops).op = .kEnd → Unfolds heap ops .done
  | op {ops : Ptr} {rest : OpTree} : (heap ops).op ≠ .kEnd → (heap ops).op ≠ .kExecuteSublist →
      Unfolds heap ops.next rest → Unfolds heap ops (.op (heap ops) rest)
  | sub {ops : Ptr} {list rest : OpTree} : (heap ops).op = .kExecuteSublist →
      (heap ops).sublist.index = 0 → Unfolds heap (heap ops).sublist list →
      Unfolds heap ops.next rest →
      Unfolds heap ops (.sub (heap ops).noDuplicate (heap ops).sublist list rest)

namespace OpTree

def size : OpTree → ℕ
  | done => 1
  | op _ rest => rest.size + 1
  | sub _ _ list rest => list.size + rest.size + 1

def operations : OpTree → List JitOperation
  | done => []
  | op e rest => e :: rest.operations
  | sub _ _ list rest => list.operations ++ rest.operations

/-- The lists entered, where those in `seen` were before. -/
def visited : OpTree → List Ptr → List Ptr
  | done, seen => seen
  | op _ rest, seen => rest.visited seen
  | sub noDuplicate target list rest, seen =>
    if noDuplicate ∧ target ∈ seen then rest.visited seen
    else rest.visited (list.visited (target :: seen))

/-- **The flattening.**  A list that is not to be duplicated contributes its operations only where
it is entered first. -/
def flatten : OpTree → List Ptr → List JitOperation
  | done, _ => []
  | op e rest, seen => e :: rest.flatten seen
  | sub noDuplicate target list rest, seen =>
    if noDuplicate ∧ target ∈ seen then rest.flatten seen
    else list.flatten (target :: seen) ++ rest.flatten (list.visited (target :: seen))

def Barren : OpTree → Prop
  | done => True
  | op _ _ => False
  | sub _ _ list rest => list.Barren ∧ rest.Barren

/-- A list that is not to be duplicated is referenced again only if there is no operation in it. -/
def NoRepeats : OpTree → List Ptr → Prop
  | done, _ => True
  | op _ rest, seen => rest.NoRepeats seen
  | sub noDuplicate target list rest, seen =>
    if noDuplicate ∧ target ∈ seen then list.Barren ∧ rest.NoRepeats seen
    else list.NoRepeats (target :: seen) ∧ rest.NoRepeats (list.visited (target :: seen))

theorem operations_eq_nil_iff (t : OpTree) : t.operations = [] ↔ t.Barren := by
  induction t with
  | done => simp [operations, Barren]
  | op e rest _ => simp [operations, Barren]
  | sub noDuplicate target list rest ihl ihr => simp [operations, Barren, ihl, ihr]

theorem flatten_sublist (t : OpTree) (seen : List Ptr) :
    (t.flatten seen).Sublist t.operations := by
  induction t generalizing seen with
  | done => exact List.Sublist.refl _
  | op e rest ih => exact (ih seen).cons_cons e
  | sub noDuplicate target list rest ihl ihr =>
    rw [flatten, operations]
    split_ifs
    · exact (ihr seen).trans (List.sublist_append_right _ _)
    · exact (ihl _).append (ihr _)

/-- **When nothing is left out.** -/
theorem flatten_eq_operations_iff (t : OpTree) (seen : List Ptr) :
    t.flatten seen = t.operations ↔ t.NoRepeats seen := by
  induction t generalizing seen with
  | done => simp [flatten, operations, NoRepeats]
  | op e rest ih => simp [flatten, operations, NoRepeats, ih]
  | sub noDuplicate target list rest ihl ihr =>
    rw [flatten, operations, NoRepeats]
    split_ifs with h
    · have hr := (rest.flatten_sublist seen).length_le
      rw [← operations_eq_nil_iff, ← ihr]
      constructor
      · intro heq
        have hlen := congrArg List.length heq
        rw [List.length_append] at hlen
        have hnil : list.operations = [] := List.eq_nil_of_length_eq_zero (by omega)
        exact ⟨hnil, by rw [heq, hnil, List.nil_append]⟩
      · rintro ⟨hnil, heq⟩
        rw [hnil, heq, List.nil_append]
    · have hl := (list.flatten_sublist (target :: seen)).length_le
      have hr := (rest.flatten_sublist (list.visited (target :: seen))).length_le
      rw [← ihl, ← ihr]
      constructor
      · intro heq
        have hlen := congrArg List.length heq
        rw [List.length_append, List.length_append] at hlen
        exact List.append_inj heq (by omega)
      · rintro ⟨hl, hr⟩
        rw [hl, hr]

end OpTree

variable {heap : Heap} {ops : Ptr} {t : OpTree}

theorem Unfolds.op_of_mem (h : Unfolds heap ops t) {e : JitOperation} (he : e ∈ t.operations) :
    e.op ≠ .kEnd ∧ e.op ≠ .kExecuteSublist := by
  induction h with
  | done => cases he
  | op hend hsub _ ih =>
    rcases List.mem_cons.mp he with rfl | he
    · exact ⟨hend, hsub⟩
    · exact ih he
  | sub _ _ _ _ ihl ihr =>
    rcases List.mem_append.mp he with he | he
    · exact ihl he
    · exact ihr he

/-- **All operations of the tree.**  The entry that is looked for in `lists` is never there: lists
start at index 0, and at that index `lists` is empty. -/
theorem buildOpsList_unfolds (h : Unfolds heap ops t) {lists : List Ptr}
    (hlists : ∀ q ∈ lists, q.index = 0) (hops : lists = [] ∨ 0 < ops.index)
    (resolvedOps : List JitOperation) {fuel : ℕ} (hfuel : t.size ≤ fuel) :
    buildOpsList heap fuel lists resolvedOps ops = some (resolvedOps ++ t.operations) := by
  induction h generalizing lists resolvedOps fuel with
  | done hend =>
    obtain ⟨n, rfl⟩ : ∃ n, fuel = n + 1 := ⟨fuel - 1, by simp only [OpTree.size] at hfuel; omega⟩
    rw [buildOpsList, if_pos hend, OpTree.operations, List.append_nil]
  | @op ops rest hend hsub _ ih =>
    simp only [OpTree.size] at hfuel
    obtain ⟨n, rfl⟩ : ∃ n, fuel = n + 1 := ⟨fuel - 1, by omega⟩
    rw [buildOpsList, if_neg hend, if_neg hsub,
      ih hlists (.inr (Nat.succ_pos _)) _ (by omega), OpTree.operations, List.append_assoc]
    rfl
  | @sub ops list rest hsub h0 _ _ ihl ihr =>
    simp only [OpTree.size] at hfuel
    obtain ⟨n, rfl⟩ : ∃ n, fuel = n + 1 := ⟨fuel - 1, by omega⟩
    have hmem : ops ∉ lists := by
      intro hmem
      rcases hops with rfl | hops
      · cases hmem
      · have := hlists ops hmem
        omega
    have hend : (heap ops).op ≠ .kEnd := by
      rw [hsub]
      decide
    have hlists' : ∀ q ∈ lists ++ [(heap ops).sublist], q.index = 0 := by
      intro q hq
      rcases List.mem_append.mp hq with hq | hq
      · exact hlists q hq
      · rw [List.mem_singleton.mp hq]
        exact h0
    rw [buildOpsList, if_neg hend, if_pos hsub, if_neg (fun h => hmem h.2),
      ihl (by simp) (.inl rfl) _ (by omega), Option.bind_some,
      ihr hlists' (.inr (Nat.succ_pos _)) _ (by omega), OpTree.operations, List.append_assoc]

/-- **`BuildOpsList` flattens without duplicates exactly when there is none.**  On a finite tree of
lists it appends the operations of the flattening to what it is given if and only if no list that is
not to be duplicated is referenced after its first occurrence, lists without operations apart. -/
theorem buildOpsList_flatten_iff (h : Unfolds heap ops t) (resolvedOps : List JitOperation) :
    (∃ n, ∀ fuel, n ≤ fuel → ∃ out,
      buildOpsList heap fuel [] resolvedOps ops = some (resolvedOps ++ out) ∧
        out = t.flatten [] ∧ ∀ e ∈ out, e.op ≠ .kExecuteSublist ∧ e.op ≠ .kEnd) ↔
      t.NoRepeats [] := by
  rw [← OpTree.flatten_eq_operations_iff]
  have hrun {fuel : ℕ} (hfuel : t.size ≤ fuel) :
      buildOpsList heap fuel [] resolvedOps ops = some (resolvedOps ++ t.operations) :=
    buildOpsList_unfolds h (by simp) (.inl rfl) resolvedOps hfuel
  constructor
  · rintro ⟨n, hn⟩
    obtain ⟨out, hout, heq, -⟩ := hn (max n t.size) (Nat.le_max_left ..)
    rw [hrun (Nat.le_max_right ..)] at hout
    rw [← heq]
    exact (List.append_cancel_left (Option.some.inj hout)).symm
  · intro heq
    refine ⟨t.size, fun fuel hfuel => ⟨t.operations, hrun hfuel, heq.symm, fun e he => ?_⟩⟩
    exact (h.op_of_mem he).symm

/-- An instruction that reads and writes at one address: the lists `ReadOp` and `WriteOp`, which
both begin with `EffAddr`. -/
def modifyLists : Heap
  | ⟨0, 0⟩ => ⟨.kExecuteSublist, 0, 0, ⟨1, 0⟩⟩
  | ⟨0, 1⟩ => ⟨.kExecuteSublist, 0, 0, ⟨2, 0⟩⟩
  | ⟨1, 0⟩ => ⟨.kExecuteSublist, 0, kNoDuplicateList, ⟨3, 0⟩⟩
  | ⟨1, 1⟩ => ⟨.kReadNoSegment, 0, 1, ⟨0, 0⟩⟩
  | ⟨2, 0⟩ => ⟨.kExecuteSublist, 0, kNoDuplicateList, ⟨3, 0⟩⟩
  | ⟨2, 1⟩ => ⟨.kWriteNoSegment, 0, 1, ⟨0, 0⟩⟩
  | ⟨3, 0⟩ => ⟨.kReadImm, 1, 3, ⟨0, 0⟩⟩
  | _ => ⟨.kEnd, 0, 0, ⟨0, 0⟩⟩

/-- `ReadOp` at list 1 and `WriteOp` at list 2. -/
def modifyHalf (list : ℕ) : OpTree :=
  .sub true ⟨3, 0⟩ (.op (modifyLists ⟨3, 0⟩) .done) (.op (modifyLists ⟨list, 1⟩) .done)

theorem unfolds_effAddr : Unfolds modifyLists ⟨3, 0⟩ (.op (modifyLists ⟨3, 0⟩) .done) :=
  .op (by decide) (by decide) (.done rfl)

theorem unfolds_readOp : Unfolds modifyLists ⟨1, 0⟩ (modifyHalf 1) :=
  .sub rfl rfl unfolds_effAddr (.op (by decide) (by decide) (.done rfl))

theorem unfolds_writeOp : Unfolds modifyLists ⟨2, 0⟩ (modifyHalf 2) :=
  .sub rfl rfl unfolds_effAddr (.op (by decide) (by decide) (.done rfl))

theorem buildOpsList_flatten_readOp : ∃ n, ∀ fuel, n ≤ fuel → ∃ out,
    buildOpsList modifyLists fuel [] [] ⟨1, 0⟩ = some ([] ++ out) ∧
      out = (modifyHalf 1).flatten [] ∧ ∀ e ∈ out, e.op ≠ .kExecuteSublist ∧ e.op ≠ .kEnd :=
  (buildOpsList_flatten_iff unfolds_readOp []).mpr (by simp [OpTree.NoRepeats, modifyHalf])

/-- The address is computed for the read and, again, for the write. -/
theorem buildOpsList_modify :
    Unfolds modifyLists ⟨0, 0⟩ (.sub false ⟨1, 0⟩ (modifyHalf 1)
        (.sub false ⟨2, 0⟩ (modifyHalf 2) .done)) ∧
      (OpTree.sub false ⟨1, 0⟩ (modifyHalf 1) (.sub false ⟨2, 0⟩ (modifyHalf 2) .done)).flatten [] =
        [modifyLists ⟨3, 0⟩, modifyLists ⟨1, 1⟩, modifyLists ⟨2, 1⟩] ∧
      ∀ fuel, 20 ≤ fuel → buildOpsList modifyLists fuel [] [] ⟨0, 0⟩ =
        some [modifyLists ⟨3, 0⟩, modifyLists ⟨1, 1⟩, modifyLists ⟨3, 0⟩, modifyLists ⟨2, 1⟩] := by
  have h : Unfolds modifyLists ⟨0, 0⟩ (.sub false ⟨1, 0⟩ (modifyHalf 1)
      (.sub false ⟨2, 0⟩ (modifyHalf 2) .done)) :=
    .sub rfl rfl unfolds_readOp (.sub rfl rfl unfolds_writeOp (.done rfl))
  refine ⟨h, by decide, fun fuel hfuel => ?_⟩
  have hs : (OpTree.sub false ⟨1, 0⟩ (modifyHalf 1) (.sub false ⟨2, 0⟩ (modifyHalf 2)
    .done)).size ≤ 20 := by decide
  exact buildOpsList_unfolds h (by simp) (.inl rfl) [] (Nat.le_trans hs hfuel)

end RetroCpu.Jit
