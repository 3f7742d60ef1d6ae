import RetroCpu.Wdc65816.Trace

/-!
# The operand bytes of an instruction

The operand bytes are the first accesses of an instruction after its opcode.  They ought to
follow the opcode in its bank, coming round from `FFFF` to `0000`.  `ReadPBR` on a byte masks
the address it is given, while `ReadPBR` on a word masks only the address of the low byte and
takes the high byte from one above it, and `ALR` and `ANC` read where the opcode is.

`fetches_iff` says for each entry of the opcode tables when the operand bytes are the right
ones.
-/

namespace RetroCpu

open WordBytes Machine StateFn

/-- The location `ReadPBR` reads a byte at. -/
def Core.codeByte (c : Core) (addr : CpuAddr) : BitVec 24 :=
  (c.codeSegmentBase ||| (addr &&& 0xFFFF)).setWidth 24

/-- The locations `ReadPBR` reads a value of width `s` at. -/
def Core.codeBytes (c : Core) (s : Size) (addr : CpuAddr) : List (BitVec 24) :=
  match s with
  | .u8 => [c.codeByte addr]
  | .u16 => [c.codeByte addr, c.codeByte addr + 1]

/-- The locations an operand of `n` bytes is read at: a byte, a word, or a word and a byte. -/
def Core.fetched (c : Core) : ℕ → List (BitVec 24)
  | 0 => []
  | 1 => c.codeBytes .u8 (c.ip + 1)
  | 2 => c.codeBytes .u16 (c.ip + 1)
  | _ => c.codeBytes .u16 (c.ip + 1) ++ c.codeBytes .u8 (c.ip + 3)

/-- The `n` locations after the opcode in its bank. -/
def Core.afterOpcode (c : Core) (n : ℕ) : List (BitVec 24) :=
  (List.range n).map fun i => c.programBank ++ (c.pc + 1 + BitVec.ofNat 16 i)

def JmpAddr.operandBytes : JmpAddr → ℕ
  | abs | ind _ _ | indAbsX => 2
  | absLong => 3

/-- The operand bytes an instruction reads.  `BRK`, `COP`, `WDM` and the long `NOP`s pass over
theirs. -/
def Op.operandBytes : Op → ℕ
  | nop _ _ | brk | cop | wdm => 0
  | jmp addr _ _ => addr.operandBytes
  | op => op.kBytes - 1

variable {β : Type} [Bus β]

/-- The locations of the first `n` accesses after the opcode. -/
def Machine.operandFetches (m : Machine β) (n : ℕ) : List (BitVec 24) :=
  ((m.accesses.drop 1).take n).map (·.addr)

/-- A word of code, a byte at a time. -/
def Machine.readPBRBytes (addr : CpuAddr) : Exec β Word := do
  let low : Byte ← readPBR .u8 addr
  let high : Byte ← readPBR .u8 (addr + 1)
  return high ++ low

/-- The operand bytes of an instruction are those after its opcode, and a word among them is
the word of its two bytes. -/
structure FetchesInBank (op : Op) (m : Machine β) : Prop where
  operands : m.operandFetches op.operandBytes = m.core.afterOpcode op.operandBytes
  word : 2 ≤ op.operandBytes → ∀ m' : Machine β, m'.core = m.core →
    readPBR .u16 (m.core.ip + 1) m' = readPBRBytes (m.core.ip + 1) m'

/-- What `ALR`, `ANC` and the other instructions read as their operand. -/
def Op.fetched (op : Op) (c : Core) : List (BitVec 24) :=
  match op with
  | alr | anc => [c.codeByte c.ip]
  | op => c.fetched op.operandBytes

/-! ### What the code reads -/

/-- The next accesses of `x` are at the locations `l`. -/
def FetchesAt {α : Type} (l : List (BitVec 24)) (x : Exec (Traced β) α)
    (m : Machine (Traced β)) : Prop :=
  m.bus.trace.map (·.addr) ++ l <+: (x m).2.bus.trace.map (·.addr)

namespace FetchesAt

omit [Bus β]

variable {α γ : Type} {l l' : List (BitVec 24)} {m : Machine (Traced β)}

theorem nil {x : Exec (Traced β) α} (hx : Within Extends 0 x) : FetchesAt [] x m := by
  rw [FetchesAt, List.append_nil]
  exact (hx m).map _

theorem bind {x : Exec (Traced β) α} {y : α → Exec (Traced β) γ} (hx : FetchesAt l x m)
    (hy : ∀ a, Within Extends 0 (y a)) : FetchesAt l (x >>= y) m :=
  hx.trans ((hy _ _).map _)

/-- Two fetches, the first of which is exact. -/
theorem append {x : Exec (Traced β) α} {y : α → Exec (Traced β) γ}
    (hx : (x m).2.bus.trace.map (·.addr) = m.bus.trace.map (·.addr) ++ l)
    (hy : FetchesAt l' (y (x m).1) (x m).2) : FetchesAt (l ++ l') (x >>= y) m := by
  rw [FetchesAt, hx] at hy
  rw [FetchesAt, ← List.append_assoc]
  exact hy

end FetchesAt

theorem trace_readPBR (s : Size) (addr : CpuAddr) (m : Machine (Traced β)) :
    (readPBR s addr m).2.bus.trace.map (·.addr) =
      m.bus.trace.map (·.addr) ++ m.core.codeBytes s addr := by
  have hone : ∀ a : CpuAddr, (a + 1).setWidth 24 = a.setWidth 24 + 1 := fun a => by
    rw [BitVec.setWidth_add _ _ (by decide)]
    rfl
  cases s with
  | u8 => exact List.map_append
  | u16 =>
    show ((m.bus.trace ++ _) ++ _).map _ = _
    rw [List.map_append, List.map_append, List.append_assoc]
    show _ ++ [_, BitVec.setWidth 24 (_ + 1)] = _
    rw [hone]
    rfl

theorem fetchesAt_readPBR_bind {α : Type} {s : Size} {y : Val s → Exec (Traced β) α}
    (hy : ∀ v, Within Extends 0 (y v)) (addr : CpuAddr) (m : Machine (Traced β)) :
    FetchesAt (m.core.codeBytes s addr) (readPBR s addr >>= y) m := by
  have hx : FetchesAt (m.core.codeBytes s addr) (readPBR s addr) m := by
    rw [FetchesAt, trace_readPBR]
  exact hx.bind hy

/-- An instruction that starts with a read of its operand. -/
theorem fetchesAt_readPBR {α : Type} {s : Size} {n : CpuAddr} {y : Val s → Exec (Traced β) α}
    (hy : ∀ v, Within Extends 0 (y v)) (m : Machine (Traced β)) :
    FetchesAt (m.core.codeBytes s (m.core.ip + n))
      (do let v ← readPBR s ((← getCore (·.ip)) + n); y v) m := by
  rw [FetchesAt, bind_apply]
  exact fetchesAt_readPBR_bind hy (m.core.ip + n) m

/-- An instruction that starts with a read of its own opcode. -/
theorem fetchesAt_readOpcode {α : Type} {s : Size} {y : Val s → Exec (Traced β) α}
    (hy : ∀ v, Within Extends 0 (y v)) (m : Machine (Traced β)) :
    FetchesAt (m.core.codeBytes s m.core.ip)
      (do let v ← readPBR s (← getCore (·.ip)); y v) m := by
  rw [FetchesAt, bind_apply]
  exact fetchesAt_readPBR_bind hy m.core.ip m

/-- A word and the byte after it. -/
theorem fetchesAt_readLong {α : Type} {y : Word → Byte → Exec (Traced β) α}
    (hy : ∀ addr bank, Within Extends 0 (y addr bank)) (m : Machine (Traced β)) :
    FetchesAt (m.core.fetched 3) (do
      let addr ← readPBR .u16 ((← getCore (·.ip)) + 1)
      let bank ← readPBR .u8 ((← getCore (·.ip)) + 3)
      y addr bank) m := by
  have hbank (addr : Word) : FetchesAt (m.core.codeBytes .u8 (m.core.ip + 3))
      (do let bank ← readPBR .u8 ((← getCore (·.ip)) + 3); y addr bank)
      (readPBR .u16 (m.core.ip + 1) m).2 :=
    fetchesAt_readPBR (s := .u8) (hy addr) (readPBR .u16 (m.core.ip + 1) m).2
  have h := FetchesAt.append (y := fun addr : Word => do
      let bank ← readPBR .u8 ((← getCore (·.ip)) + 3)
      y addr bank) (trace_readPBR .u16 (m.core.ip + 1) m) (hbank _)
  rw [FetchesAt, bind_apply]
  exact h

namespace AddrKind

theorem fetchesAt_calcAbs (offsetReg : Option Reg) (check : Bool) (m : Machine (Traced β)) :
    FetchesAt (m.core.fetched 2) (calcAbs offsetReg check) m :=
  fetchesAt_readPBR (s := .u16) (fun _ => extends_of_course (f := {})
    (graded_course.bind (course_getCore _) fun _ =>
      graded_course.bind (graded_course.when fun _ => course_internalOp 1) fun _ =>
      graded_course.bind (course_getCore _) fun _ => graded_course.pure _)) m

theorem fetchesAt_calcDirect (offsetReg : Option Reg) (emulation : Bool)
    (m : Machine (Traced β)) : FetchesAt (m.core.fetched 1) (calcDirect offsetReg emulation) m := by
  have hrest (v : Byte) : Within (Extends (β := β)) 0 (do
      let d ← getCore (·.d)
      let direct : CpuAddr := d.setWidth 32
      let sum : CpuAddr := (← getCore (·.offset offsetReg)) + Val.toU32 (s := .u8) v
      when (lo d != 0) internalOp
      if emulation && lo d == 0 then
        return if offsetReg.isSome then 0x80000000 ||| direct ||| (sum &&& 0xFF)
          else 0x80000000 ||| (direct + Val.toU32 (s := .u8) v)
      else
        when (offsetReg.isSome && 0xFF < sum) internalOp
        return direct + sum) :=
    extends_of_course (f := {})
      (graded_course.bind (course_getCore _) fun _ => graded_course.bind (course_getCore _) fun _ =>
        graded_course.bind (graded_course.when fun _ => course_internalOp 1) fun _ =>
        graded_course.ite _ (fun _ => graded_course.pure _) fun _ =>
          graded_course.bind (graded_course.when fun _ => course_internalOp 1) fun _ =>
            graded_course.pure _)
  cases offsetReg with
  | none => exact fetchesAt_readPBR (s := .u8) hrest m
  | some r => exact fetchesAt_readPBR (s := .u8) hrest (internalOp 1 m).2

/-- The operand bytes an addressing template reads to compute an address. -/
theorem fetchesAt_calcEffectiveAddress (k : AddrKind) (hk : ∀ e, k ≠ .imm e)
    (m : Machine (Traced β)) : FetchesAt (m.core.fetched k.bytes) k.calcEffectiveAddress m := by
  have hS := graded_course (β := Traced β) (A := Footprint.allowance {} True)
  cases k with
  | a => exact FetchesAt.nil (graded_extends.pure _)
  | imm e => exact absurd rfl (hk e)
  | abs => exact fetchesAt_calcAbs _ _ m
  | absX => exact fetchesAt_calcAbs _ _ m
  | absY => exact fetchesAt_calcAbs _ _ m
  | absLong => exact fetchesAt_readLong (fun _ _ => graded_extends.pure _) m
  | absLongX =>
    exact fetchesAt_readLong (fun _ _ => graded_extends.bind (graded_extends.get _) fun _ =>
      graded_extends.pure _) m
  | direct => exact fetchesAt_calcDirect _ _ m
  | directX => exact fetchesAt_calcDirect _ _ m
  | directY => exact fetchesAt_calcDirect _ _ m
  | directIndirect =>
    exact fetchesAt_readPBR (s := .u8) (fun _ => extends_of_course (f := {})
      (hS.bind (course_getCore _) fun _ => hS.bind (course_readZero .u16 _) fun _ =>
        hS.bind (course_getCore _) fun _ => hS.pure _)) m
  | directIndirectX =>
    exact (fetchesAt_calcDirect _ _ m).bind fun _ => extends_of_course (f := {})
      (hS.bind (course_readZeroOp _ .u16 _) fun _ => hS.bind (course_getCore _) fun _ => hS.pure _)
  | directIndirectY =>
    exact (fetchesAt_calcDirect _ _ m).bind fun _ => extends_of_course (f := {})
      (hS.bind (course_readZeroOp _ .u16 _) fun _ =>
        hS.bind (course_getCore _) fun _ => hS.bind (course_getCore _) fun _ =>
        hS.bind (hS.when fun _ => course_internalOp 1) fun _ =>
        hS.bind (course_getCore _) fun _ => hS.pure _)
  | directIndirectLong =>
    exact fetchesAt_readPBR (s := .u8) (fun _ => extends_of_course (f := {})
      (hS.bind (course_getCore _) fun _ => hS.bind (course_readZero .u16 _) fun _ =>
        hS.bind (course_readZero .u8 _) fun _ => hS.pure _)) m
  | directIndirectLongY =>
    refine FetchesAt.bind (x := calcDirectIndirectLong) ?_ fun _ =>
      graded_extends.bind (graded_extends.get _) fun _ => graded_extends.pure _
    exact fetchesAt_readPBR (s := .u8) (fun _ => extends_of_course (f := {})
      (hS.bind (course_getCore _) fun _ => hS.bind (course_readZero .u16 _) fun _ =>
        hS.bind (course_readZero .u8 _) fun _ => hS.pure _)) m
  | stack => exact fetchesAt_readPBR (s := .u8) (fun _ =>
      graded_extends.bind (graded_extends.get _) fun _ => graded_extends.pure _) m
  | stackY =>
    exact fetchesAt_readPBR (s := .u8) (fun _ => extends_of_course (f := {})
      (hS.bind (course_getCore _) fun _ => hS.bind (course_readZero .u16 _) fun _ =>
        hS.bind (course_getCore _) fun _ => hS.bind (course_getCore _) fun _ => hS.pure _)) m

end AddrKind

namespace AddrMode

/-- The operand bytes of an access to an operand. -/
theorem Accesses.fetchesAt {am : AddrMode} {s : Size} {x : Exec (Traced β) Unit}
    (h : am.Accesses s x) (m : Machine (Traced β)) :
    FetchesAt (m.core.fetched am.kind.bytes) x m := by
  cases hk : am.kind with
  | a =>
    refine FetchesAt.nil fun m => ?_
    have ha : am.kind.access = .accumulator := by rw [hk]; rfl
    cases h with
    | read hs =>
      unfold AddrMode.read
      rw [ha]
      exact List.prefix_rfl
    | write hs v =>
      unfold AddrMode.write
      rw [ha]
      exact List.prefix_rfl
    | modify hs hfn =>
      unfold AddrMode.modify
      rw [ha]
      exact extends_of_keepsBus (hfn _) m
  | imm e =>
    cases h with
    | read hs =>
      have hfetch : FetchesAt (m.core.codeBytes e (m.core.ip + 1))
          (readPBR e (m.core.ip + 1)) m := by
        rw [FetchesAt, trace_readPBR]
      unfold AddrMode.read
      rw [← hs e hk, hk]
      cases e <;> exact hfetch
    | write hs v => exact absurd hk (hs e)
    | modify hs hfn => exact absurd hk (hs e)
  | _ =>
    rw [← hk]
    have hi : ∀ e, am.kind ≠ .imm e := fun e he => nomatch hk.symm.trans he
    exact (am.kind.fetchesAt_calcEffectiveAddress hi m).trans
      ((h.trace_prefix (fun ha => nomatch hk.symm.trans ha) hi m).map _)

end AddrMode

theorem JmpAddr.fetchesAt_calcEffectiveAddress (j : JmpAddr) (m : Machine (Traced β)) :
    FetchesAt (m.core.fetched j.operandBytes) j.calcEffectiveAddress m := by
  have hS := graded_course (β := Traced β) (A := Footprint.allowance {} True)
  cases j with
  | abs => exact AddrKind.fetchesAt_calcAbs none false m
  | absLong => exact fetchesAt_readLong (fun _ _ => graded_extends.pure _) m
  | ind isLong wrap =>
    exact fetchesAt_readPBR (s := .u16) (fun _ => extends_of_course (f := {})
      (hS.bind (course_readLoHi _ _) fun _ => hS.ite _
        (fun _ => hS.bind (course_readZero .u8 _) fun _ => hS.pure _) fun _ => hS.pure _)) m
  | indAbsX =>
    exact fetchesAt_readPBR (s := .u16) (fun _ => extends_of_course (f := {})
      (hS.bind (course_getCore _) fun _ => hS.bind (course_readPBR .u16 _) fun _ => hS.pure _)) m

namespace Op

theorem fetched_of_operand {op : Op} {am : AddrMode} {s : Size} (h : op.operand = some (am, s))
    (c : Core) : op.fetched c = c.fetched am.kind.bytes := by
  have hb : op.kBytes - 1 = am.kind.bytes → c.fetched (op.kBytes - 1) = c.fetched am.kind.bytes :=
    congrArg c.fetched
  cases op <;> cases h <;> exact hb (Nat.add_sub_cancel_left 1 _)

/-- **The first accesses of an instruction after its opcode are to its operand bytes.** -/
theorem exec_fetchesAt {op : Op} (hop : op.wellSized = true) (m : Machine (Traced β)) :
    FetchesAt (op.fetched m.core) op.exec m := by
  have hS {f : Footprint} := graded_course (β := Traced β) (A := f.allowance True)
  have hB := graded_keepsBus (β := Traced β)
  cases ho : op.operand with
  | some o =>
    obtain ⟨am, s⟩ := o
    obtain ⟨a, x, hx, hbus⟩ := exec_operand hop ho m
    rw [fetched_of_operand ho, FetchesAt, hbus]
    exact hx.fetchesAt { m with core := { m.core with a := a } }
  | none =>
    cases op with
    | rep =>
      exact fetchesAt_readPBR (s := .u8) (fun _ => extends_of_course (f := rep.footprint)
        (hS.bind (course_addIp _) fun _ =>
          course_update fun c => .rep c ⟨rfl, rfl, rfl⟩ _)) m
    | sep =>
      exact fetchesAt_readPBR (s := .u8) (fun _ => extends_of_course (f := sep.footprint)
        (hS.bind (course_addIp _) fun _ =>
          course_update fun c => .sep c ⟨rfl, rfl, rfl⟩ _)) m
    | branch =>
      exact fetchesAt_readPBR (s := .u8) (fun _ => extends_of_course (f := {})
        (hS.bind (course_getCore _) fun _ => hS.bind (hS.when fun _ =>
          hS.bind (course_internalOp 1) fun _ => course_addIp _) fun _ => course_addIp _)) m
    | brl =>
      exact fetchesAt_readPBR (s := .u16) (fun _ =>
        extends_of_course (f := {}) (course_addIp _)) m
    | pea =>
      exact fetchesAt_readPBR (s := .u16) (fun _ => extends_of_course (f := {})
        (hS.bind (course_push (s := .u16) _) fun _ => course_addIp _)) m
    | per =>
      exact fetchesAt_readPBR (s := .u16) (fun _ => extends_of_course (f := {})
        (hS.bind (course_addIp _) fun _ => hS.bind (course_getCore _) fun _ =>
          course_push (s := .u16) _)) m
    | mvn | mvp =>
      exact fetchesAt_readPBR (s := .u16) (fun _ => extends_of_course (f := mvn.footprint)
        (hS.bind (course_blockMove ⟨rfl, rfl, rfl, rfl, rfl⟩ _ _ _) fun _ =>
          hS.when fun _ => course_addIp _)) m
    | pei =>
      have hacc : (addrDirect .u16 .u16).Accesses (β := Traced β) .u16
          (do let _ ← (addrDirect .u16 .u16).read .u16) := .read nofun
      have hread : FetchesAt (m.core.fetched 1) ((addrDirect .u16 .u16).read .u16) m :=
        hacc.fetchesAt m
      exact hread.bind fun _ =>
        extends_of_course (f := {}) (hS.bind (course_addIp _) fun _ => course_push (s := .u16) _)
    | jmp j pushPc isLong =>
      exact (j.fetchesAt_calcEffectiveAddress m).bind fun _ =>
        extends_of_course (f := { programBank := .full })
          (hS.bind (hS.when fun _ => hS.bind (hS.when fun _ =>
              hS.bind (course_getCore _) fun _ => course_push (s := .u8) _) fun _ =>
            hS.bind (course_getCore _) fun _ => course_push (s := .u16) _) fun _ =>
          hS.bind (hS.when fun _ => course_programBank rfl _) fun _ =>
          hS.bind (course_internalOp _) fun _ => course_flags fun _ => rfl)
    | alr | anc =>
      exact fetchesAt_readOpcode (s := .u8)
        (fun _ => extends_of_keepsBus (hB.bind (keepsBus_update _) fun _ =>
          hB.bind (keepsBus_update _) fun _ => hB.bind (keepsBus_update _) fun _ =>
          keepsBus_addIp _)) m
    | xce => exact FetchesAt.nil fun _ => List.prefix_rfl
    | tsb | trb | bit | bitImm | alu | asl | lsr | ror | rol | incMem | decMem | stz | adc | sbc
    | cmp | lax | sax | cpx | cpy | load | store => exact absurd ho nofun
    | _ => exact FetchesAt.nil (extends_of_course (course_exec _ nofun))

end Op

/-! ### Where the operand bytes ought to be -/

theorem toNat_codeAddr (bank : Byte) (addr : CpuAddr) :
    (bank.setWidth 32 <<< 16 ||| (addr &&& 0xFFFF)).toNat =
      bank.toNat * 65536 + (addr.setWidth 16).toNat := by
  have hb := bank.isLt
  have hw := (addr.setWidth 16).isLt
  have ha : ((addr.setWidth 16).setWidth 32).toNat = (addr.setWidth 16).toNat := by
    rw [BitVec.toNat_setWidth]
    omega
  have hs : (bank.setWidth 32 <<< 16).toNat = bank.toNat <<< 16 := by
    rw [BitVec.toNat_shiftLeft, BitVec.toNat_setWidth, Nat.shiftLeft_eq, Nat.shiftLeft_eq]
    omega
  rw [BitVec.toNat_or, and_wordMask, ha, hs, ← Nat.shiftLeft_add_eq_or_of_lt hw, Nat.shiftLeft_eq]

theorem toNat_bank_append (bank : Byte) (w : Word) :
    (bank ++ w).toNat = bank.toNat * 65536 + w.toNat := by
  rw [BitVec.toNat_append, ← Nat.shiftLeft_add_eq_or_of_lt w.isLt, Nat.shiftLeft_eq]

/-- One location up is the next in the bank, unless the bank ends. -/
theorem bank_append_succ (bank : Byte) (w : Word) :
    (bank ++ w : BitVec 24) + 1 = bank ++ (w + 1) ↔ w ≠ 0xFFFF := by
  have hb := bank.isLt
  have h := toNat_bank_append bank w
  have h' := toNat_bank_append bank (w + 1)
  constructor
  · rintro he rfl
    rw [← BitVec.toNat_inj, h', BitVec.toNat_add, h] at he
    have h0 : ((0xFFFF : Word) + 1).toNat = 0 := by decide
    have h1 : (0xFFFF : Word).toNat = 65535 := by decide
    have h2 : (1 : BitVec 24).toNat = 1 := by decide
    rw [h0, h1, h2] at he
    omega
  · intro hw
    have hs : (w + 1).toNat = w.toNat + 1 := by bv_omega
    rw [← BitVec.toNat_inj, h', BitVec.toNat_add, h, hs]
    have h2 : (1 : BitVec 24).toNat = 1 := by decide
    have := w.isLt
    have : (w + 1).toNat < 65536 := (w + 1).isLt
    rw [h2]
    omega

namespace Core

variable {c : Core} {bank : Byte}

theorem codeByte_eq (hb : c.codeSegmentBase = bank.setWidth 32 <<< 16) (addr : CpuAddr) :
    c.codeByte addr = bank ++ addr.setWidth 16 := by
  have h := toNat_codeAddr bank addr
  have hb' := bank.isLt
  have hw := (addr.setWidth 16).isLt
  rw [codeByte, hb, ← BitVec.toNat_inj, BitVec.toNat_setWidth, h, toNat_bank_append]
  omega

theorem setWidth_ip_add (c : Core) (n : CpuAddr) :
    (c.ip + n).setWidth 16 = c.pc + n.setWidth 16 :=
  BitVec.setWidth_add _ _ (by decide)

/-- An operand is read where it ought to be, unless its second byte is in the next bank. -/
theorem fetched_eq_afterOpcode (hb : c.codeSegmentBase = bank.setWidth 32 <<< 16) {n : ℕ}
    (hn : n ≤ 3) : c.fetched n = c.afterOpcode n ↔ (2 ≤ n → c.pc ≠ 0xFFFE) := by
  have hbank : c.programBank = bank := by rw [programBank, hb, bank_shift]
  have hlow : c.codeByte (c.ip + 1) = bank ++ (c.pc + 1) := by
    rw [codeByte_eq hb, setWidth_ip_add]
    rfl
  have hbyte : c.codeByte (c.ip + 3) = bank ++ (c.pc + 1 + 2) := by
    rw [codeByte_eq hb, setWidth_ip_add, BitVec.add_assoc]
    rfl
  have hhigh : c.codeByte (c.ip + 1) + 1 = bank ++ (c.pc + 1 + 1) ↔ c.pc ≠ 0xFFFE := by
    rw [hlow, bank_append_succ]
    refine not_congr ⟨fun h => ?_, fun h => by rw [h]; decide⟩
    bv_omega
  have hfirst : c.pc + 1 + 0 = c.pc + 1 := BitVec.add_zero _
  match n, hn with
  | 0, _ => exact ⟨fun _ h => absurd h (by decide), fun _ => rfl⟩
  | 1, _ =>
    refine ⟨fun _ h => absurd h (by decide), fun _ => ?_⟩
    show [c.codeByte (c.ip + 1)] = [c.programBank ++ (c.pc + 1 + 0)]
    rw [hlow, hbank, hfirst]
  | 2, _ =>
    show [c.codeByte (c.ip + 1), c.codeByte (c.ip + 1) + 1] =
      [c.programBank ++ (c.pc + 1 + 0), c.programBank ++ (c.pc + 1 + 1)] ↔ _
    rw [hbank, hfirst, hlow]
    rw [hlow] at hhigh
    simp only [List.cons.injEq, true_and, and_true, hhigh, le_refl, forall_const]
  | 3, _ =>
    show [c.codeByte (c.ip + 1), c.codeByte (c.ip + 1) + 1, c.codeByte (c.ip + 3)] =
      [c.programBank ++ (c.pc + 1 + 0), c.programBank ++ (c.pc + 1 + 1),
        c.programBank ++ (c.pc + 1 + 2)] ↔ _
    rw [hbank, hfirst, hbyte, hlow]
    rw [hlow] at hhigh
    simp only [List.cons.injEq, true_and, and_true, hhigh, Nat.reduceLeDiff, forall_const]

end Core

theorem AddrKind.bytes_le (k : AddrKind) : k.bytes ≤ 3 := by
  cases k with
  | imm e => cases e <;> decide
  | _ => exact Nat.le_of_ble_eq_true rfl

theorem Op.operandBytes_le (op : Op) : op.operandBytes ≤ 3 := by
  have hm : ∀ m : AddrMode, 1 + m.kind.bytes - 1 ≤ 3 := fun m => by
    rw [Nat.add_sub_cancel_left]
    exact m.kind.bytes_le
  cases op with
  | jmp addr => cases addr <;> exact Nat.le_of_ble_eq_true rfl
  | tsb m | trb m | bit m | bitImm m | alu _ m | asl m | lsr m | ror m | rol m | incMem m
  | decMem m | load m | store m | stz m | adc m | sbc m | cmp m | cpx m | cpy m | lax m | sax m =>
    exact hm m
  | _ => exact Nat.le_of_ble_eq_true rfl

theorem Core.length_fetched (c : Core) {n : ℕ} (hn : n ≤ 3) : (c.fetched n).length = n := by
  match n, hn with
  | 0, _ | 1, _ | 2, _ | 3, _ => rfl

theorem Op.fetched_eq {op : Op} (h : op ≠ alr) (h' : op ≠ anc) (c : Core) :
    op.fetched c = c.fetched op.operandBytes := by
  cases op with
  | alr => exact absurd rfl h
  | anc => exact absurd rfl h'
  | _ => rfl

theorem Op.length_fetched (op : Op) (c : Core) : (op.fetched c).length = op.operandBytes := by
  by_cases h : op = alr
  · rw [h]
    rfl
  · by_cases h' : op = anc
    · rw [h']
      rfl
    · rw [fetched_eq h h', c.length_fetched op.operandBytes_le]

/-- **The operand fetches of an instruction are what its handler reads.** -/
theorem Machine.operandFetches_eq {m : Machine β} {op : Op} (hw : op.wellSized = true)
    (hop : m.handler = some op) : m.operandFetches op.operandBytes = op.fetched m.core := by
  obtain ⟨rest, hrest⟩ := Op.exec_fetchesAt hw (fetch m.traced).2
  rw [trace_fetch, ← accesses_eq hop] at hrest
  rw [operandFetches, List.map_take, List.map_drop, ← hrest, List.map_cons, List.map_nil,
    List.append_assoc, List.singleton_append, List.drop_succ_cons, List.drop_zero,
    ← op.length_fetched m.core]
  exact List.take_left

/-- The address of the second byte of a word, for a word that does not end its bank. -/
theorem codeAddr_succ {base addr : CpuAddr} {bank : Byte} (hb : base = bank.setWidth 32 <<< 16)
    (h : addr.setWidth 16 ≠ (0xFFFF : Word)) :
    (base ||| (addr &&& 0xFFFF)) + 1 = base ||| ((addr + 1) &&& 0xFFFF) := by
  subst hb
  have hbank := bank.isLt
  have hw := (addr.setWidth 16).isLt
  have h1 := toNat_codeAddr bank addr
  have h2 := toNat_codeAddr bank (addr + 1)
  have hs : (addr + 1).setWidth 16 = addr.setWidth 16 + 1 := BitVec.setWidth_add _ _ (by decide)
  have hn : (addr.setWidth 16 + 1 : Word).toNat = (addr.setWidth 16).toNat + 1 := by bv_omega
  rw [hs, hn] at h2
  rw [← BitVec.toNat_inj, h2, BitVec.toNat_add, h1, show (1 : CpuAddr).toNat = 1 from rfl]
  omega

theorem readPBR_eq_readPBRBytes {m : Machine β} {bank : Byte}
    (hb : m.core.codeSegmentBase = bank.setWidth 32 <<< 16) {addr : CpuAddr}
    (h : addr.setWidth 16 ≠ (0xFFFF : Word)) : readPBR .u16 addr m = readPBRBytes addr m := by
  have hw : readPBR .u16 addr m = readLoHi (m.core.codeSegmentBase ||| (addr &&& 0xFFFF))
      ((m.core.codeSegmentBase ||| (addr &&& 0xFFFF)) + 1) m := rfl
  rw [hw, codeAddr_succ hb h]
  rfl

/-- **The operand bytes an instruction reads are those after its opcode, in its bank, unless it
has two of them and the second is over the end of the bank, or it is `ALR` or `ANC`.**  It holds
for every mode, program bank and program counter and for every opcode of the mode. -/
theorem fetchesInBank_iff {mode : Mode} {m : Machine β} {op : Op} {bank : Byte}
    (hrow : m.core.currentInstructionSet = execOps mode) (hop : m.handler = some op)
    (hb : m.core.codeSegmentBase = bank.setWidth 32 <<< 16) :
    FetchesInBank op m ↔
      op ≠ .alr ∧ op ≠ .anc ∧ (2 ≤ op.operandBytes → m.core.pc ≠ 0xFFFE) := by
  have hw : op.wellSized = true := by
    have hmem : some op ∈ execOps mode := by
      rw [← hrow]
      exact InstructionSet.mem_of_at hop
    exact List.all_eq_true.mp (Op.wellSized_row mode) _ hmem
  have hfetch := operandFetches_eq hw hop
  have hat := Core.fetched_eq_afterOpcode hb op.operandBytes_le
  have hself : [m.core.codeByte m.core.ip] ≠ m.core.afterOpcode 1 := by
    intro h
    have h1 : m.core.programBank = bank := by rw [Core.programBank, hb, Core.bank_shift]
    have h2 := List.head_eq_of_cons_eq h
    rw [Core.codeByte_eq hb, h1, ← BitVec.toNat_inj, toNat_bank_append, toNat_bank_append] at h2
    have h3 : (m.core.ip.setWidth 16).toNat = (m.core.pc + 1 + BitVec.ofNat 16 0).toNat :=
      Nat.add_left_cancel h2
    rw [BitVec.toNat_inj, Core.pc] at h3
    bv_omega
  constructor
  · intro h
    have ho := h.operands
    rw [hfetch] at ho
    have halr : op ≠ .alr := by
      rintro rfl
      exact hself ho
    have hanc : op ≠ .anc := by
      rintro rfl
      exact hself ho
    rw [Op.fetched_eq halr hanc, hat] at ho
    exact ⟨halr, hanc, ho⟩
  · rintro ⟨halr, hanc, hpc⟩
    refine ⟨?_, fun h m' hm' => ?_⟩
    · rw [hfetch, Op.fetched_eq halr hanc, hat]
      exact hpc
    · refine readPBR_eq_readPBRBytes (hm' ▸ hb) fun he => hpc h ?_
      rw [Core.pc]
      bv_omega

/-- `LDA $1234`. -/
theorem fetchesInBank_lda :
    FetchesInBank (.lda (addrAbs .u8 .u8)) (running [0xAD, 0x34, 0x12]) := by
  have hrow : (running [0xAD, 0x34, 0x12]).core.currentInstructionSet = execOps .emulation := by
    decide +kernel
  have hop : (running [0xAD, 0x34, 0x12]).handler = some (.lda (addrAbs .u8 .u8)) := by
    decide +kernel
  have hb : (running [0xAD, 0x34, 0x12]).core.codeSegmentBase =
      (0 : Byte).setWidth 32 <<< 16 := by decide +kernel
  refine (fetchesInBank_iff hrow hop hb).mpr ⟨nofun, nofun, fun _ => ?_⟩
  decide +kernel

/-- A CPU whose reset vector is `FFFE`, with the opcode of `LDA` from an absolute address
there, after `PowerOn`. -/
def Machine.runningAtEnd : Machine (SystemBus Unit) :=
  (powerOn (construct default (SystemBus.simple 24 fun addr =>
    if addr = 0xFFFC then 0xFE else if addr = 0xFFFD then 0xFF else
      if addr = 0xFFFE then 0xAD else 0))).2

/-- The second byte of the address is read from bank 1, and `ANC` reads its own opcode. -/
theorem not_fetchesInBank_examples :
    (runningAtEnd.handler = some (.lda (addrAbs .u8 .u8)) ∧
      runningAtEnd.operandFetches 2 = [0x00FFFF, 0x010000] ∧
      ¬FetchesInBank (.lda (addrAbs .u8 .u8)) runningAtEnd) ∧
    (powerOn (nes [0x0B, 0xF0])).2.handler = some .anc ∧
      (powerOn (nes [0x0B, 0xF0])).2.operandFetches 1 = [0x000200] ∧
      ¬FetchesInBank .anc (powerOn (nes [0x0B, 0xF0])).2 := by
  have hf : runningAtEnd.operandFetches 2 = [0x00FFFF, 0x010000] := by decide +kernel
  have ha : runningAtEnd.core.afterOpcode 2 = [0x00FFFF, 0x000000] := by decide +kernel
  have hf' : (powerOn (nes [0x0B, 0xF0])).2.operandFetches 1 = [0x000200] := by decide +kernel
  have ha' : (powerOn (nes [0x0B, 0xF0])).2.core.afterOpcode 1 = [0x000201] := by decide +kernel
  refine ⟨⟨by decide +kernel, hf, fun h => ?_⟩, by decide +kernel, hf', fun h => ?_⟩
  · have ho := h.operands
    change runningAtEnd.operandFetches 2 = runningAtEnd.core.afterOpcode 2 at ho
    rw [hf, ha] at ho
    exact absurd ho (by decide)
  · have ho := h.operands
    change (powerOn (nes [0x0B, 0xF0])).2.operandFetches 1 =
      (powerOn (nes [0x0B, 0xF0])).2.core.afterOpcode 1 at ho
    rw [hf', ha'] at ho
    exact absurd ho (by decide)

end RetroCpu
