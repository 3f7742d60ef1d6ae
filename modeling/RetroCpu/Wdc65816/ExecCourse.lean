import RetroCpu.Wdc65816.Course

/-!
# The course of an instruction

* `Op.course_exec`: **every instruction but `XCE` takes a course within its footprint**, a short
  one but for the block moves.

This is the walk over the code of the instructions.  What they spend, what they leave alone and
what they keep is then said about the parts of a course.
-/

namespace RetroCpu

open WordBytes Machine StateFn

variable {β : Type} [Bus β] {A : Allowance} {f : Footprint} {I : Prop}

namespace Op

theorem course_modifyCycles (m : AddrMode) : Within (Course (β := β) A) 2 (modifyCycles m) :=
  graded_course.bind (course_internalOp 1) fun _ =>
    graded_course.when fun _ => course_internalOp 1

/-- An instruction that changes a part of the CPU alone. -/
theorem course_flag {g : Core → Core} (n : CpuAddr)
    (hg : Within (Course (β := β) (f.allowance I)) 0 (update g)) :
    Within (Course (β := β) (f.allowance I)) 1 (do update g; addIp n; internalOp) :=
  graded_course.bind hg fun _ =>
    graded_course.bind (course_addIp _) fun _ => course_internalOp 1

/-- A push of something the CPU holds. -/
theorem course_pushCore {s : Size} (g : Core → Val s) (x : Exec β Unit)
    (hx : Within (Course (f.allowance I)) 1 x) (n : CpuAddr) :
    Within (Course (β := β) (f.allowance I)) 3
      (do Machine.push (← getCore g); x; addIp n) :=
  graded_course.bind (course_getCore _) fun _ => graded_course.bind (course_push _) fun _ =>
    graded_course.bind hx fun _ => course_addIp _

/-- A read-modify-write instruction. -/
theorem course_modifyOp {m : AddrMode} (hf : f.a = m.writeLevel m.A) (hw : f.widths = false)
    {fn : Val m.A → Exec β (Val m.A)}
    (hfn : ∀ v, Within (Course (f.allowance I)) 2 (fn v)) (n : CpuAddr) :
    Within (Course (β := β) (f.allowance I)) 16 (do m.modify fn; addIp n) := by
  have ha : m.kind = .a → f.allows .a m.A = true := fun h => by
    show f.a.allows m.A = true
    rw [hf]
    exact AddrMode.writeLevel_allows _ h
  exact graded_course.bind (AddrMode.course_modify ha hw hfn) fun _ => course_addIp _

/-- How a shift ends. -/
theorem course_shifted {γ : Type} (m : AddrMode) (v : γ) {g : Core → Core}
    (hg : Within (Course (β := β) (f.allowance I)) 0 (update g)) :
    Within (Course (β := β) (f.allowance I)) 2 (do update g; modifyCycles m; return v) :=
  graded_course.bind hg fun _ => graded_course.bind (course_modifyCycles m) fun _ =>
    graded_course.pure _

/-- What `TSB` and `TRB` do with their operand. -/
theorem course_tested {α γ : Type} (p : Core → α) (v : α → γ) {g : α → Core → Core}
    (hg : ∀ a, Within (Course (β := β) (f.allowance I)) 0 (update (g a))) :
    Within (Course (β := β) (f.allowance I)) 2
      (do let a ← getCore p; update (g a); return v a) :=
  graded_course.le
    (graded_course.bind (course_getCore _) fun a =>
      graded_course.bind (hg a) fun _ => graded_course.pure _)
    (by decide)

/-- What `INC` and `DEC` do with their operand. -/
theorem course_counted {γ : Type} {n : ℕ} (m : AddrMode) (w : BitVec n) (v : γ) :
    Within (Course (β := β) (f.allowance I)) 2 (do modifyCycles m; setNZ w; return v) :=
  graded_course.bind (course_modifyCycles m) fun _ =>
    graded_course.bind (course_setNZ w) fun _ => graded_course.pure _

theorem course_execJmp (j : JmpAddr) (pushPc isLongJump : Bool)
    (hf : isLongJump = true → f.programBank = .full) :
    Within (Course (β := β) (f.allowance I)) 24 (execJmp j pushPc isLongJump) := by
  have hinternal : Within (Course (β := β) (f.allowance I)) 1
      (internalOp (if pushPc then 1 else 0)) := by
    cases pushPc
    · exact graded_course.le (course_internalOp 0) (by decide)
    · exact course_internalOp 1
  exact graded_course.le
    (graded_course.bind (JmpAddr.course_calcEffectiveAddress _) fun _ =>
      graded_course.bind (graded_course.when fun _ =>
        graded_course.bind (graded_course.when fun _ =>
          graded_course.bind (course_getCore _) fun _ => course_push (s := .u8) _) fun _ =>
        graded_course.bind (course_getCore _) fun _ => course_push (s := .u16) _) fun _ =>
      graded_course.bind (graded_course.when fun h => course_programBank (hf h) _) fun _ =>
      graded_course.bind hinternal fun _ => course_flags fun _ => rfl)
    (by decide)

theorem course_execRts (isLong : Bool) (hf : isLong = true → f.programBank = .full) :
    Within (Course (β := β) (f.allowance I)) 24 (execRts isLong) := by
  have hinternal : Within (Course (β := β) (f.allowance I)) 3
      (internalOp (if isLong then 2 else 3)) := by
    cases isLong
    · exact course_internalOp 3
    · exact graded_course.le (course_internalOp 2) (by decide)
  exact graded_course.le
    (graded_course.bind (course_pop .u16) fun _ =>
      graded_course.bind (course_flags fun _ => rfl) fun _ =>
      graded_course.bind (graded_course.when fun h =>
        graded_course.bind (course_pop .u8) fun _ => course_programBank (hf h) _) fun _ =>
      hinternal)
    (by decide)

/-- The end of `RTI`: the program bank is pulled in native mode only, where every footprint lets it
change. -/
theorem course_returnBank : Within (Course (β := β) (f.allowance I)) 2 (do
    let emulation ← getCore (·.modeEmulation)
    when (!emulation) do
      let bank ← Machine.pop .u8
      update (·.setProgramBank bank)) := by
  intro m
  cases he : m.core.modeEmulation with
  | true =>
    rw [bind_apply, getCore, get_apply, he]
    exact graded_course.refl_le m
  | false =>
    rw [bind_apply, getCore, get_apply, he]
    have h : Course (f.allowance I) 2 m (Machine.pop .u8 m).2 := course_pop .u8 m
    have hne : (popU8 m).2.core.modeEmulation = true → False := fun h =>
      Bool.false_ne_true (he.symm.trans h)
    exact graded_course.trans h
      (.core (popU8 m).2 (.programBank (popU8 m).2.core fun h => (hne h).elim))

theorem course_execRti (hf : f.Widths) :
    Within (Course (β := β) (f.allowance I)) 24 execRti :=
  graded_course.le
    (graded_course.bind (course_pop .u8) fun _ =>
      graded_course.bind (course_setStatusRegister hf _) fun _ =>
      graded_course.bind (course_pop .u16) fun _ =>
      graded_course.bind (course_internalOp 2) fun _ =>
      graded_course.bind (course_flags fun _ => rfl) fun _ => course_returnBank)
    (by decide)

theorem course_execPop {r : Reg} {s : Size} (hr : f.allows r s = true) (hw : f.widths = false) :
    Within (Course (β := β) (f.allowance I)) 24 (execPop r s) :=
  graded_course.le
    (graded_course.bind
        (graded_course.ite _ (fun _ => course_popOld s) fun _ => course_pop s) fun _ =>
      graded_course.bind (course_internalOp 2) fun _ =>
      graded_course.bind (course_set hr hw _) fun _ =>
      graded_course.bind (course_setNZ _) fun _ => course_addIp _)
    (by decide)

theorem course_execPlp (hf : f.Widths) :
    Within (Course (β := β) (f.allowance I)) 24 execPlp :=
  graded_course.le
    (graded_course.bind (course_popOld .u8) fun _ =>
      graded_course.bind (course_internalOp 2) fun _ =>
      graded_course.bind (course_addIp _) fun _ => course_setStatusRegister hf _)
    (by decide)

theorem course_execBranch (impl : BranchImpl) :
    Within (Course (β := β) (f.allowance I)) 24 (execBranch impl) :=
  graded_course.le
    (course_readOperand fun _ _ =>
      graded_course.bind (course_getCore _) fun _ =>
      graded_course.bind (graded_course.when fun _ =>
        graded_course.bind (course_internalOp 1) fun _ => course_addIp _) fun _ => course_addIp _)
    (by decide)

theorem course_execLoad {m : AddrMode} {r : Reg} {s : Size} (hr : f.allows r s = true)
    (hw : f.widths = false) :
    Within (Course (β := β) (f.allowance I)) 14 (execLoad m r s) :=
  graded_course.bind (m.course_read s) fun _ =>
    graded_course.bind (course_set hr hw _) fun _ =>
    graded_course.bind (course_setNZ _) fun _ => course_addIp _

theorem course_execStore {m : AddrMode} {r : Reg} {s : Size}
    (hf : m.kind = .a → f.allows .a s = true) (hw : f.widths = false) :
    Within (Course (β := β) (f.allowance I)) 13 (execStore m r s) :=
  graded_course.bind (course_getCore _) fun _ =>
    graded_course.bind (AddrMode.course_write hf hw _) fun _ =>
    graded_course.bind (graded_course.when fun _ => course_internalOp 1) fun _ => course_addIp _

theorem course_execBlockMove (hf : f.Moves) (increment : Word) :
    Within (Course (β := β) (f.allowance I)) (2 ^ 17 + 2) (execBlockMove increment) :=
  graded_course.le
    (course_readOperand fun _ _ =>
      graded_course.bind (course_blockMove hf _ _ _) fun _ =>
      graded_course.when fun _ => course_addIp _)
    (by decide)

/-- `TXS` and `TCS`. -/
theorem course_setSp {emulation : Bool} (hf : f.sp = if emulation then .page else .full)
    (g : Core → Word) : Within (Course (β := β) (f.allowance I)) 0
      (update fun c => { c with sp := if emulation then (1 : Byte) ++ lo (g c) else g c }) := by
  refine course_update fun c => .stack c fun _ => ?_
  rw [hf]
  cases emulation
  · trivial
  · exact Or.inr (hi_append _ _)

/-- The accesses and internal cycles an instruction makes at most, after its opcode. -/
def ticks : Op → ℕ
  | mvn | mvp => 2 ^ 17 + 2
  | nop n _ => n
  | _ => 24

/-- **The course of every instruction but `XCE`.** -/
theorem course_exec (op : Op) (hop : op ≠ .xce) :
    Within (Course (β := β) (op.footprint.allowance I)) op.ticks op.exec := by
  have hR := graded_course (β := β) (A := op.footprint.allowance I)
  have short {n : ℕ} {x : Exec β Unit} (h : Within (Course (op.footprint.allowance I)) n x)
      (hn : n ≤ 24) : Within (Course (op.footprint.allowance I)) 24 x := hR.le h hn
  cases op with
  | tsb m =>
    refine short (course_modifyOp (by rfl) (by rfl) (fun v => ?_) _) (by decide)
    exact course_tested _ _ fun _ => course_flags fun _ => rfl
  | trb m =>
    refine short (course_modifyOp (by rfl) (by rfl) (fun v => ?_) _) (by decide)
    exact course_tested _ _ fun _ => course_flags fun _ => rfl
  | bit m =>
    exact short (hR.bind (m.course_read _) fun _ => hR.bind (course_getCore _) fun _ =>
      hR.bind (course_flags fun _ => rfl) fun _ =>
      hR.bind (course_flags fun _ => rfl) fun _ => course_addIp _) (by decide)
  | bitImm m =>
    exact short (hR.bind (m.course_read _) fun _ => hR.bind (course_getCore _) fun _ =>
      hR.bind (course_flags fun _ => rfl) fun _ => course_addIp _) (by decide)
  | alu impl m =>
    exact short (hR.bind (m.course_read _) fun _ => hR.bind (course_getCore _) fun _ =>
      hR.bind (course_set (by exact Level.allows_ofSize _) (by rfl) _) fun _ =>
      hR.bind (course_setNZ _) fun _ => course_addIp _) (by decide)
  | asl m =>
    refine short (course_modifyOp (by rfl) (by rfl) (fun v => ?_) _) (by decide)
    exact hR.bind (course_setNZ _) fun _ => course_shifted m _ (course_flags fun _ => rfl)
  | lsr m =>
    refine short (course_modifyOp (by rfl) (by rfl) (fun v => ?_) _) (by decide)
    exact course_shifted m _ (course_flags fun _ => rfl)
  | ror m =>
    refine short (course_modifyOp (by rfl) (by rfl) (fun v => ?_) _) (by decide)
    exact hR.bind (course_getCore _) fun _ => hR.bind (course_setNZ _) fun _ =>
      course_shifted m _ (course_flags fun _ => rfl)
  | rol m =>
    refine short (course_modifyOp (by rfl) (by rfl) (fun v => ?_) _) (by decide)
    exact hR.bind (course_getCore _) fun _ => hR.bind (course_setNZ _) fun _ =>
      course_shifted m _ (course_flags fun _ => rfl)
  | clc => exact short (course_flag _ (course_flags fun _ => rfl)) (by decide)
  | sec => exact short (course_flag _ (course_flags fun _ => rfl)) (by decide)
  | cli =>
    exact short (course_flag _ (course_update fun c => .mask c (.inr rfl))) (by decide)
  | sei =>
    exact short (course_flag _ (course_update fun c => .mask c (.inl rfl))) (by decide)
  | cld => exact short (course_flag _ (course_flags fun _ => rfl)) (by decide)
  | sed => exact short (course_flag _ (course_flags fun _ => rfl)) (by decide)
  | clv => exact short (course_flag _ (course_flags fun _ => rfl)) (by decide)
  | rep =>
    exact short (course_readOperand fun _ _ => hR.bind (course_addIp _) fun _ =>
      course_update fun c => .rep c ⟨rfl, rfl, rfl⟩ _) (by decide)
  | sep =>
    exact short (course_readOperand fun _ _ => hR.bind (course_addIp _) fun _ =>
      course_update fun c => .sep c ⟨rfl, rfl, rfl⟩ _) (by decide)
  | push kReg size => exact short (course_pushCore _ _ (course_internalOp 1) _) (by decide)
  | pop kReg size =>
    exact course_execPop (Footprint.touch_allows kReg size) (by cases kReg <;> rfl)
  | php => exact short (course_pushCore (s := .u8) _ _ (course_internalOp 1) _) (by decide)
  | plp => exact course_execPlp ⟨rfl, rfl, rfl⟩
  | phk => exact short (course_pushCore (s := .u8) _ _ (course_internalOp 1) _) (by decide)
  | phb =>
    exact short (hR.bind (course_getCore _) fun _ => hR.bind (course_push (s := .u8) _) fun _ =>
      course_addIp _) (by decide)
  | plb =>
    exact short (hR.bind (course_pop .u8) fun _ => hR.bind (course_dataBank rfl rfl _) fun _ =>
      hR.bind (course_internalOp 2) fun _ => hR.bind (course_setNZ _) fun _ => course_addIp _)
      (by decide)
  | jmp addr pushPc isLongJump => exact course_execJmp _ _ _ fun h => by rw [h]; rfl
  | rts isLong => exact course_execRts _ fun h => by rw [h]; rfl
  | rti => exact course_execRti ⟨rfl, rfl, rfl⟩
  | branch impl => exact course_execBranch impl
  | brl => exact short (course_readOperand fun _ _ => course_addIp _) (by decide)
  | incMem m =>
    refine short (course_modifyOp (by rfl) (by rfl) (fun v => ?_) _) (by decide)
    exact course_counted m _ _
  | decMem m =>
    refine short (course_modifyOp (by rfl) (by rfl) (fun v => ?_) _) (by decide)
    exact course_counted m _ _
  | incDecReg s r delta =>
    exact short (hR.bind (course_getCore _) fun _ =>
      hR.bind (course_set (Footprint.touch_allows r s) (by cases r <;> rfl) _) fun _ =>
      hR.bind (course_internalOp 1) fun _ => hR.bind (course_setNZ _) fun _ => course_addIp _)
      (by decide)
  | load m r s =>
    exact short (course_execLoad (Footprint.touch_allows r s) (by cases r <;> rfl)) (by decide)
  | store m r s =>
    exact short (course_execStore (fun h => by exact AddrMode.writeLevel_allows _ h) (by rfl))
      (by decide)
  | stz m =>
    have hw := AddrMode.course_write (β := β) (f := (stz m).footprint) (I := I) (m := m)
      (s := m.A) (fun h => AddrMode.writeLevel_allows _ h) rfl 0
    exact short (hR.bind hw fun _ => course_addIp _) (by decide)
  | adc m =>
    exact short (hR.bind (m.course_read _) fun _ => hR.bind (course_update fun c => by
        split
        · exact .accumulate c (by exact Level.allows_ofSize _) (by rfl) _ rfl
        · exact .accumulate c (by exact Level.allows_ofSize _) (by rfl) _ rfl)
      fun _ => course_addIp _) (by decide)
  | sbc m =>
    exact short (hR.bind (m.course_read _) fun _ => hR.bind (course_update fun c => by
        split
        · exact .accumulate c (by exact Level.allows_ofSize _) (by rfl) _ rfl
        · exact .accumulate c (by exact Level.allows_ofSize _) (by rfl) _ rfl)
      fun _ => course_addIp _) (by decide)
  | cmp m =>
    exact short (hR.bind (m.course_read _) fun _ => hR.bind (course_addIp _) fun _ =>
      course_flags fun _ => rfl) (by decide)
  | cpx m =>
    exact short (hR.bind (m.course_read _) fun _ => hR.bind (course_addIp _) fun _ =>
      course_flags fun _ => rfl) (by decide)
  | cpy m =>
    exact short (hR.bind (m.course_read _) fun _ => hR.bind (course_addIp _) fun _ =>
      course_flags fun _ => rfl) (by decide)
  | txs emulation => exact short (course_flag _ (course_setSp (by rfl) _)) (by decide)
  | tcs emulation => exact short (course_flag _ (course_setSp (by rfl) _)) (by decide)
  | moveReg s src dest =>
    exact short (hR.bind (course_getCore _) fun _ =>
      hR.bind (course_set (Footprint.touch_allows dest s) (by cases dest <;> rfl) _) fun _ =>
      hR.bind (course_setNZ _) fun _ => hR.bind (course_addIp _) fun _ => course_internalOp 1)
      (by decide)
  | mvn => exact course_execBlockMove ⟨rfl, rfl, rfl, rfl, rfl⟩ _
  | mvp => exact course_execBlockMove ⟨rfl, rfl, rfl, rfl, rfl⟩ _
  | xba =>
    exact short (hR.bind (course_addIp _) fun _ =>
      hR.bind (course_setCore (r := .a) (s := .u16) (by rfl) (by rfl) _) fun _ =>
      hR.bind (course_getCore _) fun _ => course_setNZ _) (by decide)
  | xce => exact absurd rfl hop
  | nop n b =>
    refine hR.le (hR.bind (course_internalOp _) fun _ => course_addIp _) ?_
    rw [BitVec.toNat_ofNat, Nat.add_zero]
    exact Nat.mod_le _ _
  | wdm => exact short (course_addIp _) (by decide)
  | pea =>
    exact short (course_readOperand fun _ _ => hR.bind (course_push _) fun _ => course_addIp _)
      (by decide)
  | pei =>
    exact short (hR.bind (AddrMode.course_read _ .u16) fun _ => hR.bind (course_addIp _) fun _ =>
      course_push _) (by decide)
  | per =>
    exact short (course_readOperand fun _ _ => hR.bind (course_addIp _) fun _ =>
      hR.bind (course_getCore _) fun _ => course_push (s := .u16) _) (by decide)
  | wai => exact short (course_addIp _) (by decide)
  | stp => exact short (course_addIp _) (by decide)
  | brk =>
    exact short (hR.bind (course_addIp _) fun _ =>
      course_doInterrupt rfl fun h => absurd h Bool.false_ne_true) (by decide)
  | cop =>
    exact short (hR.bind (course_addIp _) fun _ =>
      course_doInterrupt rfl fun h => absurd h Bool.false_ne_true) (by decide)
  | alr =>
    exact short (course_readOperand fun _ _ =>
      hR.bind (course_setCore (r := .a) (s := .u8) rfl rfl _) fun _ =>
      hR.bind (course_flags fun _ => rfl) fun _ =>
      hR.bind (course_setCore (r := .a) (s := .u8) rfl rfl _) fun _ => course_addIp _) (by decide)
  | anc =>
    exact short (course_readOperand fun _ _ =>
      hR.bind (course_setCore (r := .a) (s := .u8) rfl rfl _) fun _ =>
      hR.bind (course_flags fun _ => rfl) fun _ =>
      hR.bind (course_flags fun _ => rfl) fun _ => course_addIp _) (by decide)
  | lax m =>
    exact short (hR.bind (course_execLoad (by exact Level.allows_ofSize _) (by rfl)) fun _ =>
      course_setCore (r := .x) (s := .u8) rfl rfl _) (by decide)
  | sax m =>
    have hlow : (sax m).footprint.allows .a .u8 = true := Level.ofSize_allows_u8 _
    exact short (hR.bind (course_getCore _) fun _ =>
      hR.bind (course_setCore hlow (by rfl) _) fun _ =>
      hR.bind (course_execStore (fun _ => by exact Level.allows_ofSize _) (by rfl)) fun _ =>
      course_set hlow (by rfl) _) (by decide)

def isShort (op : Op) : Bool := op ≠ .xce && op.ticks ≤ 24

end Op

/-- What `EmulateInstruction` does to the machine. -/
theorem course_emulateInstruction {m m' : Machine β} (h : m.emulateInstruction = some m')
    (hop : ∀ op, m.handler = some op → op.isShort = true) :
    ∃ f : Footprint, Course (f.allowance False) 25 m m' := by
  obtain ⟨op, hhandler, rfl⟩ := Option.map_eq_some_iff.mp h
  obtain ⟨hx, hticks⟩ := (Bool.and_eq_true _ _).mp (hop op hhandler)
  have hperform : Within (Course (β := β) (op.footprint.allowance False)) 24 (perform op) :=
    graded_course.bind (graded_course.le (op.course_exec (of_decide_eq_true hx))
      (of_decide_eq_true hticks)) fun _ => course_count
  exact ⟨op.footprint, (course_fetch m).trans (hperform (fetch m).2)⟩

/-- The handlers of the 6502 take short courses. -/
theorem isShort_native6502 : (execOps .native6502).all
    (fun op => op.all Op.isShort) = true := by
  decide +kernel

end RetroCpu
