import RetroCpu.SystemBus
import Mathlib.Algebra.Group.Nat.Defs
import Mathlib.Data.List.Induction

/-!
# Mapping pages

The page table after a sequence of `Map` calls, page by page.

* `MapCall.lastCovering`: the last call that covers a page.
* `SystemBus.ptr_maps`: **the pointer of a page is the last call's**.
* `SystemBus.readOnly_maps`: **a page is read-only once some call made it so**, and stays so.
* `SystemBus.asMapped_iff`: when the read-only status is the last call's as well.
-/

namespace RetroCpu

namespace MapCall

/-- Whole pages of `2 ^ shift` bytes within an address space of `2 ^ bits`. -/
structure InRange (shift bits : ℕ) (c : MapCall ℕ) : Prop where
  addr : 2 ^ shift ∣ c.addr.toNat
  len : 2 ^ shift ∣ c.len.toNat
  le : c.addr.toNat + c.len.toNat ≤ 2 ^ bits

def Covers (shift : ℕ) (c : MapCall ℕ) (j : ℕ) : Prop :=
  c.addr.toNat ≤ j * 2 ^ shift ∧ (j + 1) * 2 ^ shift ≤ c.addr.toNat + c.len.toNat

instance (shift : ℕ) (c : MapCall ℕ) (j : ℕ) : Decidable (c.Covers shift j) :=
  inferInstanceAs (Decidable (_ ∧ _))

def lastCovering (shift : ℕ) (calls : List (MapCall ℕ)) (j : ℕ) : Option (MapCall ℕ) :=
  calls.reverse.find? fun c => c.Covers shift j

theorem lastCovering_append (shift : ℕ) (calls : List (MapCall ℕ)) (c : MapCall ℕ) (j : ℕ) :
    lastCovering shift (calls ++ [c]) j =
      if c.Covers shift j then some c else lastCovering shift calls j := by
  rw [lastCovering, List.reverse_append, List.reverse_cons, List.reverse_nil, List.nil_append,
    List.cons_append, List.nil_append, List.find?_cons]
  by_cases h : c.Covers shift j <;> simp [h, lastCovering]

theorem lastCovering_eq_some {shift : ℕ} {calls : List (MapCall ℕ)} {j : ℕ} {c : MapCall ℕ}
    (h : lastCovering shift calls j = some c) : c ∈ calls ∧ c.Covers shift j :=
  ⟨List.mem_reverse.mp (List.mem_of_find?_eq_some h), by simpa using List.find?_some h⟩

theorem lastCovering_eq_none {shift : ℕ} {calls : List (MapCall ℕ)} {j : ℕ} :
    lastCovering shift calls j = none ↔ ∀ c ∈ calls, ¬c.Covers shift j := by
  simp [lastCovering]

end MapCall

namespace SystemBus

variable {γ : Type}

def maps (s : SystemBus γ) (calls : List (MapCall ℕ)) : SystemBus γ :=
  calls.foldl (fun s c => s.map c.addr c.ptr c.len c.readonly) s

/-- A bus whose pages have `2 ^ shift` bytes. -/
structure PageBits (s : SystemBus γ) (shift : ℕ) : Prop where
  pageShift : s.memory.pageShift.toNat = shift
  pageSize : s.memory.pageSize.toNat = 2 ^ shift

theorem pageBits_init (s : SystemBus γ) {sizeShift : BitVec 32} (h : sizeShift < 32)
    (addrBusBits : BitVec 32) (pages : ℕ → Page) :
    PageBits (s.init sizeShift addrBusBits pages) sizeShift.toNat := by
  have hlt : sizeShift.toNat < 32 := by bv_omega
  refine ⟨rfl, ?_⟩
  show ((1 : BitVec 32) <<< sizeShift.toNat).toNat = 2 ^ sizeShift.toNat
  have h1 : (1 : BitVec 32).toNat = 1 := rfl
  rw [BitVec.toNat_shiftLeft, h1, Nat.one_shiftLeft,
    Nat.mod_eq_of_lt (Nat.pow_lt_pow_right (by decide) hlt)]

theorem maps_append (s : SystemBus γ) (calls : List (MapCall ℕ)) (c : MapCall ℕ) :
    s.maps (calls ++ [c]) = (s.maps calls).map c.addr c.ptr c.len c.readonly := by
  rw [maps, List.foldl_append]
  rfl

/-- A call changes the pages it covers. -/
theorem pages_map {s : SystemBus γ} {shift bits : ℕ} (hs : PageBits s shift) {c : MapCall ℕ}
    (hc : c.InRange shift bits) (j : ℕ) :
    (s.map c.addr c.ptr c.len c.readonly).memory.pages j =
      if c.Covers shift j then
        mapTo (s.memory.pages j) (c.ptr + (j * 2 ^ shift - c.addr.toNat)) c.readonly
      else s.memory.pages j := by
  obtain ⟨m, hm⟩ := hc.addr
  obtain ⟨n, hn⟩ := hc.len
  have hpos : 0 < 2 ^ shift := Nat.two_pow_pos shift
  have ha : (c.addr / s.memory.pageSize).toNat = m := by
    rw [BitVec.toNat_udiv, hs.pageSize, hm, Nat.mul_div_cancel_left _ hpos]
  have hl : (c.len / s.memory.pageSize).toNat = n := by
    rw [BitVec.toNat_udiv, hs.pageSize, hn, Nat.mul_div_cancel_left _ hpos]
  have hiff : c.Covers shift j ↔ m ≤ j ∧ j < m + n := by
    rw [MapCall.Covers, hm, hn, ← Nat.mul_add, Nat.mul_comm j, Nat.mul_comm (j + 1),
      Nat.mul_le_mul_left_iff hpos, Nat.mul_le_mul_left_iff hpos]
    rfl
  rw [map_eq]
  simp only [ha, hl, hiff]
  by_cases h : m ≤ j ∧ j < m + n
  · rw [if_pos h, if_pos h, hs.pageSize, Nat.sub_mul, hm, Nat.mul_comm m]
  · rw [if_neg h, if_neg h]

theorem pageBits_maps {s : SystemBus γ} {shift : ℕ} (hs : PageBits s shift)
    (calls : List (MapCall ℕ)) : PageBits (s.maps calls) shift := by
  induction calls using List.reverseRecOn with
  | nil => exact hs
  | append_singleton calls c ih =>
    rw [maps_append, map_eq]
    exact ⟨ih.pageShift, ih.pageSize⟩

@[simp] theorem readOnly_mapTo (p : Page) (ptr : ℕ) (readonly : Bool) :
    (mapTo p ptr readonly).readOnly = (p.readOnly || readonly) := by
  cases readonly with
  | false => simp [mapTo, Page.readOnly]
  | true =>
    have h : (p.flags ||| Page.kReadOnly) &&& Page.kReadOnly = Page.kReadOnly := by
      refine BitVec.eq_of_getLsbD_eq fun i hi => ?_
      rw [BitVec.getLsbD_and, BitVec.getLsbD_or]
      cases p.flags.getLsbD i <;> simp
    rw [mapTo, if_pos rfl, Page.readOnly, h, Bool.or_true]
    decide

variable {s : SystemBus γ} {shift bits : ℕ} {calls : List (MapCall ℕ)}

/-- **The pointer of a page** is that of the last call that covers it. -/
theorem ptr_maps (hs : PageBits s shift) (hc : ∀ c ∈ calls, c.InRange shift bits) (j : ℕ) :
    ((s.maps calls).memory.pages j).ptr =
      ((MapCall.lastCovering shift calls j).map fun c =>
        c.ptr + (j * 2 ^ shift - c.addr.toNat)).or (s.memory.pages j).ptr := by
  induction calls using List.reverseRecOn with
  | nil => rfl
  | append_singleton calls c ih =>
    have hin := hc c (List.mem_append_right _ (List.mem_singleton_self c))
    rw [maps_append, pages_map (pageBits_maps hs calls) hin, MapCall.lastCovering_append]
    by_cases h : c.Covers shift j
    · rw [if_pos h, if_pos h]
      rfl
    · rw [if_neg h, if_neg h]
      exact ih fun c hc' => hc c (List.mem_append_left _ hc')

/-- **A page is read-only** once a call that covers it made it so. -/
theorem readOnly_maps (hs : PageBits s shift) (hc : ∀ c ∈ calls, c.InRange shift bits) (j : ℕ) :
    ((s.maps calls).memory.pages j).readOnly =
      ((s.memory.pages j).readOnly || calls.any fun c => c.Covers shift j && c.readonly) := by
  induction calls using List.reverseRecOn with
  | nil => simp [maps]
  | append_singleton calls c ih =>
    have hin := hc c (List.mem_append_right _ (List.mem_singleton_self c))
    have ih := ih fun c hc' => hc c (List.mem_append_left _ hc')
    rw [maps_append, pages_map (pageBits_maps hs calls) hin, List.any_append]
    by_cases h : c.Covers shift j
    · rw [if_pos h, readOnly_mapTo, ih]
      simp [h, Bool.or_assoc]
    · rw [if_neg h, ih]
      simp [h]

/-! ### Writing and reading back -/

def WriteReads (s : SystemBus γ) (a : CpuAddr) : Prop :=
  ∀ (t t' : BitVec 64) (v : Byte), ((s.writeByte t a v).bus.readByte t' a).data = v

/-- A byte of memory reads back what is written exactly when it is writable. -/
theorem writeReads_iff {a : CpuAddr} {n : ℕ} {readonly : Bool}
    (h : Backed s.memory s.memMask a n readonly) : s.WriteReads a ↔ readonly = false := by
  have hread (t t' : BitVec 64) (v : Byte) : ((s.writeByte t a v).bus.readByte t' a).data =
      if readonly then s.host n else v := by
    have hf := frame_writeByte s t a v
    have h' : Backed (s.writeByte t a v).bus.memory (s.writeByte t a v).bus.memMask a n
        readonly := by
      rw [hf.memory, hf.memMask]
      exact h
    rw [(h'.readByte t').1, h.writeByte t v]
    cases readonly with
    | true => rfl
    | false => simp
  constructor
  · intro hw
    cases readonly with
    | false => rfl
    | true =>
      have h₀ := hw 0 0 0
      have h₁ := hw 0 0 1
      rw [hread, if_pos rfl] at h₀ h₁
      rw [h₀] at h₁
      cases h₁
  · rintro rfl t t' v
    rw [hread]
    rfl

/-- **Page `j` is as the last call has it**: its pointer, its read-only status, and whether its
memory can be written. -/
structure AsMapped (shift : ℕ) (calls : List (MapCall ℕ)) (s : SystemBus γ) (j : ℕ) : Prop where
  ptr : (s.memory.pages j).ptr =
    (MapCall.lastCovering shift calls j).map fun c => c.ptr + (j * 2 ^ shift - c.addr.toNat)
  readOnly : (s.memory.pages j).readOnly =
    (MapCall.lastCovering shift calls j).any MapCall.readonly
  writeReads : ∀ (c : MapCall ℕ) (a : CpuAddr), MapCall.lastCovering shift calls j = some c →
    ((a &&& s.memMask) >>> s.memory.pageShift).toNat = j →
    (s.memory.pages j).isIo (a &&& s.memMask) = false → (s.WriteReads a ↔ c.readonly = false)

/-- If the last call makes page `j` writable, no call made it read-only. -/
def StaysWritable (shift : ℕ) (calls : List (MapCall ℕ)) (j : ℕ) : Prop :=
  ∀ c, MapCall.lastCovering shift calls j = some c → c.readonly = false →
    ∀ c' ∈ calls, c'.Covers shift j → c'.readonly = false

/-- The read-only status of a page that was writable. -/
theorem readOnly_maps_eq_iff (hs : PageBits s shift) (hc : ∀ c ∈ calls, c.InRange shift bits)
    {j : ℕ} (hw : (s.memory.pages j).readOnly = false) :
    ((s.maps calls).memory.pages j).readOnly =
        (MapCall.lastCovering shift calls j).any MapCall.readonly ↔
      StaysWritable shift calls j := by
  rw [readOnly_maps hs hc, hw, Bool.false_or, StaysWritable]
  cases hlast : MapCall.lastCovering shift calls j with
  | none =>
    have hnone := MapCall.lastCovering_eq_none.mp hlast
    simpa using fun c hc hcov => absurd hcov (hnone c hc)
  | some c =>
    obtain ⟨hmem, hcov⟩ := MapCall.lastCovering_eq_some hlast
    cases hro : c.readonly with
    | true =>
      have hany : (calls.any fun c => c.Covers shift j && c.readonly) = true :=
        List.any_eq_true.mpr ⟨c, hmem, by simp [hcov, hro]⟩
      simp [hany, hro]
    | false => simp [hro, List.any_eq_false]

theorem asMapped_iff (hs : PageBits s shift) (hc : ∀ c ∈ calls, c.InRange shift bits) {j : ℕ}
    (hptr : (s.memory.pages j).ptr = none) (hw : (s.memory.pages j).readOnly = false) :
    AsMapped shift calls (s.maps calls) j ↔ StaysWritable shift calls j := by
  have hp : ((s.maps calls).memory.pages j).ptr =
      (MapCall.lastCovering shift calls j).map fun c =>
        c.ptr + (j * 2 ^ shift - c.addr.toNat) := by
    rw [ptr_maps hs hc, hptr, Option.or_none]
  rw [← readOnly_maps_eq_iff hs hc hw]
  constructor
  · exact AsMapped.readOnly
  · intro hro
    refine ⟨hp, hro, fun c a hlast ha hio => ?_⟩
    rw [hlast] at hp hro
    have hb : Backed (s.maps calls).memory (s.maps calls).memMask a
        (c.ptr + (j * 2 ^ shift - c.addr.toNat) +
          (s.maps calls).memory.offset (a &&& (s.maps calls).memMask)) c.readonly := by
      have hpage : (s.maps calls).memory.page (a &&& (s.maps calls).memMask) =
          (s.maps calls).memory.pages j := by
        rw [MemoryMap.page, ha]
      exact ⟨hpage ▸ hio, ⟨_, hpage ▸ hp, rfl⟩, hpage ▸ hro⟩
    exact writeReads_iff hb

/-- **The last mapping wins, but for the read-only flag.**  On a fresh page table, page `j` is as
the last call has it exactly if this call makes it read-only or no call before did. -/
theorem asMapped_init_iff (s : SystemBus γ) {sizeShift addrBusBits : BitVec 32} {pages : ℕ → Page}
    (hshift : sizeShift < 32) (hpages : ∀ j, (pages j).ptr = none ∧ (pages j).flags = 0)
    (hcalls : ∀ c ∈ calls, c.InRange sizeShift.toNat addrBusBits.toNat) (j : ℕ) :
    AsMapped sizeShift.toNat calls ((s.init sizeShift addrBusBits pages).maps calls) j ↔
      StaysWritable sizeShift.toNat calls j := by
  refine asMapped_iff (pageBits_init s hshift addrBusBits pages) hcalls (hpages j).1 ?_
  show ((pages j).flags &&& Page.kReadOnly != 0) = false
  rw [(hpages j).2]
  decide

/-- A page with nothing under it and without I/O addresses. -/
def blankPage : Page := ⟨none, 0, 0, 1, 1⟩

theorem asMapped_init_blank :
    AsMapped 10 [⟨0, 0, 0x800, false⟩, ⟨0x400, 0x5000, 0x400, true⟩]
      (((simple 16 fun _ => 0).init 10 16 fun _ => blankPage).maps
        [⟨0, 0, 0x800, false⟩, ⟨0x400, 0x5000, 0x400, true⟩]) 1 := by
  refine (asMapped_init_iff (simple 16 fun _ => 0) (show (10 : BitVec 32) < 32 by decide)
    (fun _ => ⟨rfl, rfl⟩) ?_ 1).mpr ?_
  · intro c hc
    simp only [List.mem_cons, List.not_mem_nil, or_false] at hc
    rcases hc with rfl | rfl <;> exact ⟨by decide, by decide, by decide⟩
  · intro c hlast hro
    have h : MapCall.lastCovering (10 : BitVec 32).toNat
        [⟨0, 0, 0x800, false⟩, ⟨0x400, 0x5000, 0x400, true⟩] 1 =
          some ⟨0x400, 0x5000, 0x400, true⟩ := by decide
    rw [h] at hlast
    cases hlast
    cases hro

/-- Page 0 is mapped read-only and then writable, and a write to it is lost. -/
theorem asMapped_init_locked :
    let calls : List (MapCall ℕ) := [⟨0, 0, 0x400, true⟩, ⟨0, 0x800, 0x400, false⟩]
    let s := ((simple 16 fun _ => 0).init 10 16 fun _ => blankPage).maps calls
    (∀ c ∈ calls, c.InRange 10 16) ∧
      MapCall.lastCovering 10 calls 0 = some ⟨0, 0x800, 0x400, false⟩ ∧
      (s.memory.pages 0).readOnly = true ∧ ((s.writeByte 0 0 1).bus.readByte 0 0).data = 0 ∧
      ¬AsMapped 10 calls s 0 := by
  intro calls s
  refine ⟨?_, by decide, by decide, by decide, ?_⟩
  · intro c hc
    simp only [calls, List.mem_cons, List.not_mem_nil, or_false] at hc
    rcases hc with rfl | rfl <;> exact ⟨by decide, by decide, by decide⟩
  · intro h
    exact absurd h.readOnly (by decide)

end SystemBus

end RetroCpu
