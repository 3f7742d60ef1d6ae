import RetroCpu.HexLoader.Scan
import RetroCpu.Lib.WordBytes

/-!
# The loader reads Intel HEX

`HexRecord` is a data record or an extended linear address record, `HexRecord.bytes` its bytes
with the checksum, and `write` spells bytes with digits of either case.  `apply` is what a
record means: a data record is stored at its address from the base on, and an address record
sets the base.

`writeHexToMem_lines`: a file made of such records, with any whitespace between them, is
loaded as it means, up to its end or to an end record.
-/

namespace RetroCpu.HexLoader

open Loader WordBytes

/-! ### Writing bytes -/

def digit (upper : Bool) (v : Byte) : Byte :=
  if v < 10 then 0x30 + v else if upper then 0x41 + (v - 10) else 0x61 + (v - 10)

/-- Bytes in hexadecimal; `upper k` says whether the digit `k` is in upper case. -/
def write (upper : Nat → Bool) : List Byte → List Byte
  | [] => []
  | b :: bs => digit (upper 0) (b >>> 4) :: digit (upper 1) (b &&& 15) ::
      write (fun k => upper (k + 2)) bs

theorem fromhex_digit_high : ∀ (upper : Bool) (b : Byte),
    fromhex (digit upper (b >>> 4)) = some (b >>> 4) := by
  decide +kernel

theorem fromhex_digit_low : ∀ (upper : Bool) (b : Byte),
    fromhex (digit upper (b &&& 15)) = some (b &&& 15) := by
  decide +kernel

theorem halves : ∀ b : Byte, (b &&& (15 : Byte)) ||| ((b >>> 4) <<< 4) = b := by
  decide +kernel

/-- **What was written is read back**, in either case. -/
theorem decode_write (bs : List Byte) (upper : Nat → Bool) :
    decode (write upper bs) = some bs := by
  induction bs generalizing upper with
  | nil => rfl
  | cons b bs ih =>
    rw [write, decode_cons_eq (fromhex_digit_high _ b) (fromhex_digit_low _ b) (ih _), halves]

/-! ### Records -/

/-- A record of the format: length, address, type, payload and checksum. -/
def frame (addr : BitVec 16) (type : Byte) (payload : List Byte) : List Byte :=
  let fields := BitVec.ofNat 8 payload.length :: hi addr :: lo addr :: type :: payload
  fields ++ [-fields.sum]

theorem sum_frame (addr : BitVec 16) (type : Byte) (payload : List Byte) :
    (frame addr type payload).sum = 0 := by
  rw [frame, List.sum_append, List.sum_singleton]
  exact BitVec.add_right_neg _

theorem toNat_length {payload : List Byte} (h : payload.length ≤ 255) :
    (BitVec.ofNat 8 payload.length).toNat = payload.length := by
  rw [BitVec.toNat_ofNat]
  exact Nat.mod_eq_of_lt (by omega)

theorem whole_frame (addr : BitVec 16) (type : Byte) {payload : List Byte}
    (h : payload.length ≤ 255) : Whole (frame addr type payload) := by
  have hlen := toNat_length h
  show (frame addr type payload).length = (BitVec.ofNat 8 payload.length).toNat + 5
  rw [hlen, frame]
  simp only [List.length_append, List.length_cons, List.length_nil]

theorem word_bytes (a : BitVec 16) :
    ((hi a).setWidth 16 <<< 8) ||| (lo a).setWidth 16 = a := by
  have hlt := (lo a).isLt
  have hhi := (hi a).isLt
  apply BitVec.eq_of_toNat_eq
  rw [BitVec.toNat_or, BitVec.toNat_shiftLeft, BitVec.toNat_setWidth, BitVec.toNat_setWidth,
    Nat.mod_eq_of_lt (by omega : (hi a).toNat < 2 ^ 16),
    Nat.mod_eq_of_lt (by omega : (lo a).toNat < 2 ^ 16),
    Nat.mod_eq_of_lt (by rw [Nat.shiftLeft_eq]; omega), ← Nat.shiftLeft_add_eq_or_of_lt hlt,
    Nat.shiftLeft_eq, toNat_hi, toNat_lo]
  omega

section

variable (d : Nat → Byte) (a : BitVec 16) (type : Byte) (payload : List Byte)

theorem overlay_frame_type : overlay d (frame a type payload) 3 = type := rfl

theorem overlay_frame_length : overlay d (frame a type payload) 0 =
    BitVec.ofNat 8 payload.length := rfl

theorem addr_overlay_frame : addr (overlay d (frame a type payload)) = a := word_bytes a

theorem overlay_frame_payload {k : Nat} (hk : k < payload.length) :
    overlay d (frame a type payload) (4 + k) = payload.get ⟨k, hk⟩ := by
  have h : (frame a type payload)[4 + k]? = payload[k]? := by
    rw [frame, List.getElem?_append_left (by simp; omega), Nat.add_comm]
    rfl
  rw [overlay, h, List.getElem?_eq_getElem hk]
  rfl

end

inductive HexRecord
  | data (addr : BitVec 16) (bytes : List Byte) (h : bytes.length ≤ 255)
  | extended (addr upper : BitVec 16)

namespace HexRecord

def bytes : HexRecord → List Byte
  | data addr bytes _ => frame addr 0 bytes
  | extended addr upper => frame addr 4 [hi upper, lo upper]

/-- `bytes` at `start` and what was there before everywhere else. -/
def store (mem : Nat → Byte) (start : Nat) (bytes : List Byte) : Nat → Byte :=
  fun k => if start ≤ k then (bytes[k - start]?).getD (mem k) else mem k

def apply : Nat × (Nat → Byte) → HexRecord → Nat × (Nat → Byte)
  | (base, mem), data addr bytes _ => (base, store mem (base + addr.toNat) bytes)
  | (_, mem), extended _ upper => (upper.toNat * 65536, mem)

/-- The range of a data record lies in a memory of `memsize` bytes and below `2 ^ 32`. -/
def Fits (memsize base : Nat) : HexRecord → Prop
  | data addr bytes _ => base + addr.toNat + bytes.length ≤ memsize ∧
      base + addr.toNat + bytes.length ≤ 2 ^ 32
  | extended _ _ => True

/-- Every data record of a file fits, at the base that holds for it. -/
def AllFit (memsize : Nat) : Nat × (Nat → Byte) → List HexRecord → Prop
  | _, [] => True
  | s, r :: rs => r.Fits memsize s.1 ∧ AllFit memsize (apply s r) rs

theorem whole_bytes (r : HexRecord) : Whole r.bytes := by
  cases r with
  | data addr bytes h => exact whole_frame addr 0 h
  | extended addr upper => exact whole_frame addr 4 (by simp)

theorem sum_bytes (r : HexRecord) : r.bytes.sum = 0 := by
  cases r with
  | data addr bytes h => exact sum_frame addr 0 bytes
  | extended addr upper => exact sum_frame addr 4 _

theorem memcpy_frame (d mem : Nat → Byte) (addr : BitVec 16) (bytes : List Byte) (start : Nat) :
    memcpy mem start (fun k => overlay d (frame addr 0 bytes) (4 + k)) bytes.length =
      store mem start bytes := by
  funext k
  rw [memcpy, store]
  by_cases hk : start ≤ k
  · by_cases hlt : k - start < bytes.length
    · rw [if_pos ⟨hk, by omega⟩, if_pos hk, overlay_frame_payload d addr 0 bytes hlt,
        List.getElem?_eq_getElem hlt]
      rfl
    · rw [if_neg (by omega), if_pos hk, List.getElem?_eq_none (by omega)]
      rfl
  · rw [if_neg (by omega), if_neg hk]

/-- The checks and the effect of the loader on a record that fits. -/
theorem acts_bytes {memsize : Nat} {r : HexRecord} {base : BitVec 32}
    (h : r.Fits memsize base.toNat) (d mem : Nat → Byte) :
    ∃ base', Acts memsize base (overlay d r.bytes) base' ∧
      (base'.toNat, if overlay d r.bytes 3 = 0 then
          memcpy mem (target base (overlay d r.bytes)) (fun k => overlay d r.bytes (4 + k))
            (overlay d r.bytes 0).toNat
        else mem) = apply (base.toNat, mem) r := by
  cases r with
  | data addr bytes hlen =>
    obtain ⟨hmem, h32⟩ := h
    refine ⟨base, .inl ⟨rfl, ?_, rfl⟩, ?_⟩
    · rw [HexRecord.bytes, outside, addr_overlay_frame, overlay_frame_length,
        decide_eq_false_iff_not, BitVec.toNat_add, BitVec.toNat_add, BitVec.toNat_setWidth,
        BitVec.toNat_setWidth,
        toNat_length hlen]
      omega
    · rw [HexRecord.bytes, overlay_frame_type, if_pos rfl, target, addr_overlay_frame,
        overlay_frame_length, toNat_length hlen, memcpy_frame d mem addr, apply]
  | extended addr upper =>
    have hbase : newBase (overlay d (frame addr 4 [hi upper, lo upper])) =
        upper.setWidth 32 <<< 16 := by
      show (((hi upper).setWidth 16 <<< 8) ||| (lo upper).setWidth 16).setWidth 32 <<< 16 = _
      rw [word_bytes]
    refine ⟨upper.setWidth 32 <<< 16, .inr ⟨rfl, rfl, hbase.symm⟩, ?_⟩
    rw [HexRecord.bytes, overlay_frame_type, if_neg (by decide), apply, BitVec.toNat_shiftLeft,
      BitVec.toNat_setWidth, Nat.shiftLeft_eq]
    have hupper := upper.isLt
    congr 1
    omega

end HexRecord

structure Line where
  space : List Byte
  isSpace : ∀ c ∈ space, isspace c = true
  record : HexRecord
  upper : Nat → Bool

def Line.text (l : Line) : List Byte := l.space ++ colon :: write l.upper l.record.bytes

/-- What may come after the last record: whitespace, or an end record and any text. -/
inductive Ending : List Byte → Prop
  | space {s : List Byte} (hs : ∀ c ∈ s, isspace c = true) : Ending s
  | record {s : List Byte} (hs : ∀ c ∈ s, isspace c = true) (addr : BitVec 16) {payload : List Byte}
      (h : payload.length ≤ 255) (upper : Nat → Bool) (text : List Byte) :
      Ending (s ++ colon :: (write upper (frame addr 1 payload) ++ text))

/-! ### The loader on such a file -/

section

variable (memsize n : Nat) (beyond : Byte)

theorem run_space {sp rest : List Byte} (hsp : ∀ c ∈ sp, isspace c = true) {s : Loader}
    (hl : s.left = sp ++ rest) :
    ∃ s', Run (round memsize n beyond) (fun _ _ => True) s s' ∧ s'.left = rest ∧
      s'.addrbase = s.addrbase ∧ s'.mem = s.mem := by
  induction sp generalizing s with
  | nil => exact ⟨s, .refl, hl, rfl, rfl⟩
  | cons c sp ih =>
    have hround := round_eq hl
      (body_space memsize n beyond (hsp c (List.mem_cons_self ..)) (sp ++ rest) s)
    obtain ⟨s', hrun, hleft, hbase, hmem⟩ :=
      ih (fun c' hc' => hsp c' (List.mem_cons_of_mem _ hc')) (s := { s with
        left := sp ++ rest, trace := s.trace ++ [.read (n - ((sp ++ rest).length + 1))] }) rfl
    exact ⟨s', (Run.tail () .refl trivial hround).trans hrun, hleft, hbase, hmem⟩

theorem run_line (l : Line) {rest : List Byte} {s : Loader} (hn : s.left.length ≤ n)
    (hl : s.left = l.text ++ rest) (hfit : l.record.Fits memsize s.addrbase.toNat) :
    ∃ s', Run (round memsize n beyond) (fun _ _ => True) s s' ∧ s'.left = rest ∧
      (s'.addrbase.toNat, s'.mem) = HexRecord.apply (s.addrbase.toNat, s.mem) l.record := by
  obtain ⟨s₁, hrun, hleft, hbase, hmem⟩ := run_space memsize n beyond l.isSpace
    (by rw [hl, Line.text, List.append_assoc])
  rw [← hbase] at hfit
  obtain ⟨base', hacts, happly⟩ := HexRecord.acts_bytes hfit s₁.data s₁.mem
  have hlt : (write l.upper l.record.bytes ++ rest).length < n := by
    have hlen := congrArg List.length hl
    rw [Line.text] at hlen
    simp only [List.length_append, List.length_cons] at hlen ⊢
    omega
  obtain ⟨s₂, hround, hleft₂, hbase₂, -, hmem₂⟩ := round_record memsize beyond hleft
    hlt (decode_write _ _) l.record.whole_bytes l.record.sum_bytes hacts
  refine ⟨s₂, .tail () hrun trivial hround, hleft₂, ?_⟩
  rw [hbase₂, hmem₂, happly, hbase, hmem]

theorem run_lines (ls : List Line) {rest : List Byte} {s : Loader} (hn : s.left.length ≤ n)
    (hl : s.left = ls.flatMap Line.text ++ rest)
    (hfit : HexRecord.AllFit memsize (s.addrbase.toNat, s.mem) (ls.map Line.record)) :
    ∃ s', Run (round memsize n beyond) (fun _ _ => True) s s' ∧ s'.left = rest ∧
      (s'.addrbase.toNat, s'.mem) =
        (ls.map Line.record).foldl HexRecord.apply (s.addrbase.toNat, s.mem) := by
  induction ls generalizing s with
  | nil => exact ⟨s, .refl, hl, rfl⟩
  | cons l ls ih =>
    rw [List.flatMap_cons, List.append_assoc] at hl
    obtain ⟨hfirst, hlater⟩ := hfit
    obtain ⟨s₁, hrun₁, hleft₁, happly₁⟩ := run_line memsize n beyond l hn hl hfirst
    rw [← happly₁] at hlater
    have hn₁ : s₁.left.length ≤ n := by
      rw [hleft₁]
      rw [hl, List.length_append] at hn
      omega
    obtain ⟨s₂, hrun₂, hleft₂, happly₂⟩ := ih hn₁ hleft₁ hlater
    refine ⟨s₂, hrun₁.trans hrun₂, hleft₂, ?_⟩
    rw [happly₂, happly₁]
    rfl

/-- The round of an end record. -/
theorem body_end (s : Loader) {addr : BitVec 16} {payload : List Byte} (h : payload.length ≤ 255)
    (upper : Nat → Bool) {rest : List Byte}
    (hn : (write upper (frame addr 1 payload) ++ rest).length < n) :
    ∃ s', body memsize n beyond colon (write upper (frame addr 1 payload) ++ rest) s =
      (some true, s') ∧ s'.mem = s.mem := by
  obtain ⟨evs, -, heq⟩ := body_whole memsize beyond (decode_write (frame addr 1 payload) upper) s
    (whole_frame addr 1 h) hn
  rw [finish_of_sum (sum_frame addr 1 payload), act] at heq
  exact ⟨_, heq, rfl⟩

end

/-- **The loader decodes its format.**  A file of data and address records that fit, in either
letter case and with any whitespace before them, followed by whitespace or by an end record and
any text, is loaded: the result is `true`, and the memory is what it was with the records stored
in order. -/
theorem writeHexToMem_lines {memsize : Nat} {mem : Nat → Byte} (ls : List Line)
    (hfit : HexRecord.AllFit memsize (0, mem) (ls.map Line.record)) {ending : List Byte}
    (he : Ending ending) (beyond : Byte) (data : Nat → Byte) :
    ∃ s, writeHexToMem memsize (ls.flatMap Line.text ++ ending) beyond mem data = some (true, s) ∧
      s.mem = ((ls.map Line.record).foldl HexRecord.apply (0, mem)).2 := by
  generalize hhex : ls.flatMap Line.text ++ ending = hex
  obtain ⟨s₁, hrun₁, hleft₁, happly⟩ := run_lines memsize hex.length beyond ls
    (s := start hex mem data) (Nat.le_refl _) hhex.symm hfit
  have hmem₁ : s₁.mem = ((ls.map Line.record).foldl HexRecord.apply (0, mem)).2 :=
    congrArg Prod.snd happly
  cases he with
  | space hs =>
    obtain ⟨s₂, hrun₂, hleft₂, -, hmem₂⟩ := run_space memsize hex.length beyond hs
      (hleft₁.trans (List.append_nil _).symm)
    exact ⟨s₂, writeHexToMem_of_end (hrun₁.trans hrun₂) hleft₂, hmem₂.trans hmem₁⟩
  | @record sp hs addr payload h upper text =>
    obtain ⟨s₂, hrun₂, hleft₂, -, hmem₂⟩ := run_space memsize hex.length beyond hs hleft₁
    have hlt : (write upper (frame addr 1 payload) ++ text).length < hex.length := by
      rw [← hhex]
      simp only [List.length_append, List.length_cons]
      omega
    obtain ⟨s₃, hbody, hmem₃⟩ := body_end memsize hex.length beyond s₂ h upper hlt
    exact ⟨s₃, writeHexToMem_of_return (hrun₁.trans hrun₂) hleft₂ hbody,
      hmem₃.trans (hmem₂.trans hmem₁)⟩

/-- Two bytes at address 2 of a memory of 16, after an address record for the base 0. -/
theorem writeHexToMem_lines_small :
    let base : Line := ⟨[], by simp, .extended 0 0, fun _ => false⟩
    let data : Line := ⟨[0x0D, 0x0A], by decide, .data 2 [0xAB, 0xCD] (by decide), fun _ => true⟩
    ∃ s, writeHexToMem 16 ([base, data].flatMap Line.text ++ [0x0A]) 0 (fun _ => 0) (fun _ => 0) =
      some (true, s) ∧ s.mem 2 = 0xAB ∧ s.mem 3 = 0xCD ∧ s.mem 4 = 0 := by
  intro base data
  obtain ⟨s, hs, hmem⟩ := @writeHexToMem_lines 16 (fun _ => 0) [base, data]
    ⟨trivial, ⟨by decide, by decide⟩, trivial⟩ [0x0A] (.space (by decide)) 0 fun _ => 0
  refine ⟨s, hs, ?_⟩
  rw [hmem]
  refine ⟨?_, ?_, ?_⟩ <;> decide

end RetroCpu.HexLoader
