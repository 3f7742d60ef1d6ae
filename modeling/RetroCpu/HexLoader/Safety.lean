import RetroCpu.HexLoader.Scan

/-!
# What the loader reads and writes

`safe_iff`: the accesses of a call lie in the input and in the memory unless the input
ends after the first digit of a pair (`EndsInPair`), or a data record reaches past
`2 ^ 32` so that its end passes the check once it has wrapped round (`Wraps`).
-/

namespace RetroCpu.HexLoader

open Loader

def Event.Inside (memsize n : Nat) : Event → Prop
  | read i => i < n
  | record _ _ _ => True
  | write offset => offset < memsize

/-- A call reads only the input and writes only the memory. -/
def Safe (memsize : Nat) (hex : List Byte) (beyond : Byte) (mem data : Nat → Byte) : Prop :=
  ∀ v s, writeHexToMem memsize hex beyond mem data = some (v, s) →
    ∀ e ∈ s.trace, e.Inside memsize hex.length

/-- The loader comes to a record that is cut off by the end of the input after the first digit
of a pair. -/
def EndsInPair (memsize : Nat) (data : Nat → Byte) (hex : List Byte) : Prop :=
  ∃ t base d text bs c, Scanned memsize data t base d ∧ decode text = some bs ∧ Partial bs ∧
    (fromhex c).isSome ∧ hex = t ++ colon :: (text ++ [c])

/-- The loader comes to a data record which ends at `e`, behind the memory, and the remainder of
`e` by `2 ^ 32` is not behind it. -/
def Wraps (memsize : Nat) (data : Nat → Byte) (hex : List Byte) : Prop :=
  ∃ t base d text bs rest, Scanned memsize data t base d ∧ decode text = some bs ∧
    (Whole bs ∨ Partial bs ∧ rest = []) ∧ bs.sum = 0 ∧ overlay d bs 3 = 0 ∧
    hex = t ++ colon :: (text ++ rest) ∧
    let e := target base (overlay d bs) + (overlay d bs 0).toNat
    memsize < e ∧ e % 2 ^ 32 ≤ memsize

variable {memsize n : Nat} {beyond : Byte}

/-! ### The check of the bounds -/

theorem outside_eq (base : BitVec 32) (d : Nat → Byte) :
    outside memsize base d =
      decide (memsize < (target base d + (d 0).toNat) % 2 ^ 32) := by
  have haddr := (addr d).isLt
  have hlen := (d 0).isLt
  rw [outside, target, BitVec.toNat_add, BitVec.toNat_add, BitVec.toNat_setWidth,
    BitVec.toNat_setWidth, Nat.mod_eq_of_lt (by omega : (addr d).toNat < 2 ^ 32),
    Nat.mod_eq_of_lt (by omega : (d 0).toNat < 2 ^ 32), Nat.mod_add_mod]

theorem newBase_mod (d : Nat → Byte) : (newBase d).toNat % 65536 = 0 := by
  rw [newBase, BitVec.toNat_shiftLeft, Nat.shiftLeft_eq]
  omega

theorem base_mod_of_scanned {data : Nat → Byte} {t : List Byte} {base : BitVec 32}
    {d : Nat → Byte} (h : Scanned memsize data t base d) : base.toNat % 65536 = 0 := by
  induction h with
  | start => rfl
  | space _ _ ih => exact ih
  | record _ _ _ _ ha ih =>
    rcases ha with ⟨-, -, rfl⟩ | ⟨-, -, rfl⟩
    · exact ih
    · exact newBase_mod _

theorem target_lt {base : BitVec 32} (h : base.toNat % 65536 = 0) (d : Nat → Byte) :
    target base d < 2 ^ 32 := by
  have hbase := base.isLt
  have haddr := (addr d).isLt
  rw [target]
  omega

/-! ### The trace grows -/

theorem finish_trace (memsize : Nat) (s : Loader) (first : Nat) (q : Pairs) (left : List Byte) :
    ∃ evs, (finish memsize s first q left).2.trace = s.trace ++ evs ∧
      ∀ e ∈ evs, (e = .record first q.i q.data ∧ q.sum = 0) ∨ q.sum = 0 ∧ q.data 3 = 0 ∧
        outside memsize s.addrbase q.data = false ∧
          ∃ k < (q.data 0).toNat, e = .write (target s.addrbase q.data + k) := by
  rw [finish]
  split
  · exact ⟨[], (List.append_nil _).symm, fun _ he => absurd he List.not_mem_nil⟩
  · next hsum =>
    have hsum := not_not.mp hsum
    obtain ⟨-, -, evs, htrace, hevs⟩ := act_frame memsize { s with
      left := left, data := q.data, trace := s.trace ++ [.record first q.i q.data] }
    refine ⟨.record first q.i q.data :: evs, ?_, fun e he => ?_⟩
    · rw [htrace, List.append_assoc]
      rfl
    · rcases List.mem_cons.mp he with rfl | he
      · exact .inl ⟨rfl, hsum⟩
      · exact .inr ⟨hsum, hevs e he⟩

theorem body_trace (memsize n : Nat) (beyond c : Byte) (left : List Byte) (s : Loader) :
    ∃ evs, (body memsize n beyond c left s).2.trace = s.trace ++ evs := by
  by_cases hc : c = colon
  · subst hc
    cases hr : readPairs n beyond left ⟨0, 0, s.data⟩ with
    | mk r evs =>
      cases r with
      | none =>
        rw [body_none hr]
        exact ⟨_, List.append_assoc ..⟩
      | some r =>
        rw [body_some hr]
        obtain ⟨evs', htrace, -⟩ := finish_trace memsize { s with
          trace := s.trace ++ [.read (n - (left.length + 1))] ++ evs } (n - left.length) r.1 r.2
        rw [htrace]
        exact ⟨_, by rw [List.append_assoc, List.append_assoc]⟩
  · by_cases hsp : isspace c = true
    · rw [body_space memsize n beyond hsp]
      exact ⟨_, rfl⟩
    · rw [body_other hc (by simpa using hsp)]
      exact ⟨_, rfl⟩

theorem loop_trace {fuel : Nat} {s s' : Loader} {v : Bool}
    (h : loop memsize n beyond fuel s = some (v, s')) : ∃ evs, s'.trace = s.trace ++ evs := by
  induction fuel generalizing s with
  | zero => cases h
  | succ k ih =>
    rw [loop] at h
    split at h
    · cases h
      exact ⟨[], (List.append_nil _).symm⟩
    · next c left hl =>
      obtain ⟨evs, htrace⟩ := body_trace memsize n beyond c left s
      split at h
      · next v' s₁ hb =>
        cases h
        rw [hb] at htrace
        exact ⟨evs, htrace⟩
      · next s₁ hb =>
        rw [hb] at htrace
        obtain ⟨evs', htrace'⟩ := ih h
        rw [htrace', htrace]
        exact ⟨_, List.append_assoc ..⟩

/-- What the loop does first stays in the trace of the call. -/
theorem mem_trace {data mem : Nat → Byte} {hex : List Byte} {s : Loader}
    (hrun : Run (round memsize hex.length beyond) (fun _ _ => True) (start hex mem data) s)
    {c : Byte} {left : List Byte} (hl : s.left = c :: left) {e : Event}
    (he : e ∈ (body memsize hex.length beyond c left s).2.trace) :
    ∃ v s', writeHexToMem memsize hex beyond mem data = some (v, s') ∧ e ∈ s'.trace := by
  obtain ⟨⟨v, s'⟩, hr⟩ := exists_loop memsize beyond (n := hex.length) (s := start hex mem data)
    (Nat.le_refl _) (Nat.lt_succ_self _)
  refine ⟨v, s', hr, ?_⟩
  obtain ⟨k, hloop⟩ := writeHexToMem_eq_loop hrun
  have hf := hloop.symm.trans hr
  rw [loop, hl] at hf
  simp only at hf
  split at hf
  · next v' s₁ hb =>
    cases hf
    rw [hb] at he
    exact he
  · next s₁ hb =>
    rw [hb] at he
    obtain ⟨evs, htrace⟩ := loop_trace hf
    rw [htrace]
    exact List.mem_append_left _ he

/-! ### A call that is not safe -/

theorem not_safe_of_endsInPair {data : Nat → Byte} {hex : List Byte}
    (h : EndsInPair memsize data hex) (beyond : Byte) (mem : Nat → Byte) :
    ¬Safe memsize hex beyond mem data := by
  intro hsafe
  obtain ⟨t, base, d, text, bs, c, hscan, ht, hp, hc, hhex⟩ := h
  obtain ⟨hi, hc⟩ := Option.isSome_iff_exists.mp hc
  obtain ⟨s, hrun, hl, -, -⟩ := run_of_scanned beyond mem hscan rfl _ hhex
  have hn : (text ++ [c]).length < hex.length := by
    rw [hhex]
    simp only [List.length_append, List.length_cons]
    omega
  obtain ⟨evs, -, hmem, hbody⟩ := body_digit memsize beyond ht s hp hc hn
  have hin : .read hex.length ∈ (body memsize hex.length beyond colon (text ++ [c]) s).2.trace := by
    rw [hbody]
    cases fromhex beyond with
    | none => exact List.mem_append_right _ hmem
    | some lo =>
      obtain ⟨evs', htrace, -⟩ := finish_trace memsize { s with trace := s.trace ++ evs }
        (hex.length - (text ++ [c]).length) (taken s.data (bs ++ [lo ||| (hi <<< 4)])) []
      rw [htrace]
      exact List.mem_append_left _ (List.mem_append_right _ hmem)
  obtain ⟨v, s', hr, htrace⟩ := mem_trace hrun hl hin
  exact Nat.lt_irrefl _ (hsafe v s' hr _ htrace)

/-- A record that ends where the loop over its pairs stops, at the end of the input or not. -/
theorem body_record (memsize : Nat) {text bs rest : List Byte} (ht : decode text = some bs)
    (hends : Whole bs ∨ Partial bs ∧ rest = []) (beyond : Byte) (s : Loader)
    (hn : (text ++ rest).length < n) :
    ∃ evs, ReadsInside n evs ∧ body memsize n beyond colon (text ++ rest) s =
      finish memsize { s with trace := s.trace ++ evs } (n - (text ++ rest).length)
        (taken s.data bs) rest := by
  rcases hends with hw | ⟨hp, rfl⟩
  · exact body_whole memsize beyond ht s hw hn
  · rw [List.append_nil] at hn ⊢
    exact body_cut memsize beyond ht s hp hn

/-- The writes of a data record that passes the check. -/
theorem write_mem_act {s : Loader} (h3 : s.data 3 = 0)
    (hout : outside memsize s.addrbase s.data = false) {k : Nat} (hk : k < (s.data 0).toNat) :
    .write (target s.addrbase s.data + k) ∈ (act memsize s).2.trace := by
  rw [act, if_pos h3, hout]
  exact List.mem_append_right _ (List.mem_map.mpr ⟨k, List.mem_range.mpr hk, rfl⟩)

theorem not_safe_of_wraps {data : Nat → Byte} {hex : List Byte} (h : Wraps memsize data hex)
    (beyond : Byte) (mem : Nat → Byte) : ¬Safe memsize hex beyond mem data := by
  intro hsafe
  obtain ⟨t, base, d, text, bs, rest, hscan, ht, hends, hsum, h3, hhex, hlt, hle⟩ := h
  obtain ⟨s, hrun, hl, rfl, rfl⟩ :=
    run_of_scanned beyond mem hscan rfl _ hhex
  have hn : (text ++ rest).length < hex.length := by
    rw [hhex]
    simp only [List.length_append, List.length_cons]
    omega
  have htarget := target_lt (base_mod_of_scanned hscan) (overlay s.data bs)
  have hpos : 0 < (overlay s.data bs 0).toNat := by
    rcases Nat.eq_zero_or_pos (overlay s.data bs 0).toNat with h0 | hpos
    · rw [h0, Nat.add_zero] at hlt hle
      rw [Nat.mod_eq_of_lt htarget] at hle
      omega
    · exact hpos
  have hout : outside memsize s.addrbase (overlay s.data bs) = false := by
    rw [outside_eq, decide_eq_false_iff_not]
    omega
  obtain ⟨evs, -, hbody⟩ := body_record memsize ht hends beyond s hn
  rw [finish_of_sum hsum] at hbody
  have hin := write_mem_act (s := { s with
    left := rest, data := overlay s.data bs
    trace := s.trace ++ evs ++ [.record (hex.length - (text ++ rest).length) bs.length
      (overlay s.data bs)] }) h3 hout (Nat.sub_lt hpos Nat.one_pos)
  rw [← hbody] at hin
  obtain ⟨v, s', hr, htrace⟩ := mem_trace hrun hl hin
  have hinside : target s.addrbase (overlay s.data bs) +
      ((overlay s.data bs 0).toNat - 1) < memsize := hsafe v s' hr _ htrace
  omega

/-! ### Every other call is safe -/

section

variable {data : Nat → Byte} {hex : List Byte} (hpair : ¬EndsInPair memsize data hex)
  (hwrap : ¬Wraps memsize data hex)

include hwrap

/-- The events at the end of a record behind a scanned text. -/
theorem inside_finish {t text bs rest : List Byte} {s : Loader}
    (hscan : Scanned memsize data t s.addrbase s.data) (ht : decode text = some bs)
    (hends : Whole bs ∨ Partial bs ∧ rest = []) (hhex : hex = t ++ colon :: (text ++ rest))
    {evs : List Event} (hevs : ReadsInside hex.length evs) (first : Nat) :
    ∃ evs', (finish memsize { s with trace := s.trace ++ evs } first
        (taken s.data bs) rest).2.trace = s.trace ++ evs' ∧
      ∀ e ∈ evs', e.Inside memsize hex.length := by
  obtain ⟨evs', htrace, hevs'⟩ := finish_trace memsize { s with trace := s.trace ++ evs } first
    (taken s.data bs) rest
  refine ⟨evs ++ evs', by rw [htrace, List.append_assoc], fun e he => ?_⟩
  rcases List.mem_append.mp he with he | he
  · obtain ⟨i, hi, rfl⟩ := hevs e he
    exact hi
  · rcases hevs' e he with ⟨rfl, -⟩ | ⟨hsum, h3, hout, k, hk, rfl⟩
    · trivial
    · rw [outside_eq, decide_eq_false_iff_not] at hout
      by_contra hge
      refine hwrap ⟨t, s.addrbase, s.data, text, bs, rest, hscan, ht, hends, hsum, h3, hhex, ?_, ?_⟩
      · have hge' : memsize ≤ target s.addrbase (overlay s.data bs) + k := Nat.le_of_not_lt hge
        have hk' : k < (overlay s.data bs 0).toNat := hk
        omega
      · exact Nat.le_of_not_lt hout

include hpair

/-- A round behind a scanned text. -/
theorem inside_body (beyond : Byte) {t left : List Byte} {c : Byte} {s : Loader}
    (hscan : Scanned memsize data t s.addrbase s.data) (hhex : hex = t ++ c :: left) :
    ∃ evs, (body memsize hex.length beyond c left s).2.trace = s.trace ++ evs ∧
      ∀ e ∈ evs, e.Inside memsize hex.length := by
  have hn : left.length + 1 ≤ hex.length := by
    rw [hhex]
    simp only [List.length_append, List.length_cons]
    omega
  have hfirst : ∀ e ∈ [Event.read (hex.length - (left.length + 1))],
      e.Inside memsize hex.length := by
    intro e he
    rw [List.mem_singleton.mp he]
    show _ < hex.length
    omega
  by_cases hc : c = colon
  · subst hc
    have hcolon := colon_body memsize beyond s hn
    generalize body memsize hex.length beyond colon left s = r at hcolon ⊢
    cases hcolon with
    | whole hl ht hw hevs =>
      subst hl
      exact inside_finish hwrap hscan ht (.inl hw) hhex hevs _
    | cut ht hp hevs =>
      refine inside_finish hwrap hscan ht (.inr ⟨hp, rfl⟩) ?_ hevs _
      rw [List.append_nil]
      exact hhex
    | digit hl ht hp hc _ =>
      subst hl
      exact absurd ⟨t, _, _, _, _, _, hscan, ht, hp, Option.isSome_iff_exists.mpr ⟨_, hc⟩, hhex⟩
        hpair
    | bad hevs =>
      refine ⟨_, rfl, fun e he => ?_⟩
      obtain ⟨i, hi, rfl⟩ := hevs e he
      exact hi
  · by_cases hsp : isspace c = true
    · rw [body_space memsize hex.length beyond hsp]
      exact ⟨_, rfl, hfirst⟩
    · rw [body_other hc (by simpa using hsp)]
      exact ⟨_, rfl, hfirst⟩

theorem inside_of_run {mem : Nat → Byte} {s : Loader}
    (h : Run (round memsize hex.length beyond) (fun _ _ => True) (start hex mem data) s) :
    ∀ e ∈ s.trace, e.Inside memsize hex.length := by
  induction h with
  | refl => exact fun _ he => absurd he List.not_mem_nil
  | @tail s s' i hrun _ hstep ih =>
    obtain ⟨c, left, hl, hb⟩ := body_of_round hstep
    obtain ⟨t, hscan, hhex⟩ | hnil := scanned_of_run rfl hrun
    · rw [hl] at hhex
      obtain ⟨evs, htrace, hevs⟩ := inside_body hpair hwrap beyond hscan hhex
      rw [hb] at htrace
      intro e he
      rw [htrace] at he
      exact (List.mem_append.mp he).elim (ih e) (hevs e)
    · rw [hnil] at hl
      cases hl

end

/-- **When the loader is safe.**  Whatever lies behind the input, in the memory and in the buffer,
a call reads only the input and writes only the memory if and only if the input does not end
within a pair of a record and no data record wraps round the address space. -/
theorem safe_iff (memsize : Nat) (hex : List Byte) (beyond : Byte) (mem data : Nat → Byte) :
    Safe memsize hex beyond mem data ↔
      ¬EndsInPair memsize data hex ∧ ¬Wraps memsize data hex := by
  constructor
  · intro hsafe
    exact ⟨fun h => not_safe_of_endsInPair h beyond mem hsafe,
      fun h => not_safe_of_wraps h beyond mem hsafe⟩
  · rintro ⟨hpair, hwrap⟩ v s' hr e he
    obtain ⟨s, hrun, ⟨hl, -, rfl⟩ | ⟨c, left, hl, hb⟩⟩ := exists_last hr
    · exact inside_of_run hpair hwrap hrun e he
    · obtain ⟨t, hscan, hhex⟩ | hnil := scanned_of_run rfl hrun
      · rw [hl] at hhex
        obtain ⟨evs, htrace, hevs⟩ := inside_body hpair hwrap beyond hscan hhex
        rw [hb] at htrace
        rw [htrace] at he
        exact (List.mem_append.mp he).elim (inside_of_run hpair hwrap hrun e) (hevs e)
      · rw [hnil] at hl
        cases hl

/-- A colon and one digit, of which the second is read behind the input; and an address record for
`0xFFFF0000` with a byte for `0xFFFF` after it, which is written at `2 ^ 32 - 1`. -/
theorem not_safe_examples :
    ¬Safe 0x400000 [0x3A, 0x30] 0 (fun _ => 0) (fun _ => 0) ∧
      ¬Safe 0x400000
        ([0x3A, 0x30, 0x32, 0x30, 0x30, 0x30, 0x30, 0x30, 0x34, 0x46, 0x46, 0x46, 0x46, 0x46,
          0x43] ++
          [0x3A, 0x30, 0x31, 0x46, 0x46, 0x46, 0x46, 0x30, 0x30, 0x41, 0x41, 0x35, 0x37])
        0 (fun _ => 0) (fun _ => 0) := by
  constructor
  · intro h
    exact absurd (h _ _ rfl (.read 2) (.tail _ (.tail _ (.head _)))) (Nat.lt_irrefl 2)
  · have hscan := @Scanned.record 0x400000 (fun _ => 0) []
      [0x30, 0x32, 0x30, 0x30, 0x30, 0x30, 0x30, 0x34, 0x46, 0x46, 0x46, 0x46, 0x46, 0x43]
      [0x02, 0x00, 0x00, 0x04, 0xFF, 0xFF, 0xFC] _ _ _ .start rfl (by decide) (by decide)
      (.inr ⟨rfl, rfl, rfl⟩)
    refine not_safe_of_wraps ⟨_, _, _,
      [0x30, 0x31, 0x46, 0x46, 0x46, 0x46, 0x30, 0x30, 0x41, 0x41, 0x35, 0x37],
      [0x01, 0xFF, 0xFF, 0x00, 0xAA, 0x57], [],
      hscan, rfl, .inl (by decide), by decide, rfl, rfl, ?_, ?_⟩ 0 _ <;> decide

end RetroCpu.HexLoader
