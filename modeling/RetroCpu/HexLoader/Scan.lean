import RetroCpu.HexLoader.Records
import RetroCpu.Lib.Run

/-!
# The rounds of the loader

A run of `round` is the loop of the loader up to some place.  `loop_of_run` and `exists_last`
say that the loop does what the rounds do and then ends, either with the input or in a round
that returns, and `exists_loop` that it does end.

`Scanned` describes the texts which the loop gets over without returning: whitespace and
whole records of type 0 and 4.  `run_of_scanned` is one direction of this, and `scanned_of_run`
the other: only a record that is cut off by the end of the input is not of this kind.
-/

namespace RetroCpu.HexLoader

open Loader

variable {memsize n : Nat} {beyond : Byte}

namespace Loader

variable (memsize n beyond) in
def round (_ : Unit) (s : Loader) : Option Loader :=
  match s.left with
  | [] => none
  | c :: left =>
    match body memsize n beyond c left s with
    | (some _, _) => none
    | (none, s') => some s'

/-! ### Rounds and the loop -/

theorem round_eq {s : Loader} {c : Byte} {left : List Byte} (hl : s.left = c :: left)
    {s' : Loader} (h : body memsize n beyond c left s = (none, s')) :
    round memsize n beyond () s = some s' := by
  rw [round, hl]
  simp only [h]

theorem body_of_round {s s' : Loader} (h : round memsize n beyond () s = some s') :
    ∃ c left, s.left = c :: left ∧ body memsize n beyond c left s = (none, s') := by
  rw [round] at h
  split at h
  · cases h
  · next c left hl =>
    split at h
    · cases h
    · next s₁ hb =>
      cases h
      exact ⟨c, left, hl, hb⟩

theorem loop_of_run {s t : Loader}
    (h : Run (round memsize n beyond) (fun _ _ => True) s t) {fuel : Nat} {r : Bool × Loader}
    (hr : loop memsize n beyond fuel s = some r) :
    ∃ fuel', loop memsize n beyond fuel' t = some r := by
  induction h with
  | refl => exact ⟨fuel, hr⟩
  | tail i _ _ hstep ih =>
    obtain ⟨fuel', hf⟩ := ih
    obtain ⟨c, left, hl, hb⟩ := body_of_round hstep
    cases fuel' with
    | zero => cases hf
    | succ k =>
      rw [loop, hl] at hf
      simp only [hb] at hf
      exact ⟨k, hf⟩

/-- **The last round.**  The loop ends with the input, or in a round that returns. -/
theorem exists_last {fuel : Nat} {s s' : Loader} {v : Bool}
    (h : loop memsize n beyond fuel s = some (v, s')) :
    ∃ t, Run (round memsize n beyond) (fun _ _ => True) s t ∧
      (t.left = [] ∧ v = true ∧ s' = t ∨
        ∃ c left, t.left = c :: left ∧ body memsize n beyond c left t = (some v, s')) := by
  induction fuel generalizing s with
  | zero => cases h
  | succ k ih =>
    rw [loop] at h
    split at h
    · next hl =>
      cases h
      exact ⟨_, .refl, .inl ⟨hl, rfl, rfl⟩⟩
    · next c left hl =>
      split at h
      · next v' s₁ hb =>
        cases h
        exact ⟨_, .refl, .inr ⟨c, left, hl, hb⟩⟩
      · next s₁ hb =>
        obtain ⟨t, hrun, ht⟩ := ih h
        exact ⟨t, (Run.tail () .refl trivial (round_eq hl hb)).trans hrun, ht⟩

/-! ### The switch -/

/-- What `act` leaves as it is. -/
theorem act_frame (memsize : Nat) (s : Loader) :
    (act memsize s).2.left = s.left ∧ (act memsize s).2.data = s.data ∧
      ∃ evs, (act memsize s).2.trace = s.trace ++ evs ∧
        ∀ e ∈ evs, s.data 3 = 0 ∧ outside memsize s.addrbase s.data = false ∧
          ∃ k < (s.data 0).toNat, e = .write (target s.addrbase s.data + k) := by
  have hnil : ∃ evs, s.trace = s.trace ++ evs ∧
      ∀ e ∈ evs, s.data 3 = 0 ∧ outside memsize s.addrbase s.data = false ∧
        ∃ k < (s.data 0).toNat, e = .write (target s.addrbase s.data + k) :=
    ⟨[], (List.append_nil _).symm, fun _ he => absurd he List.not_mem_nil⟩
  rw [act]
  split
  · next h3 =>
    split
    · exact ⟨rfl, rfl, hnil⟩
    · next hout =>
      refine ⟨rfl, rfl, _, rfl, fun e he => ⟨h3, by simpa using hout, ?_⟩⟩
      obtain ⟨k, hk, rfl⟩ := List.mem_map.mp he
      exact ⟨k, List.mem_range.mp hk, rfl⟩
  · split
    · exact ⟨rfl, rfl, hnil⟩
    · split
      · split <;> exact ⟨rfl, rfl, hnil⟩
      · exact ⟨rfl, rfl, hnil⟩

/-- The loader goes on after a record with the buffer `data`, at the base `base'`. -/
def Acts (memsize : Nat) (base : BitVec 32) (data : Nat → Byte) (base' : BitVec 32) : Prop :=
  data 3 = 0 ∧ outside memsize base data = false ∧ base' = base ∨
    data 3 = 4 ∧ data 0 = 2 ∧ base' = newBase data

theorem acts_of_act {s s' : Loader} (h : act memsize s = (none, s')) :
    Acts memsize s.addrbase s.data s'.addrbase := by
  rw [act] at h
  split at h
  · next h3 =>
    split at h
    · cases h
    · next hout =>
      cases h
      exact .inl ⟨h3, by simpa using hout, rfl⟩
  · split at h
    · cases h
    · split at h
      · next h3 =>
        split at h
        · cases h
        · next h0 =>
          cases h
          exact .inr ⟨h3, by simpa using h0, rfl⟩
      · cases h

theorem act_of_acts (s : Loader) {base : BitVec 32} (h : Acts memsize s.addrbase s.data base) :
    ∃ s', act memsize s = (none, s') ∧ s'.left = s.left ∧ s'.data = s.data ∧ s'.addrbase = base ∧
      s'.mem = if s.data 3 = 0 then
        memcpy s.mem (target s.addrbase s.data) (fun k => s.data (4 + k)) (s.data 0).toNat
      else s.mem := by
  obtain ⟨hleft, hdata, -⟩ := act_frame memsize s
  refine ⟨(act memsize s).2, Prod.ext ?_ rfl, hleft, hdata, ?_⟩
  · rcases h with ⟨h3, hout, rfl⟩ | ⟨h3, h0, rfl⟩
    · rw [act, if_pos h3, hout]
      rfl
    · rw [act, h3, if_neg (by decide), if_neg (by decide), if_pos rfl, h0, if_neg (by decide)]
  · rcases h with ⟨h3, hout, rfl⟩ | ⟨h3, h0, rfl⟩
    · rw [if_pos h3, act, if_pos h3, hout]
      exact ⟨rfl, rfl⟩
    · rw [act, h3, if_neg (by decide), if_neg (by decide), if_pos rfl, h0, if_neg (by decide),
        if_neg (by decide)]
      exact ⟨rfl, rfl⟩

/-! ### The body of the loop -/

/-- The checksum and the switch, for the loop variables `q` at the end of a record. -/
def finish (memsize : Nat) (s : Loader) (first : Nat) (q : Pairs) (left : List Byte) :
    Option Bool × Loader :=
  if q.sum ≠ 0 then (some false, { s with left := left, data := q.data })
  else act memsize
    { s with left := left, data := q.data, trace := s.trace ++ [.record first q.i q.data] }

theorem body_none {left : List Byte} {s : Loader} {evs : List Event}
    (h : readPairs n beyond left ⟨0, 0, s.data⟩ = (none, evs)) :
    body memsize n beyond colon left s =
      (some false, { s with
        left := left
        trace := s.trace ++ [.read (n - (left.length + 1))] ++ evs }) := by
  simp only [body, if_pos, h]

theorem body_some {left left' : List Byte} {s : Loader} {q : Pairs} {evs : List Event}
    (h : readPairs n beyond left ⟨0, 0, s.data⟩ = (some (q, left'), evs)) :
    body memsize n beyond colon left s =
      finish memsize { s with trace := s.trace ++ [.read (n - (left.length + 1))] ++ evs }
        (n - left.length) q left' := by
  simp only [body, if_pos, h, finish]

theorem body_space (memsize n : Nat) (beyond : Byte) {c : Byte} (hc : isspace c = true)
    (left : List Byte) (s : Loader) :
    body memsize n beyond c left s =
      (none, { s with left := left, trace := s.trace ++ [.read (n - (left.length + 1))] }) := by
  have hne : c ≠ colon := by
    rintro rfl
    exact absurd hc (by decide)
  simp only [body, if_neg hne, hc, if_true]

theorem body_other {c : Byte} (hne : c ≠ colon) (hc : isspace c = false) (left : List Byte)
    (s : Loader) : body memsize n beyond c left s =
      (some false, { s with
        left := left, trace := s.trace ++ [.read (n - (left.length + 1))] }) := by
  simp only [body, if_neg hne, hc]
  rfl

/-- What `finish` leaves as it is. -/
theorem finish_frame (memsize : Nat) (s : Loader) (first : Nat) (q : Pairs) (left : List Byte) :
    (finish memsize s first q left).2.left = left ∧
      (finish memsize s first q left).2.data = q.data := by
  rw [finish]
  split
  · exact ⟨rfl, rfl⟩
  · exact ⟨(act_frame _ _).1, (act_frame _ _).2.1⟩

section Colon

variable (memsize beyond) {text bs : List Byte} (ht : decode text = some bs) (s : Loader)

include ht

/-- The round of a whole record. -/
theorem body_whole (hw : Whole bs) {rest : List Byte} (hn : (text ++ rest).length < n) :
    ∃ evs, ReadsInside n evs ∧ body memsize n beyond colon (text ++ rest) s =
      finish memsize { s with trace := s.trace ++ evs } (n - (text ++ rest).length)
        (taken s.data bs) rest := by
  obtain ⟨evs, hevs, heq⟩ := readPairs_eq n beyond s.data ht
    (by rw [← List.length_append]; exact Nat.le_of_lt hn) (.whole hw)
  rw [readPairs_whole n beyond s.data hw, List.append_nil] at heq
  refine ⟨.read (n - ((text ++ rest).length + 1)) :: evs, ?_, ?_⟩
  · intro e he
    rcases List.mem_cons.mp he with rfl | he
    · exact ⟨_, by omega, rfl⟩
    · exact hevs e he
  · rw [body_some heq, List.append_assoc]
    rfl

/-- The round of a record that the end of the input cuts off between two pairs. -/
theorem body_cut (hp : Partial bs) (hn : text.length < n) :
    ∃ evs, ReadsInside n evs ∧ body memsize n beyond colon text s =
      finish memsize { s with trace := s.trace ++ evs } (n - text.length)
        (taken s.data bs) [] := by
  obtain ⟨evs, hevs, heq⟩ := readPairs_eq n beyond s.data ht
    (show text.length + ([] : List Byte).length ≤ n from Nat.le_of_lt hn) (.cut hp)
  rw [List.append_nil, readPairs, List.append_nil] at heq
  refine ⟨.read (n - (text.length + 1)) :: evs, ?_, ?_⟩
  · intro e he
    rcases List.mem_cons.mp he with rfl | he
    · exact ⟨_, by omega, rfl⟩
    · exact hevs e he
  · rw [body_some heq, List.append_assoc]
    rfl

/-- The round of a record that the end of the input cuts off within a pair.  The byte behind the
input is taken for the second digit. -/
theorem body_digit (hp : Partial bs) {c hi : Byte} (hc : fromhex c = some hi)
    (hn : (text ++ [c]).length < n) :
    ∃ evs, (∀ e ∈ evs, ∃ i, e = .read i) ∧ .read n ∈ evs ∧
      body memsize n beyond colon (text ++ [c]) s =
        match fromhex beyond with
        | none => (some false, { s with left := text ++ [c], trace := s.trace ++ evs })
        | some lo => finish memsize { s with trace := s.trace ++ evs } (n - (text ++ [c]).length)
            (taken s.data (bs ++ [lo ||| (hi <<< 4)])) [] := by
  obtain ⟨evs, hevs, heq⟩ := readPairs_eq n beyond s.data ht
    (by rw [← List.length_append]; exact Nat.le_of_lt hn) (.digit hp hc)
  rw [readPairs_digit n beyond s.data hp hc] at heq
  refine ⟨.read (n - ((text ++ [c]).length + 1)) :: (evs ++ [.read (n - 1), .read (n - 1 + 1)]),
    ?_, ?_, ?_⟩
  · intro e he
    rcases List.mem_cons.mp he with rfl | he
    · exact ⟨_, rfl⟩
    · rcases List.mem_append.mp he with he | he
      · obtain ⟨i, -, rfl⟩ := hevs e he
        exact ⟨i, rfl⟩
      · rcases List.mem_cons.mp he with rfl | he
        · exact ⟨_, rfl⟩
        · exact ⟨_, List.mem_singleton.mp he⟩
  · have h : n - 1 + 1 = n := by omega
    rw [h]
    simp
  · cases hb : fromhex beyond with
    | none =>
      rw [hb, Option.map_none] at heq
      rw [body_none heq, List.append_assoc]
      rfl
    | some lo =>
      rw [hb, Option.map_some] at heq
      rw [body_some heq, List.append_assoc]
      rfl

end Colon

/-- What the round of a record does, for any input behind the colon. -/
inductive Colon (memsize n : Nat) (beyond : Byte) (s : Loader) (left : List Byte) :
    Option Bool × Loader → Prop
  | whole {text bs rest : List Byte} {evs : List Event} (hl : left = text ++ rest)
      (ht : decode text = some bs) (hw : Whole bs) (he : ReadsInside n evs) :
      Colon memsize n beyond s left (finish memsize { s with trace := s.trace ++ evs }
        (n - left.length) (taken s.data bs) rest)
  | cut {bs : List Byte} {evs : List Event} (ht : decode left = some bs) (hp : Partial bs)
      (he : ReadsInside n evs) :
      Colon memsize n beyond s left (finish memsize { s with trace := s.trace ++ evs }
        (n - left.length) (taken s.data bs) [])
  | digit {text bs : List Byte} {c hi : Byte} {r : Option Bool × Loader}
      (hl : left = text ++ [c]) (ht : decode text = some bs) (hp : Partial bs)
      (hc : fromhex c = some hi) (hr : r = body memsize n beyond colon left s) :
      Colon memsize n beyond s left r
  | bad {evs : List Event} (he : ReadsInside n evs) :
      Colon memsize n beyond s left
        (some false, { s with left := left, trace := s.trace ++ evs })

theorem colon_body (memsize : Nat) (beyond : Byte) (s : Loader) {left : List Byte}
    (hn : left.length < n) :
    Colon memsize n beyond s left (body memsize n beyond colon left s) := by
  obtain ⟨text, bs, rest, rfl, ht, hs⟩ := exists_stop left
  have hle : text.length + rest.length ≤ n := by
    rw [← List.length_append]
    exact Nat.le_of_lt hn
  have hfirst : ReadsInside n [.read (n - ((text ++ rest).length + 1))] := by
    intro e he
    exact ⟨_, by omega, List.mem_singleton.mp he⟩
  cases hs with
  | whole hw =>
    obtain ⟨evs, hevs, heq⟩ := body_whole memsize beyond ht s hw hn
    rw [heq]
    exact .whole rfl ht hw hevs
  | cut hp =>
    rw [List.append_nil] at hn ⊢
    obtain ⟨evs, hevs, heq⟩ := body_cut memsize beyond ht s hp hn
    rw [heq]
    exact .cut ht hp hevs
  | digit hp hc => exact .digit rfl ht hp hc rfl
  | @first rest c hp hc =>
    obtain ⟨evs, hevs, heq⟩ := readPairs_eq n beyond s.data ht hle (.first hp hc)
    obtain ⟨p, hle', hfirst'⟩ := readPairs_first n beyond s.data hp hc rest
    rw [hfirst'] at heq
    rw [body_none heq, List.append_assoc]
    refine .bad (hfirst.append (hevs.append fun e he => ⟨p, ?_, List.mem_singleton.mp he⟩))
    simp only [List.length_append, List.length_cons] at hn
    omega
  | @second rest c₀ c₁ hi hp hc hc' =>
    obtain ⟨evs, hevs, heq⟩ := readPairs_eq n beyond s.data ht hle (.second hp hc hc')
    rw [readPairs_second n beyond s.data hp hc hc'] at heq
    rw [body_none heq, List.append_assoc]
    simp only [List.length_append, List.length_cons] at hn
    refine .bad (hfirst.append (hevs.append fun e he => ?_))
    rcases List.mem_cons.mp he with rfl | he
    · exact ⟨_, by omega, rfl⟩
    · exact ⟨_, by omega, List.mem_singleton.mp he⟩

/-! ### The texts the loop gets over -/

/-- A text without a record that makes the loader return, with the base and the buffer after
it: whitespace and whole records with the right checksum. -/
inductive Scanned (memsize : Nat) (data : Nat → Byte) :
    List Byte → BitVec 32 → (Nat → Byte) → Prop
  | start : Scanned memsize data [] 0 (Function.update data 0 0)
  | space {t : List Byte} {base : BitVec 32} {d : Nat → Byte} {c : Byte}
      (h : Scanned memsize data t base d) (hc : isspace c = true) :
      Scanned memsize data (t ++ [c]) base d
  | record {t text bs : List Byte} {base base' : BitVec 32} {d : Nat → Byte}
      (h : Scanned memsize data t base d) (ht : decode text = some bs) (hw : Whole bs)
      (hsum : bs.sum = 0) (ha : Acts memsize base (overlay d bs) base') :
      Scanned memsize data (t ++ colon :: text) base' (overlay d bs)

/-- A record with the right checksum, as far as the `switch`. -/
theorem finish_of_sum {s : Loader} {first : Nat} {d : Nat → Byte} {bs left : List Byte}
    (hsum : bs.sum = 0) : finish memsize s first (taken d bs) left =
      act memsize { s with
        left := left, data := overlay d bs
        trace := s.trace ++ [.record first bs.length (overlay d bs)] } := by
  rw [finish, if_neg (by rw [taken, hsum]; exact fun h => h rfl)]
  rfl

theorem sum_of_finish {s s' : Loader} {first : Nat} {d : Nat → Byte} {bs left : List Byte}
    (h : finish memsize s first (taken d bs) left = (none, s')) : bs.sum = 0 := by
  rw [finish] at h
  split at h
  · cases h
  · next hsum => exact not_not.mp hsum

/-- The round of a whole record that does not make the loader return. -/
theorem round_record (memsize : Nat) (beyond : Byte) {s : Loader} {text bs rest : List Byte}
    (hl : s.left = colon :: (text ++ rest))
    (hn : (text ++ rest).length < n) (ht : decode text = some bs) (hw : Whole bs)
    (hsum : bs.sum = 0) {base : BitVec 32}
    (ha : Acts memsize s.addrbase (overlay s.data bs) base) :
    ∃ s', round memsize n beyond () s = some s' ∧ s'.left = rest ∧ s'.addrbase = base ∧
      s'.data = overlay s.data bs ∧
      s'.mem = if overlay s.data bs 3 = 0 then
        memcpy s.mem (target s.addrbase (overlay s.data bs))
          (fun k => overlay s.data bs (4 + k)) (overlay s.data bs 0).toNat
      else s.mem := by
  obtain ⟨evs, -, heq⟩ := body_whole memsize beyond ht s hw hn
  rw [finish_of_sum hsum] at heq
  obtain ⟨s', hact, hleft, hdata, hbase, hmem⟩ := act_of_acts { s with
    left := rest, data := overlay s.data bs
    trace := s.trace ++ evs ++
      [.record (n - (text ++ rest).length) bs.length (overlay s.data bs)] } ha
  rw [hact] at heq
  exact ⟨s', round_eq hl heq, hleft, hbase, hdata, hmem⟩

/-- The loop gets over a scanned text. -/
theorem run_of_scanned (beyond : Byte) (mem : Nat → Byte) {data : Nat → Byte} {t : List Byte}
    {base : BitVec 32} {d : Nat → Byte} (h : Scanned memsize data t base d) {hex : List Byte}
    (hn : n = hex.length) :
    ∀ rest, hex = t ++ rest → ∃ s,
      Run (round memsize n beyond) (fun _ _ => True) (start hex mem data) s ∧
        s.left = rest ∧ s.addrbase = base ∧ s.data = d := by
  induction h with
  | start =>
    intro rest hrest
    exact ⟨_, .refl, hrest, rfl, rfl⟩
  | @space t base d c h hc ih =>
    intro rest hrest
    obtain ⟨s, hrun, hl, hb, hd⟩ := ih (c :: rest) (by rw [hrest, List.append_assoc]; rfl)
    have hround := round_eq hl (body_space memsize n beyond hc rest s)
    exact ⟨_, .tail () hrun trivial hround, rfl, hb, hd⟩
  | @record t text bs base base' d h ht hw hsum ha ih =>
    intro rest hrest
    obtain ⟨s, hrun, hl, rfl, rfl⟩ := ih (colon :: (text ++ rest))
      (by rw [hrest, List.append_assoc]; rfl)
    have hlt : (text ++ rest).length < n := by
      rw [hn, hrest]
      simp only [List.length_append, List.length_cons]
      omega
    obtain ⟨s', hround, hleft, hbase, hdata, -⟩ :=
      round_record memsize beyond hl hlt ht hw hsum ha
    exact ⟨s', .tail () hrun trivial hround, hleft, hbase, hdata⟩

/-- A record that does not make the loader return is whole, or the input ends in it. -/
theorem record_of_body {s s' : Loader} {left : List Byte} (hn : left.length < n)
    (hb : body memsize n beyond colon left s = (none, s')) :
    (∃ text bs, left = text ++ s'.left ∧ decode text = some bs ∧ Whole bs ∧ bs.sum = 0 ∧
      Acts memsize s.addrbase (overlay s.data bs) s'.addrbase ∧ s'.data = overlay s.data bs) ∨
    s'.left = [] := by
  have hcolon := colon_body memsize beyond s hn
  rw [hb] at hcolon
  generalize hr : ((none, s') : Option Bool × Loader) = r at hcolon
  cases hcolon with
  | @whole text bs rest evs hl ht hw _ =>
    left
    have hsum := sum_of_finish hr.symm
    obtain ⟨hleft, hdata⟩ := finish_frame memsize { s with trace := s.trace ++ evs }
      (n - left.length) (taken s.data bs) rest
    rw [← hr] at hleft hdata
    rw [finish_of_sum hsum] at hr
    have ha := acts_of_act hr.symm
    exact ⟨text, bs, by rw [hleft, hl], ht, hw, hsum, ha, hdata⟩
  | @cut bs evs _ _ _ =>
    right
    exact (congrArg (fun r => r.2.left) hr).trans (finish_frame memsize _ _ _ _).1
  | @digit text bs c hi _ hl ht hp hc hr' =>
    right
    obtain ⟨evs, -, -, heq⟩ := body_digit memsize beyond ht s hp hc (by rw [← hl]; exact hn)
    rw [← hl, hb] at heq
    cases hbeyond : fromhex beyond with
    | none =>
      rw [hbeyond] at heq
      cases heq
    | some lo =>
      rw [hbeyond] at heq
      exact (congrArg (fun r => r.2.left) heq).trans (finish_frame memsize _ _ _ _).1
  | bad _ => cases hr

/-- **What the rounds have got over is a scanned text**, unless the input has ended in a record. -/
theorem scanned_of_run {data mem : Nat → Byte} {hex : List Byte} (hn : n = hex.length) {s : Loader}
    (h : Run (round memsize n beyond) (fun _ _ => True) (start hex mem data) s) :
    (∃ t, Scanned memsize data t s.addrbase s.data ∧ hex = t ++ s.left) ∨ s.left = [] := by
  induction h with
  | refl => exact .inl ⟨[], .start, rfl⟩
  | @tail s s' i _ _ hstep ih =>
    obtain ⟨c, left, hl, hb⟩ := body_of_round hstep
    obtain ⟨t, ht, hhex⟩ | hnil := ih
    · by_cases hc : c = colon
      · subst hc
        have hlt : left.length < n := by
          rw [hn, hhex, hl]
          simp only [List.length_append, List.length_cons]
          omega
        obtain ⟨text, bs, hleft, hdec, hw, hsum, ha, hdata⟩ | hnil := record_of_body hlt hb
        · refine .inl ⟨t ++ colon :: text, ?_, ?_⟩
          · rw [hdata]
            exact .record ht hdec hw hsum ha
          · rw [hhex, hl, hleft, List.append_assoc]
            rfl
        · exact .inr hnil
      · by_cases hsp : isspace c = true
        · rw [body_space memsize n beyond hsp] at hb
          cases hb
          exact .inl ⟨t ++ [c], .space ht hsp, by rw [hhex, hl, List.append_assoc]; rfl⟩
        · rw [body_other hc (by simpa using hsp)] at hb
          cases hb
    · rw [hnil] at hl
      cases hl

/-! ### The loop ends -/

/-- A round gets over at least one byte. -/
theorem length_of_round {s s' : Loader} (hn : s.left.length ≤ n)
    (h : round memsize n beyond () s = some s') : s'.left.length < s.left.length := by
  obtain ⟨c, left, hl, hb⟩ := body_of_round h
  rw [hl, List.length_cons] at hn ⊢
  by_cases hc : c = colon
  · subst hc
    obtain ⟨text, bs, hleft, -⟩ | hnil := record_of_body hn hb
    · rw [hleft, List.length_append]
      omega
    · rw [hnil]
      exact Nat.succ_pos _
  · by_cases hsp : isspace c = true
    · rw [body_space memsize n beyond hsp] at hb
      cases hb
      exact Nat.lt_succ_self _
    · rw [body_other hc (by simpa using hsp)] at hb
      cases hb

/-- **The loop returns** within as many rounds as there are bytes, and one more. -/
theorem exists_loop (memsize : Nat) (beyond : Byte) {fuel : Nat} {s : Loader}
    (hn : s.left.length ≤ n) (hf : s.left.length < fuel) :
    ∃ r, loop memsize n beyond fuel s = some r := by
  induction fuel generalizing s with
  | zero => exact absurd hf (Nat.not_lt_zero _)
  | succ k ih =>
    rw [loop]
    split
    · exact ⟨_, rfl⟩
    · next c left hl =>
      split
      · exact ⟨_, rfl⟩
      · next s' hb =>
        have hlt := length_of_round hn (round_eq hl hb)
        exact ih (by omega) (by omega)

section

variable {hex : List Byte} {mem data : Nat → Byte} {s : Loader}
  (hrun : Run (round memsize hex.length beyond) (fun _ _ => True) (start hex mem data) s)

include hrun

/-- What the loop makes of a state that it reaches is what the call returns. -/
theorem writeHexToMem_eq_loop : ∃ k,
    writeHexToMem memsize hex beyond mem data = loop memsize hex.length beyond (k + 1) s := by
  obtain ⟨r, hr⟩ := exists_loop memsize beyond (n := hex.length) (s := start hex mem data)
    (Nat.le_refl _) (Nat.lt_succ_self _)
  obtain ⟨fuel, hf⟩ := loop_of_run hrun hr
  cases fuel with
  | zero => cases hf
  | succ k => exact ⟨k, hr.trans hf.symm⟩

theorem writeHexToMem_of_end (hl : s.left = []) :
    writeHexToMem memsize hex beyond mem data = some (true, s) := by
  obtain ⟨k, h⟩ := writeHexToMem_eq_loop hrun
  rw [h, loop, hl]

theorem writeHexToMem_of_return {c : Byte} {left : List Byte} (hl : s.left = c :: left) {v : Bool}
    {s' : Loader} (hb : body memsize hex.length beyond c left s = (some v, s')) :
    writeHexToMem memsize hex beyond mem data = some (v, s') := by
  obtain ⟨k, h⟩ := writeHexToMem_eq_loop hrun
  rw [h, loop, hl]
  simp only [hb]

end

end Loader

end RetroCpu.HexLoader
