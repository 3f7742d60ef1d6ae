import Mathlib.Data.List.Forall2
import RetroCpu.Nes.Settings

/-!
# Sprite evaluation

`EvaluateSprites` looks for the sprites of the next scanline.  `lineSet` is which entries of
sprite memory they come from, and `evaluateSprites_lineSet` says that it finds those.
-/

namespace RetroCpu.Nes.Ppu

/-! ### Sprite memory -/

def spriteTop (p : Ppu) (k : Nat) : Nat := (p.oam (BitVec.ofNat 8 (4 * k))).toNat

def spriteHeight (p : Ppu) : Nat := if p.tallSprites then 16 else 8

/-- The entry `k` has a row on the scanline `s`, which draws the row `s - 1` of the picture with
the sprites one row down. -/
def Covers (p : Ppu) (s k : Nat) : Prop :=
  p.spriteTop k + 2 ≤ s ∧ s < p.spriteTop k + 2 + p.spriteHeight

instance (p : Ppu) (s k : Nat) : Decidable (p.Covers s k) :=
  inferInstanceAs (Decidable (_ ∧ _))

/-- The entries of the first `n` that have a row on the scanline `s`, and no more than eight. -/
def lineSetOf (p : Ppu) (s n : Nat) : List Nat := ((List.range n).filter (p.Covers s ·)).take 8

def lineSet (p : Ppu) (s : Nat) : List Nat := p.lineSetOf s 64

structure OfEntry (p : Ppu) (k : Nat) (sprite : Sprite) : Prop where
  attrib : sprite.attrib =
    if k = 0 then p.oam 2 &&& 0xE3 ||| 0x10 else p.oam (BitVec.ofNat 8 (4 * k + 2)) &&& 0xE3
  x : sprite.x = p.oam (BitVec.ofNat 8 (4 * k + 3))

/-- `sprites[0..num_sprites)`. -/
def spriteList (p : Ppu) : List Sprite := (List.range p.numSprites).map p.sprites

theorem length_spriteList (p : Ppu) : p.spriteList.length = p.numSprites := by
  rw [spriteList, List.length_map, List.length_range]

/-! ### One entry -/

variable {p : Ppu}

theorem addSprite_eq (p : Ppu) (index : BitVec 32) (sY eY : Byte) (y : BitVec 32) :
    ∃ bus sprite, p.addSprite index sY eY y =
      { p with
        bus := bus, sprites := Function.update p.sprites p.numSprites sprite
        numSprites := p.numSprites + 1 } ∧
      sprite.attrib = (if index = 0 then p.oam ((index + 2).setWidth 8) &&& 0xE3 ||| 0x10
        else p.oam ((index + 2).setWidth 8) &&& 0xE3) ∧
      sprite.x = p.oam ((index + 3).setWidth 8) := by
  unfold addSprite
  dsimp only
  generalize (if p.oam ((index + 2).setWidth 8) &&& 0x80 ≠ 0 then eY - y.setWidth 8 - 1
    else y.setWidth 8 - sY) = row
  obtain ⟨bus₁, h₁⟩ := read_eq p (p.spriteAddr (p.oam ((index + 1).setWidth 8)) row)
  obtain ⟨bus₂, h₂⟩ := read_eq { p with bus := bus₁ }
    (({ p with bus := bus₁ } : Ppu).spriteAddr (p.oam ((index + 1).setWidth 8)) row + 8)
  rw [readSpriteBit0, h₁, readSpriteBit1, h₂]
  exact ⟨_, _, rfl, rfl, rfl⟩

theorem spriteList_update (sprites : Nat → Sprite) (n : Nat) (sprite : Sprite) :
    (List.range (n + 1)).map (Function.update sprites n sprite) =
      (List.range n).map sprites ++ [sprite] := by
  rw [List.range_succ, List.map_append, List.map_singleton, Function.update_self]
  congr 1
  refine List.map_congr_left fun k hk => Function.update_of_ne ?_ _ _
  exact Nat.ne_of_lt (List.mem_range.mp hk)

/-- The rows are compared in 32 bits, and a sprite that begins above a row of the picture ends
below 256. -/
theorem covers_iff {k s : Nat} (hfirst : 1 ≤ s) (hlast : s ≤ 240) :
    ((p.oam (BitVec.ofNat 8 (4 * k))).setWidth 32 ≤ BitVec.ofNat 32 s - 1 ∧
      BitVec.ofNat 32 s - 1 < (p.spriteEnd (p.oam (BitVec.ofNat 8 (4 * k)))).setWidth 32) ↔
    p.Covers (s + 1) k := by
  unfold Covers spriteTop spriteHeight spriteEnd
  generalize p.oam (BitVec.ofNat 8 (4 * k)) = top
  have hrow : (BitVec.ofNat 32 s - 1).toNat = s - 1 := by bv_omega
  have htop := top.isLt
  have hwide : ∀ b : Byte, (b.setWidth 32).toNat = b.toNat := fun b =>
    BitVec.toNat_setWidth_of_le (by decide)
  rw [BitVec.le_def, BitVec.lt_def, hrow, hwide, hwide]
  cases p.tallSprites
  · have hend : (top + 8).toNat = (top.toNat + 8) % 256 := BitVec.toNat_add top 8
    simp only [Bool.false_eq_true, if_false, hend]
    omega
  · have hend : (top + 8 + 8).toNat = (top.toNat + 16) % 256 := by
      have h8 : (8 : Byte).toNat = 8 := rfl
      rw [BitVec.toNat_add, BitVec.toNat_add, h8]
      omega
    simp only [if_true, hend]
    omega

/-! ### The loop -/

theorem lineSetOf_succ (p : Ppu) (s n : Nat) : p.lineSetOf s (n + 1) =
    if p.Covers s n ∧ (p.lineSetOf s n).length < 8 then p.lineSetOf s n ++ [n]
    else p.lineSetOf s n := by
  unfold lineSetOf
  rw [List.range_succ, List.filter_append, List.length_take]
  by_cases hcovers : p.Covers s n
  · have hlast : [n].filter (fun k => decide (p.Covers s k)) = [n] := by simp [hcovers]
    rw [hlast]
    by_cases hlt : ((List.range n).filter (p.Covers s ·)).length < 8
    · have happend : ((List.range n).filter (p.Covers s ·) ++ [n]).length ≤ 8 := by
        rw [List.length_append]
        exact hlt
      rw [if_pos ⟨hcovers, by omega⟩, List.take_of_length_le happend,
        List.take_of_length_le (Nat.le_of_lt hlt)]
    · rw [if_neg (by omega), List.take_append_of_le_length (by omega)]
  · have hlast : [n].filter (fun k => decide (p.Covers s k)) = [] := by simp [hcovers]
    rw [hlast, List.append_nil, if_neg fun h => hcovers h.1]

/-- Nothing is added to a full list. -/
theorem lineSetOf_of_full {s k : Nat} (h : (p.lineSetOf s k).length = 8) {n : Nat} (hn : k ≤ n) :
    p.lineSetOf s n = p.lineSetOf s k := by
  induction hn with
  | refl => rfl
  | step _ ih => rw [lineSetOf_succ, ih, h, if_neg fun hlt => absurd hlt.2 (by decide)]

/-- What the loop does to a full list. -/
theorem evaluateSpritesLoop_of_full (h : p.numSprites = 8) (fuel : Nat) (index : BitVec 32) :
    evaluateSpritesLoop fuel index p = p := by
  induction fuel generalizing index with
  | zero => rfl
  | succ fuel ih =>
    unfold evaluateSpritesLoop
    dsimp only
    rw [if_neg (by omega : ¬p.numSprites < 8)]
    simp only [ih, ite_self]

/-- `q` is `p` after it has looked at the first `k` entries. -/
structure Found (p q : Ppu) (s k : Nat) : Prop where
  same : ∃ bus sprites n, q = { p with bus := bus, sprites := sprites, numSprites := n }
  entries : List.Forall₂ (OfEntry p) (p.lineSetOf s k) q.spriteList

/-- The bytes of an entry. -/
theorem entry_addr (k j : Nat) :
    (BitVec.ofNat 32 (4 * k) + BitVec.ofNat 32 j).setWidth 8 = BitVec.ofNat 8 (4 * k + j) := by
  apply BitVec.eq_of_toNat_eq
  rw [← BitVec.ofNat_add, BitVec.toNat_setWidth, BitVec.toNat_ofNat, BitVec.toNat_ofNat]
  omega

theorem ofEntry_addSprite {k : Nat} (hk : k < 64) {sprite : Sprite}
    (hattrib : sprite.attrib = if BitVec.ofNat 32 (4 * k) = 0 then
        p.oam ((BitVec.ofNat 32 (4 * k) + 2).setWidth 8) &&& 0xE3 ||| 0x10
      else p.oam ((BitVec.ofNat 32 (4 * k) + 2).setWidth 8) &&& 0xE3)
    (hx : sprite.x = p.oam ((BitVec.ofNat 32 (4 * k) + 3).setWidth 8)) : OfEntry p k sprite := by
  have h2 := entry_addr k 2
  have h3 := entry_addr k 3
  refine ⟨?_, hx.trans (congrArg p.oam h3)⟩
  rw [hattrib]
  by_cases hzero : k = 0
  · subst hzero
    rfl
  · have hne : BitVec.ofNat 32 (4 * k) ≠ 0 := by bv_omega
    rw [if_neg hne, if_neg hzero]
    exact congrArg (fun a => p.oam a &&& 0xE3) h2

def lineRow (p : Ppu) : BitVec 32 := BitVec.ofNat 32 p.currentScanline - 1

/-- `EvaluateSprites` puts the entry `k` into the list. -/
def addEntry (p : Ppu) (k : Nat) : Ppu :=
  p.addSprite (BitVec.ofNat 32 (4 * k)) (p.oam (BitVec.ofNat 8 (4 * k)))
    (p.spriteEnd (p.oam (BitVec.ofNat 8 (4 * k)))) p.lineRow

/-- A round of the loop at an entry. -/
theorem evaluateSpritesLoop_entry (fuel : Nat) {k : Nat} (hk : k < 64)
    (hfirst : 1 ≤ p.currentScanline) (hlast : p.currentScanline ≤ 240) : ∃ index,
    evaluateSpritesLoop (fuel + 1) (BitVec.ofNat 32 (4 * k)) p =
      if p.Covers (p.currentScanline + 1) k then
        evaluateSpritesLoop fuel (BitVec.ofNat 32 (4 * (k + 1)))
          (if p.numSprites < 8 then p.addEntry k else p)
      else if p.numSprites = 8 then evaluateSpritesLoop fuel index p
      else evaluateSpritesLoop fuel (BitVec.ofNat 32 (4 * (k + 1))) p := by
  have hbefore : BitVec.ofNat 32 (4 * k) < 253 := by bv_omega
  have hnext : BitVec.ofNat 32 (4 * k) + 4 = BitVec.ofNat 32 (4 * (k + 1)) :=
    (BitVec.ofNat_add (4 * k) 4).symm
  have hindex : (BitVec.ofNat 32 (4 * k)).setWidth 8 = BitVec.ofNat 8 (4 * k) := by
    apply BitVec.eq_of_toNat_eq
    rw [BitVec.toNat_setWidth, BitVec.toNat_ofNat, BitVec.toNat_ofNat]
    omega
  refine ⟨(BitVec.ofNat 32 (4 * (k + 1)) &&& 0xFFC) +
    ((BitVec.ofNat 32 (4 * (k + 1)) + 1) &&& 3), ?_⟩
  rw [evaluateSpritesLoop]
  dsimp only
  rw [if_pos hbefore, hindex, hnext]
  by_cases hcovers : p.Covers (p.currentScanline + 1) k
  · rw [if_pos ((covers_iff hfirst hlast).mpr hcovers), if_pos hcovers]
    rfl
  · rw [if_neg (mt (covers_iff hfirst hlast).mp hcovers), if_neg hcovers]

/-- `q` differs from `p` in its list of sprites, and in its bus, which satisfies `B`. -/
def SpriteChange (B : SystemBus Unit → Prop) (p q : Ppu) : Prop :=
  ∃ bus sprites n, B bus ∧ q = { p with bus := bus, sprites := sprites, numSprites := n }

/-- `q` is `p` after it has looked at the first `k` entries, and `R` says how a sprite comes from
its entry. -/
structure Collected (B : SystemBus Unit → Prop) (R : Nat → Sprite → Prop) (p q : Ppu)
    (s k : Nat) : Prop where
  change : SpriteChange B p q
  entries : List.Forall₂ R (p.lineSetOf s k) q.spriteList

section Collected

variable {B : SystemBus Unit → Prop} {R : Nat → Sprite → Prop}

theorem Collected.length {q : Ppu} {s k : Nat} (h : Collected B R p q s k) :
    (p.lineSetOf s k).length = q.numSprites :=
  h.entries.length_eq.trans (length_spriteList q)

/-- **The loop collects the entries of the scanline**, if one entry at a time can be added. -/
theorem Collected.loop (hfirst : 1 ≤ p.currentScanline) (hlast : p.currentScanline ≤ 240)
    (hadd : ∀ (q : Ppu) (k : Nat), SpriteChange B p q → k < 64 →
      p.Covers (p.currentScanline + 1) k → ∃ bus sprite, B bus ∧ R k sprite ∧
        q.addEntry k =
          { q with
            bus := bus, sprites := Function.update q.sprites q.numSprites sprite
            numSprites := q.numSprites + 1 })
    (fuel : Nat) {k : Nat} {q : Ppu} (h : Collected B R p q (p.currentScanline + 1) k)
    (hk : k ≤ 64) (hfuel : 64 - k < fuel) :
    Collected B R p (evaluateSpritesLoop fuel (BitVec.ofNat 32 (4 * k)) q)
      (p.currentScanline + 1) 64 := by
  induction fuel generalizing k q with
  | zero => omega
  | succ fuel ih =>
    by_cases hend : k = 64
    · subst hend
      exact h
    · have hn := h.length
      obtain ⟨hchange, hentries⟩ := h
      have hscanline : q.currentScanline = p.currentScanline := by
        obtain ⟨bus, sprites, n, -, rfl⟩ := hchange
        rfl
      have hcovers : q.Covers (p.currentScanline + 1) k ↔ p.Covers (p.currentScanline + 1) k := by
        obtain ⟨bus, sprites, n, -, rfl⟩ := hchange
        exact Iff.rfl
      obtain ⟨index, hround⟩ := evaluateSpritesLoop_entry (p := q) fuel
        (by omega : k < 64) (by omega) (by omega)
      rw [hround, hscanline]
      have hsame : p.lineSetOf (p.currentScanline + 1) (k + 1) =
          p.lineSetOf (p.currentScanline + 1) k →
          Collected B R p q (p.currentScanline + 1) (k + 1) :=
        fun heq => ⟨hchange, heq ▸ hentries⟩
      by_cases hk' : p.Covers (p.currentScanline + 1) k
      · rw [if_pos (hcovers.mpr hk')]
        by_cases hfull : q.numSprites < 8
        · rw [if_pos hfull]
          obtain ⟨bus, sprite, hB, hR, haddk⟩ := hadd q k hchange (by omega) hk'
          have hlist : (q.addEntry k).spriteList = q.spriteList ++ [sprite] := by
            rw [haddk]
            exact spriteList_update q.sprites q.numSprites sprite
          have hchange' : SpriteChange B p (q.addEntry k) := by
            obtain ⟨_, _, _, -, rfl⟩ := hchange
            exact ⟨bus, _, _, hB, haddk⟩
          refine ih (k := k + 1) ⟨hchange', ?_⟩ (by omega) (by omega)
          rw [lineSetOf_succ, if_pos ⟨hk', by omega⟩, hlist]
          exact List.rel_append hentries (.cons hR .nil)
        · rw [if_neg hfull]
          refine ih (hsame ?_) (by omega) (by omega)
          rw [lineSetOf_succ, if_neg (by omega)]
      · rw [if_neg (mt hcovers.mp hk')]
        by_cases hfull : q.numSprites = 8
        · -- from here on the entries are taken apart in the wrong place, but the list is full
          rw [if_pos hfull, evaluateSpritesLoop_of_full hfull]
          refine ⟨hchange, ?_⟩
          rw [lineSetOf_of_full (by omega) hk]
          exact hentries
        · rw [if_neg hfull]
          refine ih (hsame ?_) (by omega) (by omega)
          rw [lineSetOf_succ, if_neg fun h => hk' h.1]

end Collected

theorem Found.loop (hfirst : 1 ≤ p.currentScanline) (hlast : p.currentScanline ≤ 240)
    (fuel : Nat) {k : Nat} {q : Ppu} (h : Found p q (p.currentScanline + 1) k) (hk : k ≤ 64)
    (hfuel : 64 - k < fuel) :
    Found p (evaluateSpritesLoop fuel (BitVec.ofNat 32 (4 * k)) q) (p.currentScanline + 1) 64 := by
  obtain ⟨⟨bus, sprites, n, hq⟩, hentries⟩ := h
  have hcollected : Collected (fun _ => True) (OfEntry p) p q (p.currentScanline + 1) k :=
    ⟨⟨bus, sprites, n, trivial, hq⟩, hentries⟩
  have hadd : ∀ (q : Ppu) (k : Nat), SpriteChange (fun _ => True) p q → k < 64 →
      p.Covers (p.currentScanline + 1) k → ∃ bus sprite, True ∧ OfEntry p k sprite ∧
        q.addEntry k =
          { q with
            bus := bus, sprites := Function.update q.sprites q.numSprites sprite
            numSprites := q.numSprites + 1 } := by
    intro q k hchange hk _
    obtain ⟨bus, sprite, hadd, hattrib, hx⟩ := addSprite_eq q (BitVec.ofNat 32 (4 * k))
      (q.oam (BitVec.ofNat 8 (4 * k))) (q.spriteEnd (q.oam (BitVec.ofNat 8 (4 * k)))) q.lineRow
    obtain ⟨_, _, _, -, rfl⟩ := hchange
    exact ⟨bus, sprite, trivial, ofEntry_addSprite hk hattrib hx, hadd⟩
  obtain ⟨⟨bus', sprites', n', -, hsame⟩, hentries'⟩ :=
    hcollected.loop hfirst hlast hadd fuel hk hfuel
  exact ⟨⟨bus', sprites', n', hsame⟩, hentries'⟩

theorem evaluateSprites_eq (p : Ppu) : ∃ bus sprites n, p.evaluateSprites =
    { p with bus := bus, sprites := sprites, numSprites := n } := by
  have hloop : ∀ fuel index (p : Ppu), ∃ bus sprites n, evaluateSpritesLoop fuel index p =
      { p with bus := bus, sprites := sprites, numSprites := n } := by
    intro fuel
    induction fuel with
    | zero => exact fun index p => ⟨_, _, _, rfl⟩
    | succ fuel ih =>
      intro index p
      simp only [evaluateSpritesLoop]
      split
      · split
        · split
          · obtain ⟨bus, sprite, hadd, -⟩ := addSprite_eq p index
              (p.oam (index.setWidth 8)) (p.spriteEnd (p.oam (index.setWidth 8)))
              (BitVec.ofNat 32 p.currentScanline - 1)
            rw [hadd]
            exact ih _ _
          · exact ih _ _
        · split
          · exact ih _ _
          · exact ih _ _
      · exact ⟨_, _, _, rfl⟩
  exact hloop 253 0 { p with numSprites := 0 }

/-- **`EvaluateSprites` finds the sprites of the next scanline.** -/
theorem evaluateSprites_found (hfirst : 1 ≤ p.currentScanline) (hlast : p.currentScanline ≤ 240) :
    Found p p.evaluateSprites (p.currentScanline + 1) 64 :=
  Found.loop hfirst hlast 253 (k := 0) ⟨⟨p.bus, p.sprites, 0, rfl⟩, .nil⟩ (by decide)
    (by decide)

end RetroCpu.Nes.Ppu
