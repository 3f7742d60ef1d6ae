import Mathlib.Data.BitVec
import RetroCpu.Bus
import Mathlib.Logic.Function.Basic

/-!
# The loader for Intel HEX files

`writeHexToMem` is `WriteHexToMem` of `main.cc`.  The pointer `p` is given by what is left of
the input from it on, so it is at the end when nothing is left, and the byte it points to has
the index `n - left.length` in an input of `n` bytes.

Two things lie outside the input and the memory and still reach the loader: the byte behind the
end of the vector, `beyond`, which `p[1]` reads when one digit is left, and what the buffer
`data` holds before it is written.  Both are parameters.

The trace says what a call has read and written, by index, and which records it has acted on.
-/

namespace RetroCpu.HexLoader

/-- `fromhex`. -/
def fromhex (ch : Byte) : Option Byte :=
  if 0x30 ≤ ch ∧ ch ≤ 0x39 then some (ch - 0x30)
  else if 0x61 ≤ ch ∧ ch ≤ 0x66 then some (ch - 0x61 + 10)
  else if 0x41 ≤ ch ∧ ch ≤ 0x46 then some (ch - 0x41 + 10)
  else none

/-- `isspace` in the C locale. -/
def isspace (ch : Byte) : Bool := ch == 0x20 || (0x09 ≤ ch && ch ≤ 0x0D)

def colon : Byte := 0x3A

/-- What a call of `WriteHexToMem` does. -/
inductive Event
  /-- It reads the byte with index `i` of the input. -/
  | read (i : Nat)
  /-- The checksum of a record is right.  Its first digit has the index `first`, `pairs` pairs
  of digits were read, and the buffer is `data`. -/
  | record (first pairs : Nat) (data : Nat → Byte)
  /-- It writes the byte at `offset` from `mem` on. -/
  | write (offset : Nat)

/-- The loop variables of a record, and its buffer. -/
structure Pairs where
  i : Nat
  sum : Byte
  data : Nat → Byte

namespace Pairs

/-- `i < (uint32_t)data[0] + 5`. -/
def more (r : Pairs) : Bool := r.i < (r.data 0).toNat + 5

/-- The body of the loop, for a pair of digits that spells `v`. -/
def push (r : Pairs) (v : Byte) : Pairs :=
  ⟨r.i + 1, r.sum + v, Function.update r.data r.i v⟩

end Pairs

/-- `lo | (hi << 4)` for the digits `p[0]` and `p[1]`, if they are digits, and what was read. -/
def decodePair (p : Nat) (c₀ c₁ : Byte) : Option Byte × List Event :=
  match fromhex c₀ with
  | none => (none, [.read p])
  | some hi =>
    match fromhex c₁ with
    | none => (none, [.read p, .read (p + 1)])
    | some lo => (some (lo ||| (hi <<< 4)), [.read p, .read (p + 1)])

section

variable (memsize n : Nat) (beyond : Byte)

/-- The loop over the pairs of a record: the variables at its end and what is left of the
input, unless it returns `false`, and what was read. -/
def readPairs : List Byte → Pairs → Option (Pairs × List Byte) × List Event
  | [], r => (some (r, []), [])
  | [c₀], r =>
    if r.more then
      -- `p[1]` is behind the input
      let v := decodePair (n - 1) c₀ beyond
      (v.1.map fun v => (r.push v, []), v.2)
    else (some (r, [c₀]), [])
  | c₀ :: c₁ :: left, r =>
    if r.more then
      let v := decodePair (n - (left.length + 2)) c₀ c₁
      match v.1 with
      | none => (none, v.2)
      | some b =>
        let t := readPairs left (r.push b)
        (t.1, v.2 ++ t.2)
    else (some (r, c₀ :: c₁ :: left), [])

/-- The variables of `WriteHexToMem`, the memory, and the trace. -/
structure Loader where
  left : List Byte
  addrbase : BitVec 32
  data : Nat → Byte
  mem : Nat → Byte
  trace : List Event

namespace Loader

/-- `addr`. -/
def addr (data : Nat → Byte) : BitVec 16 :=
  ((data 1).setWidth 16 <<< 8) ||| (data 2).setWidth 16

/-- The address of `type` 4. -/
def newBase (data : Nat → Byte) : BitVec 32 :=
  (((data 4).setWidth 16 <<< 8) ||| (data 5).setWidth 16).setWidth 32 <<< 16

/-- `addrbase + addr + data[0] > memsize`. -/
def outside (addrbase : BitVec 32) (data : Nat → Byte) : Bool :=
  memsize < (addrbase + (addr data).setWidth 32 + (data 0).setWidth 32).toNat

/-- The offset `addrbase + addr` from `mem` on. -/
def target (addrbase : BitVec 32) (data : Nat → Byte) : Nat :=
  addrbase.toNat + (addr data).toNat

/-- `memcpy(mem + target, src, size)`. -/
def memcpy (mem : Nat → Byte) (target : Nat) (src : Nat → Byte) (size : Nat) : Nat → Byte :=
  fun k => if target ≤ k ∧ k < target + size then src (k - target) else mem k

/-- The `switch` on the type of a record: what it returns, if it does. -/
def act (s : Loader) : Option Bool × Loader :=
  if s.data 3 = 0 then
    if outside memsize s.addrbase s.data then (some false, s)
    else
      let size := (s.data 0).toNat
      let dest := target s.addrbase s.data
      (none, { s with
        mem := memcpy s.mem dest (fun k => s.data (4 + k)) size
        trace := s.trace ++ (List.range size).map fun k => .write (dest + k) })
  else if s.data 3 = 1 then (some true, s)
  else if s.data 3 = 4 then
    if s.data 0 ≠ 2 then (some false, s)
    else (none, { s with addrbase := newBase s.data })
  else (some false, s)

/-- The body of the loop with `c` at `p` and `left` behind it: what it returns, if it does. -/
def body (c : Byte) (left : List Byte) (s : Loader) : Option Bool × Loader :=
  let s := { s with left := left, trace := s.trace ++ [.read (n - (left.length + 1))] }
  if c = colon then
    let r := readPairs n beyond left ⟨0, 0, s.data⟩
    let s := { s with trace := s.trace ++ r.2 }
    match r.1 with
    | none => (some false, s)
    | some (q, left') =>
      let s := { s with left := left', data := q.data }
      if q.sum ≠ 0 then (some false, s)
      else
        act memsize { s with trace := s.trace ++ [.record (n - left.length) q.i q.data] }
  else if isspace c then (none, s)
  else (some false, s)

/-- The loop of `WriteHexToMem`, for at most `fuel` rounds. -/
def loop : Nat → Loader → Option (Bool × Loader)
  | 0, _ => none
  | fuel + 1, s =>
    match s.left with
    | [] => some (true, s)
    | c :: left =>
      match body memsize n beyond c left s with
      | (some v, s') => some (v, s')
      | (none, s') => loop fuel s'

def start (hex : List Byte) (mem data : Nat → Byte) : Loader :=
  ⟨hex, 0, Function.update data 0 0, mem, []⟩

end Loader

end

/-- `WriteHexToMem(mem, memsize, hex)`. -/
def writeHexToMem (memsize : Nat) (hex : List Byte) (beyond : Byte) (mem data : Nat → Byte) :
    Option (Bool × Loader) :=
  Loader.loop memsize hex.length beyond (hex.length + 1) (Loader.start hex mem data)

end RetroCpu.HexLoader
