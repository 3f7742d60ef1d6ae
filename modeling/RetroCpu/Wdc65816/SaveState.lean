import Mathlib.Data.PNat.Basic
import RetroCpu.Lib.LittleEndian
import RetroCpu.SystemBus
import RetroCpu.Wdc65816.Cpu

/-!
# Saving and loading the state

`LoadState` reads the image of a `SaveData` and `loadState_saveData` says that it
restores what the image of a state holds: registers, banks, status, modes, clock
and instruction count.

`SaveState` appends the room for such an image and then takes the pointer it
stores through from the value of the first new byte, not from its address.  The
byte is zero, so the stores go through a null pointer, and
`saveState_eq_none` says that no call gets past them.
-/

namespace RetroCpu

open WordBytes Machine

/-- `SaveData`. -/
structure SaveData where
  cycle : BitVec 64
  numInstructions : BitVec 64
  a : Word
  x : Word
  y : Word
  d : Word
  sp : Word
  pc : Word
  dbr : Byte
  pbr : Byte
  flags : Byte
  emulation : Byte
  native6502 : Byte

namespace SaveData

/-- `sizeof(SaveData)`: 33 bytes of members, padded to the alignment of the first. -/
def sizeof : ℕ := 40

/-- The members as they lie in memory, without the padding. -/
def members (s : SaveData) : List Byte :=
  leBytes 8 s.cycle.toNat ++ (leBytes 8 s.numInstructions.toNat ++
    (leBytes 2 s.a.toNat ++ (leBytes 2 s.x.toNat ++ (leBytes 2 s.y.toNat ++
    (leBytes 2 s.d.toNat ++ (leBytes 2 s.sp.toNat ++ (leBytes 2 s.pc.toNat ++
    [s.dbr, s.pbr, s.flags, s.emulation, s.native6502])))))))

/-- `memcpy(&s, data, sizeof(s))`. -/
def ofMemory (data : List Byte) : SaveData where
  cycle := BitVec.ofNat 64 (field data 0 8)
  numInstructions := BitVec.ofNat 64 (field data 8 8)
  a := BitVec.ofNat 16 (field data 16 2)
  x := BitVec.ofNat 16 (field data 18 2)
  y := BitVec.ofNat 16 (field data 20 2)
  d := BitVec.ofNat 16 (field data 22 2)
  sp := BitVec.ofNat 16 (field data 24 2)
  pc := BitVec.ofNat 16 (field data 26 2)
  dbr := data.getD 28 0
  pbr := data.getD 29 0
  flags := data.getD 30 0
  emulation := data.getD 31 0
  native6502 := data.getD 32 0

@[simp] theorem length_members (s : SaveData) : s.members.length = 33 := by
  simp [members]

theorem ofMemory_members (s : SaveData) (padding : List Byte) :
    ofMemory (s.members ++ padding) = s := by
  obtain ⟨cycle, num, a, x, y, d, sp, pc, dbr, pbr, flags, emulation, native6502⟩ := s
  simp [ofMemory, members, List.append_assoc, field_append (length_leBytes _ _),
    ofNat_field_leBytes, List.getElem?_append_right]

end SaveData

namespace Core

/-- `LoadState`, up to the registers: the modes and the status. -/
def loadMode (c : Core) (s : SaveData) : Core :=
  (({ c with
    modeEmulation := s.emulation != 0
    modeNative6502 := s.native6502 != 0 }).setStatusRegister s.flags).onUpdateMode

/-- `LoadState`, after the modes. -/
def loadRegisters (c : Core) (s : SaveData) : Core :=
  { c with
    a := s.a, x := s.x, y := s.y, d := s.d, sp := s.sp
    ip := s.pc.setWidth 32
    codeSegmentBase := s.pbr.setWidth 32 <<< 16
    dataSegmentBase := s.dbr.setWidth 32 <<< 16
    numEmulatedInstructions := s.numInstructions }

end Core

namespace Machine

variable {β : Type}

/-- The values `SaveState` stores. -/
def saveData (m : Machine β) : SaveData where
  cycle := m.cycle
  numInstructions := m.core.numEmulatedInstructions
  a := m.core.a
  x := m.core.x
  y := m.core.y
  d := m.core.d
  sp := m.core.sp
  pc := m.core.pc
  dbr := m.core.dataBank
  pbr := m.core.programBank
  flags := m.core.getStatusRegister
  emulation := if m.core.modeEmulation then 1 else 0
  native6502 := if m.core.modeNative6502 then 1 else 0

/-- Store `bytes` through the pointer `p`, in a program whose only storage is that of the
vector `v`, at the address `storage`.  A store anywhere else has no result. -/
def storeThrough (storage : ℕ+) (v : List Byte) (p : ℕ) (bytes : List Byte) :
    Option (List Byte) :=
  if storage ≤ p ∧ p + bytes.length ≤ storage + v.length then
    some (v.take (p - storage) ++ bytes ++ v.drop (p - storage + bytes.length))
  else none

/-- `SaveState`, for a vector whose storage is at `storage` after it has been resized. -/
def saveState (m : Machine β) (storage : ℕ+) (outData : List Byte) : Option (Bool × List Byte) :=
  let size := outData.length
  let outData := outData ++ List.replicate SaveData.sizeof 0
  let s := (outData.getD size 0).toNat
  (storeThrough storage outData s m.saveData.members).map fun outData => (true, outData)

/-- `LoadState`: its result, what is left of the input, and the object after it. -/
def loadState (m : Machine β) (inData : List Byte) : Bool × List Byte × Machine β :=
  if inData.length < SaveData.sizeof then (false, inData, m)
  else
    let s := SaveData.ofMemory inData
    (true, inData.drop SaveData.sizeof,
      { m with core := (m.core.loadMode s).loadRegisters s, cycle := s.cycle })

/-- What a state restored from a saved one shares with it. -/
structure Restored (m m' : Machine β) : Prop where
  a : m'.core.a = m.core.a
  x : m'.core.x = m.core.x
  y : m'.core.y = m.core.y
  d : m'.core.d = m.core.d
  sp : m'.core.sp = m.core.sp
  pc : m'.core.pc = m.core.pc
  programBank : m'.core.programBank = m.core.programBank
  dataBank : m'.core.dataBank = m.core.dataBank
  status : m'.core.getStatusRegister = m.core.getStatusRegister
  modeEmulation : m'.core.modeEmulation = m.core.modeEmulation
  modeNative6502 : m'.core.modeNative6502 = m.core.modeNative6502
  modeLongA : m'.core.modeLongA = m.core.modeLongA
  modeLongXy : m'.core.modeLongXy = m.core.modeLongXy
  mode : m'.core.mode = m.core.mode
  cycle : m'.cycle = m.cycle
  numEmulatedInstructions : m'.core.numEmulatedInstructions = m.core.numEmulatedInstructions

/-! ### Loading what was to be saved -/

theorem loadMode_saveData (c : Core) {m : Machine β} (hm : m.core.Coherent) :
    c.loadMode m.saveData =
      ({ c.setFlags m.core.getStatusRegister with
        modeEmulation := m.core.modeEmulation
        modeNative6502 := m.core.modeNative6502
        modeLongA := m.core.modeLongA
        modeLongXy := m.core.modeLongXy }).onUpdateMode := by
  obtain ⟨ha, hx⟩ := Core.getStatusRegister_and hm
  have he : (m.saveData.emulation != 0) = m.core.modeEmulation := by
    cases h : m.core.modeEmulation <;> simp [saveData, h]
  have h6 : (m.saveData.native6502 != 0) = m.core.modeNative6502 := by
    cases h : m.core.modeNative6502 <;> simp [saveData, h]
  have hf : m.saveData.flags = m.core.getStatusRegister := rfl
  rw [Core.loadMode, Core.onUpdateMode_setStatusRegister, he, h6, hf, ha, hx]
  rfl

theorem restored_loadRegisters {m : Machine β} (hm : m.core.Coherent) (m' : Machine β) :
    Restored m { m' with
      core := (m'.core.loadMode m.saveData).loadRegisters m.saveData, cycle := m.cycle } := by
  rw [loadMode_saveData _ hm]
  have hu := Core.coherent_onUpdateMode
    { m'.core.setFlags m.core.getStatusRegister with
      modeEmulation := m.core.modeEmulation
      modeNative6502 := m.core.modeNative6502
      modeLongA := m.core.modeLongA
      modeLongXy := m.core.modeLongXy }
  rw [Core.onUpdateMode_eq] at hu ⊢
  have he : (m.core.modeNative6502 || m.core.modeEmulation) = m.core.modeEmulation := by
    cases h6 : m.core.modeNative6502
    · rfl
    · rw [hm.native6502 h6]
      rfl
  have ha : (!m.core.modeNative6502 && !m.core.modeEmulation && m.core.modeLongA) =
      m.core.modeLongA := by
    rw [← Bool.not_or, he]
    cases h : m.core.modeEmulation
    · rfl
    · rw [(hm.emulation h).1]
      rfl
  have hx : (!m.core.modeNative6502 && !m.core.modeEmulation && m.core.modeLongXy) =
      m.core.modeLongXy := by
    rw [← Bool.not_or, he]
    cases h : m.core.modeEmulation
    · rfl
    · rw [(hm.emulation h).2]
      rfl
  simp only [he, ha, hx] at hu ⊢
  constructor
  case pc => simp [Core.loadRegisters, saveData, Core.pc]
  case programBank => exact Core.bank_shift m.core.programBank
  case dataBank => exact Core.bank_shift m.core.dataBank
  case status =>
    have hf := Core.packFlags_unpacked m.core.getStatusRegister
    rw [Core.getStatusRegister_flags] at hf
    generalize hv : m.core.getStatusRegister = v at hf ⊢
    simp only [Core.getStatusRegister, Core.loadRegisters, Core.setFlags]
    rw [hf]
    exact hv
  case mode => exact hu.mode.trans hm.mode.symm
  all_goals simp only [Core.loadRegisters, saveData]

/-- **`LoadState` restores a state from the image of its save data**, whatever object it is
called on and whatever the padding holds. -/
theorem loadState_saveData {m : Machine β} (hm : m.core.Coherent) (m' : Machine β)
    {padding : List Byte} (hp : padding.length = 7) :
    ∃ r, m'.loadState (m.saveData.members ++ padding) = (true, [], r) ∧ Restored m r := by
  have hlen : (m.saveData.members ++ padding).length = SaveData.sizeof := by
    simp [SaveData.sizeof, hp]
  refine ⟨_, ?_, restored_loadRegisters hm m'⟩
  rw [loadState, if_neg (by omega), SaveData.ofMemory_members, List.drop_eq_nil_of_le (by omega)]
  rfl

/-! ### Saving -/

/-- **`SaveState` never returns**: its stores go through a null pointer. -/
theorem saveState_eq_none (m : Machine β) (storage : ℕ+) (outData : List Byte) :
    m.saveState storage outData = none := by
  have hp := storage.pos
  simp [saveState, storeThrough, SaveData.sizeof]

/-- A save appends an image of the state, and any object that loads it is restored. -/
def RoundTrip (m : Machine β) (storage : ℕ+) (outData : List Byte) : Prop :=
  ∃ image, image.length = SaveData.sizeof ∧
    m.saveState storage outData = some (true, outData ++ image) ∧
      ∀ m' : Machine β, ∃ r, m'.loadState image = (true, [], r) ∧ Restored m r

/-- **No state makes the round trip**, wherever the vector's storage lies and whatever it
held. -/
theorem not_roundTrip (m : Machine β) (storage : ℕ+) (outData : List Byte) :
    ¬m.RoundTrip storage outData := by
  rintro ⟨image, -, hs, -⟩
  rw [saveState_eq_none] at hs
  cases hs

/-- A CPU after `PowerOn`, and an empty vector. -/
theorem not_roundTrip_powerOn :
    ¬(powerOn (construct default (SystemBus.simple 24 fun _ => 0))).2.RoundTrip 4096 [] := by
  rintro ⟨image, -, hs, -⟩
  have hn : ((powerOn (construct default (SystemBus.simple 24 fun _ => 0))).2.saveState
    4096 []).isNone = true := by decide +kernel
  rw [hs] at hn
  cases hn

end Machine

end RetroCpu
