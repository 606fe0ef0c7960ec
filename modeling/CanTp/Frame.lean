import CanTp.Library.Buffer
import Mathlib.Data.UInt
import Mathlib.Data.List.Basic
import Mathlib.Tactic.Linarith

/-!
# CAN-TP frames

`cantp_frame_t` is a packed union over eight bytes. Every frame format keeps its
type in the upper half of byte `0` and a four-bit field of its own in the lower
half: the length of a Single Frame, the upper length bits of a First Frame, the
sequence number of a Consecutive Frame, the flow status of a Flow Control frame.
The readers and writers below are the bit fields of that union, so a value wider
than four bits is truncated by them as the compiler truncates it.
-/

namespace CanTp

/-- `enum CANTP_N_PCI_TYPE_ENUM` -/
inductive CantpNPciType
  | singleFrame
  | firstFrame
  | consecFrame
  | flowControll
deriving DecidableEq, Repr

/-- The value of the enumerator, as stored in `n_pci_t`. -/
def CantpNPciType.toUInt8 : CantpNPciType → UInt8
  | .singleFrame => 0
  | .firstFrame => 1
  | .consecFrame => 2
  | .flowControll => 3

/-- The enumerator a nibble stands for; the nibbles above `3` stand for none. -/
def CantpNPciType.ofUInt8 (v : UInt8) : Option CantpNPciType :=
  if v = 0 then some .singleFrame
  else if v = 1 then some .firstFrame
  else if v = 2 then some .consecFrame
  else if v = 3 then some .flowControll
  else none

@[simp] theorem CantpNPciType.ofUInt8_toUInt8 (t : CantpNPciType) :
    CantpNPciType.ofUInt8 t.toUInt8 = some t := by
  cases t <;> rfl

/-- `enum CANTP_FC_FLOW_STATUS_ENUM` -/
inductive CantpFcFlowStatus
  | cts
  | wait
  | ovf
deriving DecidableEq, Repr

/-- The value of the enumerator, as stored in `fc.fs`. -/
def CantpFcFlowStatus.toUInt8 : CantpFcFlowStatus → UInt8
  | .cts => 0
  | .wait => 1
  | .ovf => 2

/-- The flow status a nibble stands for; the nibbles above `2` stand for none. -/
def CantpFcFlowStatus.ofUInt8 (v : UInt8) : Option CantpFcFlowStatus :=
  if v = 0 then some .cts
  else if v = 1 then some .wait
  else if v = 2 then some .ovf
  else none

@[simp] theorem CantpFcFlowStatus.ofUInt8_toUInt8 (t : CantpFcFlowStatus) :
    CantpFcFlowStatus.ofUInt8 t.toUInt8 = some t := by
  cases t <;> rfl

/-- `CANTP_SF_NUM_DATA_BYTES` -/
def sfNumDataBytes : Nat := 7
/-- `CANTP_FF_NUM_DATA_BYTES` -/
def ffNumDataBytes : Nat := 6
/-- `CANTP_CF_NUM_DATA_BYTES` -/
def cfNumDataBytes : Nat := 7

/-- `cantp_frame_t`: the eight bytes the bit fields overlay. -/
structure CantpFrame where
  u8 : Vector UInt8 8
deriving DecidableEq, Repr

namespace CantpFrame

/-- `cantp_frame_t frame = { 0 }` -/
def zero : CantpFrame := ⟨Vector.replicate 8 0⟩

/-- Byte `i` of the frame; the formats never read past byte `7`. -/
def byte (f : CantpFrame) (i : Nat) : UInt8 := f.u8.toList.getD i 0

/-- Writes byte `i` of the frame. -/
def setByte (f : CantpFrame) (i : Nat) (b : UInt8) : CantpFrame :=
  ⟨f.u8.setIfInBounds i b⟩

/-- The frame whose bytes are `bs`, cut off or padded with zeros at eight bytes. -/
def ofList (bs : List UInt8) : CantpFrame := ⟨Vector.ofFn fun i => bs.getD i 0⟩

/-- The upper half of byte `0`. -/
def nPciT (f : CantpFrame) : UInt8 := f.byte 0 / 16

/-- The lower half of byte `0`, shared by `sf.len`, `ff.len_h`, `cf.sn` and
`fc.fs`. -/
def low (f : CantpFrame) : UInt8 := f.byte 0 % 16

def setNPciT (f : CantpFrame) (v : UInt8) : CantpFrame :=
  f.setByte 0 (v % 16 * 16 + f.byte 0 % 16)

def setLow (f : CantpFrame) (v : UInt8) : CantpFrame :=
  f.setByte 0 (f.byte 0 / 16 * 16 + v % 16)

def sfLen (f : CantpFrame) : UInt8 := f.low
def ffLenH (f : CantpFrame) : UInt8 := f.low
def cfSn (f : CantpFrame) : UInt8 := f.low
def fcFs (f : CantpFrame) : UInt8 := f.low

def setSfLen (f : CantpFrame) (v : UInt8) : CantpFrame := f.setLow v
def setFfLenH (f : CantpFrame) (v : UInt8) : CantpFrame := f.setLow v
def setCfSn (f : CantpFrame) (v : UInt8) : CantpFrame := f.setLow v
def setFcFs (f : CantpFrame) (v : UInt8) : CantpFrame := f.setLow v

def sfD (f : CantpFrame) (i : Nat) : UInt8 := f.byte (1 + i)
def ffLenL (f : CantpFrame) : UInt8 := f.byte 1
def ffD (f : CantpFrame) (i : Nat) : UInt8 := f.byte (2 + i)
def cfD (f : CantpFrame) (i : Nat) : UInt8 := f.byte (1 + i)
def fcBs (f : CantpFrame) : UInt8 := f.byte 1
def fcSt (f : CantpFrame) : UInt8 := f.byte 2

def setSfD (f : CantpFrame) (i : Nat) (b : UInt8) : CantpFrame := f.setByte (1 + i) b
def setFfLenL (f : CantpFrame) (b : UInt8) : CantpFrame := f.setByte 1 b
def setFfD (f : CantpFrame) (i : Nat) (b : UInt8) : CantpFrame := f.setByte (2 + i) b
def setCfD (f : CantpFrame) (i : Nat) (b : UInt8) : CantpFrame := f.setByte (1 + i) b
def setFcBs (f : CantpFrame) (b : UInt8) : CantpFrame := f.setByte 1 b
def setFcSt (f : CantpFrame) (b : UInt8) : CantpFrame := f.setByte 2 b

/-! ### Reading back what was written -/

theorem byte_setByte (f : CantpFrame) (i j : Nat) (b : UInt8) :
    (f.setByte i b).byte j = if i = j ∧ j < 8 then b else f.byte j :=
  Library.getD_toList_setIfInBounds f.u8 i j b 0

@[simp] theorem byte_zero (i : Nat) : zero.byte i = 0 := by
  rw [byte, zero]
  simp only [List.getD_eq_getElem?_getD, Vector.getElem?_toList,
    Vector.getElem?_replicate]
  split <;> rfl

theorem byte_ofList (bs : List UInt8) (i : Nat) (hi : i < 8) :
    (ofList bs).byte i = bs.getD i 0 := by
  simp [byte, ofList, List.getD_eq_getElem?_getD, hi]

theorem ext_byte {f g : CantpFrame} (h : ∀ i < 8, f.byte i = g.byte i) : f = g := by
  obtain ⟨u⟩ := f
  obtain ⟨v⟩ := g
  exact congrArg mk (Library.ext_getD_toList 0 h)

theorem nibbles (h l : UInt8) :
    (h % 16 * 16 + l % 16) / 16 = h % 16 ∧ (h % 16 * 16 + l % 16) % 16 = l % 16 := by
  have hh := h.toNat_lt
  constructor <;>
  · apply UInt8.toNat_inj.mp
    simp only [UInt8.toNat_div, UInt8.toNat_mod, UInt8.toNat_add, UInt8.toNat_mul,
      UInt8.reduceToNat]
    omega

theorem div_mod_sixteen (h : UInt8) : h / 16 % 16 = h / 16 := by
  have hh := h.toNat_lt
  apply UInt8.toNat_inj.mp
  simp only [UInt8.toNat_div, UInt8.toNat_mod, UInt8.reduceToNat]
  omega

theorem byte_fill (off n : Nat) (v : Nat → UInt8) (f : CantpFrame) (j : Nat) :
    (Library.forUpTo n (fun i g => g.setByte (off + i) (v i)) f).byte j =
      if off ≤ j ∧ j < off + n ∧ j < 8 then v (j - off) else f.byte j := by
  induction n with
  | zero => rw [Library.forUpTo_zero, if_neg (by omega)]
  | succ n ih =>
      rw [Library.forUpTo_succ, byte_setByte, ih]
      by_cases hj : off + n = j
      · subst hj
        simp
      · have hiff : j < off + (n + 1) ↔ j < off + n := by omega
        simp [hj, hiff]

@[simp] theorem ofList_toList (f : CantpFrame) : ofList f.u8.toList = f :=
  ext_byte fun i hi => byte_ofList _ i hi

@[simp] theorem nPciT_setNPciT (f : CantpFrame) (v : UInt8) :
    (f.setNPciT v).nPciT = v % 16 := by
  simp [nPciT, setNPciT, byte_setByte, nibbles]

@[simp] theorem low_setNPciT (f : CantpFrame) (v : UInt8) : (f.setNPciT v).low = f.low := by
  simp [low, setNPciT, byte_setByte, nibbles]

@[simp] theorem low_setLow (f : CantpFrame) (v : UInt8) : (f.setLow v).low = v % 16 := by
  have h := (nibbles (f.byte 0 / 16) v).2
  rw [div_mod_sixteen] at h
  simp [low, setLow, byte_setByte, h]

@[simp] theorem nPciT_setLow (f : CantpFrame) (v : UInt8) :
    (f.setLow v).nPciT = f.nPciT := by
  have h := (nibbles (f.byte 0 / 16) v).1
  rw [div_mod_sixteen] at h
  simp [nPciT, setLow, byte_setByte, h]

@[simp] theorem nPciT_setByte_succ (f : CantpFrame) (i : Nat) (b : UInt8) :
    (f.setByte (i + 1) b).nPciT = f.nPciT := by
  simp [nPciT, byte_setByte]

@[simp] theorem low_setByte_succ (f : CantpFrame) (i : Nat) (b : UInt8) :
    (f.setByte (i + 1) b).low = f.low := by
  simp [low, byte_setByte]

@[simp] theorem byte_succ_setNPciT (f : CantpFrame) (i : Nat) (v : UInt8) :
    (f.setNPciT v).byte (i + 1) = f.byte (i + 1) := by
  simp [setNPciT, byte_setByte]

@[simp] theorem byte_succ_setLow (f : CantpFrame) (i : Nat) (v : UInt8) :
    (f.setLow v).byte (i + 1) = f.byte (i + 1) := by
  simp [setLow, byte_setByte]

theorem byte_zero_header (t v : UInt8) :
    ((zero.setNPciT t).setLow v).byte 0 = t % 16 * 16 + v % 16 := by
  have h : t % 16 * 16 / 16 * 16 = t % 16 * 16 := by
    apply UInt8.toNat_inj.mp
    simp only [UInt8.toNat_mul, UInt8.toNat_div, UInt8.toNat_mod, UInt8.reduceToNat]
    omega
  simp [setNPciT, setLow, byte_setByte, h]

end CantpFrame

end CanTp
