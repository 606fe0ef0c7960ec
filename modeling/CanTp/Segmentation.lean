import CanTp.Frame
import CanTp.Library.Buffer

/-!
# The segmentation of a message

What the transport layer is for, stated without its state machines: a message of
at most seven bytes travels in a Single Frame, a longer one in a First Frame with
its first six bytes and in Consecutive Frames with seven bytes each, numbered from
`1` modulo `16`. `canonicalFrames data len` is that list of frames, for the first
`len` bytes of `data`. Consecutive Frames are counted from `0` here, so
`cfAt data len i` carries the number `i + 1`.
-/

namespace CanTp

open Library

/-- The number of Consecutive Frames of a message of `len` bytes, the bytes after
the First Frame divided by seven and rounded up. -/
def numCfs (len : Nat) : Nat := (len - ffNumDataBytes + (cfNumDataBytes - 1)) / cfNumDataBytes

/-- The position in the message of the first byte of Consecutive Frame `i`. -/
def cfStart (i : Nat) : Nat := ffNumDataBytes + cfNumDataBytes * i

/-- The Single Frame of a message. -/
def sfFrame (data : List UInt8) (len : Nat) : CantpFrame :=
  .ofList (UInt8.ofNat len :: slice (data.take len) 0 sfNumDataBytes)

/-- The First Frame of a message. -/
def ffFrame (data : List UInt8) (len : Nat) : CantpFrame :=
  .ofList (UInt8.ofNat (16 + len / 256 % 16) :: UInt8.ofNat (len % 256) ::
    slice data 0 ffNumDataBytes)

/-- A Consecutive Frame with the sequence number `sn` and at most seven bytes. -/
def cfFrame (sn : Nat) (bytes : List UInt8) : CantpFrame :=
  .ofList (UInt8.ofNat (32 + sn % 16) :: bytes)

/-- The Consecutive Frame number `i + 1` of a message. -/
def cfAt (data : List UInt8) (len i : Nat) : CantpFrame :=
  cfFrame (i + 1) (slice (data.take len) (cfStart i) cfNumDataBytes)

/-- The Consecutive Frames of a message. -/
def canonicalCfs (data : List UInt8) (len : Nat) : List CantpFrame :=
  (List.range (numCfs len)).map (cfAt data len)

/-- The frames of a message. -/
def canonicalFrames (data : List UInt8) (len : Nat) : List CantpFrame :=
  if len ≤ sfNumDataBytes then [sfFrame data len]
  else ffFrame data len :: canonicalCfs data len

/-- The sequence number that follows `sn`. -/
def snAfter (sn : UInt8) : UInt8 := if sn + 1 > 0x0f then 0 else sn + 1

theorem toNat_snAfter {sn : UInt8} {k : Nat} (h : sn.toNat = k % 16) :
    (snAfter sn).toNat = (k + 1) % 16 := by
  have hs : (sn + 1).toNat = sn.toNat + 1 := by
    rw [UInt8.toNat_add]
    exact Nat.mod_eq_of_lt (by simpa using by omega)
  rw [snAfter]
  by_cases hgt : sn + 1 > 0x0f
  · rw [if_pos hgt]
    rw [gt_iff_lt, UInt8.lt_iff_toNat_lt, hs] at hgt
    simp only [UInt8.reduceToNat] at *
    omega
  · rw [if_neg hgt, hs]
    rw [gt_iff_lt, UInt8.lt_iff_toNat_lt, hs] at hgt
    simp only [UInt8.reduceToNat] at *
    omega

@[simp] theorem length_canonicalCfs (data : List UInt8) (len : Nat) :
    (canonicalCfs data len).length = numCfs len := by
  simp [canonicalCfs]

theorem lt_numCfs_iff (len i : Nat) : i < numCfs len ↔ cfStart i < len := by
  simp only [numCfs, cfStart, ffNumDataBytes, cfNumDataBytes]
  omega

theorem numCfs_pos {len : Nat} (h : sfNumDataBytes < len) : 0 < numCfs len := by
  rw [lt_numCfs_iff]
  simp only [cfStart, ffNumDataBytes, sfNumDataBytes] at *
  omega

/-- The message ends inside or at the end of its last frame. -/
theorem le_cfStart_numCfs (len : Nat) : len ≤ cfStart (numCfs len) := by
  have h := (lt_numCfs_iff len (numCfs len)).not
  omega

theorem cfStart_succ (i : Nat) : cfStart (i + 1) = cfStart i + cfNumDataBytes := by
  simp [cfStart, Nat.mul_add, Nat.add_assoc]

/-! ### Reading the frames of a message -/

theorem byte_zero_eq (t v : Nat) (ht : t < 16) (bytes : List UInt8) :
    (CantpFrame.ofList (UInt8.ofNat (16 * t + v % 16) :: bytes)).nPciT = UInt8.ofNat t ∧
      (CantpFrame.ofList (UInt8.ofNat (16 * t + v % 16) :: bytes)).low =
        UInt8.ofNat (v % 16) := by
  have hb : (CantpFrame.ofList (UInt8.ofNat (16 * t + v % 16) :: bytes)).byte 0 =
      UInt8.ofNat (16 * t + v % 16) := by
    rw [CantpFrame.byte_ofList _ _ (by omega)]
    rfl
  constructor <;>
  · simp only [CantpFrame.nPciT, CantpFrame.low, hb]
    apply UInt8.toNat_inj.mp
    simp only [UInt8.toNat_div, UInt8.toNat_mod, UInt8.toNat_ofNat', UInt8.reduceToNat]
    omega

@[simp] theorem nPciT_cfFrame (sn : Nat) (bytes : List UInt8) :
    (cfFrame sn bytes).nPciT = 2 :=
  (byte_zero_eq 2 sn (by omega) bytes).1

@[simp] theorem cfSn_cfFrame (sn : Nat) (bytes : List UInt8) :
    (cfFrame sn bytes).cfSn = UInt8.ofNat (sn % 16) :=
  (byte_zero_eq 2 sn (by omega) bytes).2

theorem cfD_cfFrame (sn : Nat) (bytes : List UInt8) (i : Nat) (hi : i < cfNumDataBytes) :
    (cfFrame sn bytes).cfD i = bytes.getD i 0 := by
  unfold cfNumDataBytes at hi
  rw [CantpFrame.cfD, cfFrame, CantpFrame.byte_ofList _ _ (by omega), Nat.add_comm 1 i,
    List.getD_cons_succ]

@[simp] theorem nPciT_ffFrame (data : List UInt8) (len : Nat) :
    (ffFrame data len).nPciT = 1 :=
  (byte_zero_eq 1 (len / 256) (by omega) _).1

theorem ffD_ffFrame (data : List UInt8) (len i : Nat) (hi : i < ffNumDataBytes) :
    (ffFrame data len).ffD i = data.getD i 0 := by
  have h8 : 2 + i < 8 := by unfold ffNumDataBytes at hi; omega
  rw [CantpFrame.ffD, ffFrame, CantpFrame.byte_ofList _ _ h8, Nat.add_comm 2 i,
    List.getD_cons_succ, List.getD_cons_succ, getD_slice, if_pos hi, Nat.zero_add]

theorem nPciT_sfFrame (data : List UInt8) (len : Nat) (h : len ≤ sfNumDataBytes) :
    (sfFrame data len).nPciT = 0 := by
  have h := (byte_zero_eq 0 len (by omega) (slice (data.take len) 0 sfNumDataBytes)).1
  rwa [Nat.mod_eq_of_lt (by simp only [sfNumDataBytes] at *; omega), Nat.mul_zero,
    Nat.zero_add] at h

theorem sfLen_sfFrame (data : List UInt8) (len : Nat) (h : len ≤ sfNumDataBytes) :
    (sfFrame data len).sfLen = UInt8.ofNat len := by
  have h := (byte_zero_eq 0 len (by omega) (slice (data.take len) 0 sfNumDataBytes)).2
  rwa [Nat.mod_eq_of_lt (by simp only [sfNumDataBytes] at *; omega), Nat.mul_zero,
    Nat.zero_add] at h

theorem sfD_sfFrame (data : List UInt8) (len i : Nat) (hi : i < len)
    (h : len ≤ sfNumDataBytes) : (sfFrame data len).sfD i = data.getD i 0 := by
  have h7 : i < sfNumDataBytes := by omega
  have h8 : 1 + i < 8 := by unfold sfNumDataBytes at h7; omega
  rw [CantpFrame.sfD, sfFrame, CantpFrame.byte_ofList _ _ h8, Nat.add_comm 1 i,
    List.getD_cons_succ, getD_slice, if_pos h7, Nat.zero_add,
    List.getD_eq_getElem?_getD, List.getElem?_take, if_pos hi, List.getD_eq_getElem?_getD]

end CanTp
