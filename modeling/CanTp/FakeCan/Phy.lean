import CanTp.Link.System

/-!
# Frames on the pipe

The link layer of the test writes every frame as the 14 bytes of a `fake_can_phy_t`, a
packed union: the kind of the transfer, the lower 24 bits of the CAN id, the id type, the
DLC and eight bytes of data. `FakeCanPhy.put` is the common part of `fake_can_tx` and
`fake_can_tx_nb` that fills the static `can_frame`, `FakeCanPhy.get` is what
`fake_can_rx_task` hands on of the bytes it has read.
-/

namespace CanTp

/-- `enum candrv_frame_type_e` -/
inductive CandrvFrameType
  | frame
  | ack
deriving DecidableEq, Repr

/-- The value of the enumerator, as stored in `ack`. -/
def CandrvFrameType.toUInt8 : CandrvFrameType → UInt8
  | .frame => 0
  | .ack => 1

/-- `fake_can_phy_t`: the bytes the fields overlay. -/
structure FakeCanPhy where
  u8 : Vector UInt8 14
deriving DecidableEq, Repr

namespace FakeCanPhy

/-- The bit field `id` has 24 bits. -/
def idBound : UInt32 := 16777216

/-- Byte `i`; no field reaches past byte `13`. -/
def byte (p : FakeCanPhy) (i : Nat) : UInt8 := p.u8.toList.getD i 0

/-- Writes byte `i`. -/
def setByte (p : FakeCanPhy) (i : Nat) (b : UInt8) : FakeCanPhy := ⟨p.u8.setIfInBounds i b⟩

/-- The union over the bytes `bs`, as `fread` leaves them. -/
def ofList (bs : List UInt8) : FakeCanPhy := ⟨Vector.ofFn fun i => bs.getD i 0⟩

/-- The low byte of the first word. -/
def ack (p : FakeCanPhy) : UInt8 := p.byte 0

/-- The upper 24 bits of the first word, least significant byte first. -/
def id (p : FakeCanPhy) : UInt32 :=
  (p.byte 1).toUInt32 + 256 * (p.byte 2).toUInt32 + 65536 * (p.byte 3).toUInt32

def idt (p : FakeCanPhy) : UInt8 := p.byte 4
def dlc (p : FakeCanPhy) : UInt8 := p.byte 5
def data (p : FakeCanPhy) (i : Nat) : UInt8 := p.byte (6 + i)

def setAck (p : FakeCanPhy) (b : UInt8) : FakeCanPhy := p.setByte 0 b

/-- An id wider than the bit field loses its upper byte. -/
def setId (p : FakeCanPhy) (id : UInt32) : FakeCanPhy :=
  ((p.setByte 1 id.toUInt8).setByte 2 (id / 256).toUInt8).setByte 3 (id / 65536).toUInt8

def setIdt (p : FakeCanPhy) (b : UInt8) : FakeCanPhy := p.setByte 4 b
def setDlc (p : FakeCanPhy) (b : UInt8) : FakeCanPhy := p.setByte 5 b
def setData (p : FakeCanPhy) (i : Nat) (b : UInt8) : FakeCanPhy := p.setByte (6 + i) b

/-- The frame `f` written over what `can_frame` holds. -/
def put (p : FakeCanPhy) (f : CantpCanFrame) : FakeCanPhy :=
  let p := (((p.setAck CandrvFrameType.frame.toUInt8).setId f.id).setIdt f.idt).setDlc f.dlc
  Library.forUpTo 8 (fun i q => q.setData i (f.frame.byte i)) p

/-- The frame that is handed to `fake_canrx_cb`. -/
def get (p : FakeCanPhy) : CantpCanFrame :=
  ⟨p.id, p.idt, p.dlc, .ofList ((List.range 8).map p.data)⟩

/-! ### The bytes of a frame -/

theorem byte_setByte (p : FakeCanPhy) (i j : Nat) (b : UInt8) :
    (p.setByte i b).byte j = if i = j ∧ j < 14 then b else p.byte j :=
  Library.getD_toList_setIfInBounds p.u8 i j b 0

theorem ext_byte {p q : FakeCanPhy} (h : ∀ i < 14, p.byte i = q.byte i) : p = q :=
  congrArg FakeCanPhy.mk (Library.ext_getD_toList 0 h)

@[simp] theorem ofList_toList (p : FakeCanPhy) : ofList p.u8.toList = p :=
  ext_byte fun i hi => by simp [byte, ofList, List.getD_eq_getElem?_getD, hi]

theorem byte_fill (n : Nat) (v : Nat → UInt8) (p : FakeCanPhy) (j : Nat) :
    (Library.forUpTo n (fun i q => q.setData i (v i)) p).byte j =
      if 6 ≤ j ∧ j < 6 + n ∧ j < 14 then v (j - 6) else p.byte j := by
  induction n with
  | zero => rw [Library.forUpTo_zero, if_neg (by omega)]
  | succ n ih =>
      rw [Library.forUpTo_succ, setData, byte_setByte, ih]
      by_cases hj : 6 + n = j
      · subst hj
        simp
      · have hiff : j < 6 + (n + 1) ↔ j < 6 + n := by omega
        simp [hj, hiff]

/-- The bytes that stand for the frame `f`. -/
def image (f : CantpCanFrame) : Nat → UInt8
  | 0 => CandrvFrameType.frame.toUInt8
  | 1 => f.id.toUInt8
  | 2 => (f.id / 256).toUInt8
  | 3 => (f.id / 65536).toUInt8
  | 4 => f.idt
  | 5 => f.dlc
  | i + 6 => f.frame.byte i

/-- All 14 bytes are written, whatever `can_frame` held before. -/
theorem byte_put (p : FakeCanPhy) (f : CantpCanFrame) {i : Nat} (hi : i < 14) :
    (p.put f).byte i = image f i := by
  rw [put, byte_fill]
  by_cases hdata : 6 ≤ i
  · obtain ⟨k, rfl⟩ := Nat.exists_eq_add_of_le' hdata
    rw [if_pos ⟨hdata, by omega, hi⟩, Nat.add_sub_cancel]
    rfl
  · rw [if_neg fun h => hdata h.1]
    simp only [setDlc, setIdt, setId, setAck, byte_setByte]
    rcases i with _ | _ | _ | _ | _ | _ | k
    · rfl
    · rfl
    · rfl
    · rfl
    · rfl
    · rfl
    · exact absurd (Nat.le_add_left 6 k) hdata

theorem put_eq_put (p q : FakeCanPhy) (f : CantpCanFrame) : p.put f = q.put f :=
  ext_byte fun _ hi => (byte_put p f hi).trans (byte_put q f hi).symm

/-! ### Reading and writing -/

theorem byte_ofList_map (v : Nat → UInt8) {i : Nat} (hi : i < 8) :
    (CantpFrame.ofList ((List.range 8).map v)).byte i = v i := by
  rw [CantpFrame.byte_ofList _ _ hi, List.getD_eq_getElem?_getD, List.getElem?_map,
    List.getElem?_range hi]
  rfl

theorem id_bytes (n : UInt32) :
    n.toUInt8.toUInt32 + 256 * (n / 256).toUInt8.toUInt32 +
      65536 * (n / 65536).toUInt8.toUInt32 = n % idBound := by
  apply UInt32.toNat_inj.mp
  simp only [UInt32.toNat_add, UInt32.toNat_mul, UInt8.toNat_toUInt32, UInt32.toNat_toUInt8,
    UInt32.toNat_div, UInt32.toNat_mod, UInt32.reduceToNat, idBound]
  omega

theorem bytes_id (a b c : UInt8) :
    let n := a.toUInt32 + 256 * b.toUInt32 + 65536 * c.toUInt32
    n.toUInt8 = a ∧ (n / 256).toUInt8 = b ∧ (n / 65536).toUInt8 = c := by
  have ha := a.toNat_lt
  have hb := b.toNat_lt
  have hc := c.toNat_lt
  refine ⟨?_, ?_, ?_⟩ <;>
  · apply UInt8.toNat_inj.mp
    simp only [UInt32.toNat_add, UInt32.toNat_mul, UInt8.toNat_toUInt32, UInt32.toNat_toUInt8,
      UInt32.toNat_div, UInt32.reduceToNat]
    omega

/-- What is read back is the frame, with the lower 24 bits of its id. -/
theorem get_put (p : FakeCanPhy) (f : CantpCanFrame) :
    (p.put f).get = { f with id := f.id % idBound } := by
  have hid : (p.put f).id = f.id % idBound := by
    rw [id, byte_put p f (by decide), byte_put p f (by decide), byte_put p f (by decide)]
    exact id_bytes f.id
  have hdata : CantpFrame.ofList ((List.range 8).map (p.put f).data) = f.frame := by
    refine CantpFrame.ext_byte fun i hi => ?_
    rw [byte_ofList_map _ hi, data, byte_put p f (by omega), Nat.add_comm, image]
  rw [get, hid, hdata, idt, dlc, byte_put p f (by decide), byte_put p f (by decide)]
  rfl

theorem get_put_eq_iff (p : FakeCanPhy) (f : CantpCanFrame) :
    (p.put f).get = f ↔ f.id < idBound := by
  have hmod : f.id % idBound = f.id ↔ f.id < idBound := by
    rw [← UInt32.toNat_inj, UInt32.lt_iff_toNat_lt, UInt32.toNat_mod]
    exact Nat.mod_eq_iff_lt (by decide)
  rw [get_put, ← hmod]
  exact ⟨congrArg CantpCanFrame.id, fun h => by rw [h]⟩

/-- Every block of bytes of the kind of a frame is the image of what is read from it. -/
theorem put_get (p q : FakeCanPhy) (h : p.ack = CandrvFrameType.frame.toUInt8) :
    q.put p.get = p := by
  obtain ⟨h1, h2, h3⟩ := bytes_id (p.byte 1) (p.byte 2) (p.byte 3)
  refine ext_byte fun i hi => ?_
  rw [byte_put q _ hi]
  rcases i with _ | _ | _ | _ | _ | _ | k
  · exact h.symm
  · exact h1
  · exact h2
  · exact h3
  · rfl
  · rfl
  · rw [image, get, byte_ofList_map _ (by omega), data, Nat.add_comm]

/-- Frames with an id of 24 bits and the blocks of 14 bytes of their kind stand for each
other, whatever the variable held that the bytes are written to. -/
theorem frame_round_trip :
    (∀ (p : FakeCanPhy) (f : CantpCanFrame), (p.put f).get = f ↔ f.id < idBound) ∧
      (∀ p q : FakeCanPhy, p.ack = CandrvFrameType.frame.toUInt8 → q.put p.get = p) ∧
      ∀ (p q : FakeCanPhy) (f g : CantpCanFrame), f.id < idBound → g.id < idBound →
        (p.put f = q.put g ↔ f = g) := by
  refine ⟨get_put_eq_iff, put_get, fun p q f g hf hg => ⟨fun h => ?_, fun h => ?_⟩⟩
  · rw [← (get_put_eq_iff p f).mpr hf, h, (get_put_eq_iff q g).mpr hg]
  · rw [h, put_eq_put p q g]

end FakeCanPhy

end CanTp
