import CanTp.Segmentation
import CanTp.Sender.Handlers

/-!
# The protocol data units of the network layer

`NPdu` is what a CAN frame says to the transport layer, one constructor for each type of
frame. `NPdu.bytes` is its layout on the bus, and `CantpFrame.pdu` reads it back through
the bit fields of `cantp_frame_t`. A Flow Control frame has three bytes, whatever else the
CAN frame carries; the other types have eight.
-/

namespace CanTp

/-- A protocol data unit. -/
inductive NPdu
  | single (len : Fin 16) (d : Fin sfNumDataBytes → UInt8)
  | first (len : Fin 4096) (d : Fin ffNumDataBytes → UInt8)
  | consec (sn : Fin 16) (d : Fin cfNumDataBytes → UInt8)
  | flowControll (fs : Fin 16) (bs st : UInt8)
deriving DecidableEq

/-- A Flow Control unit with the status `fs`. -/
def NPdu.ofFlow (fs : CantpFcFlowStatus) (bs st : UInt8) : NPdu :=
  .flowControll (Fin.ofNat 16 fs.toUInt8.toNat) bs st

/-- The bytes on the bus. -/
def NPdu.bytes : NPdu → List UInt8
  | .single len d => UInt8.ofNat (16 * 0 + len) :: List.ofFn d
  | .first len d =>
      UInt8.ofNat (16 * 1 + len / 256) :: UInt8.ofNat (len % 256) :: List.ofFn d
  | .consec sn d => UInt8.ofNat (16 * 2 + sn) :: List.ofFn d
  | .flowControll fs bs st => [UInt8.ofNat (16 * 3 + fs), bs, st]

/-- The frame that carries it, filled up with zeros. -/
def NPdu.frame (p : NPdu) : CantpFrame := .ofList p.bytes

/-- Its type. -/
def NPdu.pci : NPdu → CantpNPciType
  | .single .. => .singleFrame
  | .first .. => .firstFrame
  | .consec .. => .consecFrame
  | .flowControll .. => .flowControll

/-- What the bit fields of the type `t` say. -/
def CantpFrame.pduAs (f : CantpFrame) : CantpNPciType → NPdu
  | .singleFrame => .single (Fin.ofNat 16 f.sfLen.toNat) fun i => f.sfD i
  | .firstFrame => .first (Fin.ofNat 4096 (cantpFfLenGet f).toNat) fun i => f.ffD i
  | .consecFrame => .consec (Fin.ofNat 16 f.cfSn.toNat) fun i => f.cfD i
  | .flowControll => .flowControll (Fin.ofNat 16 f.fcFs.toNat) f.fcBs f.fcSt

/-- What a frame says, `none` for a type that stands for none. -/
def CantpFrame.pdu (f : CantpFrame) : Option NPdu :=
  (CantpNPciType.ofUInt8 f.nPciT).map f.pduAs

/-! ### The bit fields -/

section Fields

variable (f : CantpFrame)

theorem CantpFrame.toNat_low_lt : f.low.toNat < 16 := by
  rw [low, UInt8.toNat_mod]
  exact Nat.mod_lt _ (by decide)

theorem CantpFrame.byte_zero_eq_iff {t v : Nat} (ht : t < 16) (hv : v < 16) :
    UInt8.ofNat (16 * t + v) = f.byte 0 ↔ f.nPciT = UInt8.ofNat t ∧ f.low.toNat = v := by
  rw [nPciT, low, ← UInt8.toNat_inj, ← UInt8.toNat_inj, UInt8.toNat_div, UInt8.toNat_mod,
    UInt8.toNat_ofNat', UInt8.toNat_ofNat']
  simp only [UInt8.reduceToNat]
  omega

theorem toNat_cantpFfLenGet :
    (cantpFfLenGet f).toNat = 256 * f.ffLenH.toNat + f.ffLenL.toNat := by
  have hlow : f.ffLenH.toNat < 16 := f.toNat_low_lt
  have hbyte : f.ffLenL.toNat < 2 ^ 8 := f.ffLenL.toNat_lt
  rw [cantpFfLenGet, UInt16.toNat_or, UInt16.toNat_shiftLeft, UInt8.toNat_toUInt16,
    UInt8.toNat_toUInt16]
  have hshift : f.ffLenH.toNat <<< ((8 : UInt16).toNat % 16) % 2 ^ 16 =
      f.ffLenH.toNat <<< 8 := by
    rw [show (8 : UInt16).toNat % 16 = 8 from rfl, Nat.shiftLeft_eq]
    omega
  rw [hshift, ← Nat.shiftLeft_add_eq_or_of_lt hbyte, Nat.shiftLeft_eq, Nat.mul_comm]

theorem ffLen_eq_iff {n : Nat} : (cantpFfLenGet f).toNat = n ↔
    f.ffLenH.toNat = n / 256 ∧ UInt8.ofNat (n % 256) = f.byte 1 := by
  have hbyte : f.ffLenL.toNat < 2 ^ 8 := f.ffLenL.toNat_lt
  rw [toNat_cantpFfLenGet, ← UInt8.toNat_inj, UInt8.toNat_ofNat', ← CantpFrame.ffLenL]
  omega

end Fields

/-! ### What is read -/

section Reading

variable {f : CantpFrame} {p : NPdu}

theorem CantpNPciType.ofUInt8_eq_some_iff {v : UInt8} {t : CantpNPciType} :
    CantpNPciType.ofUInt8 v = some t ↔ v = t.toUInt8 := by
  constructor
  · intro h
    rw [CantpNPciType.ofUInt8] at h
    split_ifs at h with h0 h1 h2 h3
    all_goals
      cases h
      assumption
  · rintro rfl
    exact CantpNPciType.ofUInt8_toUInt8 t

@[simp] theorem pci_pduAs (f : CantpFrame) (t : CantpNPciType) : (f.pduAs t).pci = t := by
  cases t <;> rfl

theorem pdu_eq_some_iff :
    f.pdu = some p ↔ f.nPciT = p.pci.toUInt8 ∧ f.pduAs p.pci = p := by
  rw [CantpFrame.pdu, Option.map_eq_some_iff]
  constructor
  · rintro ⟨t, ht, rfl⟩
    rw [pci_pduAs]
    exact ⟨CantpNPciType.ofUInt8_eq_some_iff.mp ht, rfl⟩
  · rintro ⟨ht, hp⟩
    exact ⟨p.pci, CantpNPciType.ofUInt8_eq_some_iff.mpr ht, hp⟩

theorem toList_eq_cons (f : CantpFrame) :
    f.u8.toList = f.byte 0 :: List.ofFn fun i : Fin 7 => f.byte (1 + i) := by
  have hofFn : f.u8.toList = List.ofFn fun i : Fin 8 => f.byte i := by
    apply List.ext_getElem (by simp)
    intro i hi _
    rw [List.getElem_ofFn, CantpFrame.byte, List.getD_eq_getElem?_getD,
      List.getElem?_eq_getElem hi, Option.getD_some]
  rw [hofFn, List.ofFn_succ]
  simp only [Fin.val_zero, Fin.val_succ, Nat.add_comm 1]

theorem tail_eq_cons (f : CantpFrame) :
    (List.ofFn fun i : Fin 7 => f.byte (1 + i)) =
      f.byte 1 :: List.ofFn fun i : Fin 6 => f.byte (2 + i) := by
  rw [List.ofFn_succ]
  congr 2
  funext i
  rw [Fin.val_succ, ← Nat.add_assoc, Nat.add_right_comm]

theorem fin_ofNat_eq_iff {n v : Nat} [NeZero n] (hv : v < n) (k : Fin n) :
    Fin.ofNat n v = k ↔ v = k := by
  rw [← Fin.val_inj, Fin.val_ofNat, Nat.mod_eq_of_lt hv]

theorem ofFn_prefix_iff {n : Nat} {d e : Fin n → UInt8} :
    List.ofFn d <+: List.ofFn e ↔ e = d := by
  constructor
  · intro h
    have hlist := h.eq_of_length (by rw [List.length_ofFn, List.length_ofFn])
    exact (List.ofFn_injective hlist).symm
  · rintro rfl
    exact List.prefix_rfl

theorem header_prefix_iff {t v : Nat} (ht : t < 16) (hv : v < 16) (l : List UInt8) :
    UInt8.ofNat (16 * t + v) :: l <+: f.u8.toList ↔
      f.nPciT = UInt8.ofNat t ∧ f.low.toNat = v ∧
        l <+: List.ofFn fun i : Fin 7 => f.byte (1 + i) := by
  rw [toList_eq_cons, List.cons_prefix_cons, f.byte_zero_eq_iff ht hv, and_assoc]

/-- A frame is read as `p` exactly if it begins with the bytes of `p`. -/
theorem pdu_iff_begins : f.pdu = some p ↔ p.bytes <+: f.u8.toList := by
  rw [pdu_eq_some_iff]
  cases p with
  | single len d =>
      have hd : List.ofFn d <+: (List.ofFn fun i : Fin 7 => f.byte (1 + i)) ↔
          (fun i : Fin sfNumDataBytes => f.sfD i) = d := ofFn_prefix_iff
      rw [NPdu.bytes, header_prefix_iff (by decide) len.isLt, hd, NPdu.pci,
        CantpFrame.pduAs, NPdu.single.injEq, CantpFrame.sfLen,
        fin_ofNat_eq_iff f.toNat_low_lt]
      rfl
  | first len d =>
      have hlen : (cantpFfLenGet f).toNat < 4096 := by
        have hlow : f.ffLenH.toNat < 16 := f.toNat_low_lt
        have hbyte := f.ffLenL.toNat_lt
        rw [toNat_cantpFfLenGet]
        omega
      have hd : List.ofFn d <+: (List.ofFn fun i : Fin 6 => f.byte (2 + i)) ↔
          (fun i : Fin ffNumDataBytes => f.ffD i) = d := ofFn_prefix_iff
      rw [NPdu.bytes, header_prefix_iff (by decide) (by omega), tail_eq_cons,
        List.cons_prefix_cons, hd, NPdu.pci, CantpFrame.pduAs, NPdu.first.injEq,
        fin_ofNat_eq_iff hlen, ffLen_eq_iff, and_assoc]
      rfl
  | consec sn d =>
      have hd : List.ofFn d <+: (List.ofFn fun i : Fin 7 => f.byte (1 + i)) ↔
          (fun i : Fin cfNumDataBytes => f.cfD i) = d := ofFn_prefix_iff
      rw [NPdu.bytes, header_prefix_iff (by decide) sn.isLt, hd, NPdu.pci,
        CantpFrame.pduAs, NPdu.consec.injEq, CantpFrame.cfSn,
        fin_ofNat_eq_iff f.toNat_low_lt]
      rfl
  | flowControll fs bs st =>
      rw [NPdu.bytes, header_prefix_iff (by decide) fs.isLt, NPdu.pci,
        CantpFrame.pduAs, NPdu.flowControll.injEq, CantpFrame.fcFs,
        fin_ofNat_eq_iff f.toNat_low_lt, tail_eq_cons, List.ofFn_succ,
        List.cons_prefix_cons, List.cons_prefix_cons, eq_comm (a := bs), eq_comm (a := st)]
      simp [CantpFrame.fcBs, CantpFrame.fcSt, CantpNPciType.toUInt8]

theorem CantpNPciType.ofUInt8_eq_none_iff {v : UInt8} :
    CantpNPciType.ofUInt8 v = none ↔ 4 ≤ v := by
  rw [CantpNPciType.ofUInt8, UInt8.le_iff_toNat_le]
  simp only [← UInt8.toNat_inj, UInt8.reduceToNat]
  split_ifs <;> simp only [true_iff, false_iff] <;> omega

theorem NPdu.length_bytes (p : NPdu) :
    p.bytes.length = if p.pci = .flowControll then 3 else 8 := by
  cases p with
  | single len d | first len d | consec sn d =>
      simp only [bytes, List.length_cons, List.length_ofFn]
      rfl
  | flowControll fs bs st => rfl

theorem NPdu.begins_frame (p : NPdu) : p.bytes <+: p.frame.u8.toList := by
  rw [List.prefix_iff_getElem?]
  intro i hi
  have hlt : i < 8 := by
    rw [length_bytes] at hi
    split_ifs at hi <;> omega
  rw [frame, CantpFrame.ofList, Vector.getElem?_toList, Vector.getElem?_eq_getElem hlt,
    Vector.getElem_ofFn, List.getD_eq_getElem?_getD, List.getElem?_eq_getElem hi,
    Option.getD_some]

@[simp] theorem pdu_frame (p : NPdu) : p.frame.pdu = some p :=
  pdu_iff_begins.mpr p.begins_frame

/-- The frames of the transport layer: every unit is read from the frame that carries it, a
frame is read as a unit exactly if it begins with its bytes, and only the frames of the
types above `3` say nothing. -/
theorem pdu_round_trip : (∀ p : NPdu, p.frame.pdu = some p) ∧
    (∀ (f : CantpFrame) (p : NPdu), f.pdu = some p ↔ p.bytes <+: f.u8.toList) ∧
    ∀ f : CantpFrame, f.pdu = none ↔ 4 ≤ f.nPciT := by
  refine ⟨pdu_frame, fun f p => pdu_iff_begins, fun f => ?_⟩
  rw [CantpFrame.pdu, Option.map_eq_none_iff, CantpNPciType.ofUInt8_eq_none_iff]

end Reading

end CanTp
