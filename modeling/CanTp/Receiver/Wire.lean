import CanTp.Receiver.Bounds

/-!
# The bytes that come from the wire

`cantp_canrx_cb` copies the `dlc` bytes it is given over a zeroed frame and then reads
the frame without looking at `dlc` again. `FromWire` says that nothing but bytes below
`dlc` reaches the session layer, `CarriesAll` compares the length a frame is read with
to the bytes it carries.
-/

namespace CanTp

open Library

/-- The byte `b` is the one at position `i` of the frame, which the link layer delivered. -/
def RxFrame.Carried (r : RxFrame) (i : Nat) (b : UInt8) : Prop :=
  i < r.dlc.toNat ∧ b = r.data.getD i 0

/-- The position of the first data byte of a frame whose data is stored. -/
def RxFrame.dataStart (r : RxFrame) : Nat := if r.pci = some .firstFrame then 2 else 1

/-- What the session layer gets while `r` is handled was carried by `r`: a Single Frame
is delivered with no more bytes than it carries, a First Frame is stored only with its
six bytes, and store `k` is the `k`-th data byte of the frame. -/
structure FromWire (c : CantpRxtxStatus) (r : RxFrame) : Prop where
  single : r.pci = some .singleFrame → ∀ id idt data len,
    .receivedCb id idt data len ∈ (canTp.step c (.canrxCb r)).2 →
      (len.toNat : Int) ≤ min ((r.dlc.toNat : Int) - 1) 7 ∧
        ∀ i < len.toNat, r.Carried (1 + i) ((data.getD []).getD i 0)
  first : r.pci = some .firstFrame → bufferWrites (canTp.step c (.canrxCb r)).2 ≠ [] →
    2 + ffNumDataBytes ≤ r.dlc.toNat
  stored : ∀ k store, (bufferWrites (canTp.step c (.canrxCb r)).2)[k]? = some store →
    r.Carried (r.dataStart + k) store.2

/-- The frame carries the bytes it is read for: a Single Frame the length in it, a First
Frame that is accepted its six bytes, a Consecutive Frame that is taken the bytes missing
from the message, up to seven. -/
structure CarriesAll (c : CantpRxtxStatus) (r : RxFrame) : Prop where
  single : r.pci = some .singleFrame →
    r.frame.sfLen.toNat + 1 ≤ r.dlc.toNat ∧ r.frame.sfLen.toNat ≤ sfNumDataBytes
  first : c.rcvr.state = .idle → ∀ buf ∈ (r.ffAnswer c.rcvr.data).2,
    r.FfAccepted c.rcvr.data buf → 2 + ffNumDataBytes ≤ r.dlc.toNat
  consec : TakesCf c r → 1 + c.rcvr.storeLen ≤ r.dlc.toNat

instance (c : CantpRxtxStatus) (r : RxFrame) : Decidable (TakesCf c r) :=
  inferInstanceAs (Decidable (_ ∧ _ ∧ _))

instance (c : CantpRxtxStatus) (r : RxFrame) : Decidable (CarriesAll c r) :=
  decidable_of_iff
    ((r.pci = some .singleFrame →
        r.frame.sfLen.toNat + 1 ≤ r.dlc.toNat ∧ r.frame.sfLen.toNat ≤ sfNumDataBytes) ∧
      (c.rcvr.state = .idle → ∀ buf ∈ (r.ffAnswer c.rcvr.data).2,
        r.FfAccepted c.rcvr.data buf → 2 + ffNumDataBytes ≤ r.dlc.toNat) ∧
      (TakesCf c r → 1 + c.rcvr.storeLen ≤ r.dlc.toNat))
    ⟨fun ⟨h₁, h₂, h₃⟩ => ⟨h₁, h₂, h₃⟩, fun ⟨h₁, h₂, h₃⟩ => ⟨h₁, h₂, h₃⟩⟩

section Frame

variable {c : CantpRxtxStatus} {r : RxFrame}

theorem carried_byte {i : Nat} (hi : i < 8) :
    r.Carried i (r.frame.byte i) ↔ i < r.dlc.toNat := by
  refine ⟨And.left, fun hdlc => ⟨hdlc, ?_⟩⟩
  have hbyte := CantpFrame.byte_fill 0 r.dlc.toNat (fun i => r.data.getD i 0) .zero i
  simp only [Nat.zero_add, Nat.zero_le, hdlc, hi, and_self, if_true,
    Nat.sub_zero] at hbyte
  exact hbyte

theorem stored_carried_iff {place : Nat → Nat} {off n : Nat} (hoff : off + n ≤ 8)
    (hn : 0 < n) :
    (∀ k store, ((List.range n).map fun i => (place i, r.frame.byte (off + i)))[k]? = some store →
      r.Carried (off + k) store.2) ↔ off + n ≤ r.dlc.toNat := by
  constructor
  · intro h
    have hlast := h (n - 1) (place (n - 1), r.frame.byte (off + (n - 1)))
      (by simp [Nat.sub_lt hn Nat.one_pos])
    have hlt := hlast.1
    omega
  · intro h k store hk
    by_cases hkn : k < n
    · rw [List.getElem?_map, List.getElem?_range hkn, Option.map_some,
        Option.some.injEq] at hk
      rw [← hk]
      exact (carried_byte (by omega)).mpr (by omega)
    · rw [List.getElem?_eq_none (by simpa using hkn)] at hk
      cases hk

theorem fromWire_of_nothing {w : World} (hw : handle (.canrxCb r) ⟨c, []⟩ = w)
    (hsf : r.pci ≠ some .singleFrame) (hnone : bufferWrites w.log = []) : FromWire c r := by
  have hout : bufferWrites (canTp.step c (.canrxCb r)).2 = [] := by
    rw [canTp_step, hw, hnone]
  exact ⟨fun h => absurd h hsf, fun _ h => absurd hout h, fun k store hk => by simp [hout] at hk⟩

theorem fromWire_iff_of_stores (place : Nat → Nat) {n : Nat} (hsf : r.pci ≠ some .singleFrame)
    (hn : 0 < n) (hle : r.dataStart + n ≤ 8)
    (hff : r.pci = some .firstFrame → n = ffNumDataBytes)
    (hout : bufferWrites (canTp.step c (.canrxCb r)).2 =
      (List.range n).map fun i => (place i, r.frame.byte (r.dataStart + i))) :
    FromWire c r ↔ r.dataStart + n ≤ r.dlc.toNat := by
  constructor
  · intro h
    have hstored := h.stored
    rw [hout] at hstored
    exact (stored_carried_iff hle hn).mp hstored
  · intro h
    refine ⟨fun h => absurd h hsf, fun hpci _ => ?_, ?_⟩
    · rw [RxFrame.dataStart, if_pos hpci, hff hpci] at h
      exact h
    · rw [hout]
      exact (stored_carried_iff hle hn).mpr h

theorem fromWire_iff_of_single (hpci : r.pci = some .singleFrame) :
    FromWire c r ↔
      r.frame.sfLen.toNat + 1 ≤ r.dlc.toNat ∧ r.frame.sfLen.toNat ≤ sfNumDataBytes := by
  have hout : (canTp.step c (.canrxCb r)).2 = [.printCantpFrame r.frame, .receivedCb r.id r.idt
      (some ((List.range sfNumDataBytes).map r.frame.sfD)) r.frame.sfLen] := by
    rw [canTp_step, canrx_singleFrame hpci]
    rfl
  constructor
  · intro h
    have hlen := (h.single hpci r.id r.idt (some ((List.range sfNumDataBytes).map r.frame.sfD))
      r.frame.sfLen (by rw [hout]; simp)).1
    rw [sfNumDataBytes]
    omega
  · rintro ⟨hdlc, hlen⟩
    refine ⟨fun _ id idt data len hmem => ?_, fun h => by simp [hpci] at h, fun k store hk => ?_⟩
    · rw [hout] at hmem
      obtain ⟨rfl, rfl, rfl, rfl⟩ := by simpa using hmem
      rw [sfNumDataBytes] at hlen
      refine ⟨by omega, fun i hi => ?_⟩
      have hget : ((List.range sfNumDataBytes).map r.frame.sfD).getD i 0 = r.frame.sfD i := by
        have hi7 : i < sfNumDataBytes := by rw [sfNumDataBytes]; omega
        rw [List.getD_eq_getElem?_getD, List.getElem?_map, List.getElem?_range hi7]
        rfl
      rw [Option.getD_some, hget]
      exact (carried_byte (by omega)).mpr (by omega)
    · have hnone : bufferWrites (canTp.step c (.canrxCb r)).2 = [] := by
        rw [hout]
        rfl
      simp [hnone] at hk

end Frame

section Step

variable {c : CantpRxtxStatus} {r : RxFrame} {w : World}

theorem fromWire_iff_of_taken (h : TakesCf c r)
    (hout : bufferWrites (canTp.step c (.canrxCb r)).2 =
      bufferWrites (c.rcvr.cfWrites r.frame)) :
    FromWire c r ↔ 1 + c.rcvr.storeLen ≤ r.dlc.toNat := by
  obtain ⟨hpci, -, -, -, hrem⟩ := h
  have hstart : r.dataStart = 1 := by
    rw [RxFrame.dataStart, if_neg (by simp [hpci])]
  have hlen : 0 < c.rcvr.storeLen ∧ c.rcvr.storeLen ≤ 7 := by
    unfold RcvrState.remaining at hrem
    rw [RcvrState.storeLen, cfNumDataBytes]
    omega
  rw [bufferWrites_cfWrites] at hout
  rw [fromWire_iff_of_stores (fun i => c.rcvr.index.toNat + i) (n := c.rcvr.storeLen)
    (by simp [hpci]) hlen.1 (by omega) (by simp [hpci]) (by rw [hstart]; exact hout), hstart]

theorem carriesAll_single (hpci : r.pci = some .singleFrame) :
    CarriesAll c r ↔
      r.frame.sfLen.toNat + 1 ≤ r.dlc.toNat ∧ r.frame.sfLen.toNat ≤ sfNumDataBytes :=
  ⟨fun h => h.single hpci, fun h => ⟨fun _ => h,
    fun _ _ _ hff => absurd (hff.pci.symm.trans hpci) (by simp),
    fun hcf => absurd (hcf.1.symm.trans hpci) (by simp)⟩⟩

theorem carriesAll_first (hpci : r.pci = some .firstFrame) :
    CarriesAll c r ↔ (c.rcvr.state = .idle → ∀ buf ∈ (r.ffAnswer c.rcvr.data).2,
      r.FfAccepted c.rcvr.data buf → 2 + ffNumDataBytes ≤ r.dlc.toNat) :=
  ⟨CarriesAll.first, fun h => ⟨fun hsf => absurd (hsf.symm.trans hpci) (by simp), h,
    fun hcf => absurd (hcf.1.symm.trans hpci) (by simp)⟩⟩

theorem carriesAll_consec (hpci : r.pci = some .consecFrame) :
    CarriesAll c r ↔ (TakesCf c r → 1 + c.rcvr.storeLen ≤ r.dlc.toNat) :=
  ⟨CarriesAll.consec, fun h => ⟨fun hsf => absurd (hsf.symm.trans hpci) (by simp),
    fun _ _ _ hff => absurd (hff.pci.symm.trans hpci) (by simp), h⟩⟩

theorem carriesAll_other (hsf : r.pci ≠ some .singleFrame) (hff : r.pci ≠ some .firstFrame)
    (hcf : r.pci ≠ some .consecFrame) : CarriesAll c r :=
  ⟨fun h => absurd h hsf, fun _ _ _ h => absurd h.pci hff, fun h => absurd h.1 hcf⟩

/-- One frame, by the way in which it is handled. -/
theorem RxOutcome.fromWire_iff (h : RxOutcome c r w) (hw : handle (.canrxCb r) ⟨c, []⟩ = w) :
    FromWire c r ↔ CarriesAll c r := by
  cases h with
  | unknown hpci =>
      exact iff_of_true (fromWire_of_nothing hw (by simp [hpci]) rfl)
        (carriesAll_other (by simp [hpci]) (by simp [hpci]) (by simp [hpci]))
  | flow hpci s log _ _ hlog =>
      exact iff_of_true (fromWire_of_nothing hw (by simp [hpci]) (bufferWrites_of_flow hlog))
        (carriesAll_other (by simp [hpci]) (by simp [hpci]) (by simp [hpci]))
  | single hpci =>
      rw [fromWire_iff_of_single hpci, carriesAll_single hpci]
  | ffIgnored hpci hst =>
      exact iff_of_true (fromWire_of_nothing hw (by simp [hpci]) rfl)
        ((carriesAll_first hpci).mpr fun h => absurd h hst)
  | ffRefused hpci hst h =>
      exact iff_of_true (fromWire_of_nothing hw (by simp [hpci]) rfl)
        ((carriesAll_first hpci).mpr fun _ _ _ hff => absurd hff.ok (not_le.mpr h))
  | ffAbandoned hpci hst h hnone =>
      exact iff_of_true (fromWire_of_nothing hw (by simp [hpci]) rfl)
        ((carriesAll_first hpci).mpr fun _ _ _ hff =>
          absurd (hff.buffer.symm.trans hnone) (by simp))
  | ffAccepted hst buf h =>
      have hstart : r.dataStart = 2 := by rw [RxFrame.dataStart, if_pos h.pci]
      have hout : bufferWrites (canTp.step c (.canrxCb r)).2 =
          (List.range ffNumDataBytes).map fun i => (i, r.frame.byte (r.dataStart + i)) := by
        rw [h.step hst, bufferWrites_ffLog r c fun _ ha => isAwait_fcActs ha, hstart]
        rfl
      rw [carriesAll_first h.pci, fromWire_iff_of_stores _ (n := ffNumDataBytes)
        (by simp [h.pci]) (by simp [ffNumDataBytes]) (by rw [hstart, ffNumDataBytes])
        (fun _ => rfl) hout, hstart]
      exact ⟨fun hle _ _ _ _ => hle, fun hall => hall hst buf h.buffer h⟩
  | cfIgnored hpci hst =>
      exact iff_of_true (fromWire_of_nothing hw (by simp [hpci]) rfl)
        ((carriesAll_consec hpci).mpr fun h => absurd h.2.1 hst)
  | cfForeign hpci hst hid =>
      exact iff_of_true (fromWire_of_nothing hw (by simp [hpci]) rfl)
        ((carriesAll_consec hpci).mpr fun h => absurd h.2.2.1 hid)
  | cfRejected hpci hst hid h =>
      exact iff_of_true (fromWire_of_nothing hw (by simp [hpci]) rfl)
        ((carriesAll_consec hpci).mpr fun htake => absurd htake.2.2 h)
  | cfLast h =>
      obtain ⟨htake, -⟩ := h
      rw [carriesAll_consec htake.1, fromWire_iff_of_taken htake]
      · exact ⟨fun hle _ => hle, fun hall => hall htake⟩
      · rw [canTp_step, hw]
        exact bufferWrites_last c r.frame rfl
  | cfMore h =>
      have htake := h.1
      rw [carriesAll_consec htake.1, fromWire_iff_of_taken htake]
      · exact ⟨fun hle _ => hle, fun hall => hall htake⟩
      · rw [canTp_step, hw]
        exact bufferWrites_more h

end Step

/-- For every run from every context: nothing but bytes carried by the frames reaches the
session layer exactly if every frame carries the bytes it is read for. -/
theorem fromWire_iff_carriesAll (c : CantpRxtxStatus) (es : List Event) :
    canTp.Admits (Event.OnRx FromWire) c es ↔ canTp.Admits (Event.OnRx CarriesAll) c es := by
  have hall : ∀ es c, canTp.Admits (fun _ _ => True) c es := fun es c =>
    Mealy.admits_of_forall (fun _ _ => trivial) c
  refine Mealy.admits_congr (P := fun _ => True) (fun c e _ _ => ?_) (fun _ _ _ _ _ => trivial)
    trivial (hall es c)
  cases e with
  | canrxCb r => exact (rx_outcome c r).fromWire_iff rfl
  | _ => exact Iff.rfl

/-- A Single Frame of one byte is delivered with a length of seven. -/
theorem not_fromWire :
    ¬ ∀ (p : CantpParams) (rs : List RxFrame), (∀ r ∈ rs, r.dlc ≤ 8) →
      canTp.Admits (Event.OnRx FromWire) (.fresh p) (rs.map .canrxCb) := by
  intro h
  have hwire := h ⟨0, 0, 0, 0, 0, 0, 0, 0⟩ [⟨.accepting, 5, 0, 1, [7]⟩] (by decide)
  have hlen := (hwire.1.single (by decide) 5 0 (some [0, 0, 0, 0, 0, 0, 0]) 7 (by decide)).1
  exact absurd hlen (by decide)

end CanTp
