import CanTp.Receiver.Step

/-!
# A segmented reception

`Reception id len arrivals taken s` describes a receiver in the middle of a
segmented message of `len` bytes from the node `id`: `arrivals` Consecutive Frames
have come in since the First Frame, the data of `taken` of them has been stored.
The sequence number follows the arrivals and the buffer index the frames taken; the
two run apart when a frame is rejected.
-/

namespace CanTp

open Library

/-- The receiver waits for a Consecutive Frame. -/
structure Reception (id : UInt32) (len arrivals taken : Nat) (s : RcvrState) : Prop where
  state : s.state = .fcSent
  idPair : s.idPair = id
  len_eq : s.len.toNat = len
  sn_eq : s.sn.toNat = arrivals % 16
  index_eq : s.index.toNat = cfStart taken
  missing : taken = 0 ∨ taken < numCfs len

/-- A Consecutive Frame from the node `id`. -/
structure RxFrame.IsCf (r : RxFrame) (id : UInt32) : Prop where
  pci : r.pci = some .consecFrame
  id : r.id = id

instance (r : RxFrame) (id : UInt32) : Decidable (r.IsCf id) :=
  decidable_of_iff (r.pci = some .consecFrame ∧ r.id = id)
    ⟨fun ⟨h₁, h₂⟩ => ⟨h₁, h₂⟩, fun ⟨h₁, h₂⟩ => ⟨h₁, h₂⟩⟩

section FrameType

variable {r : RxFrame} {data : List UInt8} {len : Nat}

theorem pci_of_sfFrame (h : r.frame = sfFrame data len) (hlen : len ≤ sfNumDataBytes) :
    r.pci = some .singleFrame := by
  rw [RxFrame.pci, h, nPciT_sfFrame _ _ hlen]
  rfl

theorem pci_of_ffFrame (h : r.frame = ffFrame data len) : r.pci = some .firstFrame := by
  rw [RxFrame.pci, h, nPciT_ffFrame]
  rfl

theorem isCf_of_cfAt {id : UInt32} {i : Nat} (hid : r.id = id)
    (h : r.frame = cfAt data len i) : r.IsCf id := by
  refine ⟨?_, hid⟩
  rw [RxFrame.pci, h, cfAt, nPciT_cfFrame]
  rfl

end FrameType

/-- The frame carries the number of arrival `arrivals`, counted from `0`. -/
def RxFrame.Hits (r : RxFrame) (arrivals : Nat) : Prop :=
  r.frame.cfSn.toNat = (arrivals + 1) % 16

instance (r : RxFrame) (arrivals : Nat) : Decidable (r.Hits arrivals) :=
  inferInstanceAs (Decidable (_ = _))

section Arrival

variable {id : UInt32} {len arrivals taken : Nat} {c : CantpRxtxStatus} {r : RxFrame}

theorem step_ff_ignored (hst : c.rcvr.state ≠ .idle) (hr : r.pci = some .firstFrame) :
    canTp.step c (.canrxCb r) = (c, [.printCantpFrame r.frame]) := by
  rw [canTp_step, canrx_firstFrame hr, if_neg hst]
  rfl

theorem step_cf_ignored (hst : c.rcvr.state ≠ .fcSent) (hr : r.pci = some .consecFrame) :
    canTp.step c (.canrxCb r) = (c, [.printCantpFrame r.frame]) := by
  rw [canTp_step, canrx_consecFrame hr, if_neg hst]
  rfl

theorem Reception.remaining_pos_iff {s : RcvrState} (h : Reception id len arrivals taken s) :
    0 < s.remaining ↔ taken < numCfs len := by
  rw [lt_numCfs_iff, RcvrState.remaining, h.len_eq, h.index_eq]
  omega

theorem Reception.takes_iff {s : RcvrState} (h : Reception id len arrivals taken s)
    (hr : r.IsCf id) : s.Takes r.id r.frame ↔ r.Hits arrivals ∧ taken < numCfs len := by
  have hsn : s.nextSn.toNat = (arrivals + 1) % 16 := toNat_snAfter h.sn_eq
  have heq : s.nextSn = r.frame.cfSn ↔ r.Hits arrivals := by
    rw [← UInt8.toNat_inj, hsn]
    exact eq_comm
  rw [RcvrState.Takes, heq, h.remaining_pos_iff]
  exact and_iff_right (h.idPair.trans hr.id.symm)

/-- A frame that is not taken only counts as an arrival. -/
theorem Reception.reject (h : Reception id len arrivals taken c.rcvr) (hr : r.IsCf id)
    (hnot : ¬ (r.Hits arrivals ∧ taken < numCfs len)) :
    canTp.step c (.canrxCb r) =
        ({ c with rcvr := c.rcvr.rejectCf }, [.printCantpFrame r.frame]) ∧
      Reception id len (arrivals + 1) taken c.rcvr.rejectCf := by
  constructor
  · rw [canTp_step, canrx_consecFrame hr.pci, if_pos h.state,
      rxCf_reject (by exact h.idPair.trans hr.id.symm)
        (by rw [World.emit_ctx, h.takes_iff hr]; exact hnot)]
    rfl
  · exact ⟨h.state, h.idPair, h.len_eq, toNat_snAfter h.sn_eq, h.index_eq, h.missing⟩

theorem Reception.storeCf {s : RcvrState} (h : Reception id len arrivals taken s)
    (f : CantpFrame) (hlt : taken + 1 < numCfs len) :
    Reception id len (arrivals + 1) (taken + 1) (s.storeCf f) := by
  refine ⟨h.state, h.idPair, h.len_eq, toNat_snAfter h.sn_eq, ?_, Or.inr hlt⟩
  have hnext := (lt_numCfs_iff len (taken + 1)).mp hlt
  rw [index_storeCf f (h.remaining_pos_iff.mpr (by omega)), h.len_eq, h.index_eq]
  rw [cfStart_succ] at *
  omega

theorem Reception.of_awaits {w w' : World} (h : Reception id len arrivals taken w.ctx.rcvr)
    {env : Env} (ha : Awaits env w w') : Reception id len arrivals taken w'.ctx.rcvr := by
  obtain ⟨wft, t, hr⟩ := ha.rcvr
  rw [hr]
  exact ⟨h.state, h.idPair, h.len_eq, h.sn_eq, h.index_eq, h.missing⟩

theorem Reception.step_more (h : Reception id len arrivals taken c.rcvr) (hr : r.IsCf id)
    (hhit : r.Hits arrivals) (hlt : taken + 1 < numCfs len) :
    handle (.canrxCb r) ⟨c, []⟩ = rcvrAwaitNext r.env
      ⟨{ c with rcvr := c.rcvr.storeCf r.frame },
        .printCantpFrame r.frame :: c.rcvr.cfWrites r.frame⟩ := by
  have hnext := (lt_numCfs_iff len (taken + 1)).mp hlt
  have hrem : ¬ c.rcvr.remaining ≤ cfNumDataBytes := by
    rw [cfStart_succ] at hnext
    rw [RcvrState.remaining, h.len_eq, h.index_eq]
    omega
  rw [canrx_consecFrame hr.pci, if_pos h.state]
  exact rxCf_more ((h.takes_iff hr).mpr ⟨hhit, by omega⟩) hrem

theorem Reception.take (h : Reception id len arrivals taken c.rcvr) (hr : r.IsCf id)
    (hhit : r.Hits arrivals) (hlt : taken + 1 < numCfs len) :
    Awaits r.env ⟨{ c with rcvr := c.rcvr.storeCf r.frame },
        .printCantpFrame r.frame :: c.rcvr.cfWrites r.frame⟩
      (handle (.canrxCb r) ⟨c, []⟩) ∧
      Reception id len (arrivals + 1) (taken + 1) (canTp.step c (.canrxCb r)).1.rcvr := by
  have hawait := awaits_rcvrAwaitNext r.env (w := ⟨{ c with rcvr := c.rcvr.storeCf r.frame },
    .printCantpFrame r.frame :: c.rcvr.cfWrites r.frame⟩) h.state
  rw [← h.step_more hr hhit hlt] at hawait
  exact ⟨hawait, (h.storeCf r.frame hlt).of_awaits hawait⟩

theorem Reception.last (h : Reception id len arrivals taken c.rcvr) (hr : r.IsCf id)
    (hhit : r.Hits arrivals) (hlast : taken + 1 = numCfs len) :
    canTp.step c (.canrxCb r) =
      ({ c with rcvr := { c.rcvr.storeCf r.frame with state := .txDone } },
        .printCantpFrame r.frame :: (c.rcvr.cfWrites r.frame ++
          [.receivedCb c.params.id c.params.idt (c.rcvr.storeCf r.frame).data
            c.rcvr.len.toUInt8])) := by
  have hend := le_cfStart_numCfs len
  have hrem : c.rcvr.remaining ≤ cfNumDataBytes := by
    rw [← hlast, cfStart_succ] at hend
    rw [RcvrState.remaining, h.len_eq, h.index_eq]
    omega
  rw [canTp_step, canrx_consecFrame hr.pci, if_pos h.state,
    rxCf_last (by exact (h.takes_iff hr).mpr ⟨hhit, by omega⟩) (by exact hrem)]
  rfl

end Arrival

/-! ### The start of a reception -/

/-- The session layer accepts the First Frame `r` with the buffer `buf`. -/
structure RxFrame.FfAccepted (r : RxFrame) (data : Option (List UInt8)) (buf : List UInt8) :
    Prop where
  pci : r.pci = some .firstFrame
  ok : 0 ≤ (r.ffAnswer data).1
  buffer : (r.ffAnswer data).2 = some buf

instance (r : RxFrame) (data : Option (List UInt8)) (buf : List UInt8) :
    Decidable (r.FfAccepted data buf) :=
  decidable_of_iff (r.pci = some .firstFrame ∧ 0 ≤ (r.ffAnswer data).1 ∧
    (r.ffAnswer data).2 = some buf)
    ⟨fun ⟨h₁, h₂, h₃⟩ => ⟨h₁, h₂, h₃⟩, fun ⟨h₁, h₂, h₃⟩ => ⟨h₁, h₂, h₃⟩⟩

/-- An accepted First Frame is answered with FC.CTS and begins a reception. -/
theorem RxFrame.FfAccepted.step {c : CantpRxtxStatus} {r : RxFrame} {buf : List UInt8}
    (h : r.FfAccepted c.rcvr.data buf) (hidle : c.rcvr.state = .idle) :
    canTp.step c (.canrxCb r) =
      ({ c with rcvr := c.rcvr.accepted r buf },
        ffLog r ⟨c, [.printCantpFrame r.frame]⟩ ++
          fcActs r.env (ctsFrame c.params CantpFrame.zero)
            ⟨c, ffLog r ⟨c, [.printCantpFrame r.frame]⟩⟩) := by
  rw [canTp_step, canrx_firstFrame h.pci, if_pos hidle]
  rw [rxFf_accepted (not_lt.mpr (by exact h.ok)) (by exact h.buffer)]
  rfl

theorem reception_accepted {s : RcvrState} (hsn : s.sn = 0) (r : RxFrame)
    (buf : List UInt8) :
    Reception r.id (cantpFfLenGet r.frame).toNat 0 0 (s.accepted r buf) :=
  ⟨rfl, rfl, rfl, by simp [RcvrState.accepted, RcvrState.announced, hsn], rfl, Or.inl rfl⟩

end CanTp
