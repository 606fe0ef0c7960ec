import CanTp.Dispatch
import CanTp.Segmentation

/-!
# What a call does to the sender

The closed form of every sender function, one theorem for each way through it.
`sentCf` is the common effect of the two functions that send a Consecutive Frame:
both copy the next slice of the message, number it with the current sequence
number and start `N_As`. The proofs about runs use these forms and no definition
of a handler.
-/

namespace CanTp

open Library

/-! ### Sending a Consecutive Frame -/

/-- The number of bytes of the next Consecutive Frame. -/
def SndrState.nextLen (s : SndrState) : Nat :=
  min cfNumDataBytes (s.len.toNat - s.index.toNat)

/-- The next Consecutive Frame of a sender. -/
def SndrState.nextCf (s : SndrState) : CantpFrame :=
  cfFrame s.sn.toNat (slice (s.data.take s.len.toNat) s.index.toNat cfNumDataBytes)

/-- The sender after it has sent its next Consecutive Frame. -/
def SndrState.afterCf (s : SndrState) : SndrState :=
  { s with
    state := .cfSending
    index := s.index + UInt16.ofNat s.nextLen
    timer := some ⟨.nAs, 1000 * nAsTimerMs⟩ }

/-- The calls made while the next Consecutive Frame is sent. -/
def CantpRxtxStatus.cfActs (c : CantpRxtxStatus) : List Act :=
  (List.range c.sndr.nextLen).map (fun i => .sndrRead (c.sndr.index.toNat + i)) ++
    [.sndrStateSemGive, .printCantpFrame c.sndr.nextCf,
      .canTxNb c.params.id c.params.idt 8 c.sndr.nextCf]

/-- The effect of sending the next Consecutive Frame. -/
def sentCf (w : World) : World :=
  ⟨{ w.ctx with sndr := w.ctx.sndr.afterCf }, w.log ++ w.ctx.cfActs⟩

theorem mem_cfActs {c : CantpRxtxStatus} {a : Act} (ha : a ∈ c.cfActs) :
    (∃ i, a = .sndrRead i) ∨ a = .sndrStateSemGive ∨ a = .printCantpFrame c.sndr.nextCf ∨
      a = .canTxNb c.params.id c.params.idt 8 c.sndr.nextCf := by
  rcases List.mem_append.mp ha with ha | ha
  · obtain ⟨i, -, rfl⟩ := List.mem_map.mp ha
    exact Or.inl ⟨_, rfl⟩
  · simpa using Or.inr ha

theorem filterMap_cfActs {β : Type*} {f : Act → Option β} (hf : ∀ i, f (.sndrRead i) = none)
    (c : CantpRxtxStatus) :
    c.cfActs.filterMap f = [.sndrStateSemGive, .printCantpFrame c.sndr.nextCf,
      .canTxNb c.params.id c.params.idt 8 c.sndr.nextCf].filterMap f := by
  have hreads : ((List.range c.sndr.nextLen).map
      fun i => .sndrRead (c.sndr.index.toNat + i)).filterMap f = [] := by
    rw [List.filterMap_map]
    exact List.filterMap_eq_nil_iff.mpr fun _ _ => hf _
  rw [CantpRxtxStatus.cfActs, List.filterMap_append, hreads, List.nil_append]

theorem nToSend_remaining (s : SndrState) (h : 0 < s.remaining) :
    (nToSend s.remaining).toNat = s.nextLen := by
  rw [nToSend, SndrState.nextLen, cfNumDataBytes]
  unfold SndrState.remaining at *
  have hl := s.len.toNat_lt
  split
  · rw [UInt8.toNat_ofNat']
    omega
  · rw [toNat_ofInt_uint8 (by omega) (by omega)]
    omega

theorem sndrCopyByte_loop (n : Nat) (f : CantpFrame) (w : World)
    (h : w.ctx.sndr.index.toNat + n < 65536) :
    forUpTo n sndrCopyByte (f, w) =
      (forUpTo n (fun i g => g.setByte (1 + i)
          (w.ctx.sndr.data.getD (w.ctx.sndr.index.toNat + i) 0)) f,
        ⟨{ w.ctx with sndr.index := w.ctx.sndr.index + UInt16.ofNat n },
          w.log ++ (List.range n).map fun i => .sndrRead (w.ctx.sndr.index.toNat + i)⟩) := by
  induction n with
  | zero => simp
  | succ n ih =>
      have hn : (w.ctx.sndr.index + UInt16.ofNat n).toNat = w.ctx.sndr.index.toNat + n := by
        rw [UInt16.toNat_add, UInt16.toNat_ofNat']
        omega
      rw [forUpTo_succ, ih (by omega), forUpTo_succ]
      simp only [sndrCopyByte, CantpFrame.setCfD, World.emit, hn, List.range_succ,
        List.map_append, List.map_cons, List.map_nil, List.append_assoc]
      rw [UInt16.ofNat_add, UInt16.add_assoc]
      rfl

/-- The filled frame is the next frame of the segmentation. -/
theorem fill_cfHeader (s : SndrState) :
    forUpTo s.nextLen (fun i g => g.setByte (1 + i) (s.data.getD (s.index.toNat + i) 0))
      (cfHeader s) = s.nextCf := by
  apply CantpFrame.ext_byte
  intro j hj
  rw [CantpFrame.byte_fill, SndrState.nextCf, cfFrame, CantpFrame.byte_ofList _ _ hj]
  cases j with
  | zero =>
      have h0 : (cfHeader s).byte 0 = UInt8.ofNat (32 + s.sn.toNat % 16) := by
        rw [cfHeader, CantpFrame.setCfSn, CantpFrame.byte_zero_header]
        apply UInt8.toNat_inj.mp
        simp [CantpNPciType.toUInt8]
      rw [if_neg (by omega), h0]
      rfl
  | succ j =>
      have hzero : (cfHeader s).byte (j + 1) = 0 := by
        simp [cfHeader, CantpFrame.setCfSn]
      rw [List.getD_cons_succ, getD_slice, hzero, Nat.add_comm 1 s.nextLen,
        Nat.add_sub_cancel]
      rw [SndrState.nextLen, cfNumDataBytes]
      rw [List.getD_eq_getElem?_getD, List.getD_eq_getElem?_getD, List.getElem?_take]
      split_ifs <;> first | rfl | omega

theorem index_afterCf {s : SndrState} (h : 0 < s.remaining) :
    s.afterCf.index.toNat = min s.len.toNat (s.index.toNat + cfNumDataBytes) := by
  unfold SndrState.remaining at h
  have hl := s.len.toNat_lt
  simp only [SndrState.afterCf, SndrState.nextLen, cfNumDataBytes, UInt16.toNat_add,
    UInt16.toNat_ofNat']
  omega

/-- The frame and the world after the copy loop of a sender with data left. -/
theorem sndrCopy_eq {w : World} (h : 0 < w.ctx.sndr.remaining) :
    forUpTo (nToSend w.ctx.sndr.remaining).toNat sndrCopyByte (cfHeader w.ctx.sndr, w) =
      (w.ctx.sndr.nextCf,
        ⟨{ w.ctx with
            sndr.index := w.ctx.sndr.index + UInt16.ofNat w.ctx.sndr.nextLen },
          w.log ++ (List.range w.ctx.sndr.nextLen).map
            fun i => .sndrRead (w.ctx.sndr.index.toNat + i)⟩) := by
  have hl := w.ctx.sndr.len.toNat_lt
  have hwrap : w.ctx.sndr.index.toNat + w.ctx.sndr.nextLen < 65536 := by
    unfold SndrState.remaining at h
    rw [SndrState.nextLen, cfNumDataBytes]
    omega
  rw [nToSend_remaining _ h, sndrCopyByte_loop _ _ _ hwrap, fill_cfHeader]

theorem sndrSendCfAfrerCf_eq {w : World} (h : 0 < w.ctx.sndr.remaining) :
    sndrSendCfAfrerCf w = sentCf w := by
  rw [sndrSendCfAfrerCf]
  simp only [World.val_eq, World.on_eq, sndrCopy_eq h]
  simp [sentCf, CantpRxtxStatus.cfActs, SndrState.afterCf, World.sndrTimerStop,
    World.sndrTimerStart, cantpSndrSetState, World.emit]

theorem sndrSendCfAfrerFc_eq {w : World} (h : 0 < w.ctx.sndr.remaining) :
    sndrSendCfAfrerFc w = sentCf w := by
  rw [sndrSendCfAfrerFc]
  have hrem : (w.sndrTimerStop.sndrTimerStart .nAs (1000 * nCsTimerMs)).ctx.sndr.remaining =
      w.ctx.sndr.remaining := rfl
  simp only [World.val_eq, World.on_eq, hrem, if_neg (not_le.mpr h)]
  rw [← hrem] at h
  rw [← hrem, sndrCopy_eq h]
  simp [sentCf, CantpRxtxStatus.cfActs, SndrState.afterCf, World.sndrTimerStop,
    World.sndrTimerStart, cantpSndrSetState, World.emit, SndrState.nextCf, SndrState.nextLen,
    nAsTimerMs, nCsTimerMs]

theorem sndrSendCfAfrerFc_none {w : World} (h : w.ctx.sndr.remaining ≤ 0) :
    sndrSendCfAfrerFc w = w.sndrTimerStart .nAs (1000 * nCsTimerMs) := by
  rw [sndrSendCfAfrerFc]
  have hrem : (w.sndrTimerStop.sndrTimerStart .nAs (1000 * nCsTimerMs)).ctx.sndr.remaining =
      w.ctx.sndr.remaining := rfl
  simp only [World.val_eq, World.on_eq, hrem, if_pos h]
  rfl

/-! ### Transmission confirmations -/

/-- The sequence number after that of the sender. -/
def SndrState.nextSn (s : SndrState) : UInt8 := snAfter s.sn

theorem toNat_nextSn {s : SndrState} {k : Nat} (h : s.sn.toNat = k % 16) :
    s.nextSn.toNat = (k + 1) % 16 := toNat_snAfter h

/-- The confirmed Consecutive Frame is the last one of its block. -/
def SndrState.BlockEnds (s : SndrState) : Prop :=
  0 < s.bsPair ∧ s.bsPair ≤ s.blIndex + 1

instance (s : SndrState) : Decidable s.BlockEnds :=
  inferInstanceAs (Decidable (_ ∧ _))

/-- The block counter after a confirmation inside a block. -/
def SndrState.counted (s : SndrState) : UInt8 :=
  if 0 < s.bsPair then s.blIndex + 1 else s.blIndex

theorem confirm_sfSending {w : World} (h : w.ctx.sndr.state = .sfSending) :
    cantpCantxConfirmCb w =
      ⟨{ w.ctx with sndr.state := .idle, sndr.timer := none },
        w.log ++ [.sndrStateSemGive, .sndrResultCb .nOk]⟩ := by
  simp [cantpCantxConfirmCb, h, cantpSndrSetState, World.sndrTimerStop, World.emit]

theorem confirm_ffSending {w : World} (h : w.ctx.sndr.state = .ffSending) :
    cantpCantxConfirmCb w =
      ⟨{ w.ctx with
          sndr.state := .ffFcWait
          sndr.sn := 1
          sndr.index := UInt16.ofNat ffNumDataBytes
          sndr.timer := some ⟨.nBs, 1000 * nBsTimerMs⟩ },
        w.log ++ [.sndrStateSemGive]⟩ := by
  simp [cantpCantxConfirmCb, h, cantpSndrSetState, World.sndrTimerStop,
    World.sndrTimerStart, World.emit]

/-- A Consecutive Frame is out, confirmed or not. -/
def CantpState.CfOut (st : CantpState) : Prop := st = .cfSending ∨ st = .cfSent

instance (st : CantpState) : Decidable st.CfOut :=
  inferInstanceAs (Decidable (_ ∨ _))

theorem confirm_cfOut {w : World} (h : w.ctx.sndr.state.CfOut) :
    cantpCantxConfirmCb w = sndrCfConfirmed w := by
  rcases h with h | h <;> simp only [cantpCantxConfirmCb, World.val_eq, h]

theorem confirm_negative {w : World} (h : w.ctx.sndr.state.CfOut)
    (hrem : w.ctx.sndr.remaining < 0) :
    cantpCantxConfirmCb w = w.sndrTimerStop := by
  rw [confirm_cfOut h]
  exact if_pos hrem

theorem confirm_last {w : World} (h : w.ctx.sndr.state.CfOut)
    (hrem : w.ctx.sndr.remaining = 0) :
    cantpCantxConfirmCb w =
      ⟨{ w.ctx with sndr.state := .idle, sndr.timer := none },
        w.log ++ [.sndrStateSemGive, .sndrTxDoneCb]⟩ := by
  have hneg : ¬ w.sndrTimerStop.ctx.sndr.remaining < 0 := not_lt.mpr hrem.ge
  have hzero : w.sndrTimerStop.ctx.sndr.remaining = 0 := hrem
  rw [confirm_cfOut h]
  simp only [sndrCfConfirmed, World.val_eq, World.on_eq, if_neg hneg, if_pos hzero]
  ext : 1 <;> simp

theorem sndrContinueBlock_eq {w : World} (hrem : 0 < w.ctx.sndr.remaining) :
    sndrContinueBlock w =
      sentCf ⟨{ w.ctx with
          sndr.state := .cfSent
          sndr.timer := some ⟨.nCs, 1000 * nCsTimerMs⟩ },
        w.log ++ .sndrStateSemGive ::
          (if w.ctx.sndr.stTimUs > 0 then [.usleep w.ctx.sndr.stTimUs] else [])⟩ := by
  rw [sndrContinueBlock]
  by_cases hst : w.ctx.sndr.stTimUs > 0
  · have hst' : (cantpSndrSetState w .cfSent).ctx.sndr.stTimUs > 0 := hst
    simp only [World.on_eq, if_pos hst, if_pos hst']
    rw [sndrSendCfAfrerCf_eq (by exact hrem)]
    congr 1
    ext : 1 <;> simp
  · have hst' : ¬ (cantpSndrSetState w .cfSent).ctx.sndr.stTimUs > 0 := hst
    simp only [World.on_eq, if_neg hst, if_neg hst']
    rw [sndrSendCfAfrerCf_eq (by exact hrem)]
    congr 1

theorem confirm_blockEnd {w : World} (h : w.ctx.sndr.state.CfOut)
    (hrem : 0 < w.ctx.sndr.remaining) (hb : w.ctx.sndr.BlockEnds) :
    cantpCantxConfirmCb w =
      ⟨{ w.ctx with
          sndr.state := .cfFcWait
          sndr.sn := w.ctx.sndr.nextSn
          sndr.blIndex := 0
          sndr.timer := some ⟨.nBs, 1000 * nBsTimerMs⟩ },
        w.log ++ [.sndrStateSemGive]⟩ := by
  obtain ⟨hbs, hbl⟩ := hb
  have hneg : ¬ w.sndrTimerStop.ctx.sndr.remaining < 0 := not_lt.mpr hrem.le
  have hzero : ¬ w.sndrTimerStop.ctx.sndr.remaining = 0 := hrem.ne'
  rw [confirm_cfOut h]
  simp only [sndrCfConfirmed, World.val_eq, World.on_eq, if_neg hneg, if_neg hzero]
  by_cases hsn : w.ctx.sndr.sn + 1 > 0x0f
  · ext : 1 <;> simp [hsn, hbs, hbl, SndrState.nextSn, snAfter]
  · ext : 1 <;> simp [hsn, hbs, hbl, SndrState.nextSn, snAfter]

theorem confirm_next {w : World} (h : w.ctx.sndr.state.CfOut)
    (hrem : 0 < w.ctx.sndr.remaining) (hb : ¬ w.ctx.sndr.BlockEnds) :
    cantpCantxConfirmCb w =
      sentCf ⟨{ w.ctx with
          sndr.state := .cfSent
          sndr.sn := w.ctx.sndr.nextSn
          sndr.blIndex := w.ctx.sndr.counted
          sndr.timer := some ⟨.nCs, 1000 * nCsTimerMs⟩ },
        w.log ++ .sndrStateSemGive ::
          (if w.ctx.sndr.stTimUs > 0 then [.usleep w.ctx.sndr.stTimUs] else [])⟩ := by
  have hneg : ¬ w.sndrTimerStop.ctx.sndr.remaining < 0 := not_lt.mpr hrem.le
  have hzero : ¬ w.sndrTimerStop.ctx.sndr.remaining = 0 := hrem.ne'
  have hstep : cantpCantxConfirmCb w =
      sndrContinueBlock ⟨{ w.ctx with
          sndr.sn := w.ctx.sndr.nextSn
          sndr.blIndex := w.ctx.sndr.counted
          sndr.timer := none }, w.log⟩ := by
    rw [confirm_cfOut h]
    simp only [sndrCfConfirmed, World.val_eq, World.on_eq, if_neg hneg, if_neg hzero]
    rw [SndrState.nextSn, snAfter, SndrState.counted]
    by_cases hbs : 0 < w.ctx.sndr.bsPair
    · have hbl : ¬ w.ctx.sndr.bsPair ≤ w.ctx.sndr.blIndex + 1 := fun hle => hb ⟨hbs, hle⟩
      by_cases hsn : w.ctx.sndr.sn + 1 > 0x0f <;> simp [hsn, hbs, hbl]
    · by_cases hsn : w.ctx.sndr.sn + 1 > 0x0f <;> simp [hsn, hbs]
  rw [hstep, sndrContinueBlock_eq (by exact hrem)]

/-- The sender is in a state in which it has a frame to be confirmed. -/
def CantpState.Sending (st : CantpState) : Prop :=
  st = .sfSending ∨ st = .ffSending ∨ st = .cfSending

instance (st : CantpState) : Decidable st.Sending :=
  inferInstanceAs (Decidable (_ ∨ _))

theorem confirm_other {w : World} (h : ¬ w.ctx.sndr.state.Sending)
    (hsent : w.ctx.sndr.state ≠ .cfSent) : cantpCantxConfirmCb w = w := by
  unfold CantpState.Sending at h
  rw [cantpCantxConfirmCb, World.val_eq]
  split <;> simp_all

/-- The ways through `cantp_cantx_confirm_cb`. -/
inductive ConfirmOutcome (w : World) : World → Prop
  | single (h : w.ctx.sndr.state = .sfSending) : ConfirmOutcome w
      ⟨{ w.ctx with sndr.state := .idle, sndr.timer := none },
        w.log ++ [.sndrStateSemGive, .sndrResultCb .nOk]⟩
  | first (h : w.ctx.sndr.state = .ffSending) : ConfirmOutcome w
      ⟨{ w.ctx with
          sndr.state := .ffFcWait
          sndr.sn := 1
          sndr.index := UInt16.ofNat ffNumDataBytes
          sndr.timer := some ⟨.nBs, 1000 * nBsTimerMs⟩ },
        w.log ++ [.sndrStateSemGive]⟩
  | negative (h : w.ctx.sndr.state.CfOut) (hrem : w.ctx.sndr.remaining < 0) :
      ConfirmOutcome w w.sndrTimerStop
  | last (h : w.ctx.sndr.state.CfOut) (hrem : w.ctx.sndr.remaining = 0) : ConfirmOutcome w
      ⟨{ w.ctx with sndr.state := .idle, sndr.timer := none },
        w.log ++ [.sndrStateSemGive, .sndrTxDoneCb]⟩
  | blockEnd (h : w.ctx.sndr.state.CfOut) (hrem : 0 < w.ctx.sndr.remaining)
      (hb : w.ctx.sndr.BlockEnds) : ConfirmOutcome w
      ⟨{ w.ctx with
          sndr.state := .cfFcWait
          sndr.sn := w.ctx.sndr.nextSn
          sndr.blIndex := 0
          sndr.timer := some ⟨.nBs, 1000 * nBsTimerMs⟩ },
        w.log ++ [.sndrStateSemGive]⟩
  | next (h : w.ctx.sndr.state.CfOut) (hrem : 0 < w.ctx.sndr.remaining)
      (hb : ¬ w.ctx.sndr.BlockEnds) : ConfirmOutcome w
      (sentCf ⟨{ w.ctx with
          sndr.state := .cfSent
          sndr.sn := w.ctx.sndr.nextSn
          sndr.blIndex := w.ctx.sndr.counted
          sndr.timer := some ⟨.nCs, 1000 * nCsTimerMs⟩ },
        w.log ++ .sndrStateSemGive ::
          (if w.ctx.sndr.stTimUs > 0 then [.usleep w.ctx.sndr.stTimUs] else [])⟩)
  | other (h : ¬ w.ctx.sndr.state.Sending) (hsent : w.ctx.sndr.state ≠ .cfSent) :
      ConfirmOutcome w w

/-- Every confirmation is handled in one of these ways. -/
theorem confirm_outcome (w : World) : ConfirmOutcome w (cantpCantxConfirmCb w) := by
  by_cases hout : w.ctx.sndr.state.CfOut
  · rcases lt_trichotomy w.ctx.sndr.remaining 0 with hneg | hzero | hpos
    · rw [confirm_negative hout hneg]
      exact .negative hout hneg
    · rw [confirm_last hout hzero]
      exact .last hout hzero
    · by_cases hb : w.ctx.sndr.BlockEnds
      · rw [confirm_blockEnd hout hpos hb]
        exact .blockEnd hout hpos hb
      · rw [confirm_next hout hpos hb]
        exact .next hout hpos hb
  · by_cases hsf : w.ctx.sndr.state = .sfSending
    · rw [confirm_sfSending hsf]
      exact .single hsf
    · by_cases hff : w.ctx.sndr.state = .ffSending
      · rw [confirm_ffSending hff]
        exact .first hff
      · have hsend : ¬ w.ctx.sndr.state.Sending := fun h =>
          h.elim hsf fun h => h.elim hff fun h => hout (Or.inl h)
        have hsent : w.ctx.sndr.state ≠ .cfSent := fun h => hout (Or.inr h)
        rw [confirm_other hsend hsent]
        exact .other hsend hsent

/-! ### The timer -/

theorem timerCb_sending {w : World} (h : w.ctx.sndr.state.Sending) :
    cantpSndrTimerCb w =
      ⟨{ w.ctx with sndr.state := .idle },
        w.log ++ [.sndrStateSemGive, .sndrResultCb .nTimeoutAs]⟩ := by
  rcases h with h | h | h <;>
  · simp only [cantpSndrTimerCb, h]
    ext : 1 <;> simp

theorem timerCb_ffFcWait {w : World} (h : w.ctx.sndr.state = .ffFcWait) :
    cantpSndrTimerCb w =
      ⟨{ w.ctx with sndr.state := .idle },
        w.log ++ [.sndrStateSemGive, .sndrResultCb .nTimeoutBs]⟩ := by
  simp only [cantpSndrTimerCb, h]
  ext : 1 <;> simp

theorem timerCb_other {w : World} (h : ¬ w.ctx.sndr.state.Sending)
    (hwait : w.ctx.sndr.state ≠ .ffFcWait) : cantpSndrTimerCb w = w := by
  unfold CantpState.Sending at h
  rw [cantpSndrTimerCb]
  split <;> simp_all

/-! ### Flow Control frames -/

/-- The delay of an FC.CTS the sender accepts, `none` for every other frame. -/
def ctsDelay (f : CantpFrame) : Option UInt32 :=
  if CantpFcFlowStatus.ofUInt8 f.fcFs = some .cts then stTimUsOf f.fcSt else none

/-- The sender after it has taken over the parameters of a Flow Control frame. -/
def SndrState.withFc (s : SndrState) (id : UInt32) (f : CantpFrame) (us : UInt32)
    (name : TimerName) : SndrState :=
  { s with
    idPair := id
    bsPair := f.fcBs
    stPair := f.fcSt
    stTimUs := us
    timer := some ⟨name, 1000 * nCsTimerMs⟩ }

theorem ctsDelay_eq_some {f : CantpFrame} {us : UInt32} (h : ctsDelay f = some us) :
    CantpFcFlowStatus.ofUInt8 f.fcFs = some .cts ∧ stTimUsOf f.fcSt = some us := by
  unfold ctsDelay at h
  split at h
  · rename_i hfs
    exact ⟨hfs, h⟩
  · cases h

theorem flowControl_cts {w : World} {id : UInt32} {f : CantpFrame} {us : UInt32}
    (hcts : ctsDelay f = some us) (hrem : 0 < w.ctx.sndr.remaining) :
    sndrRxFlowControlFrame id f w =
      sentCf ⟨{ w.ctx with sndr := w.ctx.sndr.withFc id f us .nCs }, w.log⟩ := by
  obtain ⟨hfs, hst⟩ := ctsDelay_eq_some hcts
  simp only [sndrRxFlowControlFrame, World.val_eq, World.on_eq, hst, hfs]
  rw [sndrSendCfAfrerFc_eq (by exact hrem)]
  congr 1

/-- A Flow Control frame that is no accepted FC.CTS sends nothing: it changes the
recorded parameters and leaves the timer running. -/
theorem flowControl_other (s : SndrState) (id : UInt32) {f : CantpFrame}
    (hcts : ctsDelay f = none) :
    ∃ us name, ∀ w : World, w.ctx.sndr = s → sndrRxFlowControlFrame id f w =
      ⟨{ w.ctx with sndr := s.withFc id f us name }, w.log⟩ := by
  unfold ctsDelay at hcts
  unfold sndrRxFlowControlFrame
  cases hst : stTimUsOf f.fcSt with
  | none =>
      refine ⟨s.stTimUs, .nCs, ?_⟩
      intro w hw
      simp only [World.val_eq, World.on_eq, hst, ← hw]
      rfl
  | some us =>
      have hfs : CantpFcFlowStatus.ofUInt8 f.fcFs ≠ some .cts := by
        intro hfs
        rw [if_pos hfs, hst] at hcts
        cases hcts
      cases hstat : CantpFcFlowStatus.ofUInt8 f.fcFs with
      | none =>
          refine ⟨us, .nCs, ?_⟩
          intro w hw
          simp only [World.val_eq, World.on_eq, hst, ← hw]
          rfl
      | some st =>
          cases st with
          | cts => exact absurd hstat hfs
          | wait =>
              refine ⟨us, .nBs, ?_⟩
              intro w hw
              simp only [World.val_eq, World.on_eq, hst, ← hw]
              rfl
          | ovf =>
              refine ⟨us, .nCs, ?_⟩
              intro w hw
              simp only [World.val_eq, World.on_eq, hst, ← hw]
              rfl

theorem flowControl_cts_none {w : World} {id : UInt32} {f : CantpFrame} {us : UInt32}
    (hcts : ctsDelay f = some us) (hrem : w.ctx.sndr.remaining ≤ 0) :
    sndrRxFlowControlFrame id f w =
      ⟨{ w.ctx with sndr := w.ctx.sndr.withFc id f us .nAs }, w.log⟩ := by
  obtain ⟨hfs, hst⟩ := ctsDelay_eq_some hcts
  simp only [sndrRxFlowControlFrame, World.val_eq, World.on_eq, hst, hfs]
  rw [sndrSendCfAfrerFc_none (by exact hrem)]
  rfl

/-- Outside `FF_FC_WAIT` a Flow Control frame is dropped after one wait. -/
theorem canrxFlowControll_drop {env : Env} {id : UInt32} {f : CantpFrame} {w : World}
    (h : w.ctx.sndr.state ≠ .ffFcWait) :
    canrxFlowControll env id f w = w.emit (.sndrStateSemTake (1000 * nBsTimerMs)) := by
  rw [canrxFlowControll, canrxFlowControllAmong, World.val_eq, if_pos h]
  by_cases henv : env.sndrStateSemTake < 0
  · rw [if_pos henv, World.on_eq]
  · rw [if_neg henv]
    exact if_pos h

theorem canrxFlowControll_take {env : Env} {id : UInt32} {f : CantpFrame} {w : World}
    (h : w.ctx.sndr.state = .ffFcWait) :
    canrxFlowControll env id f w =
      sndrRxFlowControlFrame id f (w.emit (.printCantpFrame f)) := by
  rw [canrxFlowControll, canrxFlowControllAmong, World.val_eq, if_neg (not_not.mpr h),
    callPrintCantpFrame_eq]

theorem canrx_flowControll {r : RxFrame} {w : World} (h : r.pci = some .flowControll) :
    handle (.canrxCb r) w = canrxFlowControll r.env r.id r.frame w := by
  unfold RxFrame.pci at h
  rw [handle, cantpCanrxCb, cantpCanrxCbAmong]
  simp only [RxFrame.frame] at *
  simp only [h]
  rfl

/-! ### Requests -/

theorem ffLenH_bits (len : UInt16) :
    ((0xF00 &&& len) >>> 8).toUInt8 % 16 = UInt8.ofNat (len.toNat / 256 % 16) := by
  apply UInt8.toNat_inj.mp
  have h : (0xF00 &&& len.toNat) >>> 8 = len.toNat / 256 % 16 := by
    rw [Nat.shiftRight_and_distrib, Nat.shiftRight_eq_div_pow len.toNat, Nat.and_comm]
    exact Nat.and_two_pow_sub_one_eq_mod _ 4
  rw [UInt8.toNat_mod, UInt16.toNat_toUInt8, UInt16.toNat_shiftRight, UInt16.toNat_and,
    UInt8.toNat_ofNat']
  simp only [UInt16.reduceToNat, UInt8.reduceToNat, Nat.reduceMod, h]
  omega

theorem ffLenL_bits (len : UInt16) :
    (0xFF &&& len).toUInt8 = UInt8.ofNat (len.toNat % 256) := by
  apply UInt8.toNat_inj.mp
  have h : 0xFF &&& len.toNat = len.toNat % 256 := by
    rw [Nat.and_comm]
    exact Nat.and_two_pow_sub_one_eq_mod _ 8
  rw [UInt16.toNat_toUInt8, UInt16.toNat_and, UInt8.toNat_ofNat']
  simp only [UInt16.reduceToNat, h]

theorem fill_sfFrame (data : List UInt8) (len : UInt16) (h : len.toNat ≤ sfNumDataBytes) :
    forUpTo len.toNat (fun i f => f.setSfD i (data.getD i 0))
      ((CantpFrame.zero.setSfLen len.toUInt8).setNPciT CantpNPciType.singleFrame.toUInt8) =
    sfFrame data len.toNat := by
  unfold sfNumDataBytes at h
  apply CantpFrame.ext_byte
  intro j hj
  simp only [CantpFrame.setSfD]
  rw [CantpFrame.byte_fill 1, sfFrame, CantpFrame.byte_ofList _ _ hj]
  cases j with
  | zero =>
      rw [if_neg (by omega), List.getD_cons_zero]
      apply UInt8.toNat_inj.mp
      simp only [CantpFrame.setSfLen, CantpFrame.setLow, CantpFrame.setNPciT,
        CantpFrame.byte_setByte, CantpFrame.byte_zero, CantpNPciType.toUInt8]
      simp only [UInt8.toNat_add, UInt8.toNat_mod, UInt8.toNat_mul, UInt8.toNat_div,
        UInt16.toNat_toUInt8, UInt8.toNat_ofNat', UInt8.reduceToNat, and_self,
        Nat.ofNat_pos, if_true]
      omega
  | succ j =>
      have hzero : ((CantpFrame.zero.setSfLen len.toUInt8).setNPciT
          CantpNPciType.singleFrame.toUInt8).byte (j + 1) = 0 := by
        simp [CantpFrame.setSfLen]
      rw [List.getD_cons_succ, getD_slice, hzero, Nat.add_sub_cancel,
        List.getD_eq_getElem?_getD, List.getD_eq_getElem?_getD, List.getElem?_take,
        Nat.zero_add]
      rw [sfNumDataBytes]
      split_ifs <;> first | rfl | omega

theorem fill_ffFrame (data : List UInt8) (len : UInt16) :
    forUpTo ffNumDataBytes (fun i f => f.setFfD i (data.getD i 0))
      (cantpFfLenSet (CantpFrame.zero.setNPciT CantpNPciType.firstFrame.toUInt8) len) =
    ffFrame data len.toNat := by
  have hhead : cantpFfLenSet (CantpFrame.zero.setNPciT CantpNPciType.firstFrame.toUInt8) len =
      ((CantpFrame.zero.setNPciT 1).setLow ((0xF00 &&& len) >>> 8).toUInt8).setByte 1
        (UInt8.ofNat (len.toNat % 256)) := by
    rw [← ffLenL_bits]
    rfl
  apply CantpFrame.ext_byte
  intro j hj
  simp only [CantpFrame.setFfD]
  rw [CantpFrame.byte_fill 2, ffFrame, CantpFrame.byte_ofList _ _ hj, hhead]
  rcases j with _ | _ | j
  · rw [if_neg (by omega), List.getD_cons_zero, CantpFrame.byte_setByte,
      if_neg (by omega), CantpFrame.byte_zero_header, ffLenH_bits]
    apply UInt8.toNat_inj.mp
    simp
  · rw [if_neg (by omega), List.getD_cons_succ, List.getD_cons_zero,
      CantpFrame.byte_setByte, if_pos (by omega)]
  · have hsub : j + 1 + 1 - 2 = j := rfl
    rw [List.getD_cons_succ, List.getD_cons_succ, getD_slice, CantpFrame.byte_setByte,
      if_neg (by omega : ¬ (1 = j + 1 + 1 ∧ j + 1 + 1 < 8)), CantpFrame.byte_succ_setLow,
      CantpFrame.byte_succ_setNPciT, CantpFrame.byte_zero, hsub, Nat.zero_add]
    rw [ffNumDataBytes]
    split_ifs <;> first | rfl | omega

theorem send_single {id : UInt32} {idt : UInt8} {data : List UInt8} {len : UInt16}
    {w : World} (h : len.toNat ≤ sfNumDataBytes) :
    cantpSend id idt data len w =
      ⟨{ w.ctx with
          sndr.state := .sfSending
          sndr.timer := some ⟨.nAs, 1000 * nAsTimerMs⟩ },
        w.log ++ [.printCantpFrame (sfFrame data len.toNat), .sndrStateSemGive,
          .canTxNb id idt 8 (sfFrame data len.toNat)]⟩ := by
  rw [cantpSend]
  simp only [if_pos h, fill_sfFrame data len h]
  ext : 1 <;> simp

theorem send_segmented {id : UInt32} {idt : UInt8} {data : List UInt8} {len : UInt16}
    {w : World} (h : sfNumDataBytes < len.toNat) :
    cantpSend id idt data len w =
      ⟨{ w.ctx with
          params.id := id
          params.idt := idt
          sndr.state := .ffSending
          sndr.len := len
          sndr.data := data
          sndr.timer := some ⟨.nAs, 1000 * nAsTimerMs⟩ },
        w.log ++ [.printCantpFrame (ffFrame data len.toNat), .sndrStateSemGive,
          .canTxNb id idt 8 (ffFrame data len.toNat)]⟩ := by
  rw [cantpSend]
  simp only [if_neg (not_le.mpr h), fill_ffFrame data len]
  ext : 1 <;> simp

end CanTp
