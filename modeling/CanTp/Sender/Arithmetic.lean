import CanTp.Sender.Blocks
import CanTp.Sender.Announcement
import CanTp.Flow.Kept
import CanTp.Tasks.System

/-!
# The index of the sender

The sender copies its message by an index of sixteen bits and decides by `len - index`
whether a frame is the last one. `cantp_send` writes the length and leaves the index, a
confirmation or a Flow Control frame may come in any state. In the states of a segmented
transfer the index is nevertheless between the six bytes of the First Frame and the length,
and below the length where the sender waits: every such state is entered by a call that
sets the index or moves it over the bytes of one more frame.
-/

namespace CanTp

open Library

/-- The states of a transfer whose First Frame is confirmed. -/
def CantpState.AfterFf (st : CantpState) : Prop :=
  st = .ffFcWait ∨ st = .cfSending ∨ st = .cfSent ∨ st = .cfFcWait

/-- The states in which the sender waits for Flow Control. -/
def CantpState.WaitsFc (st : CantpState) : Prop := st = .ffFcWait ∨ st = .cfFcWait

instance (st : CantpState) : Decidable st.WaitsFc := inferInstanceAs (Decidable (_ ∨ _))

theorem CantpState.WaitsFc.afterFf {st : CantpState} (h : st.WaitsFc) : st.AfterFf :=
  h.elim Or.inl fun h => Or.inr (Or.inr (Or.inr h))

theorem CantpState.CfOut.afterFf {st : CantpState} (h : st.CfOut) : st.AfterFf :=
  h.elim (fun h => Or.inr (Or.inl h)) fun h => Or.inr (Or.inr (Or.inl h))

/-- The length, the index and the sequence number of a sender after its First Frame. -/
structure IndexSound (s : SndrState) : Prop where
  len : s.state.AfterFf → 8 ≤ s.len.toNat
  index : s.state.AfterFf → 6 ≤ s.index.toNat ∧ s.index.toNat ≤ s.len.toNat
  sn : s.state.AfterFf → s.sn.toNat ≤ 15
  left : s.state.WaitsFc → s.index.toNat < s.len.toNat

/-- What a call that begins in `c` and ends in `w` copies: it reads below the length, it
sends one Consecutive Frame at most and none without a byte of the message in it, and the
index goes on by the number of bytes read. -/
structure CopySound (c : CantpRxtxStatus) (w : World) : Prop where
  reads : ∀ i, .sndrRead i ∈ w.log → i < c.sndr.len.toNat
  one : (cfsSent w.log).length ≤ 1
  filled : cfsSent w.log ≠ [] → 0 < cfBytes w.log
  moved : 0 < cfBytes w.log → w.ctx.sndr.index.toNat = c.sndr.index.toNat + cfBytes w.log

/-- The arithmetic of a sender in `c`. The two error returns are those of
`cantp_cantx_confirm_cb` and of `sndr_send_cf_afrer_fc`; `pause` is about the state in which
a confirmation waits before it sends the next frame. -/
structure ArithmeticSound (c : CantpRxtxStatus) : Prop where
  index : IndexSound c.sndr
  pause : (cantpCantxConfirmHead ⟨c, []⟩).2 = true →
    (cantpCantxConfirmHead ⟨c, []⟩).1.ctx.sndr.state = .cfSent ∧
      IndexSound (cantpCantxConfirmHead ⟨c, []⟩).1.ctx.sndr
  confirm : c.sndr.state.CfOut → ¬ c.sndr.remaining < 0
  flow : ∀ r : RxFrame, FcTaken c (.canrxCb r) → ¬ c.sndr.remaining ≤ 0
  copies : ∀ e, CopySound c (handle e ⟨c, []⟩)

/-! ### Every state is a phase -/

section Reached

variable {p : CantpParams} {c : CantpRxtxStatus}

theorem send_phase (c : CantpRxtxStatus) (id : UInt32) (idt : UInt8) (data : List UInt8)
    (len : UInt16) :
    ∃ ph, InPhase data len.toNat (canTp.step c (.send id idt data len)).1.sndr ph := by
  by_cases hlen : len.toNat ≤ sfNumDataBytes
  · refine ⟨.sf, ?_⟩
    rw [canTp_step, handle, send_single hlen]
    rfl
  · exact ⟨.ff, inPhase_send (not_le.mp hlen)⟩

/-- Every call keeps the sender in the phases of its message. -/
theorem step_phase (h : ∃ ph, InPhase c.sndr.data c.sndr.len.toNat c.sndr ph) (e : Event) :
    ∃ ph, InPhase (canTp.step c e).1.sndr.data (canTp.step c e).1.sndr.len.toNat
      (canTp.step c e).1.sndr ph := by
  cases hsend : e.isSend with
  | true =>
      cases e with
      | send id idt data len =>
          obtain ⟨ph, hph⟩ := send_phase c id idt data len
          exact ⟨ph, hph.self⟩
      | _ => cases hsend
  | false =>
      obtain ⟨ph, hph⟩ := h
      obtain ⟨ph', hph', -⟩ := step_moved hsend hph
      exact ⟨ph', hph'.self⟩

theorem Reached.phase (h : Reached p c) :
    ∃ ph, InPhase c.sndr.data c.sndr.len.toNat c.sndr ph :=
  h.induction (P := fun c => ∃ ph, InPhase c.sndr.data c.sndr.len.toNat c.sndr ph)
    ⟨.idle, rfl⟩ fun _ e hph => step_phase hph e

end Reached

/-! ### The bounds in a phase -/

section Bounds

variable {data : List UInt8} {len k : Nat} {s : SndrState} {ph : Phase}

/-- A cursor is between the First Frame and the end of the message, and before the end
where a frame is left. -/
theorem Cursor.indexSound (h : Cursor data len s k) (hsn : s.sn.toNat ≤ 15)
    (hleft : s.state.WaitsFc → k < numCfs len) : IndexSound s := by
  have hlong := h.long
  have hlen := h.len_eq
  have hindex := h.index_eq
  simp only [sfNumDataBytes, cfStart, ffNumDataBytes] at hlong hindex
  refine ⟨fun _ => by omega, fun _ => ⟨by omega, by omega⟩, fun _ => hsn, fun hwait => ?_⟩
  have hstart := (lt_numCfs_iff len k).mp (hleft hwait)
  simp only [cfStart, ffNumDataBytes] at hstart
  omega

theorem IndexSound.of_state (hafter : ¬ s.state.AfterFf) : IndexSound s :=
  ⟨fun h => absurd h hafter, fun h => absurd h hafter, fun h => absurd h hafter,
    fun h => absurd h.afterFf hafter⟩

theorem InPhase.indexSound (h : InPhase data len s ph) : IndexSound s := by
  cases ph with
  | idle | sf => exact .of_state (by simp [CantpState.AfterFf, h.state_eq, Phase.state])
  | ff => exact .of_state (by simp [CantpState.AfterFf, h.1])
  | ffWait =>
      obtain ⟨-, hcur, hsn⟩ := h
      exact hcur.indexSound (by omega) fun _ => numCfs_pos hcur.long
  | cf k =>
      obtain ⟨hst, hcur, -, hsn⟩ := h
      exact hcur.indexSound (by omega) fun hwait => by simp [CantpState.WaitsFc, hst] at hwait
  | cfWait k =>
      obtain ⟨-, hcur, -, hk, hsn⟩ := h
      exact hcur.indexSound (by omega) fun _ => hk

end Bounds

/-! ### What a call copies -/

section Copies

variable {data : List UInt8} {len : Nat} {ph : Phase} {c : CantpRxtxStatus} {w : World}

theorem CopySound.quiet (hreads : cfBytes w.log = 0) (hcfs : cfsSent w.log = []) :
    CopySound c w := by
  refine ⟨fun i hi => ?_, by simp [hcfs], fun hne => absurd hcfs hne, fun hpos => ?_⟩
  · exact absurd rfl (List.countP_eq_zero.mp hreads _ hi)
  · exact absurd hreads hpos.ne'

/-- Sending the next frame copies from the index to the next one, and at least one byte. -/
theorem CopySound.sentCf (hlen : w.ctx.sndr.len = c.sndr.len)
    (hindex : w.ctx.sndr.index = c.sndr.index) (hrem : 0 < w.ctx.sndr.remaining)
    (hreads : cfBytes w.log = 0) (hsig : sndrSignals w.log = []) :
    CopySound c (sentCf w) := by
  have hbytes : cfBytes (CanTp.sentCf w).log = w.ctx.sndr.nextLen := by
    rw [CanTp.sentCf, cfBytes_append, hreads, cfBytes_cfActs, Nat.zero_add]
  have hnext : 0 < w.ctx.sndr.nextLen := by
    unfold SndrState.remaining at hrem
    rw [SndrState.nextLen, cfNumDataBytes]
    omega
  refine ⟨fun i hi => ?_, (length_cfsSent_sentCf hsig).le, fun _ => ?_, fun _ => ?_⟩
  · rcases List.mem_append.mp hi with hi | hi
    · exact absurd rfl (List.countP_eq_zero.mp hreads _ hi)
    · simp only [CantpRxtxStatus.cfActs, List.mem_append, List.mem_map, List.mem_range,
        Act.sndrRead.injEq, List.mem_cons, List.not_mem_nil, or_false, reduceCtorEq] at hi
      obtain ⟨j, hj, rfl⟩ := hi
      rw [SndrState.nextLen] at hj
      rw [← hlen]
      omega
  · rw [hbytes]
    exact hnext
  · have hafter := index_afterCf hrem
    rw [hbytes, ← hindex]
    rw [SndrState.nextLen]
    unfold SndrState.remaining at hrem
    change w.ctx.sndr.afterCf.index.toNat = _
    omega

theorem send_copies (c : CantpRxtxStatus) (id : UInt32) (idt : UInt8) (data : List UInt8)
    (len : UInt16) : CopySound c (handle (.send id idt data len) ⟨c, []⟩) := by
  rw [handle]
  by_cases hlen : len.toNat ≤ sfNumDataBytes
  · rw [send_single hlen]
    refine .quiet rfl ?_
    simp [cfsSent, framesSent, sndrSignals, Act.sndrSignal, nPciT_sfFrame data _ hlen,
      CantpNPciType.toUInt8]
  · rw [send_segmented (not_le.mp hlen)]
    refine .quiet rfl ?_
    simp [cfsSent, framesSent, sndrSignals, Act.sndrSignal, CantpNPciType.toUInt8]

theorem confirm_copies (h : InPhase data len c.sndr ph) :
    CopySound c (cantpCantxConfirmCb ⟨c, []⟩) := by
  have hconf := h.confirmed
  generalize cantpCantxConfirmCb ⟨c, []⟩ = w at hconf ⊢
  cases hconf with
  | ignored | single | opening | last | blockEnd => exact .quiet rfl rfl
  | next hk =>
      obtain ⟨-, hcur, -⟩ := h
      refine .sentCf rfl rfl (hcur.remaining_pos hk) ?_ (sndrSignals_pause _)
      split <;> rfl

theorem timerCb_copies (c d : CantpRxtxStatus) : CopySound c (cantpSndrTimerCb ⟨d, []⟩) := by
  by_cases hsend : d.sndr.state.Sending
  · rw [timerCb_sending (by exact hsend)]
    exact .quiet rfl rfl
  · by_cases hwait : d.sndr.state = .ffFcWait
    · rw [timerCb_ffFcWait (by exact hwait)]
      exact .quiet rfl rfl
    · rw [timerCb_other (by exact hsend) (by exact hwait)]
      exact .quiet rfl rfl

theorem canrx_copies (r : RxFrame) (h : InPhase data len c.sndr ph) :
    CopySound c (handle (.canrxCb r) ⟨c, []⟩) := by
  by_cases hpci : r.pci = some .flowControll
  · have hans := h.answered hpci
    generalize handle (.canrxCb r) ⟨c, []⟩ = w at hans ⊢
    cases hans with
    | dropped | recorded => exact .quiet rfl rfl
    | resumed us hst hcts => exact .sentCf rfl rfl (h.remaining_pos hst) rfl rfl
  · obtain ⟨-, hlog⟩ := (rx_outcome c r).sndr_alone hpci
    refine .quiet (List.countP_eq_zero.mpr fun a ha hread => ?_) ?_
    · have honly := hlog a ha
      cases a <;> first | exact Bool.noConfusion hread | exact Bool.noConfusion honly
    · have hframes : framesSent (handle (.canrxCb r) ⟨c, []⟩).log = [] := by
        simp only [framesSent, sndrSignals, List.filterMap_filterMap]
        refine List.filterMap_eq_nil_iff.mpr fun a ha => ?_
        have honly := hlog a ha
        cases a <;> first | rfl | exact Bool.noConfusion honly
      rw [cfsSent, hframes, List.filter_nil]

theorem step_copies (h : InPhase data len c.sndr ph) (e : Event) :
    CopySound c (handle e ⟨c, []⟩) := by
  cases e with
  | send id idt data len => exact send_copies c id idt data len
  | cantxConfirmCb => exact confirm_copies h
  | sndrTimerCb => exact timerCb_copies c c
  | sndrTimerExpiry =>
      rw [handle, sndrTimerExpiry]
      split
      · exact timerCb_copies c { c with sndr.timer := none }
      · exact .quiet rfl rfl
  | rcvrTimerCb => exact .quiet rfl rfl
  | canrxCb r => exact canrx_copies r h

end Copies

/-! ### The pause of a confirmation -/

section Pause

variable {w : World}

/-- A confirmation that comes to its pause has only counted the frame. -/
theorem confirmHead_pause (h : (cantpCantxConfirmHead w).2 = true) :
    w.ctx.sndr.state.CfOut ∧ ∃ bl t, (cantpCantxConfirmHead w).1.ctx.sndr =
      { w.ctx.sndr with
        state := .cfSent
        sn := w.ctx.sndr.nextSn
        blIndex := bl
        timer := t } := by
  have hpause : ∀ v : World, (sndrPause v).ctx.sndr = { v.ctx.sndr with state := .cfSent } :=
    fun v => by
      unfold sndrPause
      dsimp only
      split <;> rfl
  have hout : w.ctx.sndr.state.CfOut := by
    unfold CantpState.CfOut
    cases hst : w.ctx.sndr.state with
    | cfSending | cfSent => simp
    | _ => simp [cantpCantxConfirmHead, hst] at h
  have hhead : cantpCantxConfirmHead w = sndrCfConfirmedHead w := by
    rcases hout with hst | hst <;> simp only [cantpCantxConfirmHead, hst]
  refine ⟨hout, ?_⟩
  rw [hhead] at h ⊢
  unfold sndrCfConfirmedHead SndrState.nextSn snAfter at *
  dsimp only at h ⊢
  split_ifs at h ⊢ <;> first | contradiction | exact ⟨_, _, hpause _⟩

theorem IndexSound.paused (h : IndexSound w.ctx.sndr)
    (hpause : (cantpCantxConfirmHead w).2 = true) :
    (cantpCantxConfirmHead w).1.ctx.sndr.state = .cfSent ∧
      IndexSound (cantpCantxConfirmHead w).1.ctx.sndr := by
  obtain ⟨hout, bl, t, hsndr⟩ := confirmHead_pause hpause
  have hafter := hout.afterFf
  have hsn := h.sn hafter
  have hnext := toNat_nextSn (s := w.ctx.sndr) (k := w.ctx.sndr.sn.toNat) (by omega)
  rw [hsndr]
  refine ⟨rfl, fun _ => h.len hafter, fun _ => h.index hafter, fun _ => ?_, fun hwait => ?_⟩
  · change w.ctx.sndr.nextSn.toNat ≤ 15
    omega
  · simp [CantpState.WaitsFc] at hwait

end Pause

/-- In every run of a context, whatever calls come in whatever order. -/
theorem arithmetic_sound (p : CantpParams) (es : List Event) :
    ArithmeticSound (canTp.run (.fresh p) es) := by
  have hreached : Reached p (canTp.run (.fresh p) es) := ⟨es, rfl⟩
  generalize canTp.run (.fresh p) es = c at hreached
  obtain ⟨ph, hph⟩ := hreached.phase
  have hindex := hph.indexSound
  refine ⟨hindex, hindex.paused, fun hout => ?_, fun r htaken => ?_, step_copies hph⟩
  · have hle := (hindex.index hout.afterFf).2
    rw [SndrState.remaining]
    omega
  · exact not_le.mpr (hph.remaining_pos htaken.2)

end CanTp
