import CanTp.Sender.Step
import CanTp.Library.Emission

/-!
# The sender emits the segmentation of its message

`InPhase data len s ph` reads the sender state `s` as a phase of the transfer of
the first `len` bytes of `data`: the state of the source, together with how many
Consecutive Frames are out. Every call of the sender role moves a phase to a
phase, and the frames and reports it makes are those of one step of the abstract
emission of the list `canonicalCfs data len`.
-/

namespace CanTp

open Library

/-- A report to the session layer. -/
inductive SndrReport
  | result (r : CantpResult)
  | txDone
deriving DecidableEq, Repr

/-- The frames handed to `cantp_can_tx_nb` and the reports of the sender. -/
def Act.sndrSignal : Act → Option (CantpFrame ⊕ SndrReport)
  | .canTxNb _ _ _ f => some (.inl f)
  | .sndrResultCb r => some (.inr (.result r))
  | .sndrTxDoneCb => some (.inr .txDone)
  | _ => none

/-- The calls of `cantp_sndr_result_cb` and `cantp_sndr_tx_done_cb`. -/
def Act.isReport : Act → Bool
  | .sndrResultCb _ | .sndrTxDoneCb => true
  | _ => false

/-- The signals of a log, in order. -/
def sndrSignals (log : List Act) : List (CantpFrame ⊕ SndrReport) :=
  log.filterMap Act.sndrSignal

/-- The frames handed to `cantp_can_tx_nb`. -/
def framesSent (log : List Act) : List CantpFrame := (sndrSignals log).filterMap Sum.getLeft?

/-- The Consecutive Frames among them. -/
def cfsSent (log : List Act) : List CantpFrame :=
  (framesSent log).filter fun f => f.nPciT = CantpNPciType.consecFrame.toUInt8

/-- The reports to the session layer. -/
def reportsMade (log : List Act) : List SndrReport := (sndrSignals log).filterMap Sum.getRight?

theorem Act.sndrSignal_of_isReport {a : Act} (h : a.isReport = true) :
    ∃ r, a.sndrSignal = some (.inr r) := by
  cases a <;> first | exact ⟨_, rfl⟩ | cases h

theorem sndrSignals_append (l m : List Act) :
    sndrSignals (l ++ m) = sndrSignals l ++ sndrSignals m := List.filterMap_append

/-! ### Phases of a transfer -/

/-- `s` transfers the first `len` bytes of `data` and has taken `k` Consecutive
Frames out of it. -/
structure Cursor (data : List UInt8) (len : Nat) (s : SndrState) (k : Nat) : Prop where
  data_eq : s.data = data
  len_eq : s.len.toNat = len
  long : sfNumDataBytes < len
  le : k ≤ numCfs len
  index_eq : s.index.toNat = min len (cfStart k)

/-- The phases of a transfer. -/
inductive Phase
  | idle
  | sf
  | ff
  | ffWait
  | cf (k : Nat)
  | cfWait (k : Nat)
deriving DecidableEq, Repr

/-- How many Consecutive Frames are out in a phase. -/
def Phase.progress : Phase → Emission.Progress
  | .idle => .ended
  | .sf | .ff | .ffWait => .sending 0
  | .cf k | .cfWait k => .sending k

/-- What a phase says about the sender state. -/
def InPhase (data : List UInt8) (len : Nat) (s : SndrState) : Phase → Prop
  | .idle => s.state = .idle
  | .sf => s.state = .sfSending
  | .ff => s.state = .ffSending ∧ s.data = data ∧ s.len.toNat = len ∧ sfNumDataBytes < len
  | .ffWait => s.state = .ffFcWait ∧ Cursor data len s 0 ∧ s.sn.toNat = 1
  | .cf k => s.state = .cfSending ∧ Cursor data len s k ∧ 0 < k ∧ s.sn.toNat = k % 16
  | .cfWait k => s.state = .cfFcWait ∧ Cursor data len s k ∧ 0 < k ∧ k < numCfs len ∧
      s.sn.toNat = (k + 1) % 16

/-- The state of the source in a phase. -/
def Phase.state : Phase → CantpState
  | .idle => .idle
  | .sf => .sfSending
  | .ff => .ffSending
  | .ffWait => .ffFcWait
  | .cf _ => .cfSending
  | .cfWait _ => .cfFcWait

theorem InPhase.state_eq {data : List UInt8} {len : Nat} {s : SndrState} {ph : Phase}
    (h : InPhase data len s ph) : s.state = ph.state := by
  cases ph with
  | idle | sf => exact h
  | ff | ffWait | cf | cfWait => exact h.1

theorem InPhase.ffWait {data : List UInt8} {len : Nat} {s : SndrState} {ph : Phase}
    (h : InPhase data len s ph) (hst : s.state = .ffFcWait) :
    ph = .ffWait ∧ InPhase data len s .ffWait := by
  cases ph with
  | ffWait => exact ⟨rfl, h⟩
  | idle | sf | ff | cf | cfWait =>
      exact absurd (hst.symm.trans h.state_eq) (by simp [Phase.state])

/-- `CF_SENT` is no state between two events. -/
theorem InPhase.ne_cfSent {data : List UInt8} {len : Nat} {s : SndrState} {ph : Phase}
    (h : InPhase data len s ph) : s.state ≠ .cfSent := by
  rw [h.state_eq]
  cases ph <;> simp [Phase.state]

section Cursor

variable {data : List UInt8} {len : Nat} {s : SndrState} {k : Nat}

theorem Cursor.remaining_pos (h : Cursor data len s k) (hk : k < numCfs len) :
    0 < s.remaining := by
  have hstart := (lt_numCfs_iff len k).mp hk
  have hl := h.len_eq
  have hi := h.index_eq
  rw [SndrState.remaining]
  omega

theorem Cursor.remaining_eq_zero (h : Cursor data len s (numCfs len)) :
    s.remaining = 0 := by
  have hstart := le_cfStart_numCfs len
  have hl := h.len_eq
  have hi := h.index_eq
  rw [SndrState.remaining]
  omega

theorem cfFrame_congr {m n : Nat} (h : m % 16 = n % 16) (bytes : List UInt8) :
    cfFrame m bytes = cfFrame n bytes := by
  rw [cfFrame, cfFrame, h]

theorem Cursor.nextCf_eq (h : Cursor data len s k) (hk : k < numCfs len)
    (hsn : s.sn.toNat = (k + 1) % 16) : s.nextCf = cfAt data len k := by
  have hstart := (lt_numCfs_iff len k).mp hk
  have hi : s.index.toNat = cfStart k := by
    rw [h.index_eq]
    exact Nat.min_eq_right hstart.le
  rw [SndrState.nextCf, cfAt, h.data_eq, h.len_eq, hi]
  exact cfFrame_congr (by omega) _

theorem Cursor.afterCf (h : Cursor data len s k) (hk : k < numCfs len)
    (hsn : s.sn.toNat = (k + 1) % 16) : InPhase data len s.afterCf (.cf (k + 1)) := by
  have hstart := (lt_numCfs_iff len k).mp hk
  refine ⟨rfl, ⟨h.data_eq, h.len_eq, h.long, hk, ?_⟩, Nat.succ_pos k, hsn⟩
  rw [index_afterCf (h.remaining_pos hk), h.len_eq, h.index_eq, cfStart_succ]
  omega

theorem Cursor.of_eq {t : SndrState} (h : Cursor data len s k) (hdata : t.data = s.data)
    (hlen : t.len = s.len) (hindex : t.index = s.index) : Cursor data len t k :=
  ⟨hdata.trans h.data_eq, by rw [hlen, h.len_eq], h.long, h.le, by rw [hindex, h.index_eq]⟩

theorem InPhase.of_eq {t : SndrState} {ph : Phase} (h : InPhase data len s ph)
    (hst : t.state = s.state) (hdata : t.data = s.data) (hlen : t.len = s.len)
    (hindex : t.index = s.index) (hsn : t.sn = s.sn) : InPhase data len t ph := by
  cases ph with
  | idle | sf => exact hst.trans h
  | ff => exact ⟨hst.trans h.1, hdata.trans h.2.1, by rw [hlen, h.2.2.1], h.2.2.2⟩
  | ffWait => exact ⟨hst.trans h.1, h.2.1.of_eq hdata hlen hindex, by rw [hsn, h.2.2]⟩
  | cf k => exact ⟨hst.trans h.1, h.2.1.of_eq hdata hlen hindex, h.2.2.1, by rw [hsn, h.2.2.2]⟩
  | cfWait k =>
      exact ⟨hst.trans h.1, h.2.1.of_eq hdata hlen hindex, h.2.2.1, h.2.2.2.1,
        by rw [hsn, h.2.2.2.2]⟩

theorem InPhase.opened (h : InPhase data len s .ff) (t : Option Timer) :
    InPhase data len
      { s with
        state := .ffFcWait
        sn := 1
        index := UInt16.ofNat ffNumDataBytes
        timer := t } .ffWait := by
  obtain ⟨-, hdata, hlen, hlong⟩ := h
  refine ⟨rfl, ⟨hdata, hlen, hlong, Nat.zero_le _, ?_⟩, rfl⟩
  have h8 : 7 < len := hlong
  simp only [cfStart, ffNumDataBytes, UInt16.toNat_ofNat']
  omega

theorem InPhase.blockEnded (h : InPhase data len s (.cf k)) (hk : k < numCfs len)
    (t : Option Timer) :
    InPhase data len
      { s with state := .cfFcWait, sn := s.nextSn, blIndex := 0, timer := t } (.cfWait k) := by
  obtain ⟨-, hcur, hpos, hsn⟩ := h
  exact ⟨rfl, hcur.of_eq rfl rfl rfl, hpos, hk, toNat_nextSn hsn⟩

end Cursor

/-! ### What a call does in a phase -/

/-- What a confirmation does, by the phase it finds. -/
inductive Confirmed (len : Nat) (c : CantpRxtxStatus) : Phase → World → Prop
  | ignored {ph : Phase} (h : ¬ ph.state.Sending) : Confirmed len c ph ⟨c, []⟩
  | single : Confirmed len c .sf
      ⟨{ c with sndr.state := .idle, sndr.timer := none },
        [.sndrStateSemGive, .sndrResultCb .nOk]⟩
  | opening : Confirmed len c .ff
      ⟨{ c with
          sndr.state := .ffFcWait
          sndr.sn := 1
          sndr.index := UInt16.ofNat ffNumDataBytes
          sndr.timer := some ⟨.nBs, 1000 * nBsTimerMs⟩ }, [.sndrStateSemGive]⟩
  | last {k : Nat} (hk : k = numCfs len) : Confirmed len c (.cf k)
      ⟨{ c with sndr.state := .idle, sndr.timer := none },
        [.sndrStateSemGive, .sndrTxDoneCb]⟩
  | blockEnd {k : Nat} (hk : k < numCfs len) (hb : c.sndr.BlockEnds) :
      Confirmed len c (.cf k)
        ⟨{ c with
            sndr.state := .cfFcWait
            sndr.sn := c.sndr.nextSn
            sndr.blIndex := 0
            sndr.timer := some ⟨.nBs, 1000 * nBsTimerMs⟩ }, [.sndrStateSemGive]⟩
  | next {k : Nat} (hk : k < numCfs len) (hb : ¬ c.sndr.BlockEnds) :
      Confirmed len c (.cf k)
        (sentCf ⟨{ c with
            sndr.state := .cfSent
            sndr.sn := c.sndr.nextSn
            sndr.blIndex := c.sndr.counted
            sndr.timer := some ⟨.nCs, 1000 * nCsTimerMs⟩ },
          .sndrStateSemGive ::
            (if c.sndr.stTimUs > 0 then [.usleep c.sndr.stTimUs] else [])⟩)

/-- What a Flow Control frame does. Outside of `FF_FC_WAIT` it is dropped; there its
parameters are recorded, and an accepted FC.CTS makes the sender go on. -/
inductive Answered (c : CantpRxtxStatus) (r : RxFrame) : World → Prop
  | dropped (hst : c.sndr.state ≠ .ffFcWait) :
      Answered c r ⟨c, [.sndrStateSemTake (1000 * nBsTimerMs)]⟩
  | recorded (us : UInt32) (name : TimerName) (hst : c.sndr.state = .ffFcWait) :
      Answered c r ⟨{ c with sndr := c.sndr.withFc r.id r.frame us name },
        [.printCantpFrame r.frame]⟩
  | resumed (us : UInt32) (hst : c.sndr.state = .ffFcWait)
      (hcts : ctsDelay r.frame = some us) :
      Answered c r (sentCf ⟨{ c with sndr := c.sndr.withFc r.id r.frame us .nCs },
        [.printCantpFrame r.frame]⟩)

section Calls

variable {data : List UInt8} {len : Nat} {c : CantpRxtxStatus} {ph : Phase}

theorem InPhase.confirmed (h : InPhase data len c.sndr ph) :
    Confirmed len c ph (cantpCantxConfirmCb ⟨c, []⟩) := by
  have hignored : ¬ ph.state.Sending →
      Confirmed len c ph (cantpCantxConfirmCb ⟨c, []⟩) := by
    intro hnot
    rw [confirm_other (by rw [h.state_eq]; exact hnot) h.ne_cfSent]
    exact .ignored hnot
  cases ph with
  | idle | ffWait | cfWait => exact hignored (by simp [Phase.state, CantpState.Sending])
  | sf =>
      rw [confirm_sfSending (w := ⟨c, []⟩) h]
      exact .single
  | ff =>
      rw [confirm_ffSending h.1]
      exact .opening
  | cf k =>
      obtain ⟨hst, hcur, -, -⟩ := h
      by_cases hk : k = numCfs len
      · subst hk
        rw [confirm_last (w := ⟨c, []⟩) (Or.inl hst) hcur.remaining_eq_zero]
        exact .last rfl
      · have hlt : k < numCfs len := lt_of_le_of_ne hcur.le hk
        have hrem := hcur.remaining_pos hlt
        by_cases hb : c.sndr.BlockEnds
        · rw [confirm_blockEnd (w := ⟨c, []⟩) (Or.inl hst) hrem hb]
          exact .blockEnd hlt hb
        · rw [confirm_next (w := ⟨c, []⟩) (Or.inl hst) hrem hb]
          exact .next hlt hb

theorem InPhase.remaining_pos (h : InPhase data len c.sndr ph)
    (hst : c.sndr.state = .ffFcWait) : 0 < c.sndr.remaining := by
  obtain ⟨-, -, hcur, -⟩ := h.ffWait hst
  exact hcur.remaining_pos (numCfs_pos hcur.long)

theorem InPhase.answered {r : RxFrame} (h : InPhase data len c.sndr ph)
    (hr : r.pci = some .flowControll) : Answered c r (handle (.canrxCb r) ⟨c, []⟩) := by
  rw [canrx_flowControll hr]
  by_cases hst : c.sndr.state = .ffFcWait
  · rw [canrxFlowControll_take hst]
    cases hcts : ctsDelay r.frame with
    | none =>
        obtain ⟨us, name, heq⟩ := flowControl_other c.sndr r.id hcts
        rw [heq _ rfl]
        exact .recorded us name hst
    | some us =>
        rw [flowControl_cts hcts (by exact h.remaining_pos hst)]
        exact .resumed us hst hcts
  · rw [canrxFlowControll_drop hst]
    exact .dropped hst

end Calls

theorem sndrSignals_cfActs (c : CantpRxtxStatus) :
    sndrSignals c.cfActs = [.inl c.sndr.nextCf] := filterMap_cfActs (fun _ => rfl) c

theorem sndrSignals_pause (us : UInt32) :
    sndrSignals (.sndrStateSemGive :: if us > 0 then [.usleep us] else []) = [] := by
  split <;> rfl

/-! ### One call is one step of the emission -/

/-- The world `w`, reached from the phase `ph` with an empty log, is in a phase to
which the abstract emission can move with the signals of the log. -/
def Moves (data : List UInt8) (len : Nat) (ph : Phase) (w : World) : Prop :=
  ∃ ph', InPhase data len w.ctx.sndr ph' ∧
    Emission.Step (canonicalCfs data len) SndrReport.txDone ph.progress
      (sndrSignals w.log) ph'.progress

section Moves

variable {data : List UInt8} {len : Nat} {c : CantpRxtxStatus} {ph : Phase}

theorem Moves.stay {w : World} (h : InPhase data len w.ctx.sndr ph)
    (hlog : sndrSignals w.log = []) : Moves data len ph w :=
  ⟨ph, h, by rw [hlog]; exact .stay _⟩

theorem Moves.abort {w : World} {k : Nat} {r : CantpResult} (hph : ph.progress = .sending k)
    (h : w.ctx.sndr.state = .idle) (hlog : sndrSignals w.log = [.inr (.result r)]) :
    Moves data len ph w :=
  ⟨.idle, h, by rw [hlog, hph]; exact .abort k (by simp)⟩

/-- Sending frame `k` moves the emission from `k` items to `k + 1`. -/
theorem Moves.sentCf {w : World} {k : Nat} (hph : ph.progress = .sending k)
    (hcur : Cursor data len w.ctx.sndr k) (hk : k < numCfs len)
    (hsn : w.ctx.sndr.sn.toNat = (k + 1) % 16) (hlog : sndrSignals w.log = []) :
    Moves data len ph (sentCf w) := by
  refine ⟨.cf (k + 1), hcur.afterCf hk hsn, ?_⟩
  have hlen : k < (canonicalCfs data len).length := by rwa [length_canonicalCfs]
  have hget : (canonicalCfs data len)[k] = cfAt data len k := by
    simp [canonicalCfs]
  have hitem : Emission.Step (canonicalCfs data len) SndrReport.txDone (.sending k)
      [.inl (canonicalCfs data len)[k]] (.sending (k + 1)) := .item hlen
  rw [hget] at hitem
  simp only [CanTp.sentCf, sndrSignals_append, hlog, sndrSignals_cfActs, List.nil_append,
    hcur.nextCf_eq hk hsn, hph]
  exact hitem

theorem confirm_moves (h : InPhase data len c.sndr ph) :
    Moves data len ph (cantpCantxConfirmCb ⟨c, []⟩) := by
  have hconf := h.confirmed
  generalize cantpCantxConfirmCb ⟨c, []⟩ = w at hconf ⊢
  cases hconf with
  | ignored => exact .stay h rfl
  | single => exact .abort rfl rfl rfl
  | opening => exact ⟨.ffWait, h.opened _, .stay _⟩
  | last hk =>
      subst hk
      refine ⟨.idle, rfl, ?_⟩
      have hfin : Emission.Step (canonicalCfs data len) SndrReport.txDone
          (.sending (canonicalCfs data len).length) [.inr .txDone] .ended := .finish
      rw [length_canonicalCfs] at hfin
      exact hfin
  | @blockEnd k hlt hb => exact ⟨.cfWait k, h.blockEnded hlt _, .stay _⟩
  | @next k hlt hb =>
      obtain ⟨hst, hcur, hpos, hsn⟩ := h
      exact .sentCf rfl (hcur.of_eq rfl rfl rfl) hlt (toNat_nextSn hsn) (sndrSignals_pause _)

theorem timerCb_moves (h : InPhase data len c.sndr ph) :
    Moves data len ph (cantpSndrTimerCb ⟨c, []⟩) := by
  cases ph with
  | idle =>
      rw [timerCb_other (by simp [CantpState.Sending, show c.sndr.state = _ from h])
        (by simp [show c.sndr.state = _ from h])]
      exact .stay h rfl
  | sf =>
      rw [timerCb_sending (w := ⟨c, []⟩) (Or.inl h)]
      exact .abort rfl rfl rfl
  | ff =>
      rw [timerCb_sending (Or.inr (Or.inl h.1))]
      exact .abort rfl rfl rfl
  | ffWait =>
      rw [timerCb_ffFcWait h.1]
      exact .abort rfl rfl rfl
  | cf k =>
      rw [timerCb_sending (Or.inr (Or.inr h.1))]
      exact .abort (k := k) rfl rfl rfl
  | cfWait k =>
      rw [timerCb_other (by simp [CantpState.Sending, h.1]) (by simp [h.1])]
      exact .stay h rfl

theorem expiry_moves (h : InPhase data len c.sndr ph) :
    Moves data len ph (sndrTimerExpiry ⟨c, []⟩) := by
  rw [sndrTimerExpiry]
  split
  · exact timerCb_moves (c := { c with sndr.timer := none }) (h.of_eq rfl rfl rfl rfl rfl)
  · exact .stay h rfl

theorem canrx_flowControll_moves {r : RxFrame} (hr : r.pci = some .flowControll)
    (h : InPhase data len c.sndr ph) : Moves data len ph (handle (.canrxCb r) ⟨c, []⟩) := by
  have hans := h.answered hr
  generalize handle (.canrxCb r) ⟨c, []⟩ = w at hans ⊢
  cases hans with
  | dropped => exact .stay h rfl
  | recorded us name hst => exact .stay (h.of_eq rfl rfl rfl rfl rfl) rfl
  | resumed us hst hcts =>
      obtain ⟨rfl, -, hcur, hsn⟩ := h.ffWait hst
      exact .sentCf rfl (hcur.of_eq rfl rfl rfl) (numCfs_pos hcur.long) hsn rfl

/-- Every call of the sender role but `cantp_send` is one step of the emission. -/
theorem sndr_moves {e : Event} (he : e.isSndr = true) (hs : e.isSend = false)
    (h : InPhase data len c.sndr ph) : Moves data len ph (handle e ⟨c, []⟩) := by
  cases e with
  | send => cases hs
  | cantxConfirmCb => exact confirm_moves h
  | sndrTimerCb => exact timerCb_moves h
  | sndrTimerExpiry => exact expiry_moves h
  | rcvrTimerCb => cases he
  | canrxCb r => exact canrx_flowControll_moves (by simpa [Event.isSndr] using he) h

end Moves

/-! ### Whole runs -/

/-- The calls of the sender role that follow one `cantp_send`. -/
def SndrFollowUp (e : Event) : Prop := e.isSndr = true ∧ e.isSend = false

instance (e : Event) : Decidable (SndrFollowUp e) :=
  inferInstanceAs (Decidable (_ ∧ _))

/-- The signals of a run that starts in a phase without frames or reports. -/
theorem run_shape (data : List UInt8) (len : Nat) (ph : Phase) {c : CantpRxtxStatus}
    {es : List Event} (hph : ph.progress = .sending 0) (h : InPhase data len c.sndr ph)
    (hes : ∀ e ∈ es, SndrFollowUp e) :
    ∃ p, Emission.Shape (canonicalCfs data len) SndrReport.txDone p
      (sndrSignals (canTp.outputs c es)) := by
  have hstart : ∃ ph, InPhase data len c.sndr ph ∧
      Emission.Shape (canonicalCfs data len) SndrReport.txDone ph.progress
        (sndrSignals []) :=
    ⟨ph, h, by rw [hph]; exact Emission.shape_start _ _⟩
  have hrun := Mealy.trace_induction (M := canTp)
    (P := fun out c => ∃ ph, InPhase data len c.sndr ph ∧
      Emission.Shape (canonicalCfs data len) SndrReport.txDone ph.progress (sndrSignals out))
    (fun out c e ⟨ph, hin, hshape⟩ he => by
      obtain ⟨ph', hin', hstep⟩ := sndr_moves he.1 he.2 hin
      refine ⟨ph', hin', ?_⟩
      rw [sndrSignals_append]
      exact hshape.step hstep)
    hstart (Mealy.admits_of_forall hes c)
  obtain ⟨ph', _, hshape⟩ := hrun
  exact ⟨ph'.progress, by simpa using hshape⟩

theorem filter_consecFrame_of_prefix {data : List UInt8} {len : Nat} {fs : List CantpFrame}
    (h : fs <+: canonicalCfs data len) :
    fs.filter (fun f => f.nPciT = CantpNPciType.consecFrame.toUInt8) = fs := by
  apply List.filter_eq_self.mpr
  intro f hf
  obtain ⟨i, _, rfl⟩ := List.mem_map.mp (h.subset hf)
  simp [cfAt, CantpNPciType.toUInt8]

/-- The signals `out` of a run are the frame `first`, which is no Consecutive Frame,
and those of a transfer of the first `len` bytes of `data`. -/
structure Emits (data : List UInt8) (len : Nat) (first : CantpFrame) (out : List Act) :
    Prop where
  first_ne : first.nPciT ≠ CantpNPciType.consecFrame.toUInt8
  signals : ∃ p rest, sndrSignals out = .inl first :: rest ∧
    Emission.Shape (canonicalCfs data len) SndrReport.txDone p rest

namespace Emits

variable {data : List UInt8} {len : Nat} {first : CantpFrame} {out pre post : List Act}
  {a : Act} {r : SndrReport}

theorem filter_cons (h : Emits data len first out) {fs : List CantpFrame}
    (hfs : fs <+: canonicalCfs data len) :
    (first :: fs).filter (fun f => f.nPciT = CantpNPciType.consecFrame.toUInt8) = fs := by
  rw [List.filter_cons_of_neg (by simpa using h.first_ne), filter_consecFrame_of_prefix hfs]

theorem cfsSent_prefix (h : Emits data len first out) :
    cfsSent out <+: canonicalCfs data len := by
  obtain ⟨p, rest, hout, hshape⟩ := h.signals
  have hframes : framesSent out = first :: rest.filterMap Sum.getLeft? := by
    rw [framesSent, hout]
    rfl
  rw [cfsSent, hframes, h.filter_cons hshape.items]
  exact hshape.items

theorem length_reportsMade (h : Emits data len first out) :
    (reportsMade out).length ≤ 1 := by
  obtain ⟨p, rest, hout, hshape⟩ := h.signals
  rw [reportsMade, hout]
  exact hshape.length_reports

/-- Nothing follows the report of a run, and the completion follows all its frames. -/
theorem report_split (h : Emits data len first out) (ha : a.sndrSignal = some (.inr r))
    (hsplit : out = pre ++ a :: post) :
    sndrSignals post = [] ∧ (r = .txDone → cfsSent pre = canonicalCfs data len) := by
  obtain ⟨p, rest, hout, hshape⟩ := h.signals
  have hsig : sndrSignals pre ++ .inr r :: sndrSignals post = .inl first :: rest := by
    rw [← hout, hsplit, sndrSignals_append]
    congr 1
    exact (List.filterMap_cons_some ha).symm
  cases hpre : sndrSignals pre with
  | nil => rw [hpre] at hsig; cases hsig
  | cons x pre' =>
      rw [hpre, List.cons_append, List.cons.injEq] at hsig
      obtain ⟨rfl, hrest⟩ := hsig
      obtain ⟨hpost, hdone⟩ := hshape.report_last hrest.symm
      refine ⟨hpost, ?_⟩
      intro hr
      have hframes : framesSent pre = first :: canonicalCfs data len := by
        rw [framesSent, hpre, hdone hr]
        exact congrArg _ (Emission.filterMap_getLeft?_inl _)
      rw [cfsSent, hframes, h.filter_cons (List.prefix_refl _)]

theorem cfsSent_of_txDone (h : Emits data len first out)
    (hsplit : out = pre ++ .sndrTxDoneCb :: post) : cfsSent pre = canonicalCfs data len :=
  (h.report_split rfl hsplit).2 rfl

theorem framesSent_of_report (h : Emits data len first out) (ha : a.isReport = true)
    (hsplit : out = pre ++ a :: post) : framesSent post = [] := by
  obtain ⟨r, hr⟩ := Act.sndrSignal_of_isReport ha
  rw [framesSent, (h.report_split hr hsplit).1]
  rfl

end Emits

section Requests

variable {c : CantpRxtxStatus} {es : List Event} {id : UInt32} {idt : UInt8}
  {data : List UInt8} {len : UInt16}

/-- The run of a request for a Single Frame. Such a frame is in phase `sf` of every
transfer `data'`, as that transfer has no frame to emit in this phase. -/
theorem emits_single (hlen : len.toNat ≤ sfNumDataBytes) (hes : ∀ e ∈ es, SndrFollowUp e)
    (data' : List UInt8) (len' : Nat) :
    Emits data' len' (sfFrame data len.toNat)
      (canTp.outputs c (.send id idt data len :: es)) := by
  have hsf : (canTp.step c (.send id idt data len)).1.sndr.state = .sfSending := by
    simp only [canTp_step, handle, send_single hlen]
  obtain ⟨p, hshape⟩ := run_shape data' len' .sf rfl hsf hes
  constructor
  · rw [nPciT_sfFrame data _ hlen]
    decide
  · refine ⟨p, _, ?_, hshape⟩
    simp only [Mealy.outputs_cons, sndrSignals_append, canTp_step, handle, send_single hlen]
    rfl

/-- The run of a request for a segmented message. -/
theorem emits_segmented (hlong : sfNumDataBytes < len.toNat)
    (hes : ∀ e ∈ es, SndrFollowUp e) :
    Emits data len.toNat (ffFrame data len.toNat)
      (canTp.outputs c (.send id idt data len :: es)) := by
  have hff : InPhase data len.toNat (canTp.step c (.send id idt data len)).1.sndr .ff := by
    simp only [canTp_step, handle, send_segmented hlong]
    exact ⟨rfl, rfl, rfl, hlong⟩
  obtain ⟨p, hshape⟩ := run_shape data len.toNat .ff rfl hff hes
  constructor
  · rw [nPciT_ffFrame]
    decide
  · refine ⟨p, _, ?_, hshape⟩
    simp only [Mealy.outputs_cons, sndrSignals_append, canTp_step, handle,
      send_segmented hlong]
    rfl

end Requests

/-- The frames and reports of a sender since its last `cantp_send`, for any calls
before it and any calls of the sender role after it. -/
theorem sndr_emits_segmentation (c : CantpRxtxStatus) (before after : List Event)
    (id : UInt32) (idt : UInt8) (data : List UInt8) (len : UInt16)
    (hafter : ∀ e ∈ after, SndrFollowUp e) :
    let out := canTp.outputs (canTp.run c before) (.send id idt data len :: after)
    cfsSent out <+: (if sfNumDataBytes < len.toNat then canonicalCfs data len.toNat else []) ∧
      (reportsMade out).length ≤ 1 ∧
      (∀ pre post, out = pre ++ .sndrTxDoneCb :: post →
        sfNumDataBytes < len.toNat ∧ cfsSent pre = canonicalCfs data len.toNat) ∧
      (∀ pre a post, out = pre ++ a :: post → a.isReport = true → framesSent post = []) := by
  intro out
  by_cases hlen : len.toNat ≤ sfNumDataBytes
  · have hempty : Emits [] 0 (sfFrame data len.toNat) out := emits_single hlen hafter [] 0
    refine ⟨?_, hempty.length_reportsMade, ?_,
      fun pre a post hsplit ha => hempty.framesSent_of_report ha hsplit⟩
    · rw [if_neg (not_lt.mpr hlen)]
      exact hempty.cfsSent_prefix
    · -- Before a completion the frames of every transfer would have been sent.
      intro pre post hsplit
      have height : Emits [] 8 (sfFrame data len.toNat) out := emits_single hlen hafter [] 8
      have hne := congrArg List.length
        ((hempty.cfsSent_of_txDone hsplit).symm.trans (height.cfsSent_of_txDone hsplit))
      rw [length_canonicalCfs, length_canonicalCfs] at hne
      exact absurd hne (by decide)
  · have hlong : sfNumDataBytes < len.toNat := not_le.mp hlen
    have hemits : Emits data len.toNat (ffFrame data len.toNat) out :=
      emits_segmented hlong hafter
    refine ⟨?_, hemits.length_reportsMade,
      fun pre post hsplit => ⟨hlong, hemits.cfsSent_of_txDone hsplit⟩,
      fun pre a post hsplit ha => hemits.framesSent_of_report ha hsplit⟩
    rw [if_pos hlong]
    exact hemits.cfsSent_prefix

/-- Nine bytes, answered by one FC.CTS: the confirmations of the First Frame and of
the Consecutive Frame, and a late one. -/
theorem sndr_emits_segmentation_nine :
    let fc := RxFrame.ofFrame .accepting 5 0 (.ofList [0x30, 0, 0])
    let data := [1, 2, 3, 4, 5, 6, 7, 8, 9]
    let out := canTp.outputs (.fresh ⟨0, 0, 0, 0, 0, 0, 0, 0⟩)
      (.send 1 0 data 9 :: [.cantxConfirmCb, .canrxCb fc, .cantxConfirmCb, .cantxConfirmCb])
    cfsSent out <+: canonicalCfs data 9 ∧ (reportsMade out).length ≤ 1 := by
  intro fc data out
  obtain ⟨hcfs, hreports, _⟩ := sndr_emits_segmentation (.fresh ⟨0, 0, 0, 0, 0, 0, 0, 0⟩)
    [] [.cantxConfirmCb, .canrxCb fc, .cantxConfirmCb, .cantxConfirmCb] 1 0 data 9
    (by decide)
  exact ⟨hcfs, hreports⟩

end CanTp
