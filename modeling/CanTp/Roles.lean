import CanTp.Receiver.Foreign
import CanTp.Sender.Blocks

/-!
# The two roles of one context

A call of the sender role acts on the sender state and on the CAN id of the
parameters, whatever the receiver state is (`sndr_effect`); a call of the receiver
role acts on the receiver state, whatever the sender state is (`rcvr_effect`), with
three exceptions that the code makes: the receiver counts its blocks in the sender
state, takes the CAN id from the parameters that `cantp_send` writes, and reports a
failed transmission to the session layer of the sender.
-/

namespace CanTp

open Library

/-- The frames and callbacks of the receiver role. -/
def Act.ofRcvr : Act → Bool
  | .canTx .. | .receivedCb .. | .rcvrRxFfCb .. => true
  | _ => false

/-- The frames and callbacks of the sender role. -/
def Act.ofSndr : Act → Bool
  | .canTxNb .. | .sndrResultCb _ | .sndrTxDoneCb => true
  | _ => false

/-- Each role ends in the state, and has made the calls, that it has without the
events of the other role. -/
def RolesIndependent (c : CantpRxtxStatus) (es : List Event) : Prop :=
  let rcvrEvents := es.filter fun e => !e.isSndr
  let sndrEvents := es.filter Event.isSndr
  ((canTp.run c es).rcvr = (canTp.run c rcvrEvents).rcvr ∧
    (canTp.outputs c es).filter Act.ofRcvr =
      (canTp.outputs c rcvrEvents).filter Act.ofRcvr) ∧
  (canTp.run c es).sndr = (canTp.run c sndrEvents).sndr ∧
    (canTp.outputs c es).filter Act.ofSndr = (canTp.outputs c sndrEvents).filter Act.ofSndr

/-- The frame `r` is a Consecutive Frame whose data the receiver stores. -/
def TakesCf (c : CantpRxtxStatus) (r : RxFrame) : Prop :=
  r.pci = some .consecFrame ∧ c.rcvr.state = .fcSent ∧ c.rcvr.Takes r.id r.frame

/-- The frame `r` completes a segmented message. -/
def CompletedBy (c : CantpRxtxStatus) (r : RxFrame) : Prop :=
  TakesCf c r ∧ c.rcvr.remaining ≤ cfNumDataBytes

/-- The frame `r` is stored and more Consecutive Frames are to come. -/
def ContinuedBy (c : CantpRxtxStatus) (r : RxFrame) : Prop :=
  TakesCf c r ∧ ¬ c.rcvr.remaining ≤ cfNumDataBytes

/-- The receiver answers the frame `r` with Flow Control, other than at the end of a
block: a First Frame that is accepted, or a Consecutive Frame with FC.WAIT. -/
def AnswersFc (c : CantpRxtxStatus) (r : RxFrame) : Prop :=
  (c.rcvr.state = .idle ∧ ∃ buf, r.FfAccepted c.rcvr.data buf) ∨
    (ContinuedBy c r ∧ 0 < c.params.wftNum)

/-- The frame `r` does not make the receiver use what belongs to the sender: it is
not counted in the block counter, the CAN id is still `id` when it is used, and the
link layer accepts the FC frames sent for it. -/
structure KeepsRole (id : UInt32) (idt : UInt8) (c : CantpRxtxStatus) (r : RxFrame) :
    Prop where
  block : ContinuedBy c r → c.params.blockSize = 0
  params : AnswersFc c r ∨ CompletedBy c r → c.params.id = id ∧ c.params.idt = idt
  canTx : ¬ FcFails c r

/-- Every frame received by the receiver role keeps to it. -/
def RolesKept (id : UInt32) (idt : UInt8) (c : CantpRxtxStatus) : Event → Prop
  | .canrxCb r => r.pci ≠ some .flowControll → KeepsRole id idt c r
  | _ => True

/-! ### What an event of the sender role acts on -/

/-- Parameters that differ at most in the CAN id. -/
def SameButId (p q : CantpParams) : Prop := q = { p with id := q.id, idt := q.idt }

theorem SameButId.refl (p : CantpParams) : SameButId p p := rfl

theorem SameButId.symm {p q : CantpParams} (h : SameButId p q) : SameButId q p := by
  simp only [SameButId] at *
  rw [h]

theorem SameButId.trans {p q r : CantpParams} (h : SameButId p q) (h' : SameButId q r) :
    SameButId p r := by
  simp only [SameButId] at *
  rw [h', h]

theorem ofRcvr_cfActs {c : CantpRxtxStatus} {a : Act} (ha : a ∈ c.cfActs) :
    a.ofRcvr = false := by
  rcases mem_cfActs ha with ⟨i, rfl⟩ | rfl | rfl | rfl <;> rfl

/-- An event of the sender role leaves the receiver state and all parameters but the
CAN id as they are, does the same for every receiver state, and makes no call of the
receiver role. -/
structure SndrEffect (c : CantpRxtxStatus) (e : Event) : Prop where
  step_eq : ∀ r, handle e ⟨{ c with rcvr := r }, []⟩ =
    ⟨{ (handle e ⟨c, []⟩).ctx with rcvr := r }, (handle e ⟨c, []⟩).log⟩
  params : SameButId c.params (handle e ⟨c, []⟩).ctx.params
  acts : ∀ a ∈ (handle e ⟨c, []⟩).log, a.ofRcvr = false

section Sender

variable {c : CantpRxtxStatus} {e : Event} {r : RxFrame}

theorem SndrEffect.of_eq {w : World} (h : handle e ⟨c, []⟩ = w)
    (heq : ∀ r, handle e ⟨{ c with rcvr := r }, []⟩ = ⟨{ w.ctx with rcvr := r }, w.log⟩)
    (hp : SameButId c.params w.ctx.params) (ha : ∀ a ∈ w.log, a.ofRcvr = false) :
    SndrEffect c e := by
  subst h
  exact ⟨heq, hp, ha⟩

theorem confirm_effect (c : CantpRxtxStatus) : SndrEffect c .cantxConfirmCb := by
  by_cases hout : c.sndr.state.CfOut
  · rcases lt_trichotomy c.sndr.remaining 0 with hneg | hzero | hpos
    · refine .of_eq (confirm_negative (w := ⟨c, []⟩) hout hneg) (fun r => ?_) (.refl _)
        (by simp)
      rw [handle, confirm_negative (by exact hout) (by exact hneg)]
      rfl
    · refine .of_eq (confirm_last (w := ⟨c, []⟩) hout hzero) (fun r => ?_) (.refl _)
        (by simp [Act.ofRcvr])
      rw [handle, confirm_last (by exact hout) (by exact hzero)]
    · by_cases hb : c.sndr.BlockEnds
      · refine .of_eq (confirm_blockEnd (w := ⟨c, []⟩) hout hpos hb) (fun r => ?_) (.refl _)
          (by simp [Act.ofRcvr])
        rw [handle, confirm_blockEnd (by exact hout) (by exact hpos) (by exact hb)]
      · refine .of_eq (confirm_next (w := ⟨c, []⟩) hout hpos hb) (fun r => ?_) (.refl _)
          (fun a ha => ?_)
        · rw [handle, confirm_next (by exact hout) (by exact hpos) (by exact hb)]
          rfl
        · rcases List.mem_append.mp ha with ha | ha
          · by_cases hus : c.sndr.stTimUs > 0
            · simp only [hus, if_true, List.nil_append, List.mem_cons, List.not_mem_nil,
                or_false] at ha
              rcases ha with rfl | rfl <;> rfl
            · simp only [hus, if_false, List.nil_append, List.mem_cons, List.not_mem_nil,
                or_false] at ha
              rw [ha]
              rfl
          · exact ofRcvr_cfActs ha
  · by_cases hsf : c.sndr.state = .sfSending
    · refine .of_eq (confirm_sfSending (w := ⟨c, []⟩) hsf) (fun r => ?_) (.refl _)
        (by simp [Act.ofRcvr])
      rw [handle, confirm_sfSending (by exact hsf)]
    · by_cases hff : c.sndr.state = .ffSending
      · refine .of_eq (confirm_ffSending (w := ⟨c, []⟩) hff) (fun r => ?_) (.refl _)
          (by simp [Act.ofRcvr])
        rw [handle, confirm_ffSending (by exact hff)]
      · have hsend : ¬ c.sndr.state.Sending := fun h => by
          rcases h with h | h | h
          · exact hsf h
          · exact hff h
          · exact hout (Or.inl h)
        have hsent : c.sndr.state ≠ .cfSent := fun h => hout (Or.inr h)
        refine .of_eq (confirm_other (w := ⟨c, []⟩) hsend hsent) (fun r => ?_) (.refl _)
          (by simp)
        rw [handle, confirm_other (by exact hsend) (by exact hsent)]

theorem timerCb_effect (c : CantpRxtxStatus) : SndrEffect c .sndrTimerCb := by
  by_cases hsend : c.sndr.state.Sending
  · refine .of_eq (timerCb_sending (w := ⟨c, []⟩) hsend) (fun r => ?_) (.refl _)
      (by simp [Act.ofRcvr])
    rw [handle, timerCb_sending (by exact hsend)]
  · by_cases hwait : c.sndr.state = .ffFcWait
    · refine .of_eq (timerCb_ffFcWait (w := ⟨c, []⟩) hwait) (fun r => ?_) (.refl _)
        (by simp [Act.ofRcvr])
      rw [handle, timerCb_ffFcWait (by exact hwait)]
    · refine .of_eq (timerCb_other (w := ⟨c, []⟩) hsend hwait) (fun r => ?_) (.refl _)
        (by simp)
      rw [handle, timerCb_other (by exact hsend) (by exact hwait)]

theorem expiry_effect (c : CantpRxtxStatus) : SndrEffect c .sndrTimerExpiry := by
  by_cases ht : c.sndr.timer.isSome = true
  · have heq : ∀ r, handle .sndrTimerExpiry ⟨{ c with rcvr := r }, []⟩ =
        handle .sndrTimerCb ⟨{ c with sndr.timer := none, rcvr := r }, []⟩ := fun r =>
      if_pos (by exact ht)
    obtain ⟨hstep, hp, ha⟩ := timerCb_effect { c with sndr.timer := none }
    exact .of_eq (heq c.rcvr) (fun r => (heq r).trans (hstep r)) hp ha
  · have heq : ∀ r, handle .sndrTimerExpiry ⟨{ c with rcvr := r }, []⟩ =
        ⟨{ c with rcvr := r }, []⟩ := fun r => if_neg (by exact ht)
    exact .of_eq (heq c.rcvr) heq (.refl _) (by simp)

theorem send_effect (c : CantpRxtxStatus) (id : UInt32) (idt : UInt8) (data : List UInt8)
    (len : UInt16) : SndrEffect c (.send id idt data len) := by
  by_cases hlen : len.toNat ≤ sfNumDataBytes
  · refine .of_eq (send_single (w := ⟨c, []⟩) hlen) (fun r => ?_) (.refl _)
      (by simp [Act.ofRcvr])
    rw [handle, send_single hlen]
  · refine .of_eq (send_segmented (w := ⟨c, []⟩) (not_le.mp hlen)) (fun r => ?_) rfl
      (by simp [Act.ofRcvr])
    rw [handle, send_segmented (not_le.mp hlen)]

theorem flowControl_effect (c : CantpRxtxStatus) (hr : r.pci = some .flowControll) :
    SndrEffect c (.canrxCb r) := by
  by_cases hst : c.sndr.state = .ffFcWait
  · have heq : ∀ s, handle (.canrxCb r) ⟨{ c with rcvr := s }, []⟩ =
        sndrRxFlowControlFrame r.id r.frame
          ⟨{ c with rcvr := s }, [.printCantpFrame r.frame]⟩ := fun s => by
      rw [canrx_flowControll hr, canrxFlowControll_take hst]
      rfl
    cases hcts : ctsDelay r.frame with
    | none =>
        obtain ⟨us, name, hother⟩ := flowControl_other c.sndr r.id hcts
        refine .of_eq ((heq c.rcvr).trans (hother _ rfl)) (fun s => ?_) (.refl _)
          (by simp [Act.ofRcvr])
        rw [heq, hother _ rfl]
    | some us =>
        by_cases hrem : 0 < c.sndr.remaining
        · refine .of_eq ((heq c.rcvr).trans (flowControl_cts hcts (by exact hrem)))
            (fun s => ?_) (.refl _) (fun a ha => ?_)
          · rw [heq, flowControl_cts hcts (by exact hrem)]
            rfl
          · rcases List.mem_append.mp ha with ha | ha
            · rw [List.mem_singleton.mp ha]
              rfl
            · exact ofRcvr_cfActs ha
        · refine .of_eq ((heq c.rcvr).trans (flowControl_cts_none hcts
            (not_lt.mp (by exact hrem)))) (fun s => ?_) (.refl _) (by simp [Act.ofRcvr])
          rw [heq, flowControl_cts_none hcts (not_lt.mp (by exact hrem))]
  · refine .of_eq ((canrx_flowControll hr).trans (canrxFlowControll_drop (w := ⟨c, []⟩) hst))
      (fun s => ?_) (.refl _) (by simp [Act.ofRcvr])
    rw [canrx_flowControll hr, canrxFlowControll_drop hst]
    rfl

theorem sndr_effect (c : CantpRxtxStatus) (he : e.isSndr = true) : SndrEffect c e := by
  cases e with
  | send id idt data len => exact send_effect c id idt data len
  | cantxConfirmCb => exact confirm_effect c
  | sndrTimerCb => exact timerCb_effect c
  | sndrTimerExpiry => exact expiry_effect c
  | rcvrTimerCb => cases he
  | canrxCb r => exact flowControl_effect c (by simpa [Event.isSndr] using he)

end Sender

/-! ### What an event of the receiver role acts on -/

/-- The world `w` with another sender state. -/
def World.withSndr (s : SndrState) (w : World) : World := ⟨{ w.ctx with sndr := s }, w.log⟩

section Await

variable {env : Env} {w : World} (s : SndrState)

theorem rcvrWaitTurn_withSndr (f : CantpFrame) (w : World) :
    rcvrWaitTurn env f (w.withSndr s) = (rcvrWaitTurn env f w).withSndr s := by
  simp only [rcvrWaitTurn, World.on_eq, rcvrSendFc_eq]
  rfl

theorem rcvrWaitLoop_withSndr (f : CantpFrame) (w : World) :
    rcvrWaitLoop env f (w.withSndr s) = (rcvrWaitLoop env f w).withSndr s := by
  induction f, w using rcvrWaitLoop.induct env with
  | case1 f w w' hgt =>
      rw [rcvrWaitLoop.eq_1 env f w, rcvrWaitLoop.eq_1, rcvrWaitTurn_withSndr, if_pos hgt]
      exact if_pos hgt
  | case2 f w w' hgt w'' hlt ih =>
      rw [rcvrWaitLoop.eq_1 env f w, rcvrWaitLoop.eq_1 env f (w.withSndr s),
        rcvrWaitTurn_withSndr, if_neg hgt, if_pos hlt]
      exact ((if_neg hgt).trans (if_pos hlt)).trans ih
  | case3 f w w' hgt w'' hlt =>
      rw [rcvrWaitLoop.eq_1 env f w, rcvrWaitLoop.eq_1, rcvrWaitTurn_withSndr, if_neg hgt,
        if_neg hlt]
      exact (if_neg hgt).trans (if_neg hlt)

/-- Without blocks the receiver does not touch the sender state while it waits. -/
theorem rcvrAwaitNext_withSndr (hst : w.ctx.rcvr.state = .fcSent)
    (hbs : w.ctx.params.blockSize = 0) :
    rcvrAwaitNext env (w.withSndr s) = (rcvrAwaitNext env w).withSndr s := by
  have hcount : ∀ v : World, v.ctx.rcvr.state = .fcSent → v.ctx.params.blockSize = 0 →
      rcvrAwaitNext env v =
        (rcvrSendWaits env CantpFrame.zero v).2.rcvrTimerStart .nCr (1000 * nCrTimerMs) := by
    intro v hv hvbs
    have hparams := (Awaits.sendWaits CantpFrame.zero hv : Awaits env v _).params
    have hnot : ¬ (rcvrSendWaits env CantpFrame.zero v).2.ctx.params.blockSize > 0 := by
      rw [hparams, hvbs]
      simp
    rw [rcvrAwaitNext, rcvrCountBlock, World.val_eq, if_neg hnot]
    rfl
  have hwaits : (rcvrSendWaits env CantpFrame.zero (w.withSndr s)).2 =
      (rcvrSendWaits env CantpFrame.zero w).2.withSndr s := by
    simp only [rcvrSendWaits, World.val_eq]
    by_cases hwft : w.ctx.params.wftNum > 0
    · rw [if_pos (by exact hwft), if_pos hwft]
      exact rcvrWaitLoop_withSndr s CantpFrame.zero { w with ctx.rcvr.wftCntr := 0 }
    · rw [if_neg (by exact hwft), if_neg hwft]
  rw [hcount _ (by exact hst) (by exact hbs), hcount w hst hbs, hwaits]
  rfl

end Await

theorem ne_report_of_ofSndr {a : Act} (h : a.ofSndr = false) (res : CantpResult) :
    a ≠ .sndrResultCb res := by
  rintro rfl
  cases h

/-- A call made while the receiver waits is one of the sender role only if it is a report. -/
theorem ofSndr_of_await {env : Env} {a : Act} (ha : a.IsAwait env)
    (hres : ∀ res, a ≠ .sndrResultCb res) : a.ofSndr = false := by
  cases a with
  | sndrResultCb res => exact absurd rfl (hres res)
  | canTxNb | sndrTxDoneCb => exact absurd ha id
  | _ => rfl

theorem KeepsRole.not_report {id : UInt32} {idt : UInt8} {c : CantpRxtxStatus} {r : RxFrame}
    (h : KeepsRole id idt c r) (hlog : FcLog r.env (handle (.canrxCb r) ⟨c, []⟩).log) {a : Act}
    (ha : a ∈ (handle (.canrxCb r) ⟨c, []⟩).log) (res : CantpResult) : a ≠ .sndrResultCb res := by
  rintro rfl
  exact h.canTx (hlog.exists_failure ha)

theorem ofSndr_cfWrites {r : RcvrState} {f : CantpFrame} {a : Act} (ha : a ∈ r.cfWrites f) :
    a.ofSndr = false := by
  obtain ⟨i, -, rfl⟩ := List.mem_map.mp ha
  rfl

theorem ofSndr_ffLog {r : RxFrame} {c : CantpRxtxStatus} {a : Act}
    (ha : a ∈ ffLog r ⟨c, [.printCantpFrame r.frame]⟩) : a.ofSndr = false := by
  rcases mem_ffLog ha with hlog | rfl | ⟨i, b, rfl⟩ | ⟨f, rfl⟩
  · rw [List.mem_singleton.mp hlog]
    rfl
  · rfl
  · rfl
  · rfl

/-- The receiver uses the CAN id of the parameters. -/
def UsesId (c : CantpRxtxStatus) : Event → Prop
  | .canrxCb r => AnswersFc c r ∨ CompletedBy c r
  | _ => False

/-- An event of the receiver role leaves the sender state and the parameters as they
are, does the same for every sender state, and for every CAN id unless it uses it, and
makes no call of the sender role. -/
structure RcvrEffect (c : CantpRxtxStatus) (e : Event) : Prop where
  step_eq : ∀ s q, SameButId c.params q → (UsesId c e → q = c.params) →
    handle e ⟨⟨s, c.rcvr, q⟩, []⟩ =
      ⟨⟨s, (handle e ⟨c, []⟩).ctx.rcvr, q⟩, (handle e ⟨c, []⟩).log⟩
  acts : ∀ a ∈ (handle e ⟨c, []⟩).log, a.ofSndr = false

section Receiver

variable {c : CantpRxtxStatus} {e : Event} {r : RxFrame}

theorem RcvrEffect.of_eq {w : World} (h : handle e ⟨c, []⟩ = w)
    (heq : ∀ s q, SameButId c.params q → (UsesId c e → q = c.params) →
      handle e ⟨⟨s, c.rcvr, q⟩, []⟩ = ⟨⟨s, w.ctx.rcvr, q⟩, w.log⟩)
    (ha : ∀ a ∈ w.log, a.ofSndr = false) : RcvrEffect c e := by
  subst h
  exact ⟨heq, ha⟩

theorem awaitNext_effect {id : UInt32} {idt : UInt8} {r' : RcvrState} {log : List Act}
    (h : KeepsRole id idt c r)
    (hmore : ∀ s q, handle (.canrxCb r) ⟨⟨s, c.rcvr, q⟩, []⟩ =
      rcvrAwaitNext r.env ⟨⟨s, r', q⟩, log⟩)
    (hst : r'.state = .fcSent) (hbs : c.params.blockSize = 0)
    (huse : 0 < c.params.wftNum → AnswersFc c r)
    (hlog : ∀ a ∈ log, a.ofSndr = false) : RcvrEffect c (.canrxCb r) := by
  by_cases hwft : 0 < c.params.wftNum
  · have hwait := awaits_rcvrAwaitNext r.env (w := ⟨⟨c.sndr, r', c.params⟩, log⟩) hst
    refine .of_eq (hmore c.sndr c.params) (fun s q _ hq => ?_) (fun a ha => ?_)
    · obtain rfl := hq (Or.inl (huse hwft))
      have hsndr : rcvrAwaitNext r.env ⟨⟨s, r', c.params⟩, log⟩ = _ :=
        rcvrAwaitNext_withSndr s (w := ⟨⟨c.sndr, r', c.params⟩, log⟩) hst hbs
      have hparams := hwait.params
      rw [hmore, hsndr]
      generalize rcvrAwaitNext r.env ⟨⟨c.sndr, r', c.params⟩, log⟩ = w' at hparams
      exact World.ext (congrArg (CantpRxtxStatus.mk s _) hparams) rfl
    · have hfailures := hwait.failures (.of_quiet fun a ha => ne_report_of_ofSndr (hlog a ha))
      rw [← hmore] at ha hfailures
      have hres := h.not_report hfailures ha
      obtain ⟨acts, hacts, hawait⟩ := hwait.log
      rw [hmore, hacts] at ha
      exact (List.mem_append.mp ha).elim (hlog a) fun ha => ofSndr_of_await (hawait a ha) hres
  · have hzero : c.params.wftNum = 0 := by simpa using hwft
    refine .of_eq ((hmore c.sndr c.params).trans (rcvrAwaitNext_eq _ hzero hbs))
      (fun s q hpq _ => ?_) hlog
    have hq : q.wftNum = 0 ∧ q.blockSize = 0 := by
      rw [hpq]
      exact ⟨hzero, hbs⟩
    rw [hmore, rcvrAwaitNext_eq _ hq.1 hq.2]
    rfl

theorem firstFrame_effect {id : UInt32} {idt : UInt8} (hr : r.pci = some .firstFrame)
    (h : KeepsRole id idt c r) : RcvrEffect c (.canrxCb r) := by
  by_cases hidle : c.rcvr.state = .idle
  · have heq : ∀ s q, handle (.canrxCb r) ⟨⟨s, c.rcvr, q⟩, []⟩ =
        rcvrRxFirstFrame r.env r.id r.idt r.frame
          ⟨⟨s, c.rcvr, q⟩, [.printCantpFrame r.frame]⟩ := fun s q => by
      rw [canrx_firstFrame hr, if_pos (by exact hidle)]
      rfl
    by_cases href : (r.ffAnswer c.rcvr.data).1 < 0
    · refine .of_eq ((heq c.sndr c.params).trans (rxFf_refused (by exact href)))
        (fun s q _ _ => ?_) (by simp [Act.ofSndr])
      rw [heq, rxFf_refused (by exact href)]
    · cases hbuf : (r.ffAnswer c.rcvr.data).2 with
      | none =>
          refine .of_eq ((heq c.sndr c.params).trans
            (rxFf_abandoned (by exact href) (by exact hbuf))) (fun s q _ _ => ?_)
            (by simp [Act.ofSndr])
          rw [heq, rxFf_abandoned (by exact href) (by exact hbuf)]
      | some buf =>
          have hans : AnswersFc c r := Or.inl ⟨hidle, buf, hr, not_lt.mp href, hbuf⟩
          refine .of_eq ((heq c.sndr c.params).trans
            (rxFf_accepted (by exact href) (by exact hbuf))) (fun s q _ hq => ?_)
            (fun a ha => ?_)
          · obtain rfl := hq (Or.inl hans)
            rw [heq, rxFf_accepted (by exact href) (by exact hbuf)]
            rfl
          · have hff : FcLog r.env (ffLog r ⟨c, [.printCantpFrame r.frame]⟩) :=
              .of_quiet fun a ha => ne_report_of_ofSndr (ofSndr_ffLog ha)
            have hstep := (heq c.sndr c.params).trans (rxFf_accepted href hbuf)
            have hlog : FcLog r.env (handle (.canrxCb r) ⟨c, []⟩).log := by
              rw [hstep]
              exact hff.fcActs (w := ⟨c, ffLog r ⟨c, [.printCantpFrame r.frame]⟩⟩) _
            have hres := h.not_report hlog (by rw [hstep]; exact ha)
            rcases List.mem_append.mp ha with ha | ha
            · exact ofSndr_ffLog ha
            · exact ofSndr_of_await (isAwait_fcActs ha) hres
  · refine .of_eq ((canrx_firstFrame hr).trans (if_neg hidle)) (fun s q _ _ => ?_)
      (by simp [Act.ofSndr])
    rw [canrx_firstFrame hr, if_neg (by exact hidle)]
    rfl

theorem consecFrame_effect {id : UInt32} {idt : UInt8} (hr : r.pci = some .consecFrame)
    (h : KeepsRole id idt c r) : RcvrEffect c (.canrxCb r) := by
  by_cases hst : c.rcvr.state = .fcSent
  · have heq : ∀ s q, handle (.canrxCb r) ⟨⟨s, c.rcvr, q⟩, []⟩ =
        rcvrRxConsecutiveFrame r.env r.id r.frame
          ⟨⟨s, c.rcvr, q⟩, [.printCantpFrame r.frame]⟩ := fun s q => by
      rw [canrx_consecFrame hr, if_pos (by exact hst)]
      rfl
    by_cases hid : c.rcvr.idPair = r.id
    · by_cases htake : c.rcvr.Takes r.id r.frame
      · by_cases hrem : c.rcvr.remaining ≤ cfNumDataBytes
        · have hdone : CompletedBy c r := ⟨⟨hr, hst, htake⟩, hrem⟩
          refine .of_eq ((heq c.sndr c.params).trans
            (rxCf_last (by exact htake) (by exact hrem))) (fun s q _ hq => ?_) (fun a ha => ?_)
          · obtain rfl := hq (Or.inr hdone)
            rw [heq, rxCf_last (by exact htake) (by exact hrem)]
          · simp only [List.mem_append, List.mem_singleton] at ha
            rcases ha with (rfl | ha) | rfl
            · rfl
            · exact ofSndr_cfWrites ha
            · rfl
        · have hcont : ContinuedBy c r := ⟨⟨hr, hst, htake⟩, hrem⟩
          have hmore : ∀ s q, handle (.canrxCb r) ⟨⟨s, c.rcvr, q⟩, []⟩ =
              rcvrAwaitNext r.env ⟨⟨s, c.rcvr.storeCf r.frame, q⟩,
                .printCantpFrame r.frame :: c.rcvr.cfWrites r.frame⟩ := fun s q =>
            (heq s q).trans (rxCf_more (by exact htake) (by exact hrem))
          exact awaitNext_effect h hmore hst (h.block hcont)
            (fun hwft => Or.inr ⟨hcont, hwft⟩)
            (fun a ha => (List.mem_cons.mp ha).elim (fun h => h ▸ rfl) ofSndr_cfWrites)
      · refine .of_eq ((heq c.sndr c.params).trans
          (rxCf_reject (by exact hid) (by exact htake))) (fun s q _ _ => ?_)
          (by simp [Act.ofSndr])
        rw [heq, rxCf_reject (by exact hid) (by exact htake)]
    · refine .of_eq ((heq c.sndr c.params).trans (rxCf_foreign (by exact hid)))
        (fun s q _ _ => ?_) (by simp [Act.ofSndr])
      rw [heq, rxCf_foreign (by exact hid)]
  · refine .of_eq ((canrx_consecFrame hr).trans (if_neg hst)) (fun s q _ _ => ?_)
      (by simp [Act.ofSndr])
    rw [canrx_consecFrame hr, if_neg (by exact hst)]
    rfl

theorem rcvr_effect {id : UInt32} {idt : UInt8} (he : e.isSndr = false)
    (h : RolesKept id idt c e) : RcvrEffect c e := by
  cases e with
  | rcvrTimerCb => exact .of_eq rfl (fun _ _ _ _ => rfl) (fun _ ha => absurd ha List.not_mem_nil)
  | canrxCb r =>
      have hr : r.pci ≠ some .flowControll := by simpa [Event.isSndr] using he
      cases hpci : r.pci with
      | none =>
          refine .of_eq (canrx_unknown hpci) (fun s q _ _ => ?_) (by simp)
          rw [canrx_unknown hpci]
      | some t =>
          cases t with
          | singleFrame =>
              refine .of_eq (canrx_singleFrame hpci) (fun s q _ _ => ?_)
                (by simp [Act.ofSndr])
              rw [canrx_singleFrame hpci]
          | firstFrame => exact firstFrame_effect hpci (h hr)
          | consecFrame => exact consecFrame_effect hpci (h hr)
          | flowControll => exact absurd hpci hr
  | _ => cases he

theorem RcvrEffect.sndr_eq (h : RcvrEffect c e) : (canTp.step c e).1.sndr = c.sndr := by
  rw [canTp_step, h.step_eq c.sndr c.params (.refl _) fun _ => rfl]

theorem RcvrEffect.params_eq (h : RcvrEffect c e) :
    (canTp.step c e).1.params = c.params := by
  rw [canTp_step, h.step_eq c.sndr c.params (.refl _) fun _ => rfl]

theorem SndrEffect.rcvr_eq (h : SndrEffect c e) : (canTp.step c e).1.rcvr = c.rcvr := by
  rw [canTp_step, h.step_eq c.rcvr]

end Receiver

/-! ### Erasing the events of one role -/

/-- The run with all events and the run of the receiver role alone, whose CAN id stays
`id`. -/
structure RcvrAlone (id : UInt32) (idt : UInt8) (c u : CantpRxtxStatus) : Prop where
  rcvr : u.rcvr = c.rcvr
  params : SameButId c.params u.params
  id_eq : u.params.id = id
  idt_eq : u.params.idt = idt

/-- The run with all events and the run of the sender role alone. -/
structure SndrAlone (c t : CantpRxtxStatus) : Prop where
  sndr : t.sndr = c.sndr
  params : t.params = c.params

section Erase

variable {id : UInt32} {idt : UInt8} {c u t : CantpRxtxStatus} {e : Event}

/-- Where the receiver uses the CAN id, the two runs have the same one. -/
theorem RcvrAlone.params_eq (h : RcvrAlone id idt c u) (hkept : RolesKept id idt c e)
    (he : e.isSndr = false) (huse : UsesId c e) : u.params = c.params := by
  cases e with
  | canrxCb r =>
      have hr : r.pci ≠ some .flowControll := by simpa [Event.isSndr] using he
      obtain ⟨hid, hidt⟩ := (hkept hr).params huse
      rw [h.params, h.id_eq, h.idt_eq, ← hid, ← hidt]
  | _ => exact huse.elim

theorem RcvrAlone.keep (h : RcvrAlone id idt c u) (hkept : RolesKept id idt c e)
    (he : e.isSndr = false) :
    RcvrAlone id idt (canTp.step c e).1 (canTp.step u e).1 ∧
      (canTp.step c e).2 = (canTp.step u e).2 := by
  have heff := rcvr_effect he hkept
  have hu : handle e ⟨u, []⟩ =
      ⟨⟨u.sndr, (handle e ⟨c, []⟩).ctx.rcvr, u.params⟩, (handle e ⟨c, []⟩).log⟩ := by
    have hstep := heff.step_eq u.sndr u.params h.params (h.params_eq hkept he)
    rwa [← h.rcvr] at hstep
  refine ⟨⟨?_, ?_, ?_, ?_⟩, ?_⟩
  · rw [canTp_step u, hu, canTp_step]
  · rw [heff.params_eq, canTp_step u, hu]
    exact h.params
  · rw [canTp_step, hu]
    exact h.id_eq
  · rw [canTp_step, hu]
    exact h.idt_eq
  · rw [canTp_step u, hu, canTp_step]

theorem RcvrAlone.drop (h : RcvrAlone id idt c u) (he : e.isSndr = true) :
    RcvrAlone id idt (canTp.step c e).1 u ∧ (canTp.step c e).2.filter Act.ofRcvr = [] := by
  have heff := sndr_effect c he
  refine ⟨⟨h.rcvr.trans heff.rcvr_eq.symm, heff.params.symm.trans h.params, h.id_eq,
    h.idt_eq⟩, List.filter_eq_nil_iff.mpr fun a ha => ?_⟩
  rw [heff.acts a ha]
  exact Bool.false_ne_true

theorem SndrAlone.keep (h : SndrAlone c t) (he : e.isSndr = true) :
    SndrAlone (canTp.step c e).1 (canTp.step t e).1 ∧
      (canTp.step c e).2 = (canTp.step t e).2 := by
  have ht : t = { c with rcvr := t.rcvr } := by
    rw [← h.sndr, ← h.params]
  have hstep := (sndr_effect c he).step_eq t.rcvr
  rw [← ht] at hstep
  rw [canTp_step t, hstep]
  exact ⟨⟨rfl, rfl⟩, rfl⟩

theorem SndrAlone.drop (h : SndrAlone c t) (hkept : RolesKept id idt c e)
    (he : e.isSndr = false) :
    SndrAlone (canTp.step c e).1 t ∧ (canTp.step c e).2.filter Act.ofSndr = [] := by
  have heff := rcvr_effect he hkept
  refine ⟨⟨h.sndr.trans heff.sndr_eq.symm, h.params.trans heff.params_eq.symm⟩,
    List.filter_eq_nil_iff.mpr fun a ha => ?_⟩
  rw [heff.acts a ha]
  exact Bool.false_ne_true

end Erase

/-- In a run whose received frames all keep to the receiver role, the two roles are
independent of each other. -/
theorem roles_independent (c : CantpRxtxStatus) (es : List Event)
    (h : canTp.Admits (RolesKept c.params.id c.params.idt) c es) : RolesIndependent c es := by
  have hrcvr := Mealy.erase (fun e => !e.isSndr) Act.ofRcvr
    (R := RcvrAlone c.params.id c.params.idt)
    (fun s t e hR hok hk => by
      obtain ⟨hR', hout⟩ := hR.keep hok (by simpa using hk)
      exact ⟨hR', by rw [hout]⟩)
    (fun s t e hR _ hk => hR.drop (by simpa using hk)) ⟨rfl, .refl _, rfl, rfl⟩ h
  have hsndr := Mealy.erase Event.isSndr Act.ofSndr (R := SndrAlone)
    (fun s t e hR _ hk => by
      obtain ⟨hR', hout⟩ := hR.keep hk
      exact ⟨hR', by rw [hout]⟩)
    (fun s t e hR hok hk => hR.drop hok hk) ⟨rfl, rfl⟩ h
  exact ⟨⟨hrcvr.1.rcvr.symm, hrcvr.2⟩, hsndr.1.sndr.symm, hsndr.2⟩

/-- One message is sent while another one is received, both under the CAN id `9`. -/
theorem roles_independent_interleaved :
    let rx := RxFrame.ofFrame .accepting 5 0
    let msg := List.replicate 20 7
    RolesIndependent (.fresh ⟨9, 0, 0, 0, 0, 0, 0, 0⟩)
      [.send 9 0 msg 20, .canrxCb (rx (ffFrame msg 20)), .cantxConfirmCb,
        .canrxCb (rx (cfAt msg 20 0)), .canrxCb (rx (cfAt msg 20 1))] := by
  intro rx msg
  have hkept : ∀ c f, c.params.blockSize = 0 → c.params.id = 9 ∧ c.params.idt = 0 →
      RolesKept 9 0 c (.canrxCb (rx f)) := fun c f hbs hid _ =>
    ⟨fun _ => hbs, fun _ => hid, fun ⟨_, _, _, _, _, hfail⟩ => Int.lt_irrefl 0 hfail⟩
  exact roles_independent _ _ ⟨trivial, hkept _ _ (by decide) (by decide), trivial,
    hkept _ _ (by decide) (by decide), hkept _ _ (by decide) (by decide), trivial⟩

/-- A message is announced while another one is sent: the FC.CTS leaves from the CAN
id given to `cantp_send`, and the Consecutive Frame is counted in the sender's block. -/
theorem roles_dependent :
    let rx := RxFrame.ofFrame .accepting 5 0
    let msg := List.replicate 20 7
    ¬ RolesIndependent (.fresh ⟨0, 0, 3, 0, 0, 0, 0, 0⟩)
      [.send 9 0 msg 20, .canrxCb (rx (ffFrame msg 20)), .canrxCb (rx (cfAt msg 20 0))] := by
  simp only [RolesIndependent]
  decide

end CanTp
