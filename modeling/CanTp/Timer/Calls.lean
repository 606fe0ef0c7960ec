import CanTp.Sender.Timeout
import CanTp.Timer.Notifications
import CanTp.Receiver.Outcome
import CanTp.Library.Drives

/-!
# The calls for the sender timer

`can-tp.c` knows its timers only through `cantp_timer_start` and `cantp_timer_stop`. Here
are the calls that each function makes for the sender timer, in their order. What they do
to the timer of a context is what the functions do to it (`sndrTimerCalls_timer`).
-/

namespace CanTp

open Library

/-- A call for the timer `ctx->sndr.timer`. -/
inductive TimerCall
  | start (name : TimerName) (toutUs : Nat)
  | stop
deriving DecidableEq, Repr

namespace TimerCall

/-- The call as it reaches the timer. -/
def event : TimerCall → TimerEvent
  | .start _ toutUs => .start toutUs
  | .stop => .stop

/-- `cantp_timer_start`, whose result `can-tp.c` does not look at. -/
def started (name : TimerName) (toutUs : Int) (w : TimerWorld) : TimerWorld :=
  (cantpTimerStart name toutUs w).2

/-- `cantp_timer_start` or `cantp_timer_stop` -/
def call : TimerCall → TimerWorld → TimerWorld
  | .start name toutUs, w => started name toutUs w
  | .stop, w => cantpTimerStop w

/-- What the call does to the timer of a context. -/
def set : TimerCall → Option Timer → Option Timer
  | .start name toutUs, _ => some ⟨name, toutUs⟩
  | .stop, _ => none

end TimerCall

/-! ### The functions of the sender -/

/-- The calls of `sndr_send_cf_afrer_cf`. -/
def sndrSendCfAfrerCfCalls : List TimerCall := [.stop, .start .nAs (1000 * nAsTimerMs)]

/-- The calls of `cantp_cantx_confirm_cb`. -/
def cantxConfirmCalls (s : SndrState) : List TimerCall :=
  match s.state with
  | .sfSending => [.stop]
  | .ffSending => [.stop, .start .nBs (1000 * nBsTimerMs)]
  | .cfSent | .cfSending =>
      .stop ::
        if s.remaining ≤ 0 then []
        else if s.BlockEnds then [.start .nBs (1000 * nBsTimerMs)]
        else .start .nCs (1000 * nCsTimerMs) :: sndrSendCfAfrerCfCalls
  | _ => []

/-- The calls of `sndr_send_cf_afrer_fc`. -/
def sndrSendCfAfrerFcCalls : List TimerCall := [.stop, .start .nAs (1000 * nCsTimerMs)]

/-- The calls of `sndr_rx_flow_control_frame`. -/
def sndrRxFlowControlCalls (f : CantpFrame) : List TimerCall :=
  .stop :: .start .nCs (1000 * nCsTimerMs) ::
    match stTimUsOf f.fcSt with
    | none => []
    | some _ =>
        match CantpFcFlowStatus.ofUInt8 f.fcFs with
        | some .cts => sndrSendCfAfrerFcCalls
        | some .wait => [.start .nBs (1000 * nBsTimerMs)]
        | some .ovf | none => []

/-- The calls made while the event `e` is handled. -/
def sndrTimerCalls (c : CantpRxtxStatus) : Event → List TimerCall
  | .send .. => [.start .nAs (1000 * nAsTimerMs)]
  | .cantxConfirmCb => cantxConfirmCalls c.sndr
  | .canrxCb r =>
      if r.pci = some .flowControll ∧ c.sndr.state = .ffFcWait then
        sndrRxFlowControlCalls r.frame
      else []
  | .sndrTimerCb | .sndrTimerExpiry | .rcvrTimerCb => []

/-- The calls of a session layer and a link layer, and of the receiver timer. -/
def Event.isCall : Event → Bool
  | .sndrTimerCb | .sndrTimerExpiry => false
  | _ => true

/-! ### What the calls do -/

section Timer

variable {e : Event}

theorem confirm_timer (c : CantpRxtxStatus) :
    (cantpCantxConfirmCb (⟨c, []⟩ : World)).ctx.sndr.timer =
      (cantxConfirmCalls c.sndr).foldl (fun t a => a.set t) c.sndr.timer := by
  have hconf := confirm_outcome ⟨c, []⟩
  generalize cantpCantxConfirmCb ⟨c, []⟩ = w at hconf ⊢
  have hcf : c.sndr.state.CfOut → cantxConfirmCalls c.sndr = .stop ::
      if c.sndr.remaining ≤ 0 then [] else if c.sndr.BlockEnds then [.start .nBs 1000000]
      else [.start .nCs 1000000, .stop, .start .nAs 1000000] := by
    rintro (hst | hst) <;> rw [cantxConfirmCalls, hst] <;> rfl
  cases hconf with
  | single h => simp [cantxConfirmCalls, show c.sndr.state = _ from h, TimerCall.set]
  | first h => simp [cantxConfirmCalls, show c.sndr.state = _ from h, TimerCall.set]
  | negative h hrem => simp [hcf h, show c.sndr.remaining ≤ 0 from hrem.le, TimerCall.set]
  | last h hrem => simp [hcf h, show c.sndr.remaining ≤ 0 from hrem.le, TimerCall.set]
  | blockEnd h hrem hb =>
      have hpos : ¬ c.sndr.remaining ≤ 0 := not_le.mpr hrem
      have hb' : c.sndr.BlockEnds := hb
      simp [hcf h, hpos, hb', TimerCall.set, nBsTimerMs]
  | next h hrem hb =>
      have hpos : ¬ c.sndr.remaining ≤ 0 := not_le.mpr hrem
      have hb' : ¬ c.sndr.BlockEnds := hb
      simp [hcf h, hpos, hb', TimerCall.set, sentCf, SndrState.afterCf, nAsTimerMs]
  | other h hsent =>
      have hst : ¬ c.sndr.state.Sending := h
      have hsent' : c.sndr.state ≠ .cfSent := hsent
      unfold CantpState.Sending at hst
      rw [cantxConfirmCalls]
      split <;> simp_all

theorem sndrSendCfAfrerFc_timer (w : World) :
    (sndrSendCfAfrerFc w).ctx.sndr.timer = some ⟨.nAs, 1000 * nCsTimerMs⟩ := by
  by_cases hrem : 0 < w.ctx.sndr.remaining
  · rw [sndrSendCfAfrerFc_eq hrem]
    rfl
  · rw [sndrSendCfAfrerFc_none (not_lt.mp hrem)]
    rfl

theorem flowControl_timer (id : UInt32) (f : CantpFrame) (w : World) :
    (sndrRxFlowControlFrame id f w).ctx.sndr.timer =
      (sndrRxFlowControlCalls f).foldl (fun t a => a.set t) w.ctx.sndr.timer := by
  simp only [sndrRxFlowControlFrame, sndrRxFlowControlCalls, List.foldl_cons]
  cases hst : stTimUsOf f.fcSt with
  | none => rfl
  | some us =>
      cases hfs : CantpFcFlowStatus.ofUInt8 f.fcFs with
      | none => rfl
      | some fs =>
          cases fs with
          | cts => exact sndrSendCfAfrerFc_timer _
          | wait => rfl
          | ovf => rfl

/-- The calls account for the timer. -/
theorem sndrTimerCalls_timer (c : CantpRxtxStatus) (he : e.isCall = true) :
    (canTp.step c e).1.sndr.timer =
      (sndrTimerCalls c e).foldl (fun t a => a.set t) c.sndr.timer := by
  cases e with
  | send id idt data len =>
      rw [canTp_step, handle]
      by_cases hlen : len.toNat ≤ sfNumDataBytes
      · rw [send_single hlen]
        rfl
      · rw [send_segmented (not_le.mp hlen)]
        rfl
  | cantxConfirmCb => exact confirm_timer c
  | sndrTimerCb => cases he
  | sndrTimerExpiry => cases he
  | rcvrTimerCb => rfl
  | canrxCb r =>
      rw [sndrTimerCalls]
      by_cases hr : r.pci = some .flowControll
      · rw [canTp_step, canrx_flowControll hr]
        by_cases hst : c.sndr.state = .ffFcWait
        · rw [if_pos ⟨hr, hst⟩, canrxFlowControll_take hst, flowControl_timer]
          rfl
        · rw [if_neg fun h => hst h.2, canrxFlowControll_drop hst]
          rfl
      · obtain ⟨⟨bl, hsndr⟩, -⟩ := (rx_outcome c r).sndr_alone hr
        rw [if_neg fun h => hr h.1]
        exact (congrArg SndrState.timer hsndr).trans rfl

end Timer

end CanTp
