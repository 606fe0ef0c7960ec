import CanTp.Sender.Handlers

/-!
# The receiver functions of `can-tp.c`

`rcvr_rx_consecutive_frame` is cut at its comments: storing the data bytes, the
run of FC.WAIT frames and the block counter are functions of their own, called in
the order of the source. The block counter is kept in `ctx->sndr.bl_index`, as in
the source.
-/

namespace CanTp

open Library

/-- `cantp_rcvr_timer_cb`, which only prints. -/
def cantpRcvrTimerCb (w : World) : World := w

/-- One turn of a loop that fills the session buffer:
`ctx->rcvr.data[ctx->rcvr.index++] = b`. -/
def rcvrStoreByte (b : UInt8) (w : World) : World :=
  let r := w.ctx.rcvr
  { w with ctx.rcvr.data := r.data.map fun d : List UInt8 => d.set r.index.toNat b
           ctx.rcvr.index := r.index + 1 }.emit (.rcvrWrite r.index.toNat b)

/-- The call of `cantp_rcvr_rx_ff_cb`, with its result. -/
def callRcvrRxFfCb (env : Env) (id : UInt32) (idt : UInt8) (w : World) : Int × World :=
  let r := w.ctx.rcvr
  let answer := env.rcvrRxFfCb id idt r.data r.len
  (answer.1, { w with ctx.rcvr.data := answer.2 }.emit (.rcvrRxFfCb id idt r.len))

/-- Sends an FC frame with the blocking `cantp_can_tx`; a failure is reported
through `cantp_sndr_result_cb`. -/
def rcvrSendFc (env : Env) (frame : CantpFrame) (w : World) : World :=
  let p := w.cantpCanTx env frame (1000 * nArTimerMs)
  if p.1 < 0 then p.2.emit (.sndrResultCb .nTimeoutAs) else p.2

/-- The FC.CTS frame with the parameters of the receiver, written over `frame`. -/
def ctsFrame (p : CantpParams) (frame : CantpFrame) : CantpFrame :=
  (((frame.setNPciT CantpNPciType.flowControll.toUInt8).setFcFs
    CantpFcFlowStatus.cts.toUInt8).setFcBs p.blockSize).setFcSt p.stMin

/-- The FC.WAIT frame, written over `frame`. -/
def waitFrame (frame : CantpFrame) : CantpFrame :=
  (((frame.setNPciT CantpNPciType.flowControll.toUInt8).setFcFs
    CantpFcFlowStatus.wait.toUInt8).setFcBs 0).setFcSt 0

@[simp] theorem rcvrSendFc_ctx (env : Env) (frame : CantpFrame) (w : World) :
    (rcvrSendFc env frame w).ctx = w.ctx := by
  rw [rcvrSendFc]
  by_cases h : (w.cantpCanTx env frame (1000 * nArTimerMs)).1 < 0
  · simp only [h, if_true]
    rfl
  · simp only [h, if_false]
    rfl

section Carrier

open Carrier (val on mark)

variable {τ : Type} [Carrier τ World Access TxNb]

/-- `rcvr_rx_first_frame` -/
def rcvrRxFirstFrame (env : Env) (id : UInt32) (idt : UInt8) (frame : CantpFrame) (t : τ) : τ :=
  let t := cantpRcvrSetState t .ffRcvd
  let t := on t (·.rcvrTimerStart .nBr (1000 * nBrTimerMs))
  let t := on t fun w => { w with ctx.rcvr.idPair := id
                                  ctx.rcvr.len := cantpFfLenGet frame
                                  ctx.rcvr.index := 0
                                  ctx.rcvr.blIndex := 0 }
  let p := callRcvrRxFfCb env id idt (val t)
  let t := on t fun _ => p.2
  if p.1 < 0 then cantpRcvrSetState (on t (·.rcvrTimerStop)) .idle
  else if (val t).ctx.rcvr.data = none then t
  else
    let t := forUpTo ffNumDataBytes
      (fun i t => on (mark t [.rxFrame (2 + i)]) (rcvrStoreByte (frame.ffD i))) t
    let t := on t fun w => { w with ctx.rcvr.index := UInt16.ofNat ffNumDataBytes }
    let t := on t (·.rcvrTimerStop)
    let t := on t (·.rcvrTimerStart .nAr (1000 * nArTimerMs))
    let fc := ctsFrame (val t).ctx.params CantpFrame.zero
    let t := cantpRcvrSetState t .fcSending
    let t := on (callPrintCantpFrame fc t) (rcvrSendFc env fc)
    let t := cantpRcvrSetState t .fcSent
    let t := on t (·.rcvrTimerStop)
    on t (·.rcvrTimerStart .nCr (1000 * nCrTimerMs))

/-- One turn of the FC.WAIT loop, up to the increment of `wft_cntr`. -/
def rcvrWaitTurn (env : Env) (frame : CantpFrame) (t : τ) : τ :=
  let t := on t fun w => w.emit (.usleep w.ctx.params.wftTimUs)
  let t := on (callPrintCantpFrame (waitFrame frame) t) (rcvrSendFc env (waitFrame frame))
  let t := cantpRcvrSetState t .fcSent
  on t fun w => { w with ctx.rcvr.wftCntr := w.ctx.rcvr.wftCntr + 1 }

theorem val_rcvrWaitTurn (env : Env) (frame : CantpFrame) (t : τ) :
    val (rcvrWaitTurn env frame t) = rcvrWaitTurn env frame (val t) := by
  simp only [rcvrWaitTurn, callPrintCantpFrame, cantpRcvrSetState, Carrier.val_on,
    Carrier.val_mark, World.on_eq, World.mark_eq]

@[simp] theorem rcvrWaitTurn_wftCntr (env : Env) (frame : CantpFrame) (w : World) :
    (rcvrWaitTurn env frame w).ctx.rcvr.wftCntr = w.ctx.rcvr.wftCntr + 1 := by
  simp [rcvrWaitTurn]

@[simp] theorem rcvrWaitTurn_params (env : Env) (frame : CantpFrame) (w : World) :
    (rcvrWaitTurn env frame w).ctx.params = w.ctx.params := by
  simp [rcvrWaitTurn]

/-- The `do … while` loop over the FC.WAIT frames. The counter is a byte; a turn
is repeated only while it is below `wft_num`, so it never wraps on the way. -/
def rcvrWaitLoop (env : Env) (frame : CantpFrame) (t : τ) : τ :=
  let t' := rcvrWaitTurn env frame t
  if (val t').ctx.rcvr.wftCntr > (val t').ctx.params.wftNum then
    on t' (·.rcvrTimerStart .nCr (1000 * nCrTimerMs))
  else
    let t'' := on t' (·.rcvrTimerStart .nBr (1000 * nBrTimerMs))
    if (val t'').ctx.rcvr.wftCntr < (val t'').ctx.params.wftNum then
      rcvrWaitLoop env (waitFrame frame) t''
    else t''
termination_by (val t).ctx.params.wftNum.toNat + 1 - ((val t).ctx.rcvr.wftCntr + 1).toNat
decreasing_by
  rename_i h
  have hval : val t'' =
      (rcvrWaitTurn env frame (val t)).rcvrTimerStart .nBr (1000 * nBrTimerMs) := by
    rw [Carrier.val_on, val_rcvrWaitTurn]
  have hcntr : (val t'').ctx.rcvr.wftCntr = (val t).ctx.rcvr.wftCntr + 1 := by
    rw [hval]
    exact rcvrWaitTurn_wftCntr env frame (val t)
  have hnum : (val t'').ctx.params.wftNum = (val t).ctx.params.wftNum := by
    rw [hval]
    exact congrArg CantpParams.wftNum (rcvrWaitTurn_params env frame (val t))
  have hs : ((val t).ctx.rcvr.wftCntr + 1 + 1).toNat =
      (((val t).ctx.rcvr.wftCntr + 1).toNat + 1) % 256 := UInt8.toNat_add _ 1
  have hn := (val t).ctx.params.wftNum.toNat_lt
  rw [hcntr, hnum, UInt8.lt_iff_toNat_lt] at h
  rw [hcntr, hnum]
  omega

/-- The FC.WAIT frames of `rcvr_rx_consecutive_frame`, and the frame buffer they
leave behind. -/
def rcvrSendWaits (env : Env) (frame : CantpFrame) (t : τ) : CantpFrame × τ :=
  if (val t).ctx.params.wftNum > 0 then
    (waitFrame frame, rcvrWaitLoop env frame (on t fun w => { w with ctx.rcvr.wftCntr := 0 }))
  else (frame, t)

/-- The end of `rcvr_rx_consecutive_frame`: counting the block, and the FC.CTS
frame at its end. -/
def rcvrCountBlock (env : Env) (frame : CantpFrame) (t : τ) : τ :=
  if (val t).ctx.params.blockSize > 0 then
    let t := on t fun w => { w with ctx.sndr.blIndex := w.ctx.sndr.blIndex + 1 }
    if (val t).ctx.sndr.blIndex ≥ (val t).ctx.params.blockSize then
      let t := on t fun w => { w with ctx.sndr.blIndex := 0 }
      let fc := ctsFrame (val t).ctx.params frame
      let t := on (callPrintCantpFrame fc t) (rcvrSendFc env fc)
      let t := cantpRcvrSetState t .fcSent
      on t (·.rcvrTimerStart .nCr (1000 * nCrTimerMs))
    else on t (·.rcvrTimerStart .nCr (1000 * nCrTimerMs))
  else on t (·.rcvrTimerStart .nCr (1000 * nCrTimerMs))

/-- `rcvr_rx_consecutive_frame` -/
def rcvrRxConsecutiveFrame (env : Env) (id : UInt32) (frame : CantpFrame) (t : τ) : τ :=
  if (val t).ctx.rcvr.idPair ≠ id then t
  else
    let t := on t (·.rcvrTimerStop)
    let t := on t fun w => { w with ctx.rcvr.sn := w.ctx.rcvr.sn + 1 }
    let t := on t fun w => if w.ctx.rcvr.sn > 0x0f then { w with ctx.rcvr.sn := 0 } else w
    if (val t).ctx.rcvr.sn ≠ frame.cfSn then t
    else
      let remaining : Int := ((val t).ctx.rcvr.len.toNat : Int) - (val t).ctx.rcvr.index.toNat
      if remaining ≤ 0 then t
      else
        let bytesRcvd : UInt8 :=
          if remaining < cfNumDataBytes then UInt8.ofInt remaining
          else UInt8.ofNat cfNumDataBytes
        let t := forUpTo bytesRcvd.toNat
          (fun i t => on (mark t [.rxFrame (1 + i)]) (rcvrStoreByte (frame.cfD i))) t
        if remaining ≤ cfNumDataBytes then
          let t := cantpRcvrSetState t .txDone
          on t fun w => w.emit (.receivedCb w.ctx.params.id w.ctx.params.idt w.ctx.rcvr.data
            w.ctx.rcvr.len.toUInt8)
        else
          let p := rcvrSendWaits env CantpFrame.zero t
          rcvrCountBlock env p.1 p.2

end Carrier

end CanTp
