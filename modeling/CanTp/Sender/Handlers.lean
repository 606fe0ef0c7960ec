import CanTp.Accesses
import CanTp.Library.Buffer

/-!
# The sender functions of `can-tp.c`

One definition for each function, over what carries a `World`: its context is changed and
its log extended in the order of the statements of the source. Log printing is left
out, except for the calls of `print_cantp_frame`, which is a function of the port.
-/

namespace CanTp

open Library

/-- `ctx->sndr.len - ctx->sndr.index`, an `int`. -/
def SndrState.remaining (s : SndrState) : Int := (s.len.toNat : Int) - s.index.toNat

theorem toNat_ofInt_uint8 {x : Int} (h0 : 0 ≤ x) (h : x < 256) :
    (UInt8.ofInt x).toNat = x.toNat := by
  rw [UInt8.ofInt, UInt8.toNat_ofNat']
  omega

/-- `cantp_ff_len_set`, with `CANTP_FF_LEN_H` and `CANTP_FF_LEN_L`. -/
def cantpFfLenSet (f : CantpFrame) (len : UInt16) : CantpFrame :=
  (f.setFfLenH ((0xF00 &&& len) >>> 8).toUInt8).setFfLenL (0xFF &&& len).toUInt8

/-- `cantp_ff_len_get` -/
def cantpFfLenGet (f : CantpFrame) : UInt16 :=
  (f.ffLenH.toUInt16 <<< 8) ||| f.ffLenL.toUInt16

/-- `cantp_sndr_timer_cb` -/
def cantpSndrTimerCb (w : World) : World :=
  match w.ctx.sndr.state with
  | .ffSending | .cfSending | .sfSending =>
      (cantpSndrSetState w .idle).emit (.sndrResultCb .nTimeoutAs)
  | .ffFcWait =>
      (cantpSndrSetState w .idle).emit (.sndrResultCb .nTimeoutBs)
  | _ => w

/-- `uint8_t n_to_send`: at most `CANTP_CF_NUM_DATA_BYTES`. -/
def nToSend (remaining : Int) : UInt8 :=
  if remaining > cfNumDataBytes then UInt8.ofNat cfNumDataBytes else UInt8.ofInt remaining

/-- One turn of the loop that fills a Consecutive Frame:
`tx_frame.cf.d[i] = ctx->sndr.data[ctx->sndr.index++]`. -/
def sndrCopyByte (i : Nat) (p : CantpFrame × World) : CantpFrame × World :=
  let s := p.2.ctx.sndr
  (p.1.setCfD i (s.data.getD s.index.toNat 0),
    { p.2 with ctx.sndr.index := s.index + 1 }.emit (.sndrRead s.index.toNat))

/-- The Consecutive Frame before its data bytes are copied. -/
def cfHeader (s : SndrState) : CantpFrame :=
  (CantpFrame.zero.setNPciT CantpNPciType.consecFrame.toUInt8).setCfSn s.sn

/-- The delay `st_tim_us` a received STmin stands for, `none` for the values the
sender reports as incompatible. -/
def stTimUsOf (st : UInt8) : Option UInt32 :=
  if st < 0x80 then some (1000 * st.toUInt32)
  else if st ≥ 0xf1 ∧ st ≤ 0xf9 then some (100 * (st - 0xf0).toUInt32)
  else none

section Carrier

open Carrier (val on call)

variable {τ : Type} [Carrier τ World Access TxNb]

/-- `sndr_send_cf_afrer_cf` -/
def sndrSendCfAfrerCf (t : τ) : τ :=
  let n := nToSend (val t).ctx.sndr.remaining
  let p := forUpTo n.toNat sndrCopyByte (cfHeader (val t).ctx.sndr, val t)
  let t := on t fun _ => p.2
  let t := on t (·.sndrTimerStop)
  let t := on t (·.sndrTimerStart .nAs (1000 * nAsTimerMs))
  let t := cantpSndrSetState t .cfSending
  cantpCanTxNb (callPrintCantpFrame p.1 t) p.1

/-- The end of `cantp_cantx_confirm_cb`: the block goes on with the next frame. -/
def sndrContinueBlock (t : τ) : τ :=
  let t := cantpSndrSetState t .cfSent
  let t := on t fun w =>
    if w.ctx.sndr.stTimUs > 0 then w.emit (.usleep w.ctx.sndr.stTimUs) else w
  let t := on t (·.sndrTimerStart .nCs (1000 * nCsTimerMs))
  sndrSendCfAfrerCf t

/-- The case of `cantp_cantx_confirm_cb` for a Consecutive Frame. -/
def sndrCfConfirmed (t : τ) : τ :=
  let t := on t (·.sndrTimerStop)
  let remaining := (val t).ctx.sndr.remaining
  if remaining < 0 then t
  else if remaining = 0 then
    on (cantpSndrSetState t .idle) (·.emit .sndrTxDoneCb)
  else
    let t := on t fun w => { w with ctx.sndr.sn := w.ctx.sndr.sn + 1 }
    let t := on t fun w => if w.ctx.sndr.sn > 0x0f then { w with ctx.sndr.sn := 0 } else w
    if (val t).ctx.sndr.bsPair > 0 then
      let t := on t fun w => { w with ctx.sndr.blIndex := w.ctx.sndr.blIndex + 1 }
      if (val t).ctx.sndr.blIndex ≥ (val t).ctx.sndr.bsPair then
        let t := on t fun w => { w with ctx.sndr.blIndex := 0 }
        let t := on t (·.sndrTimerStart .nBs (1000 * nBsTimerMs))
        cantpSndrSetState t .cfFcWait
      else sndrContinueBlock t
    else sndrContinueBlock t

/-- `cantp_cantx_confirm_cb` -/
def cantpCantxConfirmCb (t : τ) : τ :=
  match (val t).ctx.sndr.state with
  | .sfSending =>
      let t := on (cantpSndrSetState t .idle) (·.sndrTimerStop)
      on t (·.emit (.sndrResultCb .nOk))
  | .ffSending =>
      let t := on t (·.sndrTimerStop)
      let t := on t (·.sndrTimerStart .nBs (1000 * nBsTimerMs))
      let t := on t fun w => { w with ctx.sndr.sn := 1
                                      ctx.sndr.index := UInt16.ofNat ffNumDataBytes }
      cantpSndrSetState t .ffFcWait
  | .cfSent | .cfSending => sndrCfConfirmed t
  | _ => t

/-- `sndr_send_cf_afrer_fc` -/
def sndrSendCfAfrerFc (t : τ) : τ :=
  let t := on t (·.sndrTimerStop)
  let t := on t (·.sndrTimerStart .nAs (1000 * nCsTimerMs))
  let remaining := (val t).ctx.sndr.remaining
  if remaining ≤ 0 then t
  else
    let n := nToSend remaining
    let p := forUpTo n.toNat sndrCopyByte (cfHeader (val t).ctx.sndr, val t)
    let t := cantpSndrSetState (on t fun _ => p.2) .cfSending
    cantpCanTxNb (callPrintCantpFrame p.1 t) p.1

/-- `sndr_rx_flow_control_frame` -/
def sndrRxFlowControlFrame (id : UInt32) (frame : CantpFrame) (t : τ) : τ :=
  let t := on t (·.sndrTimerStop)
  let t := on t (·.sndrTimerStart .nCs (1000 * nCsTimerMs))
  let t := on t fun w => { w with ctx.sndr.idPair := id
                                  ctx.sndr.bsPair := frame.fcBs
                                  ctx.sndr.stPair := frame.fcSt }
  match stTimUsOf (val t).ctx.sndr.stPair with
  | none => t
  | some us =>
      let t := on t fun w => { w with ctx.sndr.stTimUs := us }
      match CantpFcFlowStatus.ofUInt8 frame.fcFs with
      | some .cts => sndrSendCfAfrerFc t
      | some .wait => on t (·.sndrTimerStart .nBs (1000 * nBsTimerMs))
      | some .ovf => t
      | none => t

/-- `cantp_send` -/
def cantpSend (id : UInt32) (idt : UInt8) (data : List UInt8) (len : UInt16) (t : τ) : τ :=
  let txframe := CantpFrame.zero
  if len.toNat ≤ sfNumDataBytes then
    let txframe := txframe.setSfLen len.toUInt8
    let txframe := txframe.setNPciT CantpNPciType.singleFrame.toUInt8
    let txframe := forUpTo len.toNat (fun i f => f.setSfD i (data.getD i 0)) txframe
    let t := callPrintCantpFrame txframe t
    let t := on t (·.sndrTimerStart .nAs (1000 * nAsTimerMs))
    let t := cantpSndrSetState t .sfSending
    call t ⟨id, idt, 8, txframe⟩
  else
    let t := on t fun w => { w with ctx.params.id := id
                                    ctx.params.idt := idt
                                    ctx.sndr.len := len
                                    ctx.sndr.data := data }
    let txframe := txframe.setNPciT CantpNPciType.firstFrame.toUInt8
    let txframe := cantpFfLenSet txframe len
    let txframe := forUpTo ffNumDataBytes (fun i f => f.setFfD i (data.getD i 0)) txframe
    let t := callPrintCantpFrame txframe t
    let t := on t (·.sndrTimerStart .nAs (1000 * nAsTimerMs))
    let t := cantpSndrSetState t .ffSending
    call t ⟨id, idt, 8, txframe⟩

end Carrier

end CanTp
