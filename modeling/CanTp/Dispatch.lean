import CanTp.Receiver.Handlers
import CanTp.Library.Mealy

/-!
# The frame dispatcher and the events of a context

`cantpCanrxCb` is `cantp_canrx_cb`. A context is driven by the calls of the
session layer (`cantp_send`), of the link layer (`cantp_cantx_confirm_cb` and
`cantp_canrx_cb`) and of the timers; `canTp` is the machine whose inputs are these
calls, each handled to its end before the next one.

A callback of the sender timer comes in two forms: `sndrTimerCb` is the bare call
of `cantp_sndr_timer_cb`, in any state; `sndrTimerExpiry` is the expiry of the
timer, which calls it only when the timer runs and stops the timer first.
-/

namespace CanTp

open Library

/-- The copy of the received bytes into `rx_frame`, which starts out zeroed. -/
def rxFrame (dlc : UInt8) (data : List UInt8) : CantpFrame :=
  forUpTo dlc.toNat (fun i f => f.setByte i (data.getD i 0)) CantpFrame.zero

/-- The elements accessed by the copy. -/
def rxFrameCopied (dlc : UInt8) : List Access :=
  (List.range dlc.toNat).flatMap fun i => [.rxFrame i, .rxData i]

section Carrier

open Carrier (val on mark)

variable {τ : Type} [Carrier τ World Access TxNb]

/-- The branch of `cantp_canrx_cb` for a Flow Control frame. A sender that is not
waiting for one waits once for its state to change and looks again; while it waits, the
other tasks make `others` of the context. -/
def canrxFlowControllAmong (others : CantpRxtxStatus → CantpRxtxStatus) (env : Env)
    (id : UInt32) (frame : CantpFrame) (t : τ) : τ :=
  if (val t).ctx.sndr.state ≠ .ffFcWait then
    let t := on t (·.emit (.sndrStateSemTake (1000 * nBsTimerMs)))
    if env.sndrStateSemTake < 0 then t
    else
      let t := on t fun w => { w with ctx := others w.ctx }
      if (val t).ctx.sndr.state ≠ .ffFcWait then t
      else sndrRxFlowControlFrame id frame (callPrintCantpFrame frame t)
  else sndrRxFlowControlFrame id frame (callPrintCantpFrame frame t)

/-- `cantp_canrx_cb`. The session layer is handed the bytes of a Single Frame in place. -/
def cantpCanrxCbAmong (others : CantpRxtxStatus → CantpRxtxStatus) (env : Env) (id : UInt32)
    (idt dlc : UInt8) (data : List UInt8) (t : τ) : τ :=
  let frame := rxFrame dlc data
  let t := mark t (rxFrameCopied dlc)
  match CantpNPciType.ofUInt8 frame.nPciT with
  | some .singleFrame =>
      let t := callPrintCantpFrame frame t
      let t := mark (cantpRcvrSetState t .rxDone) (receivedSf frame.sfLen)
      on t (·.emit (.receivedCb id idt (some ((List.range sfNumDataBytes).map frame.sfD))
        frame.sfLen))
  | some .firstFrame =>
      let t := callPrintCantpFrame frame t
      let t := mark t [(val t).ctx.rcvr.state.nameRead]
      if (val t).ctx.rcvr.state = .idle then rcvrRxFirstFrame env id idt frame t else t
  | some .flowControll => canrxFlowControllAmong others env id frame t
  | some .consecFrame =>
      let t := callPrintCantpFrame frame t
      let t := mark t [(val t).ctx.rcvr.state.nameRead]
      if (val t).ctx.rcvr.state = .fcSent then rcvrRxConsecutiveFrame env id frame t else t
  | none => t

/-- The branch for a Flow Control frame when nothing else runs in between. -/
def canrxFlowControll (env : Env) (id : UInt32) (frame : CantpFrame) (t : τ) : τ :=
  canrxFlowControllAmong (fun c => c) env id frame t

/-- `cantp_canrx_cb` when nothing else runs in between. -/
def cantpCanrxCb (env : Env) (id : UInt32) (idt dlc : UInt8) (data : List UInt8) (t : τ) : τ :=
  cantpCanrxCbAmong (fun c => c) env id idt dlc data t

end Carrier

/-- A frame received from the link layer, with the answers of the outside while it
is handled. -/
structure RxFrame where
  env : Env
  id : UInt32
  idt : UInt8
  dlc : UInt8
  data : List UInt8

/-- The frame as `cantp_canrx_cb` reads it. -/
def RxFrame.frame (r : RxFrame) : CantpFrame := rxFrame r.dlc r.data

/-- The frame type, `none` for a nibble that stands for none. -/
def RxFrame.pci (r : RxFrame) : Option CantpNPciType := CantpNPciType.ofUInt8 r.frame.nPciT

/-- The frame `f` as the link layer delivers it. -/
def RxFrame.ofFrame (env : Env) (id : UInt32) (idt : UInt8) (f : CantpFrame) : RxFrame :=
  ⟨env, id, idt, 8, f.u8.toList⟩

/-- An outside that accepts every message, with a buffer of the announced length,
and every transmission. -/
def Env.accepting : Env where
  rcvrRxFfCb _ _ _ len := (0, some (List.replicate len.toNat 0))
  canTx _ := 0
  sndrStateSemTake := 0

/-- The calls a context can receive. -/
inductive Event
  | send (id : UInt32) (idt : UInt8) (data : List UInt8) (len : UInt16)
  | cantxConfirmCb
  | sndrTimerCb
  | sndrTimerExpiry
  | rcvrTimerCb
  | canrxCb (r : RxFrame)

/-- The calls made by the session layer to send a message. -/
def Event.isSend : Event → Bool
  | .send .. => true
  | _ => false

/-- The calls of the sender role: requests, confirmations, the sender timer and
received Flow Control frames. -/
def Event.isSndr : Event → Bool
  | .send .. | .cantxConfirmCb | .sndrTimerCb | .sndrTimerExpiry => true
  | .rcvrTimerCb => false
  | .canrxCb r => r.pci = some .flowControll

/-- The expiry of the sender timer. -/
def sndrTimerExpiry (w : World) : World :=
  if w.ctx.sndr.timer.isSome then cantpSndrTimerCb w.sndrTimerStop else w

/-- One call, handled to its end. -/
def handle : Event → World → World
  | .send id idt data len, w => cantpSend id idt data len w
  | .cantxConfirmCb, w => cantpCantxConfirmCb w
  | .sndrTimerCb, w => cantpSndrTimerCb w
  | .sndrTimerExpiry, w => sndrTimerExpiry w
  | .rcvrTimerCb, w => cantpRcvrTimerCb w
  | .canrxCb r, w => cantpCanrxCb r.env r.id r.idt r.dlc r.data w

/-- The machine of one context. -/
def canTp : Mealy CantpRxtxStatus Event Act where
  step c e :=
    let w := handle e ⟨c, []⟩
    (w.ctx, w.log)

theorem canTp_step (c : CantpRxtxStatus) (e : Event) :
    canTp.step c e = ((handle e ⟨c, []⟩).ctx, (handle e ⟨c, []⟩).log) := rfl

theorem rxFrame_eight (f : CantpFrame) : rxFrame 8 f.u8.toList = f := by
  apply CantpFrame.ext_byte
  intro i hi
  have h := CantpFrame.byte_fill 0 8 (fun i => f.u8.toList.getD i 0) CantpFrame.zero i
  simp only [Nat.zero_add, Nat.zero_le, true_and, hi, if_true, Nat.sub_zero] at h
  exact h

@[simp] theorem frame_ofFrame (env : Env) (id : UInt32) (idt : UInt8) (f : CantpFrame) :
    (RxFrame.ofFrame env id idt f).frame = f := rxFrame_eight f

end CanTp
