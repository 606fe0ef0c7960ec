import CanTp.Frame

/-!
# The CAN-TP context and the calls it makes

`CantpRxtxStatus` is `cantp_rxtx_status_t`: the sender state, the receiver state
and the parameters of one node. Semaphore and user pointers carry no data of the
protocol and are left out; a timer pointer is replaced by the state of the timer
it points to, `none` when the timer is stopped or has expired.

The functions of `can-tp.c` call the link layer, the session layer and the port.
Every such call is an `Act` of the log of a `World`, in the order in which the
calls are made; so are the accesses to the two session buffers, by index. The
answers of the outside come from an `Env`.
-/

namespace CanTp

/-- `enum CANTP_STATE_ENUM` -/
inductive CantpState
  | idle
  | sfSending
  | ffSending
  | ffSent
  | ffRcvd
  | ffFcWait
  | fcSending
  | fcSent
  | fcRcvd
  | cfWait
  | cfSending
  | cfSent
  | cfFcWait
  | txDone
  | rxDone
deriving DecidableEq, Repr

/-- `enum CANTP_RESULT_ENUM` -/
inductive CantpResult
  | nOk
  | nTimeoutAs
  | nTimeoutBs
  | nTimeoutCr
  | nWrongSn
  | nInvalidFs
  | nUnexpPdu
  | nWftOvrn
  | nBufferOvflw
  | nError
deriving DecidableEq, Repr

/-- The names under which the two timers of a context are started. -/
inductive TimerName
  | nAs
  | nBs
  | nCs
  | nAr
  | nBr
  | nCr
deriving DecidableEq, Repr

/-- A running timer. -/
structure Timer where
  name : TimerName
  toutUs : Nat
deriving DecidableEq, Repr

/-- `CANTP_N_AS_TIMER_MS` -/
def nAsTimerMs : Nat := 1000
/-- `CANTP_N_BS_TIMER_MS` -/
def nBsTimerMs : Nat := 1000
/-- `CANTP_N_CS_TIMER_MS` -/
def nCsTimerMs : Nat := 1000
/-- `CANTP_N_AR_TIMER_MS` -/
def nArTimerMs : Nat := 1000
/-- `CANTP_N_BR_TIMER_MS` -/
def nBrTimerMs : Nat := 1000
/-- `CANTP_N_CR_TIMER_MS` -/
def nCrTimerMs : Nat := 1000

/-- `cantp_params_t` -/
structure CantpParams where
  id : UInt32
  idt : UInt8
  blockSize : UInt8
  stMinUs : UInt32
  stMin : UInt8
  wftNum : UInt8
  wftMax : UInt8
  wftTimUs : UInt32
deriving DecidableEq, Repr

/-- `sndr_state_t`; `data` is the memory the pointer of that name points to. -/
structure SndrState where
  state : CantpState := .idle
  data : List UInt8 := []
  len : UInt16 := 0
  index : UInt16 := 0
  idPair : UInt32 := 0
  sn : UInt8 := 0
  bsPair : UInt8 := 0
  blIndex : UInt8 := 0
  stPair : UInt8 := 0
  stTimUs : UInt32 := 0
  timer : Option Timer := none
deriving DecidableEq, Repr

/-- `rcvr_state_t`; `data` is the session buffer, `none` for a null pointer. -/
structure RcvrState where
  state : CantpState := .idle
  data : Option (List UInt8) := none
  len : UInt16 := 0
  index : UInt16 := 0
  idPair : UInt32 := 0
  sn : UInt8 := 0
  blIndex : UInt8 := 0
  wftCntr : UInt8 := 0
  timer : Option Timer := none
deriving DecidableEq, Repr

/-- `cantp_rxtx_status_t` -/
structure CantpRxtxStatus where
  sndr : SndrState
  rcvr : RcvrState
  params : CantpParams
deriving DecidableEq, Repr

/-- A zeroed context whose parameters are `p`. -/
def CantpRxtxStatus.fresh (p : CantpParams) : CantpRxtxStatus := ⟨{}, {}, p⟩

/-- A call made by the transport layer, or an access to a session buffer. -/
inductive Act
  | canTxNb (id : UInt32) (idt dlc : UInt8) (frame : CantpFrame)
  | canTx (id : UInt32) (idt dlc : UInt8) (frame : CantpFrame) (toutUs : Nat)
  | sndrResultCb (result : CantpResult)
  | sndrTxDoneCb
  | receivedCb (id : UInt32) (idt : UInt8) (data : Option (List UInt8)) (len : UInt8)
  | rcvrRxFfCb (id : UInt32) (idt : UInt8) (len : UInt16)
  | usleep (us : UInt32)
  | sndrStateSemGive
  | sndrStateSemTake (toutUs : Nat)
  | printCantpFrame (frame : CantpFrame)
  | sndrRead (i : Nat)
  | rcvrWrite (i : Nat) (b : UInt8)
deriving DecidableEq, Repr

/-- The answers the outside gives while a received frame is handled. The session
layer sees the buffer pointer of the context and may set it; the answer of a
blocking transmission may depend on everything that happened before it. -/
structure Env where
  rcvrRxFfCb : UInt32 → UInt8 → Option (List UInt8) → UInt16 → Int × Option (List UInt8)
  canTx : List Act → Int
  sndrStateSemTake : Int

/-- A context together with the calls made so far. -/
@[ext] structure World where
  ctx : CantpRxtxStatus
  log : List Act

namespace World

/-- Makes the call `a`. -/
def emit (w : World) (a : Act) : World := { w with log := w.log ++ [a] }

@[simp] theorem emit_ctx (w : World) (a : Act) : (w.emit a).ctx = w.ctx := rfl

@[simp] theorem emit_log (w : World) (a : Act) : (w.emit a).log = w.log ++ [a] := rfl

/-- `cantp_timer_start(ctx->sndr.timer, name, tout_us)` -/
def sndrTimerStart (w : World) (name : TimerName) (toutUs : Nat) : World :=
  { w with ctx.sndr.timer := some ⟨name, toutUs⟩ }

/-- `cantp_timer_stop(ctx->sndr.timer)` -/
def sndrTimerStop (w : World) : World := { w with ctx.sndr.timer := none }

/-- `cantp_timer_start(ctx->rcvr.timer, name, tout_us)` -/
def rcvrTimerStart (w : World) (name : TimerName) (toutUs : Nat) : World :=
  { w with ctx.rcvr.timer := some ⟨name, toutUs⟩ }

/-- `cantp_timer_stop(ctx->rcvr.timer)` -/
def rcvrTimerStop (w : World) : World := { w with ctx.rcvr.timer := none }

@[simp] theorem sndrTimerStart_ctx (w : World) (name : TimerName) (toutUs : Nat) :
    (w.sndrTimerStart name toutUs).ctx =
      { w.ctx with sndr.timer := some ⟨name, toutUs⟩ } := rfl

@[simp] theorem sndrTimerStart_log (w : World) (name : TimerName) (toutUs : Nat) :
    (w.sndrTimerStart name toutUs).log = w.log := rfl

@[simp] theorem sndrTimerStop_ctx (w : World) :
    w.sndrTimerStop.ctx = { w.ctx with sndr.timer := none } := rfl

@[simp] theorem sndrTimerStop_log (w : World) : w.sndrTimerStop.log = w.log := rfl

@[simp] theorem rcvrTimerStart_ctx (w : World) (name : TimerName) (toutUs : Nat) :
    (w.rcvrTimerStart name toutUs).ctx =
      { w.ctx with rcvr.timer := some ⟨name, toutUs⟩ } := rfl

@[simp] theorem rcvrTimerStart_log (w : World) (name : TimerName) (toutUs : Nat) :
    (w.rcvrTimerStart name toutUs).log = w.log := rfl

@[simp] theorem rcvrTimerStop_ctx (w : World) :
    w.rcvrTimerStop.ctx = { w.ctx with rcvr.timer := none } := rfl

@[simp] theorem rcvrTimerStop_log (w : World) : w.rcvrTimerStop.log = w.log := rfl

/-- `cantp_can_tx(ctx->params->id, ctx->params->idt, 8, frame.u8, tout_us)`,
with its result. -/
def cantpCanTx (env : Env) (w : World) (frame : CantpFrame) (toutUs : Nat) : Int × World :=
  let w' := w.emit (.canTx w.ctx.params.id w.ctx.params.idt 8 frame toutUs)
  (env.canTx w'.log, w')

end World

end CanTp
