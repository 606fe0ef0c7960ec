import CanTp.Context
import CanTp.Library.Carrier

/-!
# What the functions of `can-tp.c` run over

The functions are written over a carrier `τ` of a `World`: `val t` is the world that `t`
carries, `on t f` changes it by `f`, `mark t` notes elements that are accessed, and `call t`
is a call of `cantp_can_tx_nb`. On the bare world they are the functions as they stand. With
a trace they tell which elements they access: the bytes of `rx_frame` and of the driver's
buffer, and the entries of the three tables of names. Verbose logging is off, and with it
the names of the sender state in the branch for Flow Control. Over a port they have their
transmissions confirmed before `cantp_can_tx_nb` returns.
-/

namespace CanTp

open Library

/-- An element that is read or written. -/
inductive Access
  | rxFrame (i : Nat)
  | rxData (i : Nat)
  | printed (i : Nat)
  | frameName (i : Nat)
  | flowStatusName (i : Nat)
  | stateName (i : Nat)
  | unset
deriving DecidableEq, Repr

/-- The value of the enumerator, as stored in `state`. -/
def CantpState.toUInt8 : CantpState → UInt8
  | .idle => 0
  | .sfSending => 1
  | .ffSending => 2
  | .ffSent => 3
  | .ffRcvd => 4
  | .ffFcWait => 5
  | .fcSending => 6
  | .fcSent => 7
  | .fcRcvd => 8
  | .cfWait => 9
  | .cfSending => 10
  | .cfSent => 11
  | .cfFcWait => 12
  | .txDone => 13
  | .rxDone => 14

/-- `cantp_state_enum_str[state]` -/
def CantpState.nameRead (st : CantpState) : Access := .stateName st.toUInt8.toNat

/-- `print_cantp_frame`: the name of the type, and then the data bytes or the name of the
flow status. For a type that is none, `datalen` and `dataptr` are read without a value. -/
def printCantpFrame (f : CantpFrame) : List Access :=
  .frameName f.nPciT.toNat ::
    match CantpNPciType.ofUInt8 f.nPciT with
    | some .singleFrame => (List.range sfNumDataBytes).map fun i => .printed (1 + i)
    | some .firstFrame => (List.range ffNumDataBytes).map fun i => .printed (2 + i)
    | some .consecFrame => (List.range cfNumDataBytes).map fun i => .printed (1 + i)
    | some .flowControll => [.flowStatusName f.fcFs.toNat]
    | none => [.unset]

/-- `cantp_received_cb` prints the `len` bytes from `rx_frame.sf.d` on. -/
def receivedSf (len : UInt8) : List Access :=
  (List.range len.toNat).map fun i => .rxFrame (1 + i)

/-- A call of `cantp_can_tx_nb`. -/
structure TxNb where
  id : UInt32
  idt : UInt8
  dlc : UInt8
  frame : CantpFrame

/-- The transmission of a frame, as the link layer sees it. -/
def emitTx (x : TxNb) (w : World) : World := w.emit (.canTxNb x.id x.idt x.dlc x.frame)

/-- The bare world: accesses leave no trace, and a transmission is handed over. -/
@[default_instance]
instance : Carrier World World Access TxNb where
  val w := w
  on w f := f w
  mark w _ := w
  call w x := emitTx x w
  val_on _ _ := rfl
  val_mark _ _ := rfl

namespace World

@[simp] theorem val_eq (w : World) : Carrier.val w = w := rfl

@[simp] theorem on_eq (w : World) (f : World → World) : Carrier.on w f = f w := rfl

@[simp] theorem mark_eq (w : World) (as : List Access) : Carrier.mark w as = w := rfl

@[simp] theorem call_eq (w : World) (x : TxNb) :
    Carrier.call w x = w.emit (.canTxNb x.id x.idt x.dlc x.frame) := rfl

end World

section Carrier

open Carrier (val on mark call)

variable {τ : Type} [Carrier τ World Access TxNb]

/-- `cantp_sndr_set_state` -/
def cantpSndrSetState (t : τ) (state : CantpState) : τ :=
  on (mark t [state.nameRead]) fun w =>
    { w with ctx.sndr.state := state }.emit .sndrStateSemGive

/-- `cantp_rcvr_set_state` -/
def cantpRcvrSetState (t : τ) (state : CantpState) : τ :=
  on (mark t [state.nameRead]) fun w => { w with ctx.rcvr.state := state }

/-- The call of `print_cantp_frame`. -/
def callPrintCantpFrame (f : CantpFrame) (t : τ) : τ :=
  on (mark t (printCantpFrame f)) (·.emit (.printCantpFrame f))

/-- `cantp_can_tx_nb(ctx->params->id, ctx->params->idt, 8, frame.u8)` -/
def cantpCanTxNb (t : τ) (frame : CantpFrame) : τ :=
  call t ⟨(val t).ctx.params.id, (val t).ctx.params.idt, 8, frame⟩

end Carrier

section Bare

variable (w : World) (state : CantpState)

@[simp] theorem cantpSndrSetState_ctx :
    (cantpSndrSetState w state).ctx = { w.ctx with sndr.state := state } := rfl

@[simp] theorem cantpSndrSetState_log :
    (cantpSndrSetState w state).log = w.log ++ [.sndrStateSemGive] := rfl

@[simp] theorem cantpRcvrSetState_ctx :
    (cantpRcvrSetState w state).ctx = { w.ctx with rcvr.state := state } := rfl

@[simp] theorem cantpRcvrSetState_log : (cantpRcvrSetState w state).log = w.log := rfl

@[simp] theorem callPrintCantpFrame_eq (f : CantpFrame) :
    callPrintCantpFrame f w = w.emit (.printCantpFrame f) := rfl

@[simp] theorem cantpCanTxNb_eq (f : CantpFrame) :
    cantpCanTxNb w f = w.emit (.canTxNb w.ctx.params.id w.ctx.params.idt 8 f) := rfl

end Bare

end CanTp
