import CanTp.Sender.Transfer
import CanTp.Receiver.History
import CanTp.Library.Dialogue

/-!
# Two nodes on one bus

A sending node and a receiving node, each with its own context, joined by a link that
delivers every frame once and in order. Three things can happen to a `Link`: the next
frame of the sender is delivered, its transmission is confirmed, or the next Flow
Control frame comes in at the sender. Which one happens is left open, except that a
Flow Control frame comes in only when the frame it answers has been confirmed. Timers
do not expire while the link works.

An `Exchange` is one message between two such nodes, with everything that the outside
chooses; what it promises about the link and the session layer is part of it.
-/

namespace CanTp

open Library

/-- `cantp_can_frame_t` -/
structure CantpCanFrame where
  id : UInt32
  idt : UInt8
  dlc : UInt8
  frame : CantpFrame
deriving DecidableEq, Repr

/-- The frame as the link layer of the other node delivers it. -/
def CantpCanFrame.rx (f : CantpCanFrame) (env : Env) : RxFrame :=
  ⟨env, f.id, f.idt, f.dlc, f.frame.u8.toList⟩

/-- The frame of a call of `cantp_can_tx_nb`. -/
def Act.dataFrame : Act → Option CantpCanFrame
  | .canTxNb id idt dlc f => some ⟨id, idt, dlc, f⟩
  | _ => none

/-- The frame of a call of `cantp_can_tx`. -/
def Act.fcFrame : Act → Option CantpCanFrame
  | .canTx id idt dlc f _ => some ⟨id, idt, dlc, f⟩
  | _ => none

/-- The two nodes, all calls they have made, and how far the link has come. With a Flow
Control frame goes the number of frames received when it was sent; `waits` lists the
confirmations on which the sender entered `CF_FC_WAIT`. -/
structure Link where
  sndr : CantpRxtxStatus
  rcvr : CantpRxtxStatus
  sndrOut : List Act
  rcvrOut : List Act
  counters : Counters
  fcs : List (Nat × CantpCanFrame)
  waits : List Nat
deriving DecidableEq

/-- The frames the sender has handed to the link layer. -/
def Link.sent (l : Link) : List CantpCanFrame := l.sndrOut.filterMap Act.dataFrame

/-- A message of at most 4095 bytes, the parameters of the two nodes and the answers of
the outside: the environments in which the receiver handles its `n`-th frame and the
sender its `n`-th Flow Control frame. The receiver sends no FC.WAIT frames and a valid
STmin, the session layer accepts the First Frame of a segmented message with a buffer
of the announced length, and no transmission fails. -/
structure Exchange where
  id : UInt32
  idt : UInt8
  msg : List UInt8
  sndrParams : CantpParams
  rcvrParams : CantpParams
  sndrEnv : Nat → Env
  rcvrEnv : Nat → Env
  short : msg.length < 4096
  noWaits : rcvrParams.wftNum = 0
  stMin : (stTimUsOf rcvrParams.stMin).isSome
  accepts : sfNumDataBytes < msg.length →
    let answer := (rcvrEnv 0).rcvrRxFfCb id idt none (UInt16.ofNat msg.length)
    0 ≤ answer.1 ∧ ∃ buf, answer.2 = some buf ∧ msg.length ≤ buf.length
  transmits : ∀ n log, 0 ≤ (rcvrEnv n).canTx log

namespace Exchange

variable (x : Exchange)

/-- What happens next on the link. -/
inductive Turn
  | deliver
  | confirm
  | answer
deriving DecidableEq, Repr

/-- `cantp_send` on a fresh sender, and a fresh receiver. -/
def start : Link :=
  let p := canTp.step (.fresh x.sndrParams)
    (.send x.id x.idt x.msg (UInt16.ofNat x.msg.length))
  ⟨p.1, .fresh x.rcvrParams, p.2, [], ⟨0, 0, 0⟩, [], []⟩

/-- The receiver gets the frame `f`. -/
def delivered (l : Link) (f : CantpCanFrame) : Link :=
  let n := l.counters.received
  let p := canTp.step l.rcvr (.canrxCb (f.rx (x.rcvrEnv n)))
  { l with
    rcvr := p.1
    rcvrOut := l.rcvrOut ++ p.2
    counters.received := n + 1
    fcs := l.fcs ++ (p.2.filterMap Act.fcFrame).map fun g => (n + 1, g) }

/-- The sender gets a transmission confirmed. -/
def confirmed (l : Link) : Link :=
  let n := l.counters.confirmed
  let p := canTp.step l.sndr .cantxConfirmCb
  { l with
    sndr := p.1
    sndrOut := l.sndrOut ++ p.2
    counters.confirmed := n + 1
    waits := if l.sndr.sndr.state ≠ .cfFcWait ∧ p.1.sndr.state = .cfFcWait then
      l.waits ++ [n + 1] else l.waits }

/-- The sender gets the Flow Control frame `f`. -/
def answered (l : Link) (f : CantpCanFrame) : Link :=
  let n := l.counters.answered
  let p := canTp.step l.sndr (.canrxCb (f.rx (x.sndrEnv n)))
  { l with
    sndr := p.1
    sndrOut := l.sndrOut ++ p.2
    counters.answered := n + 1 }

/-- One turn of the link, if it is possible. -/
def turn : Turn → Link → Option Link
  | .deliver, l => l.sent[l.counters.received]?.map (x.delivered l)
  | .confirm, l => if l.counters.confirmed < l.sent.length then some (confirmed l) else none
  | .answer, l =>
      match l.fcs[l.counters.answered]? with
      | some (n, f) => if n ≤ l.counters.confirmed then some (x.answered l f) else none
      | none => none

/-- Some turn leads from one state of the link to the next. -/
def Step (l l' : Link) : Prop := ∃ t, x.turn t l = some l'

/-- The states of the link in the runs of the exchange. -/
def Reached (l : Link) : Prop := Relation.ReflTransGen x.Step x.start l

/-- The turns `ts` one after the other. -/
def runTurns : List Turn → Link → Option Link
  | [], l => some l
  | t :: ts, l => (x.turn t l).bind (runTurns ts)

variable {x}

theorem reached_runTurns {ts : List Turn} {l l' : Link} (h : x.Reached l)
    (hrun : x.runTurns ts l = some l') : x.Reached l' := by
  induction ts generalizing l with
  | nil => exact Option.some.inj hrun ▸ h
  | cons t ts ih =>
      obtain ⟨l₁, ht, hts⟩ := Option.bind_eq_some_iff.mp hrun
      exact ih (h.tail ⟨t, ht⟩) hts

end Exchange

end CanTp
