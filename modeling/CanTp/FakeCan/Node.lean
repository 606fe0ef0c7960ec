import CanTp.FakeCan.Phy
import CanTp.Library.Pipes

/-!
# The link layer of the test

`fakeCan env` is one process of the test: a CAN-TP context on the link layer of
`fake_can_linux.c`. It has one flow of control. In `fake_can_rx_task` the process reads
the 14 bytes of a frame, acknowledges them with one byte and calls `fake_canrx_cb`. What
the transport layer transmits meanwhile is written, and the process waits in
`sem_wait(&tx_done_sem)` until `fake_can_tx_ack_thread` has read one byte, whatever its
value is. After `fake_can_tx_nb` the confirmation is called from there, before the
handler that has asked for the transmission returns.

A transmission that is acknowledged in time is the only kind here: `fake_can_tx` returns
zero.
-/

namespace CanTp

open Library

/-- A frame that a handler transmits, with `fake_can_tx_nb` if `nb` is set and with
`fake_can_tx` otherwise. -/
structure FakeCanTx where
  nb : Bool
  frame : CantpCanFrame
deriving DecidableEq, Repr

/-- `cantp_can_tx_nb` and `cantp_can_tx` on this link layer. -/
def Act.fakeCanTx : Act → Option FakeCanTx
  | .canTxNb id idt dlc f => some ⟨true, id, idt, dlc, f⟩
  | .canTx id idt dlc f _ => some ⟨false, id, idt, dlc, f⟩
  | _ => none

/-- Where a process stands: in the `fread` of `fake_can_rx_task`, before the call of
`fake_canrx_cb` with a frame that it has acknowledged, or in the wait for the end of a
transmission, with the transmissions that come after it. -/
inductive FakeCanStage
  | receiving
  | indicating (f : CantpCanFrame)
  | waiting (nb : Bool) (rest : List FakeCanTx)
deriving DecidableEq, Repr

/-- One process, with the calls its transport layer has made and the number of frames
that were indicated to it. -/
structure FakeCanNode where
  ctx : CantpRxtxStatus
  out : List Act
  frames : Nat
  canFrame : FakeCanPhy
  stage : FakeCanStage
deriving DecidableEq

namespace FakeCanNode

/-- A process that has not done anything. -/
def fresh (ctx : CantpRxtxStatus) : FakeCanNode := ⟨ctx, [], 0, ⟨Vector.replicate 14 0⟩, .receiving⟩

/-- The transport layer handles `e`; with it come the transmissions it asks for. -/
def handles (n : FakeCanNode) (e : Event) : FakeCanNode × List FakeCanTx :=
  let p := canTp.step n.ctx e
  ({ n with ctx := p.1, out := n.out ++ p.2 }, p.2.filterMap Act.fakeCanTx)

/-- Writes the first of the frames and waits, or goes back to `fake_can_rx_task`. -/
def transmit (n : FakeCanNode) : List FakeCanTx → FakeCanNode × List UInt8
  | [] => ({ n with stage := .receiving }, [])
  | t :: rest =>
      let p := n.canFrame.put t.frame
      ({ n with canFrame := p, stage := .waiting t.nb rest }, p.u8.toList)

/-- `fake_canrx_cb` with the frame `f`. -/
def indicate (env : Env) (n : FakeCanNode) (f : CantpCanFrame) : FakeCanNode × List UInt8 :=
  let p := n.handles (.canrxCb (f.rx env))
  { p.1 with frames := n.frames + 1 }.transmit p.2

/-- `fake_cantx_confirm_cb`, with the transmissions that come after it. -/
def confirm (n : FakeCanNode) (rest : List FakeCanTx) : FakeCanNode × List UInt8 :=
  let p := n.handles .cantxConfirmCb
  p.1.transmit (p.2 ++ rest)

/-- A process that goes back to `fake_can_rx_task` or waits. -/
def Returned (n : FakeCanNode) : Prop :=
  n.stage = .receiving ∨ ∃ nb rest, n.stage = .waiting nb rest

theorem transmit_spec (n : FakeCanNode) (ts : List FakeCanTx) :
    (n.transmit ts).1.Returned ∧ (n.transmit ts).1.frames = n.frames := by
  cases ts with
  | nil =>
      rw [transmit]
      exact ⟨.inl rfl, rfl⟩
  | cons t rest =>
      rw [transmit]
      exact ⟨.inr ⟨t.nb, rest, rfl⟩, rfl⟩

theorem indicate_spec (env : Env) (n : FakeCanNode) (f : CantpCanFrame) :
    (n.indicate env f).1.Returned ∧ (n.indicate env f).1.frames = n.frames + 1 :=
  transmit_spec { (n.handles (.canrxCb (f.rx env))).1 with frames := n.frames + 1 } _

theorem confirm_spec (n : FakeCanNode) (rest : List FakeCanTx) :
    (n.confirm rest).1.Returned ∧ (n.confirm rest).1.frames = n.frames :=
  transmit_spec (n.handles .cantxConfirmCb).1 _

end FakeCanNode

/-- The answers of the outside, over a link layer that has every frame acknowledged. -/
def Env.acked (env : Env) : Env := { env with canTx := fun _ => 0 }

/-- The process, with the answers of the outside to the frames indicated to it. -/
def fakeCan (env : Nat → Env) : Process FakeCanNode UInt8 where
  needs n :=
    match n.stage with
    | .receiving => 14
    | .indicating _ => 0
    | .waiting .. => 1
  act n bytes :=
    match n.stage with
    | .receiving =>
        ({ n with stage := .indicating (FakeCanPhy.ofList bytes).get },
          [CandrvFrameType.ack.toUInt8])
    | .indicating f => n.indicate (env n.frames).acked f
    | .waiting true rest => n.confirm rest
    | .waiting false rest => n.transmit rest

/-- What an action of a process does to its stage: a frame is read, a frame is handled, or a
transmission has ended. -/
theorem fakeCan_act_cases (env : Nat → Env) (n : FakeCanNode) (bytes : List UInt8) :
    let n' := ((fakeCan env).act n bytes).1
    n.stage = .receiving ∧ (∃ f, n'.stage = .indicating f) ∧ n'.frames = n.frames ∨
      n'.Returned ∧ ((∃ f, n.stage = .indicating f) ∧ n'.frames = n.frames + 1 ∨
        (∃ nb rest, n.stage = .waiting nb rest) ∧ n'.frames = n.frames) := by
  obtain ⟨ctx, out, frames, canFrame, stage⟩ := n
  cases stage with
  | receiving => exact .inl ⟨rfl, ⟨_, rfl⟩, rfl⟩
  | indicating f =>
      obtain ⟨hret, hframes⟩ := FakeCanNode.indicate_spec (env frames).acked
        ⟨ctx, out, frames, canFrame, .indicating f⟩ f
      exact .inr ⟨hret, .inl ⟨⟨f, rfl⟩, hframes⟩⟩
  | waiting nb rest =>
      cases nb with
      | true =>
          obtain ⟨hret, hframes⟩ := FakeCanNode.confirm_spec
            ⟨ctx, out, frames, canFrame, .waiting true rest⟩ rest
          exact .inr ⟨hret, .inr ⟨⟨true, rest, rfl⟩, hframes⟩⟩
      | false =>
          obtain ⟨hret, hframes⟩ := FakeCanNode.transmit_spec
            ⟨ctx, out, frames, canFrame, .waiting false rest⟩ rest
          exact .inr ⟨hret, .inr ⟨⟨false, rest, rfl⟩, hframes⟩⟩

theorem FakeCanNode.confirm_nil (n : FakeCanNode) :
    n.confirm [] = (n.handles .cantxConfirmCb).1.transmit (n.handles .cantxConfirmCb).2 := by
  rw [confirm, List.append_nil]

end CanTp
