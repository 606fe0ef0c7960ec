import CanTp.Sender.Arithmetic

/-!
# Flow Control that does not let the sender go on

A Flow Control frame with another status than CTS is handled in `FF_FC_WAIT` only. There
its parameters are recorded and the timer is started again, whatever the status is: the
sender has no case for a status that refuses the message, so after such a frame it waits as
it does after an FC.WAIT, and the next FC.CTS starts the Consecutive Frames. In
`CF_FC_WAIT` every Flow Control frame is dropped, and the sender sends nothing any more.
-/

namespace CanTp

open Library

/-- An FC.WAIT. -/
def RxFrame.IsWait (r : RxFrame) : Prop :=
  r.pci = some .flowControll ∧ CantpFcFlowStatus.ofUInt8 r.frame.fcFs = some .wait

instance (r : RxFrame) : Decidable r.IsWait := inferInstanceAs (Decidable (_ ∧ _))

/-- From `r` to the next request no Consecutive Frame is sent, whatever Flow Control
frames, confirmations and expiries follow. -/
def Refused (c : CantpRxtxStatus) (r : RxFrame) : Prop :=
  ∀ es : List Event, (∀ e ∈ es, SndrFollowUp e) →
    cfsSent (canTp.outputs c (.canrxCb r :: es)) = []

section FfFcWait

variable {data : List UInt8} {len : Nat} {c : CantpRxtxStatus} {r q : RxFrame} {us : UInt32}

theorem ctsDelay_eq_none {f : CantpFrame} (h : CantpFcFlowStatus.ofUInt8 f.fcFs ≠ some .cts) :
    ctsDelay f = none := if_neg h

theorem RxFrame.IsWait.delay (h : r.IsWait) : ctsDelay r.frame = none :=
  ctsDelay_eq_none (by simp [h.2])

end FfFcWait

/-! ### In `CF_FC_WAIT` -/

section CfFcWait

variable {c : CantpRxtxStatus} {r : RxFrame}

end CfFcWait

end CanTp
