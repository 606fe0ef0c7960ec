import CanTp.Library.Tally
import CanTp.Sender.Arithmetic

/-!
# What becomes of a request

`cantp_send` does not look at the state of the sender: it drops a request in progress
without a report. Every other request is reported by the sender once or is still in
progress, whatever calls of both roles come in between.
-/

namespace CanTp

open Library

/-- A request is in progress. -/
def CantpRxtxStatus.pending (c : CantpRxtxStatus) : Nat := if c.sndr.state = .idle then 0 else 1

/-- `cantp_send` overtakes a request in progress. -/
def overtaken (c : CantpRxtxStatus) (e : Event) : Nat := if e.isSend then c.pending else 0

/-- The reports made by a call of the sender role. -/
def reported (c : CantpRxtxStatus) (e : Event) : Nat :=
  if e.isSndr then (reportsMade (canTp.step c e).2).length else 0


section Step

variable {data : List UInt8} {len : Nat} {c : CantpRxtxStatus} {ph : Phase} {e : Event}

theorem InPhase.pending (h : InPhase data len c.sndr ph) :
    c.pending = if ph.progress = .ended then 0 else 1 := by
  rw [CantpRxtxStatus.pending, h.state_eq]
  cases ph <;> rfl

theorem pending_send (c : CantpRxtxStatus) (id : UInt32) (idt : UInt8) (data : List UInt8)
    (len : UInt16) :
    (canTp.step c (.send id idt data len)).1.pending = 1 ∧
      reportsMade (canTp.step c (.send id idt data len)).2 = [] := by
  rw [canTp_step, handle]
  by_cases hlen : len.toNat ≤ sfNumDataBytes
  · rw [send_single hlen]
    exact ⟨rfl, rfl⟩
  · rw [send_segmented (not_le.mp hlen)]
    exact ⟨rfl, rfl⟩

theorem pending_rcvr (he : e.isSndr = false) : (canTp.step c e).1.pending = c.pending := by
  cases e with
  | canrxCb r =>
      have hpci : r.pci ≠ some .flowControll := by simpa [Event.isSndr] using he
      obtain ⟨⟨bl, hsndr⟩, -⟩ := (rx_outcome c r).sndr_alone hpci
      have hstate : (canTp.step c (.canrxCb r)).1.sndr = { c.sndr with blIndex := bl } := hsndr
      rw [CantpRxtxStatus.pending, hstate]
      rfl
  | rcvrTimerCb => rfl
  | send | cantxConfirmCb | sndrTimerCb | sndrTimerExpiry => cases he

/-- Every call settles what it takes out of progress. -/
theorem settled_step (h : InPhase data len c.sndr ph) (e : Event) :
    c.pending + (if e.isSend then 1 else 0) =
      overtaken c e + reported c e + (canTp.step c e).1.pending := by
  rw [overtaken, reported]
  cases hsend : e.isSend with
  | true =>
      cases e with
      | send id idt data len =>
          obtain ⟨hpending, hreports⟩ := pending_send c id idt data len
          rw [hpending, hreports]
          rfl
      | _ => cases hsend
  | false =>
      cases hsndr : e.isSndr with
      | true =>
          obtain ⟨ph', hph', hstep⟩ := sndr_moves hsndr hsend h
          have hpending : (canTp.step c e).1.pending = _ := hph'.pending
          rw [h.pending, hpending, hstep.reports]
          simp [reportsMade, canTp_step]
      | false =>
          rw [pending_rcvr hsndr]
          simp

end Step

theorem requests_balance : canTp.Balances
    (fun c => ∃ ph, InPhase c.sndr.data c.sndr.len.toNat c.sndr ph) CantpRxtxStatus.pending
    (fun _ e => if e.isSend then 1 else 0) (fun c e => overtaken c e + reported c e) where
  keeps _ e h := step_phase h e
  step _ e h := h.elim fun _ hph => settled_step hph e

/-- In every run each request has been reported by the sender once, or has been overtaken by
the next one, or is the one in progress. -/
theorem requests_accounted (p : CantpParams) (es : List Event) :
    es.countP Event.isSend = canTp.tally overtaken (.fresh p) es +
      canTp.tally reported (.fresh p) es + (canTp.run (.fresh p) es).pending := by
  have hrun := requests_balance.run (s := .fresh p) ⟨.idle, rfl⟩ es
  rw [Mealy.tally_countP, Mealy.tally_add] at hrun
  exact (Nat.zero_add _).symm.trans hrun

end CanTp
