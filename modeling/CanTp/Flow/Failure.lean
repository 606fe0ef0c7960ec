import CanTp.Flow.Waits

/-!
# Failed Flow Control transmissions

Where the transmission of a Flow Control frame fails, the comments of the source abort
the reception. The code only reports the failure to the session layer and goes on as if
the frame were sent: the receiver is in `FC_SENT` afterwards and waits for the next
Consecutive Frame, whatever the transmission has come to.
-/

namespace CanTp

open Library

/-- What belongs to a reception that goes on: Flow Control frames, stores, deliveries. -/
def Act.ofGoingOn : Act → Bool
  | .canTx .. | .rcvrWrite .. | .receivedCb .. => true
  | _ => false

/-- The reception is abandoned when a transmission fails: the receiver is in `IDLE` and
its timer stopped, no other Flow Control frame is sent after the one that failed, and the
Consecutive Frames still to come are neither stored nor delivered. -/
structure ReceptionAborted (c : CantpRxtxStatus) (r : RxFrame) : Prop where
  idle : (canTp.step c (.canrxCb r)).1.rcvr.state = .idle
  stopped : (canTp.step c (.canrxCb r)).1.rcvr.timer = none
  quiet : ∀ pre tx post, (canTp.step c (.canrxCb r)).2 = pre ++ tx :: post → tx.isFc = true →
    r.env.canTx (pre ++ [tx]) < 0 → ∀ a ∈ post, a.isFc = false
  ended : ∀ rs : List RxFrame,
    (∀ r' ∈ rs, r'.IsCf (canTp.step c (.canrxCb r)).1.rcvr.idPair) →
    ∀ a ∈ canTp.outputs (canTp.step c (.canrxCb r)).1 (rs.map .canrxCb), a.ofGoingOn = false

section Failure

variable {c : CantpRxtxStatus} {r : RxFrame} {w : World}

/-- A frame whose handling sends Flow Control leaves the receiver in `FC_SENT`, with
`N_Cr` running. -/
theorem RxOutcome.fcSent (h : RxOutcome c r w) {a : Act} (ha : a ∈ w.log)
    (hfc : a.isFc = true) :
    w.ctx.rcvr.state = .fcSent ∧ w.ctx.rcvr.timer = some ⟨.nCr, 1000 * nCrTimerMs⟩ := by
  cases h with
  | ffAccepted => exact ⟨rfl, rfl⟩
  | cfMore h =>
      obtain ⟨⟨-, hst, -⟩, -⟩ := h
      rw [(rcvrAwaitNext_spec r.env (by exact hst)).1]
      exact ⟨hst, rfl⟩
  | flow _ s log _ _ hlog =>
      have hflow := hlog a ha
      cases a <;> first | exact hflow.elim | cases hfc
  | cfLast =>
      rcases List.mem_cons.mp ha with rfl | ha
      · cases hfc
      · rcases List.mem_append.mp ha with ha | ha
        · obtain ⟨i, -, rfl⟩ := List.mem_map.mp ha
          cases hfc
        · rw [List.mem_singleton.mp ha] at hfc
          cases hfc
  | unknown => cases ha
  | single | ffRefused | ffAbandoned =>
      simp only [List.mem_cons, List.not_mem_nil, or_false] at ha
      rcases ha with rfl | rfl <;> cases hfc
  | ffIgnored | cfIgnored | cfForeign | cfRejected =>
      rw [List.mem_singleton.mp ha] at hfc
      cases hfc

theorem FcFails.fcSent (h : FcFails c r) :
    (canTp.step c (.canrxCb r)).1.rcvr.state = .fcSent ∧
      (canTp.step c (.canrxCb r)).1.rcvr.timer = some ⟨.nCr, 1000 * nCrTimerMs⟩ := by
  obtain ⟨pre, tx, post, hlog, hfc, -⟩ := h
  refine (rx_outcome c r).fcSent (a := tx) ?_ hfc
  change tx ∈ (canTp.step c (.canrxCb r)).2
  rw [hlog]
  exact List.mem_append_right _ (List.mem_cons_self ..)

end Failure

/-- For every context and every frame: where the transmission of a Flow Control frame
fails, the reception is not abandoned. -/
theorem not_receptionAborted (c : CantpRxtxStatus) (r : RxFrame) (h : FcFails c r) :
    ¬ ReceptionAborted c r := by
  intro habort
  have hidle := habort.idle
  rw [h.fcSent.1] at hidle
  cases hidle

theorem fcFails_first :
    FcFails (.fresh ⟨0, 0, 0, 0, 0, 0, 0, 0⟩)
      (.ofFrame { Env.accepting with canTx := fun _ => -1 } 5 0
        (ffFrame (List.replicate 20 7) 20)) := by
  let p : CantpParams := ⟨0, 0, 0, 0, 0, 0, 0, 0⟩
  let r : RxFrame := .ofFrame { Env.accepting with canTx := fun _ => -1 } 5 0
    (ffFrame (List.replicate 20 7) 20)
  exact ⟨ffLog r ⟨.fresh p, [.printCantpFrame r.frame]⟩, p.fcCall p.cts,
    [.sndrResultCb .nTimeoutAs], by decide, by decide, by decide⟩

theorem not_receptionAborted_first :
    ¬ ReceptionAborted (.fresh ⟨0, 0, 0, 0, 0, 0, 0, 0⟩)
      (.ofFrame { Env.accepting with canTx := fun _ => -1 } 5 0
        (ffFrame (List.replicate 20 7) 20)) :=
  not_receptionAborted _ _ fcFails_first

/-- The receiver whose FC.CTS is not sent waits for the first Consecutive Frame. -/
theorem failed_fc_not_aborted :
    ¬ ∀ (c : CantpRxtxStatus) (r : RxFrame), FcFails c r → ReceptionAborted c r := by
  intro h
  exact absurd (h _ _ fcFails_first).idle (by decide)

end CanTp
