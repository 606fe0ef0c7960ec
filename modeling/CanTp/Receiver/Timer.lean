import CanTp.Flow.Waits

/-!
# The timer of the receiver

A receiver that waits for a Consecutive Frame has its timer running, a receiver that waits
for nothing has not. `rcvr_rx_consecutive_frame` stops the timer before it looks at the
frame and starts it again where the frame is taken, so a frame it rejects leaves the
receiver waiting without a timer; a Single Frame ends a reception in `cantp_canrx_cb`
without a stop. These are the only two ways in which state and timer come apart.
-/

namespace CanTp

open Library

/-- The timer runs in `FC_SENT` and is stopped in `IDLE`, `TX_DONE` and `RX_DONE`. -/
structure RcvrTimerRight (s : RcvrState) : Prop where
  armed : s.state = .fcSent → s.timer.isSome = true
  stopped : s.state = .idle ∨ s.state = .txDone ∨ s.state = .rxDone → s.timer = none

/-- The frame `r` does not part the timer from the state: no Single Frame comes into a
reception, and no Consecutive Frame of the other node is rejected. -/
structure KeepsTimer (c : CantpRxtxStatus) (r : RxFrame) : Prop where
  single : r.pci = some .singleFrame → c.rcvr.state ≠ .fcSent ∧ c.rcvr.state ≠ .ffRcvd
  consec : r.pci = some .consecFrame → c.rcvr.state = .fcSent → c.rcvr.idPair = r.id →
    c.rcvr.Takes r.id r.frame

/-- The timer runs in `FC_SENT` and in `FF_RCVD`, and in no other state. -/
def RcvrTimerSound (s : RcvrState) : Prop :=
  s.timer.isSome = true ↔ s.state = .fcSent ∨ s.state = .ffRcvd

section Step

variable {c : CantpRxtxStatus} {r : RxFrame} {s : RcvrState} {w : World}

theorem RcvrTimerSound.right (h : RcvrTimerSound s) : RcvrTimerRight s := by
  refine ⟨fun hst => h.mpr (Or.inl hst), fun hst => Option.not_isSome_iff_eq_none.mp fun ht => ?_⟩
  rcases h.mp ht with hrun | hrun <;> simp [hrun] at hst

theorem RcvrTimerSound.of_some {t : Timer} (hst : s.state = .fcSent ∨ s.state = .ffRcvd)
    (ht : s.timer = some t) : RcvrTimerSound s :=
  iff_of_true (by rw [ht]; rfl) hst

theorem RcvrTimerSound.of_none (hst : ¬ (s.state = .fcSent ∨ s.state = .ffRcvd))
    (ht : s.timer = none) : RcvrTimerSound s :=
  iff_of_false (by simp [ht]) hst

theorem KeepsTimer.of_ne (hsf : r.pci ≠ some .singleFrame) (hcf : r.pci ≠ some .consecFrame) :
    KeepsTimer c r :=
  ⟨fun h => absurd h hsf, fun h => absurd h hcf⟩

theorem TakesCf.keepsTimer (h : TakesCf c r) : KeepsTimer c r :=
  ⟨fun hsf => absurd (hsf.symm.trans h.1) (by simp), fun _ _ _ => h.2.2⟩

/-- Every way to handle a frame, from a timer that fits its state. -/
theorem RxOutcome.timer (h : RxOutcome c r w) (hs : RcvrTimerSound c.rcvr) :
    (KeepsTimer c r → RcvrTimerSound w.ctx.rcvr) ∧
      (RcvrTimerRight w.ctx.rcvr → KeepsTimer c r) := by
  cases h with
  | unknown hpci => exact ⟨fun _ => hs, fun _ => .of_ne (by simp [hpci]) (by simp [hpci])⟩
  | flow hpci => exact ⟨fun _ => hs, fun _ => .of_ne (by simp [hpci]) (by simp [hpci])⟩
  | single hpci =>
      constructor
      · intro hkeeps
        obtain ⟨hfc, hff⟩ := hkeeps.single hpci
        refine .of_none (by simp) (Option.not_isSome_iff_eq_none.mp fun ht => ?_)
        exact (hs.mp ht).elim hfc hff
      · intro hright
        have hnone : ¬ c.rcvr.timer.isSome = true := by
          rw [show c.rcvr.timer = none from hright.stopped (Or.inr (Or.inr rfl))]
          simp
        exact ⟨fun _ => ⟨fun hst => hnone (hs.mpr (Or.inl hst)),
          fun hst => hnone (hs.mpr (Or.inr hst))⟩, fun hcf => absurd hpci (by simp [hcf])⟩
  | ffIgnored hpci => exact ⟨fun _ => hs, fun _ => .of_ne (by simp [hpci]) (by simp [hpci])⟩
  | ffRefused hpci =>
      exact ⟨fun _ => .of_none (by simp) rfl,
        fun _ => .of_ne (by simp [hpci]) (by simp [hpci])⟩
  | ffAbandoned hpci =>
      exact ⟨fun _ => .of_some (Or.inr rfl) rfl,
        fun _ => .of_ne (by simp [hpci]) (by simp [hpci])⟩
  | ffAccepted _ buf h =>
      exact ⟨fun _ => .of_some (Or.inl rfl) rfl,
        fun _ => .of_ne (by simp [h.1]) (by simp [h.1])⟩
  | cfIgnored hpci hst =>
      exact ⟨fun _ => hs, fun _ => ⟨fun hsf => absurd hpci (by simp [hsf]),
        fun _ hfc => absurd hfc hst⟩⟩
  | cfForeign hpci hst hid =>
      exact ⟨fun _ => hs, fun _ => ⟨fun hsf => absurd hpci (by simp [hsf]),
        fun _ _ heq => absurd heq hid⟩⟩
  | cfRejected hpci hst hid htake =>
      -- The timer is stopped and the receiver goes on waiting.
      refine ⟨fun hkeeps => absurd (hkeeps.consec hpci hst hid) htake, fun hright => ?_⟩
      exact absurd (hright.armed hst) (by simp [RcvrState.rejectCf])
  | cfLast h => exact ⟨fun _ => .of_none (by simp) rfl, fun _ => h.1.keepsTimer⟩
  | cfMore h =>
      obtain ⟨hctx, -⟩ := rcvrAwaitNext_spec r.env
        (w := ⟨{ c with rcvr := c.rcvr.storeCf r.frame },
          .printCantpFrame r.frame :: c.rcvr.cfWrites r.frame⟩) h.1.2.1
      refine ⟨fun _ => ?_, fun _ => h.1.keepsTimer⟩
      rw [hctx]
      exact .of_some (Or.inl h.1.2.1) rfl

theorem step_rcvrTimer (hs : RcvrTimerSound c.rcvr) (e : Event) :
    (Event.OnRx KeepsTimer c e → RcvrTimerSound (canTp.step c e).1.rcvr) ∧
      (RcvrTimerRight (canTp.step c e).1.rcvr → Event.OnRx KeepsTimer c e) := by
  cases e with
  | canrxCb r => exact (rx_outcome c r).timer hs
  | rcvrTimerCb => exact ⟨fun _ => hs, fun _ => trivial⟩
  | send | cantxConfirmCb | sndrTimerCb | sndrTimerExpiry =>
      rw [(sndr_effect c rfl).rcvr_eq]
      exact ⟨fun _ => hs, fun _ => trivial⟩

end Step

/-- In every run of a context: the timer fits the state between all frames exactly if no
Single Frame comes into a reception and no Consecutive Frame of the other node is
rejected. -/
theorem rcvrTimer_right_iff (p : CantpParams) (es : List Event) :
    (∀ pre, pre <+: es → RcvrTimerRight (canTp.run (.fresh p) pre).rcvr) ↔
      canTp.Admits (Event.OnRx KeepsTimer) (.fresh p) es := by
  have hfresh : RcvrTimerSound (CantpRxtxStatus.fresh p).rcvr := .of_none (by simp [
    CantpRxtxStatus.fresh]) rfl
  rw [Mealy.forall_prefix_iff (P := fun c : CantpRxtxStatus => RcvrTimerRight c.rcvr),
    and_iff_right hfresh.right]
  refine Mealy.admits_congr_of (P := fun c : CantpRxtxStatus => RcvrTimerSound c.rcvr)
    (fun c e hs => ?_) (fun c e hs hright => ?_) hfresh
  · obtain ⟨hkeep, hback⟩ := step_rcvrTimer hs e
    exact ⟨hback, fun h => (hkeep h).right⟩
  · obtain ⟨hkeep, hback⟩ := step_rcvrTimer hs e
    exact hkeep (hback hright)

/-- A Consecutive Frame with the number two comes first. -/
theorem rcvrTimer_not_right :
    ¬ ∀ (p : CantpParams) (es : List Event) (pre : List Event), pre <+: es →
      RcvrTimerRight (canTp.run (.fresh p) pre).rcvr := by
  intro h
  have hright := h ⟨0, 0, 0, 0, 0, 0, 0, 0⟩
    [.canrxCb (.ofFrame .accepting 5 0 (.ofList [0x10, 20, 1, 2, 3, 4, 5, 6])),
      .canrxCb (.ofFrame .accepting 5 0 (.ofList [0x22, 1, 2, 3, 4, 5, 6, 7]))]
    _ (List.prefix_refl _)
  exact absurd (hright.armed (by decide)) (by decide)

end CanTp
