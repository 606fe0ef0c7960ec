import CanTp.Sender.Transfer

/-!
# The timer of the sender

Between two events the sender timer runs exactly when the sender is not `IDLE`,
and its expiry ends the transfer with a timeout result, in every state but one:
`cantp_sndr_timer_cb` has no case for `CF_FC_WAIT`, in which `N_Bs` runs as it does
in `FF_FC_WAIT`.
-/

namespace CanTp

open Library

/-- The timeout results of the sender. -/
def CantpResult.isSndrTimeout : CantpResult → Bool
  | .nTimeoutAs | .nTimeoutBs => true
  | _ => false

/-- A sender state that does not survive its timeout: an armed timer that expires
sets the sender to `IDLE` with exactly one report, a timeout, and the timer is armed
exactly outside `IDLE`. -/
def TimeoutCovered (c : CantpRxtxStatus) : Prop :=
  (c.sndr.timer.isSome = true →
    (canTp.step c .sndrTimerExpiry).1.sndr.state = .idle ∧
    ∃ r : CantpResult, r.isSndrTimeout = true ∧
      reportsMade (canTp.step c .sndrTimerExpiry).2 = [.result r]) ∧
  (c.sndr.timer.isSome = true ↔ c.sndr.state ≠ .idle)

/-- The events of the sender: requests, confirmations, received Flow Control frames
and expiries of a timer that runs. -/
def SndrInput : Event → Prop
  | .send .. | .cantxConfirmCb | .sndrTimerExpiry => True
  | .sndrTimerCb | .rcvrTimerCb => False
  | .canrxCb r => r.pci = some .flowControll

instance (e : Event) : Decidable (SndrInput e) := by
  cases e <;> unfold SndrInput <;> infer_instance

/-- The timer is stopped in `IDLE` and runs in every other state, but for
`CF_FC_WAIT`, which it may have left by an expiry. -/
structure TimerSound (s : SndrState) : Prop where
  idle : s.state = .idle → s.timer = none
  armed : s.state ≠ .idle → s.state ≠ .cfFcWait → s.timer.isSome = true

/-- The invariant between two events. -/
structure SndrSound (s : SndrState) : Prop extends TimerSound s where
  phase : ∃ ph, InPhase s.data s.len.toNat s ph

theorem TimerSound.of_some {s : SndrState} {t : Timer} (hst : s.state ≠ .idle)
    (ht : s.timer = some t) : TimerSound s :=
  ⟨fun h => absurd h hst, fun _ _ => by rw [ht]; rfl⟩

theorem TimerSound.of_idle {s : SndrState} (hst : s.state = .idle) (ht : s.timer = none) :
    TimerSound s :=
  ⟨fun _ => ht, fun h => absurd hst h⟩

theorem InPhase.self {data : List UInt8} {len : Nat} {s : SndrState} {ph : Phase}
    (h : InPhase data len s ph) : InPhase s.data s.len.toNat s ph := by
  cases ph with
  | idle => exact h
  | sf => exact h
  | ff =>
      obtain ⟨hst, hdata, rfl, hlong⟩ := h
      exact ⟨hst, rfl, rfl, hlong⟩
  | ffWait =>
      obtain ⟨hst, hcur, hsn⟩ := h
      obtain rfl := hcur.len_eq
      exact ⟨hst, hcur.data_eq ▸ hcur, hsn⟩
  | cf k =>
      obtain ⟨hst, hcur, hsn⟩ := h
      obtain rfl := hcur.len_eq
      exact ⟨hst, hcur.data_eq ▸ hcur, hsn⟩
  | cfWait k =>
      obtain ⟨hst, hcur, hsn⟩ := h
      obtain rfl := hcur.len_eq
      exact ⟨hst, hcur.data_eq ▸ hcur, hsn⟩

theorem timerSound_sentCf (w : World) : TimerSound (sentCf w).ctx.sndr :=
  .of_some (t := ⟨.nAs, 1000 * nAsTimerMs⟩) (by simp [sentCf, SndrState.afterCf]) rfl

section Step

variable {c : CantpRxtxStatus} {ph : Phase}

theorem confirm_timerSound (h : TimerSound c.sndr)
    (hph : InPhase c.sndr.data c.sndr.len.toNat c.sndr ph) :
    TimerSound (cantpCantxConfirmCb (⟨c, []⟩ : World)).ctx.sndr := by
  have hconf := hph.confirmed
  generalize cantpCantxConfirmCb ⟨c, []⟩ = w at hconf ⊢
  cases hconf with
  | ignored => exact h
  | single | last => exact .of_idle rfl rfl
  | opening | blockEnd => exact .of_some (by simp) rfl
  | next => exact timerSound_sentCf _

theorem canrx_timerSound {r : RxFrame} (hr : r.pci = some .flowControll)
    (h : TimerSound c.sndr) (hph : InPhase c.sndr.data c.sndr.len.toNat c.sndr ph) :
    TimerSound (handle (.canrxCb r) ⟨c, []⟩).ctx.sndr := by
  have hans := hph.answered hr
  generalize handle (.canrxCb r) ⟨c, []⟩ = w at hans ⊢
  cases hans with
  | dropped => exact h
  | recorded us name hst => exact .of_some (by simp [SndrState.withFc, hst]) rfl
  | resumed => exact timerSound_sentCf _

/-- The expiry of a running timer ends the transfer, but in `CF_FC_WAIT`. -/
theorem expiry_eq {t : Timer} (ht : c.sndr.timer = some t)
    (hph : InPhase c.sndr.data c.sndr.len.toNat c.sndr ph) (hst : c.sndr.state ≠ .idle)
    (hwait : c.sndr.state ≠ .cfFcWait) :
    ∃ r : CantpResult, r.isSndrTimeout = true ∧ sndrTimerExpiry ⟨c, []⟩ =
      ⟨{ c with sndr.state := .idle, sndr.timer := none },
        [.sndrStateSemGive, .sndrResultCb r]⟩ := by
  rw [sndrTimerExpiry, if_pos (by simp [ht])]
  by_cases hsend : c.sndr.state.Sending
  · exact ⟨.nTimeoutAs, rfl, timerCb_sending (by exact hsend)⟩
  · refine ⟨.nTimeoutBs, rfl, timerCb_ffFcWait ?_⟩
    unfold CantpState.Sending at hsend
    change c.sndr.state = .ffFcWait
    cases ph with
    | idle => exact absurd hph hst
    | sf => exact absurd (Or.inl hph) hsend
    | ff => exact absurd (Or.inr (Or.inl hph.1)) hsend
    | ffWait => exact hph.1
    | cf k => exact absurd (Or.inr (Or.inr hph.1)) hsend
    | cfWait k => exact absurd hph.1 hwait

theorem expiry_cfFcWait (hst : c.sndr.state = .cfFcWait) :
    sndrTimerExpiry ⟨c, []⟩ = ⟨{ c with sndr.timer := none }, []⟩ := by
  rw [sndrTimerExpiry]
  by_cases ht : c.sndr.timer.isSome = true
  · rw [if_pos ht, timerCb_other (by simp [CantpState.Sending, hst]) (by simp [hst])]
    rfl
  · rw [if_neg ht]
    have hnone : c.sndr.timer = none := by simpa using ht
    rw [← hnone]

theorem expiry_timerSound (h : TimerSound c.sndr)
    (hph : InPhase c.sndr.data c.sndr.len.toNat c.sndr ph) :
    TimerSound (sndrTimerExpiry ⟨c, []⟩).ctx.sndr := by
  by_cases hwait : c.sndr.state = .cfFcWait
  · rw [expiry_cfFcWait hwait]
    exact ⟨fun _ => rfl, fun _ hne => absurd hwait hne⟩
  · cases ht : c.sndr.timer with
    | none =>
        simp only [sndrTimerExpiry, ht, Option.isSome_none, Bool.false_eq_true, if_false]
        exact h
    | some t =>
        have hst : c.sndr.state ≠ .idle := fun hidle => by
          rw [h.idle hidle] at ht
          cases ht
        obtain ⟨r, -, heq⟩ := expiry_eq ht hph hst hwait
        rw [heq]
        exact .of_idle rfl rfl

/-- Every event of the sender keeps the invariant. -/
theorem SndrSound.step {e : Event} (h : SndrSound c.sndr) (he : SndrInput e) :
    SndrSound (canTp.step c e).1.sndr := by
  obtain ⟨htimer, ph, hph⟩ := h
  have hmoves : e.isSndr = true → e.isSend = false →
      ∃ ph, InPhase (canTp.step c e).1.sndr.data (canTp.step c e).1.sndr.len.toNat
        (canTp.step c e).1.sndr ph := fun hs hn => by
    obtain ⟨ph', hin, -⟩ := sndr_moves hs hn hph
    exact ⟨ph', hin.self⟩
  cases e with
  | send id idt data len =>
      rw [canTp_step, handle]
      by_cases hlen : len.toNat ≤ sfNumDataBytes
      · rw [send_single hlen]
        exact ⟨.of_some (by simp) rfl, .sf, rfl⟩
      · rw [send_segmented (not_le.mp hlen)]
        exact ⟨.of_some (by simp) rfl, .ff, rfl, rfl, rfl, not_le.mp hlen⟩
  | cantxConfirmCb => exact ⟨confirm_timerSound htimer hph, hmoves rfl rfl⟩
  | sndrTimerCb => exact absurd he id
  | sndrTimerExpiry => exact ⟨expiry_timerSound htimer hph, hmoves rfl rfl⟩
  | rcvrTimerCb => exact absurd he id
  | canrxCb r =>
      exact ⟨canrx_timerSound he htimer hph, hmoves (decide_eq_true he) rfl⟩

end Step

/-- A sound state does not survive its timeout exactly when it is not `CF_FC_WAIT`. -/
theorem SndrSound.timeoutCovered_iff {c : CantpRxtxStatus} (h : SndrSound c.sndr) :
    TimeoutCovered c ↔ c.sndr.state ≠ .cfFcWait := by
  obtain ⟨htimer, ph, hph⟩ := h
  constructor
  · rintro ⟨hexp, harmed⟩ hwait
    have hst := (hexp (harmed.mpr (by simp [hwait]))).1
    rw [canTp_step, handle, expiry_cfFcWait hwait] at hst
    exact absurd (hwait.symm.trans hst) (by simp)
  · intro hwait
    have harmed : c.sndr.timer.isSome = true ↔ c.sndr.state ≠ .idle :=
      ⟨fun ht hidle => by simp [htimer.idle hidle] at ht,
        fun hst => htimer.armed hst hwait⟩
    refine ⟨?_, harmed⟩
    intro ht
    obtain ⟨t, ht'⟩ := Option.isSome_iff_exists.mp ht
    obtain ⟨r, hr, heq⟩ := expiry_eq ht' hph (harmed.mp ht) hwait
    rw [canTp_step, handle, heq]
    exact ⟨rfl, r, hr, rfl⟩

theorem sndrSound_fresh (p : CantpParams) : SndrSound (CantpRxtxStatus.fresh p).sndr :=
  ⟨.of_idle rfl rfl, .idle, rfl⟩

/-- In every reachable sender state: the timeout of the state is covered exactly
outside `CF_FC_WAIT`. -/
theorem sndrTimer_covered_iff (p : CantpParams) (es : List Event)
    (hes : ∀ e ∈ es, SndrInput e) :
    TimeoutCovered (canTp.run (.fresh p) es) ↔
      (canTp.run (.fresh p) es).sndr.state ≠ .cfFcWait := by
  have hsound : SndrSound (canTp.run (.fresh p) es).sndr :=
    Mealy.run_induction (P := fun c : CantpRxtxStatus => SndrSound c.sndr)
      (fun _ _ h he => h.step he)
      (sndrSound_fresh p) (Mealy.admits_of_forall hes _)
  exact hsound.timeoutCovered_iff

/-- A First Frame waits for its confirmation. -/
theorem sndrTimer_covered_ffSending :
    TimeoutCovered (canTp.run (.fresh ⟨0, 0, 0, 0, 0, 0, 0, 0⟩)
      [.send 1 0 (List.replicate 20 7) 20]) :=
  (sndrTimer_covered_iff ⟨0, 0, 0, 0, 0, 0, 0, 0⟩ [.send 1 0 (List.replicate 20 7) 20]
    (by decide)).mpr (by decide)

/-- Twenty bytes to a receiver with blocks of one frame: after the first Consecutive
Frame the sender waits in `CF_FC_WAIT`, where its timer runs without effect. -/
theorem sndrTimer_survived :
    ¬ ∀ (p : CantpParams) (es : List Event), (∀ e ∈ es, SndrInput e) →
      TimeoutCovered (canTp.run (.fresh p) es) := by
  intro h
  have hcov := h ⟨0, 0, 0, 0, 0, 0, 0, 0⟩
    [.send 1 0 (List.replicate 20 7) 20, .cantxConfirmCb,
      .canrxCb (.ofFrame .accepting 5 0 (.ofList [0x30, 1, 0])), .cantxConfirmCb]
    (by decide)
  exact absurd (hcov.1 (by decide)).1 (by decide)

end CanTp
