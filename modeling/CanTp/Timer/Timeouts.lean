import CanTp.Timer.Timed

/-!
# Time-outs of a sender

What the sender makes of the notifications of its timer, in every run of a context with its
timer. A notification that comes when the transfer is over is not reported. One that comes
after the timer has been started again is, although the new deadline is not over: so a
transfer whose frames are all confirmed can end in a time-out.
-/

namespace CanTp

open Library

/-! ### The sender in a run -/

section Sound

variable {c : CantpRxtxStatus} {e : Event}

theorem SndrSound.blIndex {s : SndrState} (h : SndrSound s) (b : UInt8) :
    SndrSound { s with blIndex := b } := by
  obtain ⟨htimer, ph, hph⟩ := h
  refine ⟨⟨htimer.idle, htimer.armed⟩, ph, ?_⟩
  cases ph with
  | idle | sf | ff => exact hph
  | ffWait =>
      obtain ⟨hst, hcur, hsn⟩ := hph
      exact ⟨hst, ⟨hcur.data_eq, hcur.len_eq, hcur.long, hcur.le, hcur.index_eq⟩, hsn⟩
  | cf k =>
      obtain ⟨hst, hcur, hk, hsn⟩ := hph
      exact ⟨hst, ⟨hcur.data_eq, hcur.len_eq, hcur.long, hcur.le, hcur.index_eq⟩, hk, hsn⟩
  | cfWait k =>
      obtain ⟨hst, hcur, hk, hlt, hsn⟩ := hph
      exact ⟨hst, ⟨hcur.data_eq, hcur.len_eq, hcur.long, hcur.le, hcur.index_eq⟩, hk, hlt, hsn⟩

theorem SndrSound.call (h : SndrSound c.sndr) (he : e.isCall = true) :
    SndrSound (canTp.step c e).1.sndr := by
  cases e with
  | send id idt data len => exact h.step trivial
  | cantxConfirmCb => exact h.step trivial
  | sndrTimerCb => cases he
  | sndrTimerExpiry => cases he
  | rcvrTimerCb => exact h
  | canrxCb r =>
      by_cases hr : r.pci = some .flowControll
      · exact h.step hr
      · obtain ⟨⟨bl, hsndr⟩, -⟩ := (rx_outcome c r).sndr_alone hr
        rw [canTp_step, hsndr]
        exact h.blIndex bl

end Sound

/-- The context is that of a sender between two events, and its timer goes with it. -/
structure TimedSound (s : TimedNode) : Prop where
  ctxOf : CtxOf s s.ctx
  sndr : SndrSound s.ctx.sndr

section Run

variable {s : TimedNode} {p : CantpParams} {es : List TimedEvent}

theorem timedSound_fresh (p : CantpParams) : TimedSound (.fresh p) :=
  ⟨ctxOf_fresh p, sndrSound_fresh p⟩

theorem TimedSound.step (h : TimedSound s) (e : TimedEvent) : TimedSound (timed.step s e).1 := by
  obtain ⟨hctx, hsndr⟩ := h
  have hafter := (hctx.step e).1
  refine ⟨by rw [hafter.ctx] at *; exact hafter, ?_⟩
  rw [hafter.ctx]
  cases e with
  | call e he => exact hsndr.call he
  | expire => exact hsndr
  | deliver =>
      rw [TimedNode.ctxEvents]
      split
      · exact hsndr.step (e := .sndrTimerExpiry) trivial
      · exact hsndr

theorem timedSound_run (p : CantpParams) (es : List TimedEvent) :
    TimedSound (timed.run (.fresh p) es) :=
  Mealy.run_induction (fun _ e h (_ : True) => h.step e) (timedSound_fresh p)
    (Mealy.admits_true _ es)

/-- The node reports a time-out on a notification. -/
def ReportsTimeout (s : TimedNode) : Prop :=
  ∃ r : CantpResult, r.isSndrTimeout = true ∧
    reportsMade (timed.step s .deliver).2 = [.result r] ∧
    (timed.step s .deliver).1.ctx.sndr.state = .idle

/-- The timer runs while the sender waits for something, and a notification is reported
exactly if it runs. In `CF_FC_WAIT` it may have been notified without a report. -/
structure TimeoutsRight (s : TimedNode) : Prop where
  waiting : s.tim.tim.status = some .run → s.ctx.sndr.state ≠ .idle
  running : s.ctx.sndr.state ≠ .idle → s.ctx.sndr.state ≠ .cfFcWait →
    s.tim.tim.status = some .run
  reports : ReportsTimeout s ↔ 0 < s.tim.inFlight ∧ s.tim.tim.status = some .run ∧
    s.ctx.sndr.state ≠ .cfFcWait
  silent : ¬ ReportsTimeout s → (timed.step s .deliver).2 = [] ∧
    (timed.step s .deliver).1.ctx.sndr.state = s.ctx.sndr.state

theorem TimedSound.callback (h : TimedSound s) (hcall : CallsBack s.tim .deliver) :
    timed.step s .deliver =
      (⟨(sndrTimerExpiry ⟨s.ctx, []⟩).ctx, (cbTimer.step s.tim .deliver).1⟩,
        (sndrTimerExpiry ⟨s.ctx, []⟩).log) := by
  rw [step_callsBack hcall, (h.ctxOf.expiry hcall).2]

theorem TimedSound.timeoutsRight (h : TimedSound s) : TimeoutsRight s := by
  obtain ⟨htimer, ph, hph⟩ := h.sndr
  have hwaiting : s.tim.tim.status = some .run → s.ctx.sndr.state ≠ .idle := fun hrun hidle => by
    have hsome := h.ctxOf.runs.mpr hrun
    rw [htimer.idle hidle] at hsome
    cases hsome
  have hcall_iff : CallsBack s.tim .deliver ↔
      0 < s.tim.inFlight ∧ s.tim.tim.status = some .run := by
    rw [callsBack_iff]
    exact ⟨fun hcall => ⟨hcall.2.1, hcall.2.2.1⟩, fun hrun => ⟨rfl, hrun.1, hrun.2, h.ctxOf.cb⟩⟩
  -- A callback in `CF_FC_WAIT` changes the timer only.
  have hmissed : CallsBack s.tim .deliver → s.ctx.sndr.state = .cfFcWait →
      (timed.step s .deliver).2 = [] ∧
        (timed.step s .deliver).1.ctx.sndr.state = s.ctx.sndr.state := fun hcall hst => by
    rw [h.callback hcall, expiry_cfFcWait hst]
    exact ⟨rfl, rfl⟩
  have hquiet : ¬ CallsBack s.tim .deliver → (timed.step s .deliver).2 = [] ∧
      (timed.step s .deliver).1.ctx.sndr.state = s.ctx.sndr.state := fun hcall => by
    rw [step_not_callsBack hcall]
    exact ⟨rfl, rfl⟩
  have hreports : CallsBack s.tim .deliver → s.ctx.sndr.state ≠ .cfFcWait →
      ReportsTimeout s := fun hcall hst => by
    obtain ⟨t, ht⟩ := Option.isSome_iff_exists.mp (h.ctxOf.expiry hcall).1
    have hidle := hwaiting (hcall_iff.mp hcall).2
    obtain ⟨r, hr, heq⟩ := expiry_eq ht hph hidle hst
    rw [ReportsTimeout, h.callback hcall, heq]
    exact ⟨r, hr, rfl, rfl⟩
  have hnone : (timed.step s .deliver).2 = [] → ¬ ReportsTimeout s := by
    rintro hnil ⟨r, -, hrep, -⟩
    rw [hnil] at hrep
    cases hrep
  refine ⟨hwaiting, fun hidle hwait => h.ctxOf.runs.mp (htimer.armed hidle hwait), ?_, ?_⟩
  · rw [← and_assoc, ← hcall_iff]
    constructor
    · intro hrep
      by_contra hnot
      rcases not_and_or.mp hnot with hcall | hst
      · exact hnone (hquiet hcall).1 hrep
      · by_cases hcall : CallsBack s.tim .deliver
        · exact hnone (hmissed hcall (not_not.mp hst)).1 hrep
        · exact hnone (hquiet hcall).1 hrep
    · exact fun hboth => hreports hboth.1 hboth.2
  · intro hrep
    by_cases hcall : CallsBack s.tim .deliver
    · exact hmissed hcall (not_not.mp fun hst => hrep (hreports hcall hst))
    · exact hquiet hcall

/-- In every run: whatever expires and is notified at whatever moment, a notification after
the end of a transfer is not reported, and one that comes while the timer runs ends the
transfer with one time-out, but in `CF_FC_WAIT`. -/
theorem timed_timeouts (p : CantpParams) (es : List TimedEvent) :
    TimeoutsRight (timed.run (.fresh p) es) :=
  (timedSound_run p es).timeoutsRight

/-! ### Notifications that come late -/

/-- The deadline is over, and only then is the frame confirmed. -/
def lateConfirm (s : TimedNode) : TimedNode :=
  timed.run s [.expire, .call .cantxConfirmCb rfl]

theorem lateConfirm_eq (s : TimedNode) : lateConfirm s =
    ⟨(cantpCantxConfirmCb (⟨s.ctx, []⟩ : World)).ctx,
      callTimer (cantxConfirmCalls s.ctx.sndr) (cbTimer.step s.tim .expire).1⟩ := rfl

/-- The confirmation leads to another frame, or to the wait for the answer to the First
Frame. -/
def GoesOn (s : SndrState) : Prop :=
  s.state = .ffSending ∨ s.state = .cfSending ∧ 0 < s.remaining ∧ ¬ s.BlockEnds

theorem armed_start (as : List TimerCall) (name : TimerName) {toutUs : Nat} (hpos : toutUs ≠ 0)
    (t : TimerState) : (callTimer (as ++ [.start name toutUs]) t).armed = true := by
  rw [callTimer, List.foldl_append, List.foldl_cons, List.foldl_nil, call_start_ctx]
  exact decide_eq_true hpos

/-- The last call of a confirmation after which the sender goes on is a start. -/
theorem GoesOn.armed {c : SndrState} (h : GoesOn c) (t : TimerState) :
    (callTimer (cantxConfirmCalls c) t).armed = true := by
  rcases h with hst | ⟨hst, hrem, hb⟩
  · rw [cantxConfirmCalls, hst]
    exact armed_start [.stop] .nBs (by decide) t
  · rw [cantxConfirmCalls, hst]
    simp only [if_neg (not_le.mpr hrem), if_neg hb]
    exact armed_start [.stop, .start .nCs (1000 * nCsTimerMs), .stop] .nAs (by decide) t

/-- The timer runs after a confirmation, outside `CF_FC_WAIT`, exactly if the sender goes
on. -/
theorem confirm_runs_iff {c : CantpRxtxStatus} (hsend : c.sndr.state.Sending) :
    ((cantpCantxConfirmCb (⟨c, []⟩ : World)).ctx.sndr.timer.isSome = true ∧
      (cantpCantxConfirmCb (⟨c, []⟩ : World)).ctx.sndr.state ≠ .cfFcWait) ↔ GoesOn c.sndr := by
  have hconf := confirm_outcome ⟨c, []⟩
  generalize cantpCantxConfirmCb ⟨c, []⟩ = w at hconf ⊢
  have hcf : c.sndr.state.CfOut → c.sndr.state = .cfSending := fun hout =>
    hout.resolve_right fun hsent => by
      rw [hsent] at hsend
      exact absurd hsend (by decide)
  have hout_iff : c.sndr.state.CfOut →
      (GoesOn c.sndr ↔ 0 < c.sndr.remaining ∧ ¬ c.sndr.BlockEnds) := fun hout => by
    rw [GoesOn, hcf hout]
    simp
  cases hconf with
  | single h =>
      have hst : c.sndr.state = .sfSending := h
      simp [GoesOn, hst]
  | first h =>
      have hst : c.sndr.state = .ffSending := h
      simp [GoesOn, hst]
  | negative h hrem =>
      rw [hout_iff h]
      exact iff_of_false (by simp) fun hgo => absurd hgo.1 (not_lt.mpr (le_of_lt hrem))
  | last h hrem =>
      rw [hout_iff h]
      exact iff_of_false (by simp) fun hgo => absurd hgo.1 (not_lt.mpr (le_of_eq hrem))
  | blockEnd h hrem hb =>
      rw [hout_iff h]
      exact iff_of_false (by simp) fun hgo => hgo.2 hb
  | next h hrem hb =>
      rw [hout_iff h]
      exact iff_of_true (by simp [sentCf, SndrState.afterCf]) ⟨hrem, hb⟩
  | other h hsent => exact absurd hsend h

/-- In every run, while a frame is to be confirmed: if its deadline passes and is notified
only after the confirmation, the sender reports a time-out exactly if it goes on with the
transfer, and it does so with the new deadline still ahead. -/
theorem stale_timeout_iff (p : CantpParams) (es : List TimedEvent)
    (hsend : (timed.run (.fresh p) es).ctx.sndr.state.Sending)
    (harmed : (timed.run (.fresh p) es).tim.armed = true) :
    (ReportsTimeout (lateConfirm (timed.run (.fresh p) es)) ↔
      GoesOn (timed.run (.fresh p) es).ctx.sndr) ∧
    (ReportsTimeout (lateConfirm (timed.run (.fresh p) es)) →
      (lateConfirm (timed.run (.fresh p) es)).tim.armed = true) := by
  have hsound := timedSound_run p (es ++ [.expire, .call .cantxConfirmCb rfl])
  rw [Mealy.run_append] at hsound
  change TimedSound (lateConfirm _) at hsound
  generalize timed.run (.fresh p) es = s at hsend harmed hsound ⊢
  have hflight : 0 < (lateConfirm s).tim.inFlight := by
    rw [lateConfirm_eq]
    change 0 < (callTimer _ _).inFlight
    rw [callTimer, (calls_frame _ _).2, step_expire, if_pos harmed]
    exact Nat.succ_pos _
  have hiff : ReportsTimeout (lateConfirm s) ↔ GoesOn s.ctx.sndr := by
    have hruns : (lateConfirm s).ctx.sndr.timer.isSome = true ↔
        (lateConfirm s).tim.tim.status = some .run := hsound.ctxOf.runs
    rw [hsound.timeoutsRight.reports, ← confirm_runs_iff hsend, ← hruns, lateConfirm_eq]
    exact ⟨fun h => h.2, fun h => ⟨hflight, h⟩⟩
  exact ⟨hiff, fun hrep => by rw [lateConfirm_eq]; exact (hiff.mp hrep).armed _⟩

/-- The First Frame of twenty bytes, confirmed after its deadline. -/
theorem stale_timeout_twenty :
    let es : List TimedEvent := [.call (.send 1 0 (List.replicate 20 7) 20) rfl]
    (ReportsTimeout (lateConfirm (timed.run (.fresh ⟨0, 0, 0, 0, 0, 0, 0, 0⟩) es)) ↔
      GoesOn (timed.run (.fresh ⟨0, 0, 0, 0, 0, 0, 0, 0⟩) es).ctx.sndr) ∧
    (ReportsTimeout (lateConfirm (timed.run (.fresh ⟨0, 0, 0, 0, 0, 0, 0, 0⟩) es)) →
      (lateConfirm (timed.run (.fresh ⟨0, 0, 0, 0, 0, 0, 0, 0⟩) es)).tim.armed = true) :=
  stale_timeout_iff _ _ (by decide) (by decide)

end Run

end CanTp
