import CanTp.Timer.Cbtimer
import CanTp.Dispatch
import CanTp.Library.Ghost

/-!
# Notifications of a timer

The kernel notifies an expiry at any time after it, also when the timer has been stopped or
started again meanwhile, and a notification does not say which start it belongs to. What
`cbtimer_cb` has to go by is the status: it keeps the callback away from a timer that is
stopped, and from a run that has had its callback, but an old notification that comes after
a new start is taken for one of the new run.

To say which run a callback is for, a timer is run with a record of what has happened since
its last start. The timer of a context, which runs or does not, stands for the status alone:
an expiry that it can have at any time is a notification of whichever start.
-/

namespace CanTp

open Library

/-- What happens to a timer: calls of the program, and expiries and notifications of the
kernel. -/
inductive TimerEvent
  | start (us : Int)
  | stop
  | expire
  | deliver
deriving DecidableEq, Repr

/-- The events that happen by themselves. -/
def TimerEvent.IsKernel : TimerEvent → Prop
  | .expire | .deliver => True
  | .start _ | .stop => False

/-- One event. A timer without a deadline does not expire, and the deadline of a timer that
does is gone, as its interval is zero. -/
def timerHandle : TimerEvent → TimerWorld → TimerWorld
  | .start us, w => (cbtimerStart us w).2
  | .stop, w => cbtimerStop w
  | .expire, w =>
      if w.ctx.armed = true then
        { w with ctx.armed := false, ctx.inFlight := w.ctx.inFlight + 1 }
      else w
  | .deliver, w =>
      if 0 < w.ctx.inFlight then
        cbtimerCb { w with ctx.inFlight := w.ctx.inFlight - 1 }
      else w

/-- The machine of one timer. -/
def cbTimer : Mealy TimerState TimerEvent CbtimerAct where
  step s e :=
    let w := timerHandle e ⟨s, []⟩
    (w.ctx, w.log)

/-- A timer after `cbtimer_set_cb` with a callback. -/
def TimerState.fresh : TimerState where
  tim := (cbtimerSetCb 0 true ⟨none, 0, none, false⟩).2
  armed := false
  inFlight := 0

/-- What has happened since the last start; `due` says that this start has set a deadline. -/
structure SinceStart where
  started : Bool := false
  stopped : Bool := false
  due : Bool := false
  expired : Bool := false
  calls : Nat := 0
deriving DecidableEq, Repr

/-- The record after the event `e` in the state `s`. -/
def sinceStart (s : TimerState) (g : SinceStart) (e : TimerEvent) : SinceStart :=
  match e with
  | .start us => { started := true, due := decide (0 < us) }
  | .stop => { g with stopped := true }
  | .expire => { g with expired := g.expired || (s.armed && g.due) }
  | .deliver => { g with calls := g.calls + (cbTimer.step s .deliver).2.count .cb }

/-- The machine of one timer, with the record. -/
def cbTimerRecorded : Mealy (TimerState × SinceStart) TimerEvent CbtimerAct :=
  cbTimer.withGhost sinceStart

/-- The callback is called. -/
def CallsBack (s : TimerState) (e : TimerEvent) : Prop := .cb ∈ (cbTimer.step s e).2

/-- A callback belongs to the run of the timer: it is the only one since the start, the timer
is not stopped, and the deadline is over. -/
structure CallbackCurrent (s : TimerState × SinceStart) (e : TimerEvent) : Prop where
  once : (sinceStart s.1 s.2 e).calls ≤ 1
  running : CallsBack s.1 e → s.2.started = true ∧ s.2.stopped = false
  expired : CallsBack s.1 e → s.2.expired = true

/-- A start finds no notification in flight, and no deadline that it leaves as it is. -/
def StartsClean (s : TimerState × SinceStart) : TimerEvent → Prop
  | .start us => s.1.inFlight = 0 ∧ (us < 0 → s.1.armed = false)
  | _ => True

/-- The status `RUN` is of the last start, and the callback is still to come. -/
structure StatusCurrent (s : TimerState × SinceStart) : Prop where
  running : s.1.tim.status = some .run → s.2.started = true ∧ s.2.stopped = false
  first : s.1.tim.status = some .run → s.2.calls = 0
  once : s.2.calls ≤ 1

/-- The deadline that the kernel holds and the notifications in flight are of the last start. -/
structure FlightCurrent (s : TimerState × SinceStart) : Prop where
  due : s.1.armed = true → s.2.due = true
  expired : 0 < s.1.inFlight → s.2.expired = true

/-! ### What an event does -/

section Step

variable {s : TimerState × SinceStart} {e : TimerEvent}

theorem step_start (s : TimerState) (us : Int) : cbTimer.step s (.start us) =
    ({ s with tim.status := some .run
              armed := if 0 ≤ us then decide (us ≠ 0) else s.armed },
      [.timerSettime (cbtimerIts us)]) := by
  change ((cbtimerStart us ⟨s, []⟩).2.ctx, (cbtimerStart us ⟨s, []⟩).2.log) = _
  rw [cbtimerStart_snd]
  by_cases hus : 0 ≤ us
  · rw [timerSettime_of_nonneg hus, if_pos hus]
    rfl
  · rw [timerSettime_of_neg (not_le.mp hus), if_neg hus]
    rfl

theorem step_stop (s : TimerState) : cbTimer.step s .stop =
    (if s.tim.status = some .run then { s with tim.status := some .stop } else s, []) := by
  by_cases hrun : s.tim.status = some .run <;> simp [cbTimer, timerHandle, cbtimerStop, hrun]

theorem step_expire (s : TimerState) : cbTimer.step s .expire =
    (if s.armed = true then { s with armed := false, inFlight := s.inFlight + 1 } else s,
      []) := by
  by_cases harmed : s.armed = true <;> simp [cbTimer, timerHandle, harmed]

/-- A notification is taken for the run that the status is of. -/
theorem step_deliver (s : TimerState) : cbTimer.step s .deliver =
    if 0 < s.inFlight then
      if s.tim.status = some .run then
        ({ s with tim.status := some .stop, tim.semExpired := s.tim.semExpired + 1,
                  inFlight := s.inFlight - 1 },
          .semPost :: if s.tim.cb = true then [.cb] else [])
      else ({ s with inFlight := s.inFlight - 1 }, [])
    else (s, []) := by
  by_cases hflight : 0 < s.inFlight
  · by_cases hrun : s.tim.status = some .run
    · cases hcb : s.tim.cb <;> simp [cbTimer, timerHandle, cbtimerCb, hflight, hrun, hcb]
    · simp [cbTimer, timerHandle, cbtimerCb, hflight, hrun]
  · simp [cbTimer, timerHandle, hflight]

theorem callsBack_iff (s : TimerState) (e : TimerEvent) : CallsBack s e ↔
    e = .deliver ∧ 0 < s.inFlight ∧ s.tim.status = some .run ∧ s.tim.cb = true := by
  cases e with
  | start us => simp [CallsBack, step_start]
  | stop => simp [CallsBack, step_stop]
  | expire => simp [CallsBack, step_expire]
  | deliver =>
      rw [CallsBack, step_deliver]
      split_ifs <;> simp_all

theorem step_statusCurrent (h : StatusCurrent s) (e : TimerEvent) :
    StatusCurrent (cbTimerRecorded.step s e).1 := by
  obtain ⟨s, g⟩ := s
  change StatusCurrent ((cbTimer.step s e).1, sinceStart s g e)
  cases e with
  | start us =>
      rw [step_start]
      exact ⟨fun _ => ⟨rfl, rfl⟩, fun _ => rfl, Nat.zero_le 1⟩
  | stop =>
      rw [step_stop]
      split
      · exact ⟨fun hrun => (by cases hrun), fun hrun => (by cases hrun), h.once⟩
      · rename_i hne
        exact ⟨fun hrun => absurd hrun hne, fun hrun => absurd hrun hne, h.once⟩
  | expire =>
      rw [step_expire]
      split
      · exact ⟨h.running, h.first, h.once⟩
      · exact ⟨h.running, h.first, h.once⟩
  | deliver =>
      rw [sinceStart, step_deliver]
      split
      · split
        · rename_i hrun
          refine ⟨fun hrun => (by cases hrun), fun hrun => (by cases hrun), ?_⟩
          have hfirst : g.calls = 0 := h.first hrun
          cases s.tim.cb <;> simp [hfirst]
        · exact ⟨h.running, h.first, h.once⟩
      · exact ⟨h.running, h.first, h.once⟩

/-- A clean start leaves nothing of an earlier one in the kernel. -/
theorem step_flightCurrent (h : FlightCurrent s) (hok : StartsClean s e) :
    FlightCurrent (cbTimerRecorded.step s e).1 := by
  obtain ⟨s, g⟩ := s
  change FlightCurrent ((cbTimer.step s e).1, sinceStart s g e)
  cases e with
  | start us =>
      obtain ⟨hnone, hleft⟩ : s.inFlight = 0 ∧ (us < 0 → s.armed = false) := hok
      rw [step_start]
      refine ⟨fun harmed => ?_, fun hflight => absurd hflight (by simp [hnone])⟩
      by_cases hus : 0 ≤ us
      · simp only [if_pos hus, decide_eq_true_eq] at harmed
        exact decide_eq_true (lt_of_le_of_ne hus (Ne.symm harmed))
      · simp only [if_neg hus] at harmed
        exact absurd harmed (by simp [hleft (not_le.mp hus)])
  | stop =>
      rw [step_stop]
      split
      · exact ⟨h.due, h.expired⟩
      · exact ⟨h.due, h.expired⟩
  | expire =>
      rw [step_expire]
      split
      · rename_i harmed
        have hdue : g.due = true := h.due harmed
        exact ⟨fun harmed => (by cases harmed), fun _ => by simp [sinceStart, harmed, hdue]⟩
      · refine ⟨h.due, fun hflight => ?_⟩
        have hexpired : g.expired = true := h.expired hflight
        simp [sinceStart, hexpired]
  | deliver =>
      rw [sinceStart, step_deliver]
      split
      · rename_i hflight
        have hexpired : g.expired = true := h.expired hflight
        split
        · exact ⟨h.due, fun _ => hexpired⟩
        · exact ⟨h.due, fun _ => hexpired⟩
      · exact ⟨h.due, h.expired⟩

theorem callbackCurrent_of (hst : StatusCurrent s) (hfl : FlightCurrent s) :
    CallbackCurrent s e where
  once := (step_statusCurrent hst e).once
  running hcall := by
    obtain ⟨-, -, hrun, -⟩ := (callsBack_iff s.1 e).mp hcall
    exact hst.running hrun
  expired hcall := by
    obtain ⟨-, hflight, -, -⟩ := (callsBack_iff s.1 e).mp hcall
    exact hfl.expired hflight

theorem TimerEvent.IsKernel.startsClean (h : e.IsKernel) : StartsClean s e := by
  cases e with
  | start us => exact h.elim
  | stop | expire | deliver => trivial

/-- A start with a notification in flight can be followed by a callback at once. -/
theorem not_current_of_flight (hcb : s.1.tim.cb = true) (hflight : 0 < s.1.inFlight)
    (us : Int) : ¬ cbTimerRecorded.Admits CallbackCurrent s [.start us, .deliver] := by
  rintro ⟨-, hcurrent, -⟩
  have hcall : CallsBack (cbTimer.step s.1 (.start us)).1 .deliver := by
    rw [callsBack_iff, step_start]
    exact ⟨rfl, hflight, rfl, hcb⟩
  exact Bool.false_ne_true (hcurrent.expired hcall)

/-- A start that is refused leaves the deadline of an earlier one. -/
theorem not_current_of_refused (hcb : s.1.tim.cb = true) (harmed : s.1.armed = true)
    {us : Int} (hus : us < 0) :
    ¬ cbTimerRecorded.Admits CallbackCurrent s [.start us, .expire, .deliver] := by
  rintro ⟨-, -, hcurrent, -⟩
  have hstart : (cbTimer.step s.1 (.start us)).1 = { s.1 with tim.status := some .run } := by
    rw [step_start, if_neg (not_le.mpr hus)]
  have hcall : CallsBack (cbTimer.step (cbTimer.step s.1 (.start us)).1 .expire).1
      .deliver := by
    rw [callsBack_iff, hstart, step_expire, if_pos harmed]
    exact ⟨rfl, Nat.succ_pos _, rfl, hcb⟩
  have hexpired : (false || ((cbTimer.step s.1 (.start us)).1.armed && decide (0 < us))) = true :=
    hcurrent.expired hcall
  rw [decide_eq_false (not_lt.mpr hus.le), Bool.and_false] at hexpired
  exact Bool.false_ne_true hexpired

end Step

/-! ### Runs -/

section Runs

variable {es : List TimerEvent}

theorem statusCurrent_fresh : StatusCurrent (.fresh, {}) :=
  ⟨fun hrun => (by cases hrun), fun hrun => (by cases hrun), Nat.zero_le 1⟩

theorem flightCurrent_fresh : FlightCurrent (.fresh, {}) :=
  ⟨fun harmed => (by cases harmed), fun hflight => absurd hflight (by decide)⟩

theorem run_cb (s : TimerState × SinceStart) :
    (cbTimerRecorded.run s es).1.tim.cb = s.1.tim.cb := by
  refine Mealy.run_induction (P := fun s' => s'.1.tim.cb = s.1.tim.cb) (fun s' e h _ => ?_) rfl
    (Mealy.admits_of_forall (fun _ _ => trivial) s)
  have hstep : (cbTimer.step s'.1 e).1.tim.cb = s'.1.tim.cb := by
    cases e with
    | start us => rw [step_start]
    | stop => rw [step_stop]; split <;> rfl
    | expire => rw [step_expire]; split <;> rfl
    | deliver => rw [step_deliver]; split_ifs <;> rfl
  exact hstep.trans h

/-- In every run: one callback at most for each start, and none while the timer is stopped. -/
theorem callback_once (es : List TimerEvent) :
    cbTimerRecorded.Admits (fun s e => (sinceStart s.1 s.2 e).calls ≤ 1 ∧
      (CallsBack s.1 e → s.2.started = true ∧ s.2.stopped = false)) (.fresh, {}) es := by
  refine Mealy.Admits.imp (P := StatusCurrent) (fun s e h _ => ⟨?_, fun hcall => ?_⟩)
    (fun s e h _ => step_statusCurrent h e) (Mealy.admits_of_forall (fun _ _ => trivial) _)
    statusCurrent_fresh
  · exact (step_statusCurrent h e).once
  · obtain ⟨-, -, hrun, -⟩ := (callsBack_iff s.1 e).mp hcall
    exact h.running hrun

theorem callbackCurrent_of_clean (h : cbTimerRecorded.Admits StartsClean (.fresh, {}) es) :
    cbTimerRecorded.Admits CallbackCurrent (.fresh, {}) es :=
  h.imp (P := fun s => StatusCurrent s ∧ FlightCurrent s)
    (fun _ _ hs _ => callbackCurrent_of hs.1 hs.2)
    (fun _ e hs hok => ⟨step_statusCurrent hs.1 e, step_flightCurrent hs.2 hok⟩)
    ⟨statusCurrent_fresh, flightCurrent_fresh⟩

/-- In every run of a timer: every callback belongs to the current run of the timer, whatever
expires and is notified at whatever moment, exactly if every start finds no notification in
flight and leaves no earlier deadline. -/
theorem callback_current_iff (es : List TimerEvent) :
    (∀ pre, pre <+: es → ∀ ks : List TimerEvent, (∀ e ∈ ks, e.IsKernel) →
      cbTimerRecorded.Admits CallbackCurrent (.fresh, {}) (pre ++ ks)) ↔
      cbTimerRecorded.Admits StartsClean (.fresh, {}) es := by
  constructor
  · intro h
    rw [Mealy.admits_iff_forall_prefix]
    intro pre e hpre
    cases e with
    | stop | expire | deliver => trivial
    | start us =>
        have hcb : (cbTimerRecorded.run (.fresh, {}) pre).1.tim.cb = true := run_cb _
        -- What the kernel can do right after the start.
        have hkernel : ∀ ks : List TimerEvent, (∀ e ∈ ks, e.IsKernel) →
            cbTimerRecorded.Admits CallbackCurrent (cbTimerRecorded.run (.fresh, {}) pre)
              (.start us :: ks) := fun ks hks => by
          have hrun := h _ hpre ks hks
          rw [List.append_assoc] at hrun
          exact (Mealy.admits_append.mp hrun).2
        constructor
        · by_contra hflight
          exact not_current_of_flight hcb (Nat.pos_of_ne_zero hflight) us
            (hkernel [.deliver] (by simp [TimerEvent.IsKernel]))
        · intro hus
          by_contra harmed
          exact not_current_of_refused hcb (Bool.eq_true_of_not_eq_false harmed) hus
            (hkernel [.expire, .deliver] (by simp [TimerEvent.IsKernel]))
  · rintro h pre ⟨post, rfl⟩ ks hks
    refine callbackCurrent_of_clean (Mealy.admits_append.mpr
      ⟨(Mealy.admits_append.mp h).1, ?_⟩)
    exact (Mealy.admits_of_forall hks _).imp (P := fun _ => True)
      (fun _ _ _ hkernel => hkernel.startsClean) (fun _ _ _ _ => trivial) trivial

/-- The notification of the first run comes in the second one. -/
theorem not_callback_current :
    ¬ ∀ es : List TimerEvent, cbTimerRecorded.Admits CallbackCurrent (.fresh, {}) es := by
  intro h
  have hrun : cbTimerRecorded.Admits CallbackCurrent (.fresh, {})
      ([.start 1000000, .expire] ++ [.start 1000000, .deliver]) := h _
  exact not_current_of_flight (by decide) (by decide) 1000000 (Mealy.admits_append.mp hrun).2

end Runs

/-! ### The timer of a context -/

section Context

variable {t : Option Timer} {s : TimerState} {e : TimerEvent} {w : World}

/-- The timer `t` of a context runs as the timer `s` does. -/
def TimerRuns (t : Option Timer) (s : TimerState) : Prop :=
  t.isSome = true ↔ s.tim.status = some .run

theorem cantpSndrTimerCb_timer (w : World) :
    (cantpSndrTimerCb w).ctx.sndr.timer = w.ctx.sndr.timer := by
  unfold cantpSndrTimerCb
  split <;> rfl

/-- A callback is an expiry of the sender timer: it comes while the timer of the context runs
and stops it. -/
theorem timerRuns_expiry (h : TimerRuns w.ctx.sndr.timer s) (hcall : CallsBack s e) :
    w.ctx.sndr.timer.isSome = true ∧
      TimerRuns (sndrTimerExpiry w).ctx.sndr.timer (cbTimer.step s e).1 := by
  obtain ⟨rfl, hflight, hrun, -⟩ := (callsBack_iff s e).mp hcall
  have hsome : w.ctx.sndr.timer.isSome = true := h.mpr hrun
  refine ⟨hsome, ?_⟩
  rw [sndrTimerExpiry, if_pos hsome, step_deliver, if_pos hflight, if_pos hrun]
  refine iff_of_false ?_ (by simp)
  rw [cantpSndrTimerCb_timer]
  simp

theorem timerRuns_kernel (hk : e.IsKernel) (hcb : s.tim.cb = true) (hcall : ¬ CallsBack s e)
    (h : TimerRuns t s) : TimerRuns t (cbTimer.step s e).1 := by
  cases e with
  | start us => exact hk.elim
  | stop => exact hk.elim
  | expire =>
      rw [step_expire]
      split
      · exact h
      · exact h
  | deliver =>
      rw [step_deliver]
      split
      · rename_i hflight
        rw [if_neg fun hrun => hcall ((callsBack_iff s .deliver).mpr ⟨rfl, hflight, hrun, hcb⟩)]
        exact h
      · exact h

end Context

end CanTp
