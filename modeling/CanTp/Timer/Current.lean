import CanTp.Timer.Timeouts

/-!
# Callbacks of the current wait

The timer of a context is a timer as in `CanTp.Timer.Notifications`, driven by the calls of
the handlers. So a run in which every time-out belongs to the wait that it ends is one in
which no handler starts the timer while a notification is in flight.
-/

namespace CanTp

open Library

/-- A timer without the name that it was last started with, which nothing depends on. -/
def TimerState.unnamed (t : TimerState) : TimerState := { t with tim.name := none }

/-- The handler of `e` starts the timer. -/
def StartsTimer (s : TimedNode) : TimedEvent → Prop
  | .call e _ => ∃ name toutUs, TimerCall.start name toutUs ∈ sndrTimerCalls s.ctx e
  | .expire | .deliver => False

/-- No handler starts the timer while a notification is in flight. -/
def CleanCall (s : TimedNode) (e : TimedEvent) : Prop := StartsTimer s e → s.tim.inFlight = 0

section Unnamed

variable {g : TimerState × SinceStart} {as : List TimerCall}

theorem step_unnamed (t : TimerState) (e : TimerEvent) :
    (cbTimer.step t.unnamed e).1 = (cbTimer.step t e).1.unnamed := by
  cases e with
  | start us =>
      rw [step_start, step_start]
      rfl
  | stop =>
      rw [step_stop, step_stop]
      by_cases hrun : t.tim.status = some .run <;> simp [TimerState.unnamed, hrun]
  | expire =>
      rw [step_expire, step_expire]
      by_cases harmed : t.armed = true <;> simp [TimerState.unnamed, harmed]
  | deliver =>
      rw [step_deliver, step_deliver]
      by_cases hflight : 0 < t.inFlight <;> by_cases hrun : t.tim.status = some .run <;>
        simp [TimerState.unnamed, hflight, hrun]

theorem call_unnamed (a : TimerCall) (w : TimerWorld) :
    (a.call w).ctx.unnamed = (cbTimer.step w.ctx.unnamed a.event).1 := by
  rw [step_unnamed]
  cases a with
  | start name toutUs =>
      rw [call_start_ctx, TimerCall.event, step_start, if_pos (Int.natCast_nonneg toutUs)]
      simp [TimerState.unnamed]
  | stop =>
      rw [call_stop_ctx, TimerCall.event, step_stop]

theorem calls_unnamed (as : List TimerCall) (w : TimerWorld) :
    (as.foldl (fun w a => a.call w) w).ctx.unnamed =
      cbTimer.run w.ctx.unnamed (as.map TimerCall.event) := by
  induction as generalizing w with
  | nil => rfl
  | cons a as ih => rw [List.foldl_cons, ih, call_unnamed, List.map_cons, Mealy.run_cons]

theorem inFlight_event (t : TimerState) (a : TimerCall) :
    (cbTimer.step t a.event).1.inFlight = t.inFlight := by
  cases a with
  | start name toutUs => rw [TimerCall.event, step_start]
  | stop =>
      rw [TimerCall.event, step_stop]
      split <;> rfl

theorem inFlight_events (t : TimerState) (as : List TimerCall) :
    (cbTimer.run t (as.map TimerCall.event)).inFlight = t.inFlight := by
  induction as generalizing t with
  | nil => rfl
  | cons a as ih => rw [List.map_cons, Mealy.run_cons, ih, inFlight_event]

/-- The calls of one handler are clean if nothing is in flight when it begins. -/
theorem admits_calls (h : (∃ name toutUs, TimerCall.start name toutUs ∈ as) → g.1.inFlight = 0) :
    cbTimerRecorded.Admits StartsClean g (as.map TimerCall.event) := by
  induction as generalizing g with
  | nil => trivial
  | cons a as ih =>
      refine ⟨?_, ih fun ⟨name, toutUs, hmem⟩ => ?_⟩
      · cases a with
        | start name toutUs =>
            exact ⟨h ⟨name, toutUs, List.mem_cons_self ..⟩,
              fun hneg => absurd hneg (not_lt.mpr (Int.natCast_nonneg toutUs))⟩
        | stop => trivial
      · have hzero := h ⟨name, toutUs, List.mem_cons_of_mem _ hmem⟩
        exact (inFlight_event g.1 a).trans hzero

end Unnamed

theorem calls_end_with_start {c : CantpRxtxStatus} {e : Event}
    (h : ∃ name toutUs, TimerCall.start name toutUs ∈ sndrTimerCalls c e) :
    ∃ as name toutUs, sndrTimerCalls c e = as ++ [.start name toutUs] := by
  obtain ⟨name, toutUs, hmem⟩ := h
  cases e with
  | send => exact ⟨[], _, _, rfl⟩
  | sndrTimerCb | sndrTimerExpiry | rcvrTimerCb => exact absurd hmem List.not_mem_nil
  | cantxConfirmCb =>
      rw [sndrTimerCalls, cantxConfirmCalls] at hmem ⊢
      split at hmem
      · simp at hmem
      · exact ⟨[.stop], _, _, rfl⟩
      · split_ifs at hmem ⊢
        · simp at hmem
        · exact ⟨[.stop], _, _, rfl⟩
        · exact ⟨[.stop, .start .nCs (1000 * nCsTimerMs), .stop], _, _, rfl⟩
      · split_ifs at hmem ⊢
        · simp at hmem
        · exact ⟨[.stop], _, _, rfl⟩
        · exact ⟨[.stop, .start .nCs (1000 * nCsTimerMs), .stop], _, _, rfl⟩
      · exact absurd hmem List.not_mem_nil
  | canrxCb r =>
      rw [sndrTimerCalls] at hmem ⊢
      split at hmem
      · rename_i htaken
        rw [if_pos htaken, sndrRxFlowControlCalls]
        cases stTimUsOf r.frame.fcSt with
        | none => exact ⟨[.stop], _, _, rfl⟩
        | some us =>
            cases CantpFcFlowStatus.ofUInt8 r.frame.fcFs with
            | none => exact ⟨[.stop], _, _, rfl⟩
            | some fs =>
                cases fs with
                | cts => exact ⟨[.stop, .start .nCs (1000 * nCsTimerMs), .stop], _, _, rfl⟩
                | wait => exact ⟨[.stop, .start .nCs (1000 * nCsTimerMs)], _, _, rfl⟩
                | ovf => exact ⟨[.stop], _, _, rfl⟩
      · exact absurd hmem List.not_mem_nil

/-- The timer of a node is a timer with its record. -/
def TimOf (s : TimedNode) (g : TimerState × SinceStart) : Prop := g.1 = s.tim.unnamed

theorem drives_tim : timed.Drives cbTimerRecorded TimOf TimedNode.timEvents where
  step {s g} e h := by
    have hrun : (cbTimerRecorded.run g (s.timEvents e)).1 =
        cbTimer.run s.tim.unnamed (s.timEvents e) := by
      rw [cbTimerRecorded, Mealy.run_withGhost, show g.1 = s.tim.unnamed from h]
    rw [TimOf, hrun]
    cases e with
    | call e he => exact (calls_unnamed _ ⟨s.tim, []⟩).symm
    | expire => exact step_unnamed s.tim .expire
    | deliver =>
        have hstep : (timed.step s .deliver).1.tim = (cbTimer.step s.tim .deliver).1 := by
          by_cases hcall : CallsBack s.tim .deliver
          · rw [step_callsBack hcall]
          · rw [step_not_callsBack hcall]
        rw [hstep]
        exact step_unnamed s.tim .deliver

section Run

variable {p : CantpParams} {es : List TimedEvent}

theorem timOf_fresh (p : CantpParams) : TimOf (.fresh p) (.fresh, {}) := rfl

theorem timOf_run (p : CantpParams) (es : List TimedEvent) :
    TimOf (timed.run (.fresh p) es)
      (cbTimerRecorded.run (.fresh, {}) (timed.passed TimedNode.timEvents (.fresh p) es)) :=
  drives_tim.run (timOf_fresh p) es

theorem startsClean_of_clean (h : timed.Admits CleanCall (.fresh p) es) :
    cbTimerRecorded.Admits StartsClean (.fresh, {})
      (timed.passed TimedNode.timEvents (.fresh p) es) := by
  refine drives_tim.admits (fun {s g} e hg hclean => ?_) (timOf_fresh p) h
  cases e with
  | call e he =>
      refine admits_calls fun hstart => ?_
      rw [show g.1 = s.tim.unnamed from hg]
      exact hclean hstart
  | expire => exact ⟨trivial, trivial⟩
  | deliver => exact ⟨trivial, trivial⟩

/-- A handler that starts the timer with a notification in flight can be followed by a
callback at once. -/
theorem not_current_of_call {s : TimedNode} {g : TimerState × SinceStart} {e : Event}
    {he : e.isCall = true} (hg : TimOf s g) (hcb : g.1.tim.cb = true)
    (hstart : StartsTimer s (.call e he)) (hflight : 0 < s.tim.inFlight) :
    ¬ cbTimerRecorded.Admits CallbackCurrent g
      (timed.passed TimedNode.timEvents s [.call e he, .deliver]) := by
  obtain ⟨as, name, toutUs, has⟩ := calls_end_with_start hstart
  have hpassed : timed.passed TimedNode.timEvents s [.call e he, .deliver] =
      as.map TimerCall.event ++ [.start toutUs, .deliver] := by
    simp [TimedNode.timEvents, has, TimerCall.event]
  rw [hpassed, Mealy.admits_append]
  rintro ⟨-, hcurrent⟩
  refine not_current_of_flight ((run_cb _).trans hcb) ?_ toutUs hcurrent
  rw [cbTimerRecorded, Mealy.run_withGhost, inFlight_events, show g.1 = s.tim.unnamed from hg]
  exact hflight

/-- In every run of a context with its timer: every callback comes after the deadline of the
wait that it ends, whatever the kernel does after each event, exactly if no handler starts
the timer while a notification is in flight. -/
theorem timed_current_iff (p : CantpParams) (es : List TimedEvent) :
    (∀ pre, pre <+: es → ∀ ks : List TimedEvent, (∀ e ∈ ks, e.ofCall = none) →
      cbTimerRecorded.Admits CallbackCurrent (.fresh, {})
        (timed.passed TimedNode.timEvents (.fresh p) (pre ++ ks))) ↔
      timed.Admits CleanCall (.fresh p) es := by
  constructor
  · intro h
    rw [Mealy.admits_iff_forall_prefix]
    intro pre e hpre hstart
    by_contra hflight
    cases e with
    | expire | deliver => exact hstart
    | call e he =>
        have hrun := h _ hpre [.deliver] (by simp [TimedEvent.ofCall])
        rw [List.append_assoc, Mealy.passed_append] at hrun
        exact not_current_of_call (timOf_run p pre) (run_cb _) hstart
          (Nat.pos_of_ne_zero hflight) (Mealy.admits_append.mp hrun).2
  · rintro h pre ⟨post, rfl⟩ ks hks
    refine callbackCurrent_of_clean (startsClean_of_clean (Mealy.admits_append.mpr
      ⟨(Mealy.admits_append.mp h).1, ?_⟩))
    refine (Mealy.admits_of_forall hks _).imp (P := fun _ => True) (fun s e _ hnone => ?_)
      (fun _ _ _ _ => trivial) trivial
    cases e with
    | call e he => cases hnone
    | expire | deliver => exact False.elim

end Run

end CanTp
