import CanTp.Timer.Calls

/-!
# A context with its timer

In `canTp` the sender timer is part of the context and may expire whenever it runs. Here it
is the timer of `cbtimer_lin.c`: the context starts and stops it, the kernel lets its
deadline pass and notifies that at any time later, and `cbtimer_cb` decides whether
`cantp_sndr_timer_cb` is called. Whatever the order of these events, the context does what
it does in a run of `canTp` with an expiry for every callback, so that what is known about
the runs of `canTp` holds with the timers as they are.
-/

namespace CanTp

open Library

/-- A context and the timer that `ctx->sndr.timer` points to. -/
structure TimedNode where
  ctx : CantpRxtxStatus
  tim : TimerState
deriving DecidableEq

/-- A call, the end of the deadline, or the notification of an expiry. -/
inductive TimedEvent
  | call (e : Event) (h : e.isCall = true)
  | expire
  | deliver

instance (s : TimerState) (e : TimerEvent) : Decidable (CallsBack s e) :=
  inferInstanceAs (Decidable (_ ∈ _))

/-- The timer after the calls `as`. -/
def callTimer (as : List TimerCall) (t : TimerState) : TimerState :=
  (as.foldl (fun w (a : TimerCall) => a.call w) ⟨t, []⟩).ctx

/-- A context and its timer, each call handled to its end. -/
def timed : Mealy TimedNode TimedEvent Act where
  step s
    | .call e _ =>
        let p := canTp.step s.ctx e
        (⟨p.1, callTimer (sndrTimerCalls s.ctx e) s.tim⟩, p.2)
    | .expire => (⟨s.ctx, (cbTimer.step s.tim .expire).1⟩, [])
    | .deliver =>
        let t := (cbTimer.step s.tim .deliver).1
        if CallsBack s.tim .deliver then
          let w := cantpSndrTimerCb (World.sndrTimerStop ⟨s.ctx, []⟩)
          (⟨w.ctx, t⟩, w.log)
        else (⟨s.ctx, t⟩, [])

namespace TimedNode

/-- A zeroed context and a timer that `cbtimer_set_cb` has set up. -/
def fresh (p : CantpParams) : TimedNode := ⟨.fresh p, .fresh⟩

/-- The events of the context: a callback is an expiry. -/
def ctxEvents (s : TimedNode) : TimedEvent → List Event
  | .call e _ => [e]
  | .expire => []
  | .deliver => if CallsBack s.tim .deliver then [.sndrTimerExpiry] else []

/-- The events of the timer. -/
def timEvents (s : TimedNode) : TimedEvent → List TimerEvent
  | .call e _ => (sndrTimerCalls s.ctx e).map TimerCall.event
  | .expire => [.expire]
  | .deliver => [.deliver]

end TimedNode

/-! ### What the calls do to the timer -/

section Calls

variable {w : TimerWorld} {t : Option Timer}

theorem call_start_ctx (name : TimerName) (toutUs : Nat) (w : TimerWorld) :
    ((TimerCall.start name toutUs).call w).ctx =
      { w.ctx with tim.name := some name, tim.status := some .run
                   armed := decide (toutUs ≠ 0) } := by
  change (TimerCall.started name toutUs w).ctx = _
  rw [TimerCall.started, cantpTimerStart, cbtimerStart_snd,
    timerSettime_of_nonneg (Int.natCast_nonneg toutUs)]
  simp

theorem call_stop_ctx (w : TimerWorld) : (TimerCall.stop.call w).ctx =
    if w.ctx.tim.status = some .run then { w.ctx with tim.status := some .stop } else w.ctx := by
  change (cantpTimerStop w).ctx = _
  rw [cantpTimerStop, cbtimerStop]
  split <;> rfl

theorem timerRuns_call (t : Option Timer) (w : TimerWorld) (a : TimerCall) :
    TimerRuns (a.set t) (a.call w).ctx := by
  cases a with
  | start name toutUs =>
      rw [call_start_ctx]
      exact iff_of_true rfl rfl
  | stop =>
      rw [call_stop_ctx]
      refine iff_of_false (by simp [TimerCall.set]) ?_
      split
      · simp
      · assumption

theorem TimerRuns.calls (h : TimerRuns t w.ctx) (as : List TimerCall) :
    TimerRuns (as.foldl (fun t a => a.set t) t) (as.foldl (fun w a => a.call w) w).ctx := by
  induction as generalizing t w with
  | nil => exact h
  | cons a as ih => exact ih (timerRuns_call t w a)

theorem call_frame (a : TimerCall) (w : TimerWorld) :
    (a.call w).ctx.tim.cb = w.ctx.tim.cb ∧ (a.call w).ctx.inFlight = w.ctx.inFlight := by
  cases a with
  | start name toutUs =>
      rw [call_start_ctx]
      exact ⟨rfl, rfl⟩
  | stop =>
      rw [call_stop_ctx]
      split <;> exact ⟨rfl, rfl⟩

theorem calls_frame (as : List TimerCall) (w : TimerWorld) :
    (as.foldl (fun w a => a.call w) w).ctx.tim.cb = w.ctx.tim.cb ∧
      (as.foldl (fun w a => a.call w) w).ctx.inFlight = w.ctx.inFlight := by
  induction as generalizing w with
  | nil => exact ⟨rfl, rfl⟩
  | cons a as ih =>
      obtain ⟨hcb, hflight⟩ := call_frame a w
      exact ⟨(ih _).1.trans hcb, (ih _).2.trans hflight⟩

end Calls

/-! ### The context -/

/-- The context of a node is `c`, and its timer runs as that of `c` does. -/
structure CtxOf (s : TimedNode) (c : CantpRxtxStatus) : Prop where
  ctx : s.ctx = c
  runs : TimerRuns c.sndr.timer s.tim
  cb : s.tim.tim.cb = true

variable {s : TimedNode} {c : CantpRxtxStatus}

theorem ctxOf_fresh (p : CantpParams) : CtxOf (.fresh p) (.fresh p) :=
  ⟨rfl, iff_of_false (by simp [CantpRxtxStatus.fresh]) fun h => (by cases h), rfl⟩

theorem kernel_cb {e : TimerEvent} (he : e.IsKernel) (t : TimerState) :
    (cbTimer.step t e).1.tim.cb = t.tim.cb := by
  cases e with
  | start us => exact he.elim
  | stop => exact he.elim
  | expire =>
      rw [step_expire]
      split <;> rfl
  | deliver =>
      rw [step_deliver]
      split_ifs <;> rfl

theorem step_callsBack (h : CallsBack s.tim .deliver) :
    timed.step s .deliver =
      (⟨(cantpSndrTimerCb (World.sndrTimerStop ⟨s.ctx, []⟩)).ctx,
        (cbTimer.step s.tim .deliver).1⟩,
        (cantpSndrTimerCb (World.sndrTimerStop ⟨s.ctx, []⟩)).log) :=
  if_pos h

theorem step_not_callsBack (h : ¬ CallsBack s.tim .deliver) :
    timed.step s .deliver = (⟨s.ctx, (cbTimer.step s.tim .deliver).1⟩, []) :=
  if_neg h

theorem CtxOf.expiry (h : CtxOf s c) (hcall : CallsBack s.tim .deliver) :
    c.sndr.timer.isSome = true ∧
      sndrTimerExpiry ⟨c, []⟩ = cantpSndrTimerCb (World.sndrTimerStop ⟨c, []⟩) := by
  have hsome := (timerRuns_expiry (w := ⟨c, []⟩) h.runs hcall).1
  exact ⟨hsome, if_pos hsome⟩

theorem CtxOf.step (h : CtxOf s c) (e : TimedEvent) :
    CtxOf (timed.step s e).1 (canTp.run c (s.ctxEvents e)) ∧
      (timed.step s e).2 = canTp.outputs c (s.ctxEvents e) := by
  obtain ⟨rfl, hruns, hcb⟩ := h
  cases e with
  | call e he =>
      have hcb' := (calls_frame (sndrTimerCalls s.ctx e) ⟨s.tim, []⟩).1.trans hcb
      refine ⟨⟨rfl, ?_, hcb'⟩, (List.append_nil _).symm⟩
      rw [TimedNode.ctxEvents, Mealy.run_cons, Mealy.run_nil, sndrTimerCalls_timer _ he]
      exact TimerRuns.calls (w := ⟨s.tim, []⟩) hruns _
  | expire =>
      have hcall : ¬ CallsBack s.tim .expire := fun hcall =>
        nomatch ((callsBack_iff _ _).mp hcall).1
      exact ⟨⟨rfl, timerRuns_kernel trivial hcb hcall hruns,
        (kernel_cb (by trivial) _).trans hcb⟩, rfl⟩
  | deliver =>
      by_cases hcall : CallsBack s.tim .deliver
      · obtain ⟨-, hexp⟩ := CtxOf.expiry ⟨rfl, hruns, hcb⟩ hcall
        have hafter := (timerRuns_expiry (w := ⟨s.ctx, []⟩) hruns hcall).2
        rw [step_callsBack hcall, TimedNode.ctxEvents, if_pos hcall, ← hexp]
        exact ⟨⟨rfl, hafter, (kernel_cb (by trivial) _).trans hcb⟩, (List.append_nil _).symm⟩
      · rw [step_not_callsBack hcall, TimedNode.ctxEvents, if_neg hcall]
        exact ⟨⟨rfl, timerRuns_kernel trivial hcb hcall hruns,
          (kernel_cb (by trivial) _).trans hcb⟩, rfl⟩

theorem drives_ctx : timed.Drives canTp CtxOf TimedNode.ctxEvents where
  step e h := (h.step e).1

/-- The calls of a session layer and of a link layer, and of the receiver timer, in a run. -/
def TimedEvent.ofCall : TimedEvent → Option Event
  | .call e _ => some e
  | .expire | .deliver => none

/-- The callbacks of a run are added to its calls, and nothing else is. -/
theorem filter_isCall_ctxEvents (s : TimedNode) (es : List TimedEvent) :
    (timed.passed TimedNode.ctxEvents s es).filter Event.isCall =
      es.filterMap TimedEvent.ofCall := by
  induction es generalizing s with
  | nil => rfl
  | cons e es ih =>
      rw [Mealy.passed_cons, List.filter_append, ih]
      cases e with
      | call e he => simp [TimedNode.ctxEvents, TimedEvent.ofCall, he]
      | expire => rfl
      | deliver =>
          have hnone : (s.ctxEvents .deliver).filter Event.isCall = [] := by
            rw [TimedNode.ctxEvents]
            split <;> rfl
          rw [hnone]
          rfl

theorem CtxOf.callsBack_iff (h : CtxOf s c) :
    CallsBack s.tim .deliver ↔ 0 < s.tim.inFlight ∧ c.sndr.timer.isSome = true := by
  have hruns : c.sndr.timer.isSome = true ↔ s.tim.tim.status = some .run := h.runs
  rw [CanTp.callsBack_iff, h.cb, hruns]
  simp

theorem CtxOf.ctxEvents_deliver (h : CtxOf s c) :
    s.ctxEvents .deliver = [.sndrTimerExpiry] ↔
      0 < s.tim.inFlight ∧ c.sndr.timer.isSome = true := by
  rw [← h.callsBack_iff, TimedNode.ctxEvents]
  split <;> simp_all

theorem admits_ctxEvents (h : CtxOf s c) (es : List TimedEvent) :
    canTp.Admits (fun c e => e.isCall = false → e = .sndrTimerExpiry ∧
      c.sndr.timer.isSome = true) c (timed.passed TimedNode.ctxEvents s es) := by
  refine drives_ctx.admits (fun {s c} e h (_ : True) => ?_) h (Mealy.admits_true _ es)
  cases e with
  | call e he => exact ⟨fun hcall => (by rw [he] at hcall; cases hcall), trivial⟩
  | expire => trivial
  | deliver =>
      rw [TimedNode.ctxEvents]
      split
      · rename_i hcall
        exact ⟨fun _ => ⟨rfl, (h.expiry hcall).1⟩, trivial⟩
      · trivial

/-- In every run a context with its timer does what `canTp` does in the run `fs` that has the
same calls and an expiry wherever `cbtimer_cb` calls back: the context is the same, the
timer runs as that of the context does, and the same calls are made. The expiries are ones
of a timer that runs, and the next notification is one exactly if it comes while the timer
runs. -/
theorem timed_refines (p : CantpParams) (es : List TimedEvent) :
    let fs := timed.passed TimedNode.ctxEvents (.fresh p) es
    let s := timed.run (.fresh p) es
    let c := canTp.run (.fresh p) fs
    CtxOf s c ∧ timed.outputs (.fresh p) es = canTp.outputs (.fresh p) fs ∧
      fs.filter Event.isCall = es.filterMap TimedEvent.ofCall ∧
      canTp.Admits (fun c e => e.isCall = false → e = .sndrTimerExpiry ∧
        c.sndr.timer.isSome = true) (.fresh p) fs ∧
      (s.ctxEvents .deliver = [.sndrTimerExpiry] ↔
        0 < s.tim.inFlight ∧ c.sndr.timer.isSome = true) := by
  intro fs s c
  have hctx : CtxOf s c := drives_ctx.run (ctxOf_fresh p) es
  exact ⟨hctx, drives_ctx.outputs (fun e h => (h.step e).2) (ctxOf_fresh p) es,
    filter_isCall_ctxEvents _ es, admits_ctxEvents (ctxOf_fresh p) es, hctx.ctxEvents_deliver⟩

end CanTp
