import CanTp.Context

/-!
# The timers

`cbtimer_lin.c` makes a one-shot timer with a callback out of a timer of the kernel. The
duration goes to the kernel as seconds and nanoseconds; an expiry comes back as a
notification, which `cbtimer_cb` turns into a call of the callback if the timer still runs.
Stopping a timer changes its status only.

What `cbtimer_start` gives as nanoseconds is a number of microseconds. A duration is as long
as it should be if it is in whole seconds, and too short otherwise.
-/

namespace CanTp

/-- `struct timespec` -/
structure Timespec where
  tvSec : Int
  tvNsec : Int
deriving DecidableEq, Repr

/-- `struct itimerspec` -/
structure Itimerspec where
  itInterval : Timespec
  itValue : Timespec
deriving DecidableEq, Repr

/-- `enum cbtimer_status` -/
inductive CbtimerStatus
  | run
  | stop
deriving DecidableEq, Repr

/-- `cbtimer_t`; `status` is `none` before it is set, and `cb` says whether there is a
callback. -/
structure Cbtimer where
  status : Option CbtimerStatus
  semExpired : Nat
  name : Option TimerName
  cb : Bool
deriving DecidableEq, Repr

/-- A timer and what the kernel holds of it: whether a deadline is set, and how many expiries
are still to be notified. -/
structure TimerState where
  tim : Cbtimer
  armed : Bool
  inFlight : Nat
deriving DecidableEq, Repr

/-- A call made by a timer. -/
inductive CbtimerAct
  | timerSettime (its : Itimerspec)
  | semPost
  | cb
deriving DecidableEq, Repr

/-- A timer together with the calls made so far. -/
structure TimerWorld where
  ctx : TimerState
  log : List CbtimerAct

namespace TimerWorld

/-- Makes the call `a`. -/
def emit (w : TimerWorld) (a : CbtimerAct) : TimerWorld := { w with log := w.log ++ [a] }

@[simp] theorem emit_ctx (w : TimerWorld) (a : CbtimerAct) : (w.emit a).ctx = w.ctx := rfl

@[simp] theorem emit_log (w : TimerWorld) (a : CbtimerAct) :
    (w.emit a).log = w.log ++ [a] := rfl

end TimerWorld

namespace Timespec

/-- The nanoseconds are less than a second. -/
structure Normalised (t : Timespec) : Prop where
  nonneg : 0 ≤ t.tvNsec
  lt : t.tvNsec < 1000000000

instance (t : Timespec) : Decidable t.Normalised :=
  decidable_of_iff (0 ≤ t.tvNsec ∧ t.tvNsec < 1000000000)
    ⟨fun ⟨h₁, h₂⟩ => ⟨h₁, h₂⟩, fun ⟨h₁, h₂⟩ => ⟨h₁, h₂⟩⟩

/-- The duration in nanoseconds. -/
def nanos (t : Timespec) : Int := t.tvSec * 1000000000 + t.tvNsec

end Timespec

/-! ### The functions of the timers -/

/-- `timer_settime` with a relative time: a time that is negative or not normalised is refused
and changes nothing, zero disarms. Notifications in flight stay in flight. -/
def timerSettime (its : Itimerspec) (w : TimerWorld) : Int × TimerWorld :=
  let w := w.emit (.timerSettime its)
  if 0 ≤ its.itValue.tvSec ∧ its.itValue.Normalised ∧
      0 ≤ its.itInterval.tvSec ∧ its.itInterval.Normalised then
    (0, { w with ctx.armed := decide (its.itValue ≠ ⟨0, 0⟩) })
  else (-1, w)

/-- `cbtimer_set_cb`; `created` is the answer of `timer_create`. -/
def cbtimerSetCb (created : Int) (cb : Bool) (tim : Cbtimer) : Int × Cbtimer :=
  let tim := { tim with cb := cb, name := none, semExpired := 0 }
  if created ≠ 0 then (-1, tim) else (0, tim)

/-- The `its` of `cbtimer_start`. -/
def cbtimerIts (us : Int) : Itimerspec where
  itInterval := ⟨0, 0⟩
  itValue := ⟨us.tdiv 1000000, us.tmod 1000000⟩

/-- `cbtimer_start` -/
def cbtimerStart (us : Int) (w : TimerWorld) : Int × TimerWorld :=
  let its := cbtimerIts us
  let w := { w with ctx.tim.status := some .run }
  let p := timerSettime its w
  if p.1 ≠ 0 then (-1, p.2) else (0, p.2)

/-- `cbtimer_stop` -/
def cbtimerStop (w : TimerWorld) : TimerWorld :=
  if w.ctx.tim.status = some .run then { w with ctx.tim.status := some .stop } else w

/-- `cbtimer_cb` -/
def cbtimerCb (w : TimerWorld) : TimerWorld :=
  if w.ctx.tim.status = some .run then
    let w := { w with ctx.tim.status := some .stop }
    let w := { w with ctx.tim.semExpired := w.ctx.tim.semExpired + 1 }.emit .semPost
    if w.ctx.tim.cb = false then w else w.emit .cb
  else w

/-- `cantp_timer_start` -/
def cantpTimerStart (name : TimerName) (toutUs : Int) (w : TimerWorld) : Int × TimerWorld :=
  cbtimerStart toutUs { w with ctx.tim.name := some name }

/-- `cantp_timer_stop` -/
def cantpTimerStop (w : TimerWorld) : TimerWorld := cbtimerStop w

/-! ### Durations -/

section Durations

variable {us us' : Int} {its : Itimerspec}

/-- `cantp_timer_start` hands `its` to the kernel for the duration `us`. -/
def HandsOver (us : Int) (its : Itimerspec) : Prop :=
  ∀ name w, (cantpTimerStart name us w).2.log = w.log ++ [.timerSettime its]

theorem timerSettime_log (its : Itimerspec) (w : TimerWorld) :
    (timerSettime its w).2.log = w.log ++ [.timerSettime its] := by
  unfold timerSettime
  split <;> rfl

theorem cbtimerStart_snd (us : Int) (w : TimerWorld) : (cbtimerStart us w).2 =
    (timerSettime (cbtimerIts us) { w with ctx.tim.status := some .run }).2 := by
  unfold cbtimerStart
  dsimp only
  split <;> rfl

theorem handsOver_iff : HandsOver us its ↔ its = cbtimerIts us := by
  have hlog : ∀ name w, (cantpTimerStart name us w).2.log =
      w.log ++ [.timerSettime (cbtimerIts us)] := fun name w => by
    rw [cantpTimerStart, cbtimerStart_snd, timerSettime_log]
  constructor
  · intro h
    have heq := (h .nAs ⟨⟨⟨none, 0, none, true⟩, false, 0⟩, []⟩).symm.trans (hlog _ _)
    simpa using heq
  · rintro rfl
    exact hlog

theorem cbtimerIts_normalised (h : 0 ≤ us) : (cbtimerIts us).itValue.Normalised := by
  have hmod : (cbtimerIts us).itValue.tvNsec = us % 1000000 := Int.tmod_eq_emod_of_nonneg h
  exact ⟨by rw [hmod]; omega, by rw [hmod]; omega⟩

theorem timerSettime_of_neg (h : us < 0) (w : TimerWorld) :
    timerSettime (cbtimerIts us) w = (-1, w.emit (.timerSettime (cbtimerIts us))) := by
  refine if_neg fun hvalid => ?_
  have hsec : 0 ≤ us.tdiv 1000000 := hvalid.1
  have hnsec : 0 ≤ us.tmod 1000000 := hvalid.2.1.nonneg
  have hsum := Int.tmod_add_mul_tdiv us 1000000
  omega

/-- Any other time is accepted; it sets a deadline if it is not zero. -/
theorem timerSettime_of_nonneg (h : 0 ≤ us) (w : TimerWorld) :
    timerSettime (cbtimerIts us) w =
      (0, { w.emit (.timerSettime (cbtimerIts us)) with ctx.armed := decide (us ≠ 0) }) := by
  have hvalid : 0 ≤ (cbtimerIts us).itValue.tvSec ∧ (cbtimerIts us).itValue.Normalised ∧
      0 ≤ (cbtimerIts us).itInterval.tvSec ∧ (cbtimerIts us).itInterval.Normalised :=
    ⟨Int.tdiv_nonneg h (by decide), cbtimerIts_normalised h, le_refl 0,
      (by decide : (⟨0, 0⟩ : Timespec).Normalised)⟩
  have hzero : (cbtimerIts us).itValue = ⟨0, 0⟩ ↔ us = 0 := by
    have hsum := Int.tmod_add_mul_tdiv us 1000000
    rw [cbtimerIts, Timespec.mk.injEq]
    constructor
    · rintro ⟨hsec, hnsec⟩
      omega
    · rintro rfl
      decide
  have harmed : decide ((cbtimerIts us).itValue ≠ ⟨0, 0⟩) = decide (us ≠ 0) :=
    decide_eq_decide.mpr (not_congr hzero)
  rw [timerSettime, ← harmed]
  exact if_pos hvalid

theorem cbtimerIts_nanos (h : 0 ≤ us) :
    (cbtimerIts us).itValue.nanos = 1000 * us - 999 * (us % 1000000) := by
  simp only [Timespec.nanos, cbtimerIts, Int.tdiv_eq_ediv_of_nonneg h,
    Int.tmod_eq_emod_of_nonneg h]
  omega

theorem cbtimerIts_mono (h : 0 ≤ us) (hle : us ≤ us') :
    (cbtimerIts us).itValue.nanos ≤ (cbtimerIts us').itValue.nanos := by
  rw [cbtimerIts_nanos h, cbtimerIts_nanos (h.trans hle)]
  omega

/-- The time `its` for the duration `us`: normalised, as long, and no longer than those for
longer durations. -/
structure DurationRight (us : Int) (its : Itimerspec) : Prop where
  normalised : its.itValue.Normalised
  exact : its.itValue.nanos = 1000 * us
  mono : ∀ us' its', us ≤ us' → HandsOver us' its' → its.itValue.nanos ≤ its'.itValue.nanos

/-- For every duration: the kernel is given the right time exactly if the duration is in whole
seconds. -/
theorem duration_right_iff (us : Int) (h : 0 < us) :
    (∃ its, HandsOver us its ∧ DurationRight us its) ↔ us % 1000000 = 0 := by
  simp only [handsOver_iff, exists_eq_left]
  constructor
  · intro hright
    have hexact := hright.exact
    rw [cbtimerIts_nanos h.le] at hexact
    omega
  · intro hus
    refine ⟨cbtimerIts_normalised h.le, ?_, fun us' its' hle hits => ?_⟩
    · rw [cbtimerIts_nanos h.le, hus]
      omega
    · rw [handsOver_iff.mp hits]
      exact cbtimerIts_mono h.le hle

/-- The second of all timers of the protocol. -/
theorem duration_right_second : ∃ its, HandsOver 1000000 its ∧ DurationRight 1000000 its :=
  (duration_right_iff 1000000 (by decide)).mpr (by decide)

/-- One and a half milliseconds become 1500 nanoseconds. -/
theorem not_duration_right :
    ¬ ∀ us : Int, 0 < us → ∃ its, HandsOver us its ∧ DurationRight us its := by
  intro h
  obtain ⟨its, hits, hright⟩ := h 1500 (by decide)
  rw [handsOver_iff.mp hits] at hright
  exact absurd hright.exact (by decide)

end Durations

end CanTp
