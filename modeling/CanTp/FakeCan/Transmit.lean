import CanTp.Timer.Notifications
import Mathlib.Logic.Relation

/-!
# The end of a transmission

`fake_can_tx_nb` and `fake_can_tx` write a frame and wait at `tx_done_sem`. What gives them
a token runs in other threads: each transmission starts a `fake_can_tx_ack_thread` that
reads one acknowledgement, and `fake_can_tx` a timer whose callback is
`fake_can_tx_toutus_cb`. The threads share the semaphore, `tx_ack` and the timer, and any of
them may go on at any time. `TxState.move` makes the next move of one of them, between two
accesses to what is shared; `none` stands for a move that is not possible.

The other end acknowledges every frame, at any time after it is written, and sends nothing
else. The threads at one place of a function are counted, as they are all the same.
-/

namespace CanTp

open Library

/-- Where the flow of control is: outside, behind `fwrite`, behind the store of `tx_ack`,
behind `cbtimer_start`, in `sem_wait` or behind it. `nb` says that it is in
`fake_can_tx_nb`, which has no timer. -/
inductive TxPc
  | idle
  | written (nb : Bool)
  | cleared
  | started
  | waiting (nb : Bool)
  | woken (nb : Bool)
deriving DecidableEq, Repr

/-- The threads that have to do with transmissions, and what they share. -/
structure TxState where
  pc : TxPc
  /-- The transmissions begun. -/
  sent : Nat
  /-- The frames not yet acknowledged, and the acknowledgements not yet read. -/
  unacked : Nat
  pipe : Nat
  /-- The threads in `fread` of `fake_can_tx_ack_thread`, before `cbtimer_stop`, before the
  store of `tx_ack` and before `sem_post`. -/
  reading : Nat
  stopping : Nat
  storing : Nat
  posting : Nat
  /-- The threads before the store of `tx_ack` in `fake_can_tx_toutus_cb` and before its
  `sem_post`. -/
  toutStoring : Nat
  toutPosting : Nat
  tokens : Nat
  txAck : Bool
  tim : TimerState
  /-- The deadline of the transmission in progress is over. -/
  due : Bool
  /-- The calls of `fake_can_tx_toutus_cb`. -/
  signalled : Nat
deriving DecidableEq

/-- After `fake_can_init`. -/
def TxState.start : TxState :=
  ⟨.idle, 0, 0, 0, 0, 0, 0, 0, 0, 0, 0, false, .fresh, false, 0⟩

/-- The moves: those of the caller, of the other end, of an acknowledgement thread, of the
timer and of its callback. -/
inductive TxMove
  | send (nb : Bool)
  | clear
  | startTimer
  | spawn
  | wake
  | leave
  | ack
  | read
  | stopTimer
  | store
  | post
  | expire
  | deliver
  | toutStore
  | toutPost
deriving DecidableEq, Repr

/-- `fake_can_tx` has set a deadline and has not returned. -/
def TxPc.timed : TxPc → Bool
  | .started | .waiting false | .woken false => true
  | _ => false

/-- One move. -/
def TxState.move (s : TxState) : TxMove → Option TxState
  | .send nb =>
      if s.pc = .idle then
        some { s with pc := .written nb, sent := s.sent + 1, unacked := s.unacked + 1,
                      due := false }
      else none
  | .clear =>
      if s.pc = .written false then some { s with pc := .cleared, txAck := false } else none
  | .startTimer =>
      if s.pc = .cleared then
        some { s with pc := .started, tim := (cbTimer.step s.tim (.start (1000 * nArTimerMs))).1 }
      else none
  | .spawn =>
      match s.pc with
      | .written true => some { s with pc := .waiting true, reading := s.reading + 1 }
      | .started => some { s with pc := .waiting false, reading := s.reading + 1 }
      | _ => none
  | .wake =>
      match s.pc with
      | .waiting nb =>
          if 0 < s.tokens then some { s with pc := .woken nb, tokens := s.tokens - 1 } else none
      | _ => none
  | .leave =>
      match s.pc with
      | .woken _ => some { s with pc := .idle }
      | _ => none
  | .ack =>
      if 0 < s.unacked then some { s with unacked := s.unacked - 1, pipe := s.pipe + 1 } else none
  | .read =>
      if 0 < s.reading ∧ 0 < s.pipe then
        some { s with reading := s.reading - 1, pipe := s.pipe - 1, stopping := s.stopping + 1 }
      else none
  | .stopTimer =>
      if 0 < s.stopping then
        some { s with stopping := s.stopping - 1, storing := s.storing + 1,
                      tim := (cbTimer.step s.tim .stop).1 }
      else none
  | .store =>
      if 0 < s.storing then
        some { s with storing := s.storing - 1, posting := s.posting + 1, txAck := true }
      else none
  | .post =>
      if 0 < s.posting then
        some { s with posting := s.posting - 1, tokens := s.tokens + 1 }
      else none
  | .expire =>
      if s.tim.armed = true then
        some { s with tim := (cbTimer.step s.tim .expire).1, due := s.due || s.pc.timed }
      else none
  | .deliver =>
      if 0 < s.tim.inFlight then
        let p := cbTimer.step s.tim .deliver
        if .cb ∈ p.2 then
          some { s with tim := p.1, toutStoring := s.toutStoring + 1,
                        signalled := s.signalled + 1 }
        else some { s with tim := p.1 }
      else none
  | .toutStore =>
      if 0 < s.toutStoring then
        some { s with toutStoring := s.toutStoring - 1, toutPosting := s.toutPosting + 1,
                      txAck := false }
      else none
  | .toutPost =>
      if 0 < s.toutPosting then
        some { s with toutPosting := s.toutPosting - 1, tokens := s.tokens + 1 }
      else none

/-- The moves `ms`, one after the other. -/
def TxState.moves (s : TxState) : List TxMove → Option TxState
  | [] => some s
  | m :: ms => (s.move m).bind fun t => t.moves ms

/-- One move of any of the threads. -/
def TxStep (s t : TxState) : Prop := ∃ m, s.move m = some t

/-- A state that some order of the moves leads to. -/
def TxState.Reached (s : TxState) : Prop := Relation.ReflTransGen TxStep .start s

/-- What is returned is right: the frame has been acknowledged, unless `fake_can_tx` says
that it has not, after its time. -/
def TxState.ReportsRight (s : TxState) : Prop :=
  match s.pc with
  | .woken true => s.unacked = 0
  | .woken false => if s.txAck = true then s.unacked = 0 else s.due = true
  | _ => True

/-- In every order of the moves the next transmission, one of the kind `nb`, reports right. -/
def NextRight (nb : Bool) (s : TxState) : Prop :=
  ∀ t, Relation.ReflTransGen TxStep s t → t.sent = s.sent + 1 → t.pc = .woken nb →
    t.ReportsRight

/-! ### What a move does -/

section Moves

variable {s t : TxState} {m : TxMove}

/-- The moves, one constructor for each access to what is shared. -/
inductive TxOutcome (s : TxState) : TxMove → TxState → Prop
  | send (nb : Bool) (hpc : s.pc = .idle) : TxOutcome s (.send nb)
      { s with pc := .written nb, sent := s.sent + 1, unacked := s.unacked + 1, due := false }
  | clear (hpc : s.pc = .written false) : TxOutcome s .clear
      { s with pc := .cleared, txAck := false }
  | startTimer (hpc : s.pc = .cleared) : TxOutcome s .startTimer
      { s with pc := .started, tim.tim.status := some .run, tim.armed := true }
  | spawnNb (hpc : s.pc = .written true) : TxOutcome s .spawn
      { s with pc := .waiting true, reading := s.reading + 1 }
  | spawn (hpc : s.pc = .started) : TxOutcome s .spawn
      { s with pc := .waiting false, reading := s.reading + 1 }
  | wake (nb : Bool) (hpc : s.pc = .waiting nb) (h : 0 < s.tokens) : TxOutcome s .wake
      { s with pc := .woken nb, tokens := s.tokens - 1 }
  | leave (nb : Bool) (hpc : s.pc = .woken nb) : TxOutcome s .leave { s with pc := .idle }
  | ack (h : 0 < s.unacked) : TxOutcome s .ack
      { s with unacked := s.unacked - 1, pipe := s.pipe + 1 }
  | read (h : 0 < s.reading) (hpipe : 0 < s.pipe) : TxOutcome s .read
      { s with reading := s.reading - 1, pipe := s.pipe - 1, stopping := s.stopping + 1 }
  | stopTimer (h : 0 < s.stopping) (status : Option CbtimerStatus)
      (hstatus : status ≠ some .run) : TxOutcome s .stopTimer
      { s with stopping := s.stopping - 1, storing := s.storing + 1, tim.tim.status := status }
  | store (h : 0 < s.storing) : TxOutcome s .store
      { s with storing := s.storing - 1, posting := s.posting + 1, txAck := true }
  | post (h : 0 < s.posting) : TxOutcome s .post
      { s with posting := s.posting - 1, tokens := s.tokens + 1 }
  | expire (h : s.tim.armed = true) : TxOutcome s .expire
      { s with tim.armed := false, tim.inFlight := s.tim.inFlight + 1,
               due := s.due || s.pc.timed }
  | callback (h : 0 < s.tim.inFlight) (hrun : s.tim.tim.status = some .run) : TxOutcome s .deliver
      { s with tim.tim.status := some .stop, tim.tim.semExpired := s.tim.tim.semExpired + 1,
               tim.inFlight := s.tim.inFlight - 1, toutStoring := s.toutStoring + 1,
               signalled := s.signalled + 1 }
  | late (h : 0 < s.tim.inFlight) (hrun : s.tim.tim.status ≠ some .run) : TxOutcome s .deliver
      { s with tim.inFlight := s.tim.inFlight - 1 }
  | toutStore (h : 0 < s.toutStoring) : TxOutcome s .toutStore
      { s with toutStoring := s.toutStoring - 1, toutPosting := s.toutPosting + 1,
               txAck := false }
  | toutPost (h : 0 < s.toutPosting) : TxOutcome s .toutPost
      { s with toutPosting := s.toutPosting - 1, tokens := s.tokens + 1 }

theorem move_callback (h : 0 < s.tim.inFlight) (hrun : s.tim.tim.status = some .run)
    (hcb : s.tim.tim.cb = true) : s.move .deliver = some
      { s with tim.tim.status := some .stop, tim.tim.semExpired := s.tim.tim.semExpired + 1,
               tim.inFlight := s.tim.inFlight - 1, toutStoring := s.toutStoring + 1,
               signalled := s.signalled + 1 } := by
  simp [TxState.move, step_deliver, h, hrun, hcb]

theorem move_late (h : 0 < s.tim.inFlight) (hrun : s.tim.tim.status ≠ some .run) :
    s.move .deliver = some { s with tim.inFlight := s.tim.inFlight - 1 } := by
  simp [TxState.move, step_deliver, h, hrun]

theorem move_startTimer (hpc : s.pc = .cleared) : s.move .startTimer = some
    { s with pc := .started, tim.tim.status := some .run, tim.armed := true } := by
  simp [TxState.move, hpc, step_start, nArTimerMs]

theorem move_stopTimer (h : 0 < s.stopping) : ∃ status : Option CbtimerStatus,
    status ≠ some .run ∧ s.move .stopTimer = some
      { s with stopping := s.stopping - 1, storing := s.storing + 1,
               tim.tim.status := status } := by
  by_cases hrun : s.tim.tim.status = some .run
  · exact ⟨some .stop, by decide, by simp [TxState.move, h, step_stop, hrun]⟩
  · exact ⟨s.tim.tim.status, hrun, by simp [TxState.move, h, step_stop, hrun]⟩

theorem tx_outcome (hcb : s.tim.tim.cb = true) (h : s.move m = some t) : TxOutcome s m t := by
  cases m with
  | send nb =>
      obtain ⟨hpc, ⟨⟩⟩ := Option.ite_none_right_eq_some.mp h
      exact .send nb hpc
  | clear =>
      obtain ⟨hpc, ⟨⟩⟩ := Option.ite_none_right_eq_some.mp h
      exact .clear hpc
  | startTimer =>
      obtain ⟨hpc, -⟩ := Option.ite_none_right_eq_some.mp h
      obtain rfl := Option.some.inj ((move_startTimer hpc).symm.trans h)
      exact .startTimer hpc
  | spawn =>
      rw [TxState.move] at h
      split at h
      · rename_i hpc
        obtain rfl := Option.some.inj h
        exact .spawnNb hpc
      · rename_i hpc
        obtain rfl := Option.some.inj h
        exact .spawn hpc
      · cases h
  | wake =>
      rw [TxState.move] at h
      split at h
      · rename_i nb hpc
        obtain ⟨htokens, ⟨⟩⟩ := Option.ite_none_right_eq_some.mp h
        exact .wake nb hpc htokens
      · cases h
  | leave =>
      rw [TxState.move] at h
      split at h
      · rename_i nb hpc
        obtain rfl := Option.some.inj h
        exact .leave nb hpc
      · cases h
  | ack =>
      obtain ⟨hpos, ⟨⟩⟩ := Option.ite_none_right_eq_some.mp h
      exact .ack hpos
  | read =>
      obtain ⟨hpos, ⟨⟩⟩ := Option.ite_none_right_eq_some.mp h
      exact .read hpos.1 hpos.2
  | stopTimer =>
      obtain ⟨hpos, -⟩ := Option.ite_none_right_eq_some.mp h
      obtain ⟨status, hstatus, hmove⟩ := move_stopTimer hpos
      obtain rfl := Option.some.inj (hmove.symm.trans h)
      exact .stopTimer hpos status hstatus
  | store =>
      obtain ⟨hpos, ⟨⟩⟩ := Option.ite_none_right_eq_some.mp h
      exact .store hpos
  | post =>
      obtain ⟨hpos, ⟨⟩⟩ := Option.ite_none_right_eq_some.mp h
      exact .post hpos
  | expire =>
      obtain ⟨harmed, ht⟩ := Option.ite_none_right_eq_some.mp h
      rw [step_expire, if_pos harmed] at ht
      obtain rfl := Option.some.inj ht
      exact .expire harmed
  | deliver =>
      obtain ⟨hflight, -⟩ := Option.ite_none_right_eq_some.mp h
      by_cases hrun : s.tim.tim.status = some .run
      · obtain rfl := Option.some.inj ((move_callback hflight hrun hcb).symm.trans h)
        exact .callback hflight hrun
      · obtain rfl := Option.some.inj ((move_late hflight hrun).symm.trans h)
        exact .late hflight hrun
  | toutStore =>
      obtain ⟨hpos, ⟨⟩⟩ := Option.ite_none_right_eq_some.mp h
      exact .toutStore hpos
  | toutPost =>
      obtain ⟨hpos, ⟨⟩⟩ := Option.ite_none_right_eq_some.mp h
      exact .toutPost hpos

end Moves

theorem reflTransGen_of_moves {s t : TxState} {ms : List TxMove} (h : s.moves ms = some t) :
    Relation.ReflTransGen TxStep s t := by
  induction ms generalizing s with
  | nil =>
      obtain rfl := Option.some.inj h
      exact .refl
  | cons m ms ih =>
      obtain ⟨u, hu, ht⟩ := Option.bind_eq_some_iff.mp h
      exact .head ⟨m, hu⟩ (ih ht)

end CanTp
