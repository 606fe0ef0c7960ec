import CanTp.FakeCan.Tokens

/-!
# When a transmission reports right

Each thread that is left of an earlier transmission can be made to give its token before the
next transmission begins, which then takes it at once. A notification that is left is
delivered right after the timer has been started again. So the conditions under which the
next transmission reports right in every order of the moves are exact.
-/

namespace CanTp

open Relation

namespace TxState

variable {s t : TxState}

/-- Some order of the moves leaves a token for the next transmission. -/
def CanToken (s : TxState) : Prop :=
  ∃ t, ReflTransGen TxStep s t ∧ t.pc = .idle ∧ t.sent = s.sent ∧ 0 < t.tokens

theorem CanToken.of_move {m : TxMove} (h : t.CanToken) (hm : s.move m = some t)
    (hsent : t.sent = s.sent) : s.CanToken := by
  obtain ⟨u, htu, hidle, hu, htokens⟩ := h
  exact ⟨u, .head ⟨m, hm⟩ htu, hidle, hu.trans hsent, htokens⟩

section Threads

variable (hidle : s.pc = .idle)
include hidle

theorem canToken_of_tokens (h : 0 < s.tokens) : s.CanToken := ⟨s, .refl, hidle, rfl, h⟩

theorem canToken_of_posting (h : 0 < s.posting) : s.CanToken := by
  refine (canToken_of_tokens ?_ ?_).of_move (m := .post) (if_pos h) rfl
  · exact hidle
  · exact Nat.succ_pos _

theorem canToken_of_storing (h : 0 < s.storing) : s.CanToken := by
  refine (canToken_of_posting ?_ ?_).of_move (m := .store) (if_pos h) rfl
  · exact hidle
  · exact Nat.succ_pos _

theorem canToken_of_stopping (h : 0 < s.stopping) : s.CanToken := by
  obtain ⟨status, -, hmove⟩ := move_stopTimer h
  refine (canToken_of_storing ?_ ?_).of_move hmove rfl
  · exact hidle
  · exact Nat.succ_pos _

theorem canToken_of_pipe (h : 0 < s.reading) (hpipe : 0 < s.pipe) : s.CanToken := by
  refine (canToken_of_stopping ?_ ?_).of_move (m := .read) (if_pos ⟨h, hpipe⟩) rfl
  · exact hidle
  · exact Nat.succ_pos _

theorem canToken_of_reading (hs : s.Sound) (h : 0 < s.reading) : s.CanToken := by
  have hacks := hs.balanced.acks
  by_cases hpipe : 0 < s.pipe
  · exact canToken_of_pipe hidle h hpipe
  · have hunacked : 0 < s.unacked := by omega
    refine (canToken_of_pipe ?_ ?_ ?_).of_move (m := .ack) (if_pos hunacked) rfl
    · exact hidle
    · exact h
    · exact Nat.succ_pos _

theorem canToken_of_toutPosting (h : 0 < s.toutPosting) : s.CanToken := by
  refine (canToken_of_tokens ?_ ?_).of_move (m := .toutPost) (if_pos h) rfl
  · exact hidle
  · exact Nat.succ_pos _

theorem canToken_of_toutStoring (h : 0 < s.toutStoring) : s.CanToken := by
  refine (canToken_of_toutPosting ?_ ?_).of_move (m := .toutStore) (if_pos h) rfl
  · exact hidle
  · exact Nat.succ_pos _

/-- After a time-out there is a token, or a thread that gives one. -/
theorem canToken_of_signalled (hs : s.Sound) (h : 0 < s.signalled) : s.CanToken := by
  have htokens := hs.tokens_idle hidle
  rw [toutThreads] at htokens
  rcases Nat.eq_zero_or_pos s.tokens with h₀ | h₀
  swap
  · exact canToken_of_tokens hidle h₀
  rcases Nat.eq_zero_or_pos s.reading with h₁ | h₁
  swap
  · exact canToken_of_reading hidle hs h₁
  rcases Nat.eq_zero_or_pos s.stopping with h₂ | h₂
  swap
  · exact canToken_of_stopping hidle h₂
  rcases Nat.eq_zero_or_pos s.storing with h₃ | h₃
  swap
  · exact canToken_of_storing hidle h₃
  rcases Nat.eq_zero_or_pos s.posting with h₄ | h₄
  swap
  · exact canToken_of_posting hidle h₄
  rcases Nat.eq_zero_or_pos s.toutStoring with h₅ | h₅
  swap
  · exact canToken_of_toutStoring hidle h₅
  · exact canToken_of_toutPosting hidle (by omega)

end Threads

theorem CanToken.not_nextRight (h : s.CanToken) (nb : Bool) : ¬ NextRight nb s := by
  obtain ⟨t, hst, hidle, hsent, htokens⟩ := h
  intro hright
  cases nb with
  | true =>
      let u : TxState := { t with pc := .woken true, sent := t.sent + 1,
                                  unacked := t.unacked + 1, due := false,
                                  reading := t.reading + 1, tokens := t.tokens - 1 }
      have hmoves : t.moves [.send true, .spawn, .wake] = some u := by
        simp [moves, move, hidle, htokens, u]
      have hu := hright u (hst.trans (reflTransGen_of_moves hmoves)) (by rw [← hsent]) rfl
      exact Nat.succ_ne_zero _ hu
  | false =>
      let u : TxState := { t with pc := .woken false, sent := t.sent + 1,
                                  unacked := t.unacked + 1, due := false, txAck := false,
                                  tim.tim.status := some .run, tim.armed := true,
                                  reading := t.reading + 1, tokens := t.tokens - 1 }
      have hmoves : t.moves [.send false, .clear, .startTimer, .spawn, .wake] = some u := by
        simp [moves, move, hidle, htokens, u, step_start, nArTimerMs]
      have hu := hright u (hst.trans (reflTransGen_of_moves hmoves)) (by rw [← hsent]) rfl
      cases hu

/-! ### Without a time-out -/

/-- No deadline has passed. -/
def InTime (s : TxState) : Prop := s.signalled = 0 ∧ s.tim.inFlight = 0

theorem inTime_move {m : TxMove} (h : s.InTime) (hout : TxOutcome s m t) (hm : m ≠ .expire) :
    t.InTime := by
  cases hout with
  | callback hflight | late hflight => exact absurd h.2 hflight.ne'
  | expire => exact absurd rfl hm
  | _ => exact h

theorem inTime_moves {ms : List TxMove} (hs : s.Sound) (h : s.InTime) (hno : .expire ∉ ms)
    (hmoves : s.moves ms = some t) : t.Sound ∧ t.InTime := by
  induction ms generalizing s with
  | nil =>
      obtain rfl := Option.some.inj hmoves
      exact ⟨hs, h⟩
  | cons m ms ih =>
      obtain ⟨u, hu, ht⟩ := Option.bind_eq_some_iff.mp hmoves
      obtain ⟨hsound, hout⟩ := hs.move hu
      obtain ⟨hm, hno'⟩ := not_or.mp (fun hmem => hno (List.mem_cons.mpr hmem))
      exact ih hsound (inTime_move h hout (Ne.symm hm)) hno' ht

/-- As long as no deadline passes, `fake_can_tx_nb` and `fake_can_tx` end after their own
acknowledgement, and `fake_can_tx` returns zero. -/
theorem acked_of_inTime {ms : List TxMove} {nb : Bool} (hno : .expire ∉ ms)
    (hmoves : TxState.start.moves ms = some t) (hpc : t.pc = .woken nb) :
    t.unacked = 0 ∧ t.pipe = 0 ∧ (nb = false → t.txAck = true) := by
  obtain ⟨ht, hnone, -⟩ := inTime_moves (Reached.sound .refl) ⟨rfl, rfl⟩ hno hmoves
  have hacks := ht.balanced.acks
  have htokens := ht.balanced.tokens
  simp only [ackThreads, hpc, TxPc.spawns, TxPc.takes, hnone] at htokens hacks
  refine ⟨by omega, by omega, fun hnb => ?_⟩
  subst hnb
  exact (ht.inStep hnone).stored (.inl hpc)

/-- One frame, acknowledged while its caller has not yet come to `sem_wait`. -/
theorem acked_of_inTime_once :
    let t : TxState := ⟨.woken false, 1, 0, 0, 0, 0, 0, 0, 0, 0, 0, true,
      ⟨⟨some .stop, 0, none, true⟩, true, 0⟩, false, 0⟩
    t.unacked = 0 ∧ t.pipe = 0 ∧ (false = false → t.txAck = true) := by
  intro t
  have hmoves : TxState.start.moves [.send false, .ack, .clear, .startTimer, .spawn, .read,
      .stopTimer, .store, .post, .wake] = some t := by decide
  exact acked_of_inTime (by decide) hmoves rfl

/-- What the next transmission reports does not depend on what happens before it begins. -/
theorem nextRight_of_move {nb : Bool} {m : TxMove} (h : NextRight nb s) (hm : s.move m = some t)
    (hsent : t.sent = s.sent) : NextRight nb t := fun u htu hu =>
  h u (.head ⟨m, hm⟩ htu) (by rw [hu, hsent])

theorem not_nextRight_of_flight (hs : s.Sound) (hidle : s.pc = .idle)
    (h : 0 < s.tim.inFlight) : ¬ NextRight false s := by
  intro hright
  let u : TxState := { s with pc := .woken false, sent := s.sent + 1,
                              unacked := s.unacked + 1, due := false, txAck := false,
                              tim.tim.status := some .stop, tim.armed := true,
                              tim.tim.semExpired := s.tim.tim.semExpired + 1,
                              tim.inFlight := s.tim.inFlight - 1,
                              reading := s.reading + 1, signalled := s.signalled + 1 }
  have hmoves : s.moves [.send false, .clear, .startTimer, .deliver, .toutStore, .toutPost,
      .spawn, .wake] = some u := by
    simp [moves, move, hidle, u, step_start, step_deliver, nArTimerMs, h, hs.balanced.cb]
  have hu := hright u (reflTransGen_of_moves hmoves) rfl rfl
  cases hu

theorem not_nextRight_of_armed (hs : s.Sound) (hidle : s.pc = .idle)
    (h : s.tim.armed = true) : ¬ NextRight false s := by
  intro hright
  have hmove : s.move .expire = some
      { s with tim := (cbTimer.step s.tim .expire).1, due := s.due || s.pc.timed } := if_pos h
  have hflight : 0 < (cbTimer.step s.tim .expire).1.inFlight := by
    rw [step_expire, if_pos h]
    exact Nat.succ_pos _
  exact not_nextRight_of_flight (hs.move hmove).1 hidle hflight
    (nextRight_of_move hright hmove rfl)

/-- In every state reached outside a transmission: `fake_can_tx_nb` reports right next time, in
every order of the moves, exactly if there was no time-out so far, and `fake_can_tx` exactly
if in addition nothing is left in the kernel of an earlier deadline. -/
theorem next_right_iff (h : s.Reached) (hidle : s.pc = .idle) :
    (NextRight true s ↔ s.signalled = 0) ∧
      (NextRight false s ↔
        s.signalled = 0 ∧ s.tim.inFlight = 0 ∧ s.tim.armed = false) := by
  have hs := h.sound
  have hnone : ∀ nb, NextRight nb s → s.signalled = 0 := fun nb hright => by
    by_contra hpos
    exact (canToken_of_signalled hidle hs (Nat.pos_of_ne_zero hpos)).not_nextRight nb hright
  refine ⟨⟨hnone true, nextRight_nb hs hidle⟩, fun hright => ⟨hnone false hright, ?_, ?_⟩,
    fun ⟨hzero, hflight, harmed⟩ => nextRight_tx hs ⟨hidle, hzero, hflight, harmed⟩⟩
  · by_contra hpos
    exact not_nextRight_of_flight hs hidle (Nat.pos_of_ne_zero hpos) hright
  · by_contra harmed
    exact not_nextRight_of_armed hs hidle (by simpa using harmed) hright

/-- After a transmission that was acknowledged in time the deadline is still set: the next
`fake_can_tx_nb` reports right, the next `fake_can_tx` may not. -/
theorem next_right_acked :
    let s : TxState := ⟨.idle, 1, 0, 0, 0, 0, 0, 0, 0, 0, 0, true,
      ⟨⟨some .stop, 0, none, true⟩, true, 0⟩, false, 0⟩
    s.Reached ∧ NextRight true s ∧ ¬ NextRight false s := by
  intro s
  have hmoves : TxState.start.moves [.send false, .clear, .startTimer, .spawn, .ack, .read,
      .stopTimer, .store, .post, .wake, .leave] = some s := by decide
  have hreached : s.Reached := reflTransGen_of_moves hmoves
  obtain ⟨hnb, htx⟩ := next_right_iff hreached rfl
  exact ⟨hreached, hnb.mpr rfl, fun hright => absurd (htx.mp hright).2.2 (by decide)⟩

theorem signalled_le_of_run (h : s.Sound) (hst : ReflTransGen TxStep s t) :
    t.Sound ∧ s.signalled ≤ t.signalled := by
  induction hst with
  | refl => exact ⟨h, Nat.le_refl _⟩
  | tail _ hst ih =>
      obtain ⟨m, hm⟩ := hst
      obtain ⟨hsound, hout⟩ := ih.1.move hm
      exact ⟨hsound, ih.2.trans (signalled_le hout)⟩

/-- A time-out is never made up for: in every state that comes after one, outside a
transmission, the next transmission of either kind may report wrong, and when all threads
have ended there is a token left for each time-out. -/
theorem late_for_ever (h : s.Reached) (hs : 0 < s.signalled) (hst : ReflTransGen TxStep s t)
    (hidle : t.pc = .idle) : (∀ nb, ¬ NextRight nb t) ∧
      (t.ackThreads = 0 → t.toutThreads = 0 → t.tokens = t.signalled) := by
  obtain ⟨ht, hle⟩ := signalled_le_of_run h.sound hst
  refine ⟨(canToken_of_signalled hidle ht (hs.trans_le hle)).not_nextRight, fun hack htout => ?_⟩
  have htokens := ht.balanced.tokens
  rw [hack, htout, hidle] at htokens
  simpa [TxPc.takes] using htokens

/-- A frame is acknowledged late, once. -/
theorem late_for_ever_once :
    let s : TxState := ⟨.started, 1, 1, 0, 0, 0, 0, 0, 1, 0, 0, false,
      ⟨⟨some .stop, 1, none, true⟩, false, 0⟩, true, 1⟩
    let t : TxState := ⟨.idle, 1, 0, 0, 0, 0, 0, 0, 0, 0, 1, true,
      ⟨⟨some .stop, 1, none, true⟩, false, 0⟩, true, 1⟩
    s.Reached ∧ ReflTransGen TxStep s t ∧ (∀ nb, ¬ NextRight nb t) ∧
      (t.ackThreads = 0 → t.toutThreads = 0 → t.tokens = t.signalled) := by
  intro s t
  have hmoves : TxState.start.moves [.send false, .clear, .startTimer, .expire,
      .deliver] = some s := by decide
  have hmoves' : s.moves [.spawn, .toutStore, .toutPost, .wake, .leave, .ack, .read, .stopTimer,
      .store, .post] = some t := by decide
  have hreached : s.Reached := reflTransGen_of_moves hmoves
  have hlate := reflTransGen_of_moves hmoves'
  exact ⟨hreached, hlate, late_for_ever hreached (by decide) hlate rfl⟩

end TxState

end CanTp
