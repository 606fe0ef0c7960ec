import CanTp.FakeCan.Transmit

/-!
# The tokens that time-outs leave behind

A transmission takes one token and starts one thread that gives one. A time-out gives one
more, which nobody is there to take: it stays for ever, and the next transmission takes it
instead of its own. So what `fake_can_tx_nb` and `fake_can_tx` report is right, in every
order of the moves, as long as there has not been a time-out. `fake_can_tx` also mistakes a
notification of an earlier deadline for one of its own.
-/

namespace CanTp

open Relation

/-- The threads that the transmission in progress still has to start. -/
def TxPc.spawns : TxPc → Nat
  | .written _ | .cleared | .started => 1
  | _ => 0

/-- The tokens that the transmission in progress still has to take. -/
def TxPc.takes : TxPc → Nat
  | .idle | .woken _ => 0
  | _ => 1

/-- In `fake_can_tx_nb`. -/
def TxPc.ofNb : TxPc → Bool
  | .written nb | .waiting nb | .woken nb => nb
  | _ => false

/-- In `fake_can_tx`. -/
def TxPc.ofTx : TxPc → Bool
  | .written nb | .waiting nb | .woken nb => !nb
  | .cleared | .started => true
  | .idle => false

namespace TxState

/-- The acknowledgement threads, those to be started included. -/
def ackThreads (s : TxState) : Nat :=
  s.pc.spawns + s.reading + s.stopping + s.storing + s.posting

/-- The callbacks that have not ended. -/
def toutThreads (s : TxState) : Nat := s.toutStoring + s.toutPosting

/-- Every transmission takes a token and every thread gives one. -/
structure Balanced (s : TxState) : Prop where
  tokens : s.tokens + s.ackThreads + s.toutThreads = s.pc.takes + s.signalled
  acks : s.pc.spawns + s.reading = s.unacked + s.pipe
  touts : s.toutThreads ≤ s.signalled
  cb : s.tim.tim.cb = true

/-- Without a time-out, the timer runs from its start until the acknowledgement is read, and
the token comes after the store of `tx_ack`. -/
structure InStep (s : TxState) : Prop where
  running : s.tim.tim.status = some .run →
    s.pc = .started ∨ s.pc = .waiting false ∧ 0 < s.reading + s.stopping
  stored : s.pc = .woken false ∨ s.pc = .waiting false ∧ 0 < s.posting + s.tokens →
    s.txAck = true

section Invariants

variable {s t : TxState} {m : TxMove}

theorem Balanced.step (h : s.Balanced) (hst : TxOutcome s m t) : t.Balanced := by
  obtain ⟨htokens, hacks, htouts, hcb⟩ := h
  simp only [ackThreads, toutThreads] at *
  cases hst <;> refine ⟨?_, ?_, ?_, hcb⟩ <;>
    simp_all only [ackThreads, toutThreads, TxPc.spawns, TxPc.takes] <;> omega

theorem signalled_le (hst : TxOutcome s m t) : s.signalled ≤ t.signalled := by
  cases hst with
  | callback => exact Nat.le_succ _
  | _ => exact Nat.le_refl _

theorem InStep.stopped (h : s.InStep) (hidle : s.pc ≠ .started) (hwait : s.pc ≠ .waiting false) :
    s.tim.tim.status ≠ some .run := fun hrun =>
  (h.running hrun).elim hidle fun hpc => hwait hpc.1

/-- A move between two states without a time-out. There is one thread or one token at a time,
so that a move that needs one says where everything is. -/
theorem InStep.step (h : s.InStep) (hbal : s.Balanced) (hst : TxOutcome s m t)
    (hnone : t.signalled = 0) : t.InStep := by
  have hs : s.signalled = 0 := Nat.le_zero.mp ((signalled_le hst).trans_eq hnone)
  obtain ⟨htokens, hacks, htouts, hcb⟩ := hbal
  simp only [ackThreads, toutThreads, hs] at htokens htouts
  cases hst with
  | send nb hpc =>
      exact ⟨fun hrun => absurd hrun (h.stopped (by simp [hpc]) (by simp [hpc])), by simp⟩
  | clear hpc =>
      exact ⟨fun hrun => absurd hrun (h.stopped (by simp [hpc]) (by simp [hpc])), by simp⟩
  | startTimer hpc => exact ⟨fun _ => .inl rfl, by simp⟩
  | spawnNb hpc =>
      exact ⟨fun hrun => absurd hrun (h.stopped (by simp [hpc]) (by simp [hpc])), by simp⟩
  | spawn hpc =>
      refine ⟨fun _ => .inr ⟨rfl, by dsimp only; omega⟩, fun hgiven => ?_⟩
      have hpos : 0 < s.posting + s.tokens := by simpa using hgiven
      simp only [hpc, TxPc.spawns, TxPc.takes] at htokens
      omega
  | wake nb hpc htoken =>
      simp only [hpc, TxPc.spawns, TxPc.takes] at htokens
      refine ⟨fun hrun => ?_, fun hwoken => h.stored (.inr ⟨?_, by omega⟩)⟩
      · obtain hstarted | ⟨-, hpos⟩ := h.running hrun
        · rw [hpc] at hstarted
          cases hstarted
        · omega
      · obtain rfl : nb = false := by simpa using hwoken
        exact hpc
  | leave nb hpc =>
      exact ⟨fun hrun => absurd hrun (h.stopped (by simp [hpc]) (by simp [hpc])), by simp⟩
  | ack | expire | late => exact ⟨h.running, h.stored⟩
  | read hpos =>
      refine ⟨fun hrun => (h.running hrun).imp id fun hpc => ⟨hpc.1, ?_⟩, h.stored⟩
      dsimp only
      omega
  | stopTimer hpos status hstatus => exact ⟨fun hrun => absurd hrun hstatus, h.stored⟩
  | store hpos => exact ⟨h.running, fun _ => rfl⟩
  | post hpos =>
      refine ⟨h.running, fun hgiven => h.stored (hgiven.imp id fun hpc => ⟨hpc.1, ?_⟩)⟩
      omega
  | callback => exact absurd hnone (Nat.succ_ne_zero _)
  | toutStore hpos => omega
  | toutPost hpos => omega

/-- What holds in every state reached. -/
structure Sound (s : TxState) : Prop where
  balanced : s.Balanced
  inStep : s.signalled = 0 → s.InStep

theorem Sound.move (h : s.Sound) (hm : s.move m = some t) : t.Sound ∧ TxOutcome s m t := by
  have hout := tx_outcome h.balanced.cb hm
  refine ⟨⟨h.balanced.step hout, fun hnone => ?_⟩, hout⟩
  have hs : s.signalled = 0 := Nat.le_zero.mp ((signalled_le hout).trans_eq hnone)
  exact (h.inStep hs).step h.balanced hout hnone

theorem Reached.sound (h : s.Reached) : s.Sound := by
  induction h with
  | refl =>
      exact ⟨⟨rfl, rfl, Nat.le_refl _, rfl⟩, fun _ => ⟨by decide, by decide⟩⟩
  | tail _ hst ih =>
      obtain ⟨m, hm⟩ := hst
      exact (ih.move hm).1

/-- Outside a transmission the threads that have not ended and the tokens left are as many as
the time-outs. -/
theorem Sound.tokens_idle (h : s.Sound) (hidle : s.pc = .idle) :
    s.tokens + (s.reading + s.stopping + s.storing + s.posting) + s.toutThreads =
      s.signalled := by
  have htokens := h.balanced.tokens
  simpa only [ackThreads, hidle, TxPc.spawns, TxPc.takes, Nat.zero_add] using htokens

theorem Sound.stopped (h : s.Sound) (hnone : s.signalled = 0) (hpc : s.pc.timed = false) :
    s.tim.tim.status ≠ some .run :=
  (h.inStep hnone).stopped (fun heq => by simp [heq, TxPc.timed] at hpc)
    fun heq => by simp [heq, TxPc.timed] at hpc

end Invariants

/-! ### One transmission -/

section Next

variable {s t : TxState} {m : TxMove} {A B : TxState → Prop}

/-- From `s` on: `A` until the next transmission begins, and `B` until the one after it. -/
theorem next_induction (hs : s.Sound) (hA : A s)
    (stepA : ∀ {u m v}, u.Sound → A u → TxOutcome u m v → v.sent = u.sent → A v)
    (stepAB : ∀ {u m v}, u.Sound → A u → TxOutcome u m v → v.sent = u.sent + 1 → B v)
    (stepB : ∀ {u m v}, u.Sound → B u → TxOutcome u m v → v.sent = u.sent → B v)
    (hst : ReflTransGen TxStep s t) : t.Sound ∧
      (t.sent = s.sent ∧ A t ∨ t.sent = s.sent + 1 ∧ B t ∨ s.sent + 1 < t.sent) := by
  induction hst with
  | refl => exact ⟨hs, .inl ⟨rfl, hA⟩⟩
  | @tail u v _ huv ih =>
      obtain ⟨hu, hphase⟩ := ih
      obtain ⟨m, hm⟩ := huv
      obtain ⟨hv, hout⟩ := hu.move hm
      refine ⟨hv, ?_⟩
      have hsent : v.sent = u.sent ∨ v.sent = u.sent + 1 := by
        cases hout with
        | send => exact .inr rfl
        | _ => exact .inl rfl
      rcases hphase with ⟨heq, hAu⟩ | ⟨heq, hBu⟩ | hlt
      · rcases hsent with hsame | hnext
        · exact .inl ⟨hsame.trans heq, stepA hu hAu hout hsame⟩
        · exact .inr (.inl ⟨by rw [hnext, heq], stepAB hu hAu hout hnext⟩)
      · rcases hsent with hsame | hnext
        · exact .inr (.inl ⟨hsame.trans heq, stepB hu hBu hout hsame⟩)
        · exact .inr (.inr (by rw [hnext, heq]; exact Nat.lt_succ_self _))
      · exact .inr (.inr (hsent.elim (fun h => h ▸ hlt)
          fun h => h ▸ hlt.trans (Nat.lt_succ_self _)))

/-- In `fake_can_tx_nb` without a time-out. -/
def CalmNb (t : TxState) : Prop := t.pc.ofNb = true → t.signalled = 0

theorem signalled_eq (h : s.Sound) (hnone : s.signalled = 0) (hpc : s.pc.timed = false)
    (hst : TxOutcome s m t) : t.signalled = 0 := by
  cases hst with
  | callback _ hrun => exact absurd hrun (h.stopped hnone hpc)
  | _ => exact hnone

theorem calmNb_step {u v : TxState} {m : TxMove} (hu : u.Sound) (h : u.CalmNb)
    (hout : TxOutcome u m v) (hsent : v.sent = u.sent) : v.CalmNb := by
  intro hnb
  have hpc : u.pc.ofNb = true := by
    cases hout with
    | send => exact absurd hsent (Nat.succ_ne_self _)
    | clear | startTimer | spawn | leave => cases hnb
    | spawnNb hpc => rw [hpc]; rfl
    | wake nb hpc => rw [hpc]; exact hnb
    | _ => exact hnb
  refine signalled_eq hu (h hpc) ?_ hout
  cases hu' : u.pc <;> simp_all [TxPc.ofNb, TxPc.timed]

theorem idle_step {u v : TxState} {m : TxMove} (hpc : u.pc = .idle) (hout : TxOutcome u m v)
    (hsent : v.sent = u.sent) : v.pc = .idle := by
  cases hout with
  | send => exact absurd hsent (Nat.succ_ne_self _)
  | clear h | startTimer h | spawnNb h | spawn h | wake _ h => cases hpc.symm.trans h
  | leave => rfl
  | _ => exact hpc

/-- Without a time-out so far, the next `fake_can_tx_nb` reports right. -/
theorem nextRight_nb (hs : s.Sound) (hidle : s.pc = .idle) (hnone : s.signalled = 0) :
    NextRight true s := by
  intro t hst hsent hpc
  obtain ⟨ht, hphase⟩ := next_induction (A := fun u => u.pc = .idle ∧ u.signalled = 0)
    (B := CalmNb) hs ⟨hidle, hnone⟩
    (fun hu hA hout hsame => ⟨idle_step hA.1 hout hsame,
      signalled_eq hu hA.2 (by rw [hA.1]; rfl) hout⟩)
    (fun hu hA hout _ _ => signalled_eq hu hA.2 (by rw [hA.1]; rfl) hout) calmNb_step hst
  have hnone' : t.signalled = 0 := by
    rcases hphase with ⟨heq, -⟩ | ⟨-, hB⟩ | hlt
    · omega
    · exact hB (by rw [hpc]; rfl)
    · omega
  have hacks := ht.balanced.acks
  have htokens := ht.balanced.tokens
  simp only [ackThreads, hpc, TxPc.spawns, TxPc.takes, hnone'] at htokens hacks
  rw [ReportsRight, hpc]
  dsimp only
  omega

/-- In `fake_can_tx`, begun without anything left of an earlier one: there is one
acknowledgement thread, `tx_ack` is its store, and only the own deadline can pass. -/
structure TimedTx (t : TxState) : Prop where
  threads : t.ackThreads ≤ 1
  quiet : t.due = false →
    t.signalled = 0 ∧ t.tim.inFlight = 0 ∧ (t.tim.armed = true → t.pc.timed = true)
  stored : t.txAck = true → t.pc = .written false ∨ t.pc.spawns + t.reading = 0

theorem timedTx_step {u v : TxState} {m : TxMove} (h : u.pc.ofTx = true → u.TimedTx)
    (hout : TxOutcome u m v) (hsent : v.sent = u.sent) (htx : v.pc.ofTx = true) :
    v.TimedTx := by
  have htx' : u.pc.ofTx = true := by
    cases hout with
    | send => exact absurd hsent (Nat.succ_ne_self _)
    | spawnNb | leave => cases htx
    | clear hpc | startTimer hpc | spawn hpc => rw [hpc]; rfl
    | wake nb hpc => rw [hpc]; exact htx
    | _ => exact htx
  obtain ⟨hthreads, hquiet, hstored⟩ := h htx'
  simp only [ackThreads] at hthreads
  cases hout with
  | send => exact absurd hsent (Nat.succ_ne_self _)
  | spawnNb | leave => cases htx
  | clear hpc =>
      simp only [hpc, TxPc.spawns] at hthreads
      refine ⟨hthreads, fun hdue => ?_, fun hack => (by cases hack)⟩
      obtain ⟨hnone, hflight, harmed⟩ := hquiet hdue
      exact ⟨hnone, hflight, fun ha => by rw [hpc] at harmed; cases harmed ha⟩
  | startTimer hpc =>
      simp only [hpc, TxPc.spawns] at hthreads
      refine ⟨hthreads, fun hdue => ?_, fun hack => ?_⟩
      · exact ⟨(hquiet hdue).1, (hquiet hdue).2.1, fun _ => rfl⟩
      · rcases hstored hack with hpc' | hzero
        · cases hpc.symm.trans hpc'
        · simp only [hpc, TxPc.spawns] at hzero
          omega
  | spawn hpc =>
      refine ⟨?_, fun hdue => ⟨(hquiet hdue).1, (hquiet hdue).2.1, fun _ => rfl⟩, fun hack => ?_⟩
      · simp only [hpc, ackThreads, TxPc.spawns] at hthreads ⊢
        omega
      · rcases hstored hack with hpc' | hzero
        · cases hpc.symm.trans hpc'
        · simp only [hpc, TxPc.spawns] at hzero
          omega
  | wake nb hpc =>
      obtain rfl : nb = false := by simpa [TxPc.ofTx] using htx
      simp only [hpc, TxPc.spawns] at hthreads
      refine ⟨hthreads, fun hdue => ⟨(hquiet hdue).1, (hquiet hdue).2.1, fun _ => rfl⟩,
        fun hack => .inr ?_⟩
      rcases hstored hack with hpc' | hzero
      · cases hpc.symm.trans hpc'
      · simpa only [hpc, TxPc.spawns] using hzero
  | ack => exact ⟨hthreads, hquiet, hstored⟩
  | read hpos =>
      refine ⟨?_, hquiet, fun hack => (hstored hack).imp id fun hzero => ?_⟩
      · simp only [ackThreads]
        omega
      · dsimp only
        omega
  | stopTimer hpos =>
      refine ⟨?_, hquiet, hstored⟩
      simp only [ackThreads]
      omega
  | store hpos =>
      refine ⟨?_, hquiet, fun _ => .inr ?_⟩
      · simp only [ackThreads]
        omega
      · dsimp only
        omega
  | post hpos =>
      refine ⟨?_, hquiet, hstored⟩
      simp only [ackThreads]
      omega
  | expire harmed =>
      refine ⟨hthreads, fun hdue => ?_, hstored⟩
      obtain ⟨hdue, htimed⟩ := Bool.or_eq_false_iff.mp hdue
      rw [(hquiet hdue).2.2 harmed] at htimed
      cases htimed
  | callback hflight =>
      exact ⟨hthreads, fun hdue => absurd (hquiet hdue).2.1 hflight.ne', hstored⟩
  | late hflight =>
      exact ⟨hthreads, fun hdue => absurd (hquiet hdue).2.1 hflight.ne', hstored⟩
  | toutStore => exact ⟨hthreads, hquiet, fun hack => (by cases hack)⟩
  | toutPost => exact ⟨hthreads, hquiet, hstored⟩

/-- Outside a transmission, with nothing left of an earlier one. -/
structure Settled (s : TxState) : Prop where
  idle : s.pc = .idle
  none : s.signalled = 0
  flight : s.tim.inFlight = 0
  armed : s.tim.armed = false

theorem settled_step {u v : TxState} {m : TxMove} (hu : u.Sound) (h : u.Settled)
    (hout : TxOutcome u m v) (hsent : v.sent = u.sent) : v.Settled := by
  refine ⟨idle_step h.idle hout hsent, signalled_eq hu h.none (by rw [h.idle]; rfl) hout, ?_, ?_⟩
  all_goals
    cases hout with
    | startTimer hpc => cases h.idle.symm.trans hpc
    | expire harmed => exact absurd (harmed.symm.trans h.armed) (by decide)
    | callback hflight | late hflight => exact absurd h.flight hflight.ne'
    | _ => first | exact h.flight | exact h.armed

theorem timedTx_begin {u v : TxState} {m : TxMove} (hu : u.Sound) (h : u.Settled)
    (hout : TxOutcome u m v) (hsent : v.sent = u.sent + 1) (htx : v.pc.ofTx = true) :
    v.TimedTx := by
  have htokens := hu.tokens_idle h.idle
  rw [h.none] at htokens
  cases hout with
  | send nb =>
      obtain rfl : nb = false := by simpa [TxPc.ofTx] using htx
      refine ⟨?_, fun _ => ⟨h.none, h.flight, fun harmed => ?_⟩, fun _ => .inl rfl⟩
      · simp only [ackThreads, TxPc.spawns]
        omega
      · exact absurd (harmed.symm.trans h.armed) (by decide)
  | _ => exact absurd hsent (Nat.succ_ne_self _).symm

/-- Without a time-out so far, and with no deadline and no notification left of an earlier
one, the next `fake_can_tx` reports right. -/
theorem nextRight_tx (hs : s.Sound) (h : s.Settled) : NextRight false s := by
  intro t hst hsent hpc
  obtain ⟨ht, hphase⟩ := next_induction (A := Settled) (B := fun u => u.pc.ofTx = true → u.TimedTx)
    hs h settled_step timedTx_begin (fun _ => timedTx_step) hst
  have htimed : t.TimedTx := by
    rcases hphase with ⟨heq, -⟩ | ⟨-, hB⟩ | hlt
    · omega
    · exact hB (by rw [hpc]; rfl)
    · omega
  rw [ReportsRight, hpc]
  dsimp only
  split
  · rename_i hack
    have hacks := ht.balanced.acks
    rcases htimed.stored hack with hpc' | hzero
    · cases hpc.symm.trans hpc'
    · omega
  · rename_i hack
    by_contra hdue
    have hnone := (htimed.quiet (by simpa using hdue)).1
    exact hack ((ht.inStep hnone).stored (.inl hpc))

end Next

end TxState

end CanTp
