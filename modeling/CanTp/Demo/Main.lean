import CanTp.FakeCan.Delivery

/-!
# The main loop of the test

`main` of `cantp_test.c` sends one message and then calls `fake_can_rx_task` until
`rcvr_end_sem` has been posted. The callbacks of both processes post it; `main` looks at
its value only between two calls of `fake_can_rx_task`. When it leaves the loop it kills
the other process, whatever that process is doing.

So `main` needs a frame to come in before it looks for the first time. For a message that
is sent in a Single Frame none does, and `main` never ends.
-/

namespace CanTp

open Library

/-- Where `main` stands: in `cantp_send`, in `fake_can_rx_task`, before
`sem_getvalue(rcvr_end_sem, &semval)`, or behind the loop. -/
inductive MainPhase
  | sending
  | receiving
  | looking
  | ended
deriving DecidableEq, Repr

/-- The callbacks of `cantp_test.c` that end with `sem_post(rcvr_end_sem)`. -/
def Act.postsEnd : Act → Bool
  | .sndrResultCb _ | .receivedCb .. | .sndrTxDoneCb => true
  | _ => false

/-- The two processes and where `main`, the sending one, stands. -/
structure Demo where
  link : FakeLink
  phase : MainPhase
deriving DecidableEq

/-- The value of `rcvr_end_sem`. -/
def Demo.rcvrEndSem (d : Demo) : Nat :=
  d.link.left.out.countP Act.postsEnd + d.link.right.out.countP Act.postsEnd

/-- A function of the link layer or the transport layer has returned to `main` when its
process is about to receive. -/
def MainPhase.next (p : MainPhase) (stage : FakeCanStage) : MainPhase :=
  match p, stage with
  | .sending, .receiving => .receiving
  | .receiving, .receiving => .looking
  | p, _ => p

namespace Exchange

/-- What happens next: `main` runs on in a function it has called, looks at the semaphore,
or the receiving process runs on. -/
inductive DemoTurn
  | sndr
  | look
  | rcvr
deriving DecidableEq, Repr

variable (x : Exchange)

/-- `main` has called `cantp_send`, the receiving process is in `fake_can_rx_task`. -/
def demoStart : Demo := ⟨x.fakeStart, MainPhase.sending.next x.fakeStart.left.stage⟩

/-- One turn of the test, if it is possible. -/
def demoTurn : DemoTurn → Demo → Option Demo
  | .sndr, d =>
      if d.phase = .sending ∨ d.phase = .receiving then
        (Piped.turn (fakeCan x.sndrEnv) (fakeCan x.rcvrEnv) .left d.link).map fun l =>
          ⟨l, d.phase.next l.left.stage⟩
      else none
  | .look, d =>
      if d.phase = .looking then
        some ⟨d.link, if d.rcvrEndSem = 0 then .receiving else .ended⟩
      else none
  | .rcvr, d =>
      if d.phase ≠ .ended then
        (Piped.turn (fakeCan x.sndrEnv) (fakeCan x.rcvrEnv) .right d.link).map fun l =>
          ⟨l, d.phase⟩
      else none

/-- Some turn leads from one state of the test to the next. -/
def DemoStep (d d' : Demo) : Prop := ∃ t, x.demoTurn t d = some d'

/-- The states of the test in its runs. -/
def DemoReached (d : Demo) : Prop := Relation.ReflTransGen x.DemoStep x.demoStart d

variable {x} {d d' : Demo}

/-! ### The loop -/

theorem demoStep_cases (h : x.DemoStep d d') :
    ((d.phase = .sending ∨ d.phase = .receiving) ∧
      (fakeCan x.sndrEnv).needs d.link.left ≤ d.link.up.length ∧
      d' = ⟨d.link.actLeft (fakeCan x.sndrEnv),
        d.phase.next (d.link.actLeft (fakeCan x.sndrEnv)).left.stage⟩) ∨
    (d.phase = .looking ∧ d' = ⟨d.link, if d.rcvrEndSem = 0 then .receiving else .ended⟩) ∨
    (d.phase ≠ .ended ∧ (fakeCan x.rcvrEnv).needs d.link.right ≤ d.link.down.length ∧
      d' = ⟨d.link.actRight (fakeCan x.rcvrEnv), d.phase⟩) := by
  obtain ⟨_ | _ | _, ht⟩ := h
  · obtain ⟨hphase, ht⟩ := Option.ite_none_right_eq_some.mp ht
    obtain ⟨l, hl, rfl⟩ := Option.map_eq_some_iff.mp ht
    obtain ⟨hneeds, hl⟩ := Option.ite_none_right_eq_some.mp hl
    obtain rfl := Option.some.inj hl
    exact .inl ⟨hphase, hneeds, rfl⟩
  · obtain ⟨hphase, ht⟩ := Option.ite_none_right_eq_some.mp ht
    exact .inr (.inl ⟨hphase, (Option.some.inj ht).symm⟩)
  · obtain ⟨hphase, ht⟩ := Option.ite_none_right_eq_some.mp ht
    obtain ⟨l, hl, rfl⟩ := Option.map_eq_some_iff.mp ht
    obtain ⟨hneeds, hl⟩ := Option.ite_none_right_eq_some.mp hl
    obtain rfl := Option.some.inj hl
    exact .inr (.inr ⟨hphase, hneeds, rfl⟩)

/-- What `main` has done so far, from where it stands: `frames` frames have been indicated
to it, its callbacks have posted `own` times, and the value of the semaphore is `sem`. -/
inductive MainAt (sem own frames : Nat) : MainPhase → FakeCanStage → Prop
  | sending {nb rest} (h : frames = 0) : MainAt sem own frames .sending (.waiting nb rest)
  | receiving (h : 0 < frames → own = 0) : MainAt sem own frames .receiving .receiving
  | indicating {f} : MainAt sem own frames .receiving (.indicating f)
  | waiting {nb rest} (h : 0 < frames) : MainAt sem own frames .receiving (.waiting nb rest)
  | looking (h : 0 < frames) : MainAt sem own frames .looking .receiving
  | ended (h : 0 < frames) (hsem : 0 < sem) : MainAt sem own frames .ended .receiving

def DemoInv (d : Demo) : Prop :=
  MainAt d.rcvrEndSem (d.link.left.out.countP Act.postsEnd) d.link.left.frames d.phase
    d.link.left.stage

theorem demoInv_start (x : Exchange) : DemoInv x.demoStart := by
  obtain ⟨hret, hframes⟩ : x.fakeStart.left.Returned ∧ x.fakeStart.left.frames = 0 :=
    FakeCanNode.transmit_spec _ _
  rw [DemoInv, demoStart]
  dsimp only
  rcases hret with hst | ⟨nb, rest, hst⟩ <;> rw [hst]
  · exact .receiving fun h => absurd hframes h.ne'
  · exact .sending hframes

theorem DemoInv.actLeft (h : DemoInv d) (hphase : d.phase = .sending ∨ d.phase = .receiving)
    (env : Nat → Env) :
    DemoInv ⟨d.link.actLeft (fakeCan env),
      d.phase.next (d.link.actLeft (fakeCan env)).left.stage⟩ := by
  have hcases := fakeCan_act_cases env d.link.left
    (d.link.up.take ((fakeCan env).needs d.link.left))
  have hleft : (d.link.actLeft (fakeCan env)).left = ((fakeCan env).act d.link.left
    (d.link.up.take ((fakeCan env).needs d.link.left))).1 := rfl
  rw [← hleft] at hcases
  rw [DemoInv] at h ⊢
  generalize d.link.actLeft (fakeCan env) = link' at hcases
  obtain ⟨link, phase⟩ := d
  dsimp only at *
  obtain ⟨hst, ⟨f, hst'⟩, hframes⟩ | ⟨hret, hframes⟩ := hcases
  · rw [hst] at h
    rw [hst']
    cases h with
    | receiving => exact .indicating
    | looking | ended => simp at hphase
  · -- The process comes out of a handler or of a wait, and perhaps back to `main`.
    obtain ⟨⟨f, hst⟩, hframes⟩ | ⟨⟨nb, rest, hst⟩, hframes⟩ := hframes
    · rw [hst] at h
      cases h with
      | indicating =>
          obtain hst' | ⟨nb, rest, hst'⟩ := hret <;> rw [hst']
          · exact .looking (by omega)
          · exact .waiting (by omega)
    · rw [hst] at h
      cases h with
      | sending hzero =>
          obtain hst' | ⟨nb, rest, hst'⟩ := hret <;> rw [hst']
          · exact .receiving fun hpos => by omega
          · exact .sending (hframes.trans hzero)
      | waiting hpos =>
          obtain hst' | ⟨nb, rest, hst'⟩ := hret <;> rw [hst']
          · exact .looking (hframes ▸ hpos)
          · exact .waiting (hframes ▸ hpos)

theorem demoInv_step (h : DemoInv d) (hst : x.DemoStep d d') : DemoInv d' := by
  obtain ⟨hphase, -, rfl⟩ | ⟨hphase, rfl⟩ | ⟨hphase, -, rfl⟩ := demoStep_cases hst
  · exact h.actLeft hphase _
  · obtain ⟨link, phase⟩ := d
    rw [DemoInv] at h ⊢
    dsimp only at *
    subst hphase
    generalize hstage : link.left.stage = stage at h ⊢
    cases h with
    | looking hpos =>
        split
        · rename_i hsem
          exact .receiving fun _ => Nat.eq_zero_of_add_eq_zero_right hsem
        · rename_i hsem
          exact .ended hpos (Nat.pos_of_ne_zero hsem)
  · obtain ⟨link, phase⟩ := d
    rw [DemoInv] at h ⊢
    dsimp only [Piped.actRight] at *
    generalize link.left.stage = stage at h ⊢
    cases h with
    | sending h => exact .sending h
    | receiving h => exact .receiving h
    | indicating => exact .indicating
    | waiting h => exact .waiting h
    | looking h => exact .looking h
    | ended => exact absurd rfl hphase

theorem demoInv_reached (h : x.DemoReached d) : DemoInv d :=
  invariant (fun _ _ => demoInv_step) (demoInv_start x) h

/-! ### The end of the runs -/

/-- Every state of the test is one of the two processes, and between two steps of these
`main` looks at the semaphore at most once. -/
theorem demo_stutters (x : Exchange) : Stutters x.DemoStep x.FakeStep (fun d s => d.link = s)
    fun d => if d.phase = .looking then 1 else 0 where
  step := by
    rintro d _ d' rfl hst
    obtain ⟨-, hneeds, rfl⟩ | ⟨hphase, rfl⟩ | ⟨-, hneeds, rfl⟩ := demoStep_cases hst
    · exact .inl ⟨_, Piped.step_iff.mpr (.inl ⟨hneeds, rfl⟩), rfl⟩
    · refine .inr ⟨rfl, ?_⟩
      rw [hphase]
      dsimp only
      split <;> decide
    · exact .inl ⟨_, Piped.step_iff.mpr (.inr ⟨hneeds, rfl⟩), rfl⟩

theorem demo_fakeReached (h : x.DemoReached d) : x.FakeReached d.link := by
  obtain ⟨s, hs, rfl⟩ := (demo_stutters x).reached rfl h
  exact hs

theorem demo_acc (hids : x.IdsFit) : Acc (flip x.DemoStep) x.demoStart :=
  (demo_stutters x).acc (fake_acc hids) rfl

variable (x) in
/-- `main` is in `fake_can_rx_task` for ever, and neither process can go on. -/
structure MainBlocked (d : Demo) : Prop where
  phase : d.phase = .receiving
  stage : d.link.left.stage = .receiving
  link : Final x.FakeStep d.link

theorem link_final (hfin : Final x.DemoStep d)
    (hphase : d.phase = .sending ∨ d.phase = .receiving) : Final x.FakeStep d.link := by
  have hne : d.phase ≠ .ended := by
    rcases hphase with h | h <;> rw [h] <;> decide
  refine Piped.final_iff.mpr ⟨not_le.mp fun hneeds => ?_, not_le.mp fun hneeds => ?_⟩
  · exact hfin _ ⟨.sndr, (if_pos hphase).trans (congrArg (Option.map _) (if_pos hneeds))⟩
  · exact hfin _ ⟨.rcvr, (if_pos hne).trans (congrArg (Option.map _) (if_pos hneeds))⟩

/-- Where the test stops, `main` has ended, or it is blocked in `fake_can_rx_task` and so is
the other process, provided that the sender is not left waiting for an acknowledgement. -/
theorem main_final (hinv : DemoInv d) (hfin : Final x.DemoStep d)
    (hstop : Final x.FakeStep d.link → d.link.left.stage = .receiving) :
    d.phase = .ended ∨ x.MainBlocked d ∧
      (0 < d.link.left.frames → d.link.left.out.countP Act.postsEnd = 0) := by
  have hlink := link_final hfin
  rw [DemoInv] at hinv
  generalize hphase : d.phase = phase at hinv hlink ⊢
  generalize hstage : d.link.left.stage = stage at hinv
  cases hinv with
  | sending => exact absurd (hstage.symm.trans (hstop (hlink (.inl rfl)))) (by simp)
  | receiving hown => exact .inr ⟨⟨hphase, hstage, hlink (.inr rfl)⟩, hown⟩
  | indicating | waiting =>
      exact absurd (hstage.symm.trans (hstop (hlink (.inr rfl)))) (by simp)
  | looking => exact absurd ⟨.look, if_pos hphase⟩ (hfin _)
  | ended => exact .inl rfl

theorem demo_final (hids : x.IdsFit) (h : x.DemoReached d) (hfin : Final x.DemoStep d) :
    d.phase = .ended ∨ x.MainBlocked d ∧
      (0 < d.link.left.frames → d.link.left.out.countP Act.postsEnd = 0) := by
  obtain ⟨l, -, q, u, v, hal⟩ := (fake_simulates hids).reached ⟨_, _, _, aligned_start x⟩
    (demo_fakeReached h)
  exact main_final (demoInv_reached h) hfin fun hlink => (hal.counters_of_final hlink).1

end Exchange

end CanTp
