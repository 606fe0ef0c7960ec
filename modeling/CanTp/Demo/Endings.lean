import CanTp.Demo.Setup

/-!
# How the test from its command line ends

Every run ends, in one of four ways. Which of them is decided by the command line alone, but
for one thing: when the receiver refuses its parameters, `main` may fail, or it may wait for
`rcvr_start_sem` for ever.
-/

namespace CanTp

open Library

namespace TestRun

variable {t : TestRun} {s : TestState}

theorem running_stutters (t : TestRun) : Stutters t.Step t.exchange.DemoStep
    (fun s d => s = .running d) fun _ => 0 where
  step := by
    rintro _ d s' rfl hst
    obtain ⟨m, heq, -⟩ | ⟨r, heq, -⟩ | ⟨heq, -⟩ | ⟨d₁, d', heq, rfl, hd⟩ := step_cases hst
    · cases heq
    · cases heq
    · cases heq
    · cases heq
      exact .inl ⟨d', hd, rfl⟩

/-- The steps that are left before `cantp_send` is called. -/
def startRank : MainStart → RcvrStart → Nat
  | m, r => (match m with | .looking => 1 | _ => 0) + match r with | .initializing => 1 | _ => 0

theorem acc_starting (t : TestRun) (m : MainStart) (r : RcvrStart) :
    Acc (flip t.Step) (.starting m r) := by
  induction hn : startRank m r using Nat.strongRecOn generalizing m r with
  | ind n ih =>
      refine .intro _ fun s' hst => ?_
      obtain ⟨m', heq, rfl⟩ | ⟨r', heq, rfl⟩ | ⟨-, rfl⟩ | ⟨d, d', heq, -⟩ := step_cases hst
      · cases heq
        refine ih _ ?_ _ _ rfl
        subst hn
        split <;> simp [startRank]
      · cases heq
        refine ih _ ?_ _ _ rfl
        subst hn
        split <;> simp [startRank]
      · rw [demoStart_eq]
        exact (running_stutters t).acc (Exchange.waits_acc idsFit waitsFit) rfl
      · cases heq

theorem acc_start (t : TestRun) : Acc (flip t.Step) t.start := by
  rw [start]
  split <;> exact t.acc_starting _ _

/-- The states in which the test stops before `cantp_send` is called. -/
theorem final_starting {m : MainStart} {r : RcvrStart} :
    Final t.Step (.starting m r) ↔
      r ≠ .initializing ∧ m ≠ .looking ∧ (m = .waiting → r ≠ .ready) := by
  constructor
  · intro h
    refine ⟨?_, ?_, ?_⟩
    · rintro rfl
      exact h _ ⟨.init, rfl⟩
    · rintro rfl
      exact h _ ⟨.look, rfl⟩
    · rintro rfl rfl
      exact h _ ⟨.wait, rfl⟩
  · rintro ⟨hinit, hlook, hwait⟩ s' hst
    obtain ⟨m', heq, -⟩ | ⟨r', heq, -⟩ | ⟨heq, -⟩ | ⟨d, d', heq, -⟩ := step_cases hst
    · cases heq
      exact hinit rfl
    · cases heq
      exact hlook rfl
    · cases heq
      exact hwait rfl rfl
    · cases heq

/-- `main` has returned `0`, and the exchange it began has been done. -/
def Succeeded (t : TestRun) (s : TestState) : Prop := ∃ d, s = .running d ∧ t.exchange.DemoDone d

theorem final_running {d : Demo} (h : Final t.Step (.running d)) :
    Final t.exchange.DemoStep d := fun d' ⟨u, hu⟩ =>
  h (.running d') ⟨.run u, Option.map_eq_some_iff.mpr ⟨d', hu, rfl⟩⟩

/-- How a test ends: `main` refuses the command line, the receiver refuses its parameters,
`main` returns `0`, or it is blocked in `fake_can_rx_task`. -/
inductive Ending (t : TestRun) : TestState → Prop
  | refused (h : (argsGet t.words .initial).1 < 0) : Ending t (.starting .failed .unborn)
  | unready {m} (h : 0 ≤ (argsGet t.words .initial).1) (hr : t.rcvrInit.1 < 0)
      (hm : m = .failed ∨ m = .waiting) : Ending t (.starting m .ended)
  | succeeded {d} (h : 0 ≤ (argsGet t.words .initial).1) (hr : 0 ≤ t.rcvrInit.1)
      (hone : t.exchange.OneBlock) (hd : t.exchange.DemoDone d) : Ending t (.running d)
  | blocked {d} (h : 0 ≤ (argsGet t.words .initial).1) (hr : 0 ≤ t.rcvrInit.1)
      (hone : ¬ t.exchange.OneBlock) (hd : t.exchange.MainBlocked d) : Ending t (.running d)

theorem ending_of_final (hreached : t.Reached s) (hfin : Final t.Step s) : t.Ending s := by
  cases at_reached hreached with
  | refused h => exact .refused h
  | initializing h hm => exact absurd rfl (final_starting.mp hfin).1
  | @ended m h hr =>
      obtain ⟨-, hlook, -⟩ := final_starting.mp hfin
      cases m with
      | looking => exact absurd rfl hlook
      | waiting => exact .unready h hr (.inr rfl)
      | failed => exact .unready h hr (.inl rfl)
  | @ready m h hr hm =>
      obtain ⟨-, hlook, hwait⟩ := final_starting.mp hfin
      cases m with
      | looking => exact absurd rfl hlook
      | waiting => exact absurd rfl (hwait rfl)
      | failed => exact absurd rfl hm
  | running h hr hd =>
      have hfin' := final_running hfin
      by_cases hone : t.exchange.OneBlock
      · have hend := Exchange.waits_ended_of_final idsFit waitsFit hone hd hfin'
        exact .succeeded h hr hone (Exchange.waits_done_of_ended idsFit waitsFit hd hend).2
      · exact .blocked h hr hone
          (Exchange.waits_blocked_of_final idsFit waitsFit hone hd hfin')

/-- Every run of the test ends, in one of the four ways. -/
theorem endings (t : TestRun) : Ends t.Step t.start t.Ending :=
  ⟨acc_iff_finite.mp t.acc_start, fun _ hreached hfin => ending_of_final hreached hfin⟩

/-- `main` refuses the command line, or the receiver its parameters. -/
def Refused (t : TestRun) : Prop := (argsGet t.words .initial).1 < 0 ∨ t.rcvrInit.1 < 0

theorem Refused.not_running (h : t.Refused) (d : Demo) : ¬ t.Reached (.running d) := by
  intro hreached
  cases at_reached hreached with
  | running hargs hr =>
      exact h.elim (not_lt.mpr hargs) (not_lt.mpr hr)

theorem running_of_final (h : ¬ t.Refused) (hreached : t.Reached s) (hfin : Final t.Step s) :
    ∃ d, s = .running d := by
  cases ending_of_final hreached hfin with
  | refused hargs => exact absurd (.inl hargs) h
  | unready _ hr => exact absurd (.inr hr) h
  | succeeded | blocked => exact ⟨_, rfl⟩

theorem start_of_accepted (h : 0 ≤ (argsGet t.words .initial).1) :
    t.start = .starting .looking .initializing := by
  rw [start, sndrInit_accepted, if_neg]
  exact fun hor => hor.elim (not_lt.mpr h) (Int.lt_irrefl 0)

theorem unready_reached (h : 0 ≤ (argsGet t.words .initial).1) (hr : t.rcvrInit.1 < 0) :
    t.Reached (.starting .failed .ended) ∧ t.Reached (.starting .waiting .ended) := by
  have hinit : ∀ m, t.Step (.starting m .initializing) (.starting m .ended) := fun m =>
    ⟨.init, congrArg some (congrArg _ (if_pos hr))⟩
  have hlate : t.Step (.starting .looking .ended) (.starting .failed .ended) := ⟨.look, rfl⟩
  have hearly : t.Step (.starting .looking .initializing) (.starting .waiting .initializing) :=
    ⟨.look, rfl⟩
  rw [Reached, Reached, start_of_accepted h]
  exact ⟨(Relation.ReflTransGen.single (hinit _)).tail hlate,
    (Relation.ReflTransGen.single hearly).tail (hinit _)⟩

/-- In every order of the steps the test stops before `cantp_send` is called if `main` refuses
the command line or the receiver its parameters, and comes to it otherwise. If the receiver
refuses, `main` may see that it has ended, but it may as well look too early and wait for it
for ever. -/
theorem stops_starting_iff (t : TestRun) :
    (t.Refused → Ends t.Step t.start (fun s => ∃ m r, s = .starting m r) ∧
      ∀ d, ¬ t.Reached (.running d)) ∧
    (¬ t.Refused → Ends t.Step t.start fun s => ∃ d, s = .running d) ∧
    ∀ m r, t.Reached (.starting m r) ∧ Final t.Step (.starting m r) ↔
      ((argsGet t.words .initial).1 < 0 ∧ m = .failed ∧ r = .unborn) ∨
      (0 ≤ (argsGet t.words .initial).1 ∧ t.rcvrInit.1 < 0 ∧ r = .ended ∧
        (m = .failed ∨ m = .waiting)) := by
  have hacc := acc_iff_finite.mp t.acc_start
  refine ⟨fun h => ⟨⟨hacc, fun s hreached _ => ?_⟩, h.not_running⟩, fun h => ⟨hacc,
    fun s hreached hfin => running_of_final h hreached hfin⟩, fun m r => ⟨?_, ?_⟩⟩
  · cases s with
    | starting m r => exact ⟨m, r, rfl⟩
    | running d => exact absurd hreached (h.not_running d)
  · rintro ⟨hreached, hfin⟩
    cases ending_of_final hreached hfin with
    | refused h => exact .inl ⟨h, rfl, rfl⟩
    | unready h hr hm => exact .inr ⟨h, hr, rfl, hm⟩
  · rintro (⟨h, rfl, rfl⟩ | ⟨h, hr, rfl, hm⟩)
    · have hstart : t.start = .starting .failed .unborn := if_pos (.inl h)
      exact ⟨hstart ▸ .refl, final_starting.mpr (by simp)⟩
    · obtain ⟨hfailed, hwaiting⟩ := unready_reached h hr
      obtain rfl | rfl := hm
      · exact ⟨hfailed, final_starting.mpr (by simp)⟩
      · exact ⟨hwaiting, final_starting.mpr (by simp)⟩

theorem accepted_of_succeeded (hreached : t.Reached s) (hs : t.Succeeded s) :
    0 ≤ (argsGet t.words .initial).1 ∧ 0 ≤ t.rcvrInit.1 ∧ t.exchange.OneBlock := by
  obtain ⟨d, rfl, hdone⟩ := hs
  cases at_reached hreached with
  | running h hr hd =>
      exact ⟨h, hr, (Exchange.waits_done_of_ended idsFit waitsFit hd hdone.ended).1⟩

theorem accepted_of_succeeds (hends : Ends t.Step t.start t.Succeeded) :
    0 ≤ (argsGet t.words .initial).1 ∧ 0 ≤ t.rcvrInit.1 ∧ t.exchange.OneBlock := by
  obtain ⟨s, hreached, hfin⟩ := hends.exists_final
  exact accepted_of_succeeded hreached (hends.final s hreached hfin)

theorem succeeds_of_accepted (h : 0 ≤ (argsGet t.words .initial).1) (hr : 0 ≤ t.rcvrInit.1)
    (hone : t.exchange.OneBlock) : Ends t.Step t.start t.Succeeded := by
  refine ⟨acc_iff_finite.mp t.acc_start, fun s hreached hfin => ?_⟩
  cases ending_of_final hreached hfin with
  | refused hargs => exact absurd hargs (not_lt.mpr h)
  | unready _ hinit => exact absurd hinit (not_lt.mpr hr)
  | succeeded _ _ _ hd => exact ⟨_, rfl, hd⟩
  | blocked _ _ hmore => exact absurd hone hmore

/-- A test that succeeds in one order of the steps succeeds in all of them. -/
theorem succeeds_in_all (t : TestRun) :
    (∃ s, t.Reached s ∧ t.Succeeded s) ↔ Ends t.Step t.start t.Succeeded := by
  constructor
  · rintro ⟨s, hreached, hs⟩
    obtain ⟨h, hr, hone⟩ := accepted_of_succeeded hreached hs
    exact succeeds_of_accepted h hr hone
  · intro hends
    obtain ⟨s, hreached, hfin⟩ := hends.exists_final
    exact ⟨s, hreached, hends.final s hreached hfin⟩

/-- From its command line on the test succeeds, in every order of the steps, exactly if the
command line and the parameters of the receiver are accepted and the message is sent in
more than one frame and in one block. -/
theorem succeeds_iff (t : TestRun) :
    Ends t.Step t.start t.Succeeded ↔
      0 ≤ (argsGet t.words .initial).1 ∧ 0 ≤ t.rcvrInit.1 ∧
        sfNumDataBytes < t.settings.txLen.toNat ∧
        (t.rcvrInit.2.blockSize = 0 ∨
          numCfs t.settings.txLen.toNat ≤ t.rcvrInit.2.blockSize.toNat) := by
  have hlen : t.exchange.msg.length = t.settings.txLen.toNat := length_testData _
  rw [← hlen]
  exact ⟨accepted_of_succeeds, fun ⟨h, hr, hone⟩ => succeeds_of_accepted h hr hone⟩

end TestRun

end CanTp
