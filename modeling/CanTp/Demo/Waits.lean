import CanTp.Demo.Outcome
import CanTp.FakeCan.WaitRuns

/-!
# The test with FC.WAIT frames

What becomes of `main` when its receiver sends FC.WAIT frames, in blocks of one frame. If the
message has one Consecutive Frame, none is sent. If it has more, the transfer stops before
anything is reported or delivered, and `main` never ends.
-/

namespace CanTp

open Library

/-- The test, the receiver with `n` FC.WAIT frames at a time. -/
def Demo.withWaits (d : Demo) (n : UInt8) : Demo := { d with link := d.link.withWaits n }

namespace Exchange

variable {x : Exchange} {d : Demo} {n : UInt8}

variable (x) in
/-- The states of the test in its runs with FC.WAIT frames. -/
def WaitsReached (n : UInt8) (d : Demo) : Prop :=
  Relation.ReflTransGen x.DemoStep (x.demoStart.withWaits n) d

theorem demoStart_withWaits_zero (x : Exchange) : x.demoStart.withWaits 0 = x.demoStart := by
  have hparams : { x.rcvrParams with wftNum := 0 } = x.rcvrParams := by
    rw [← x.noWaits]
  have hctx : (CantpRxtxStatus.fresh x.rcvrParams).withWaits 0 = .fresh x.rcvrParams :=
    congrArg CantpRxtxStatus.fresh hparams
  have hright : (FakeCanNode.fresh (.fresh x.rcvrParams)).withWaits 0 =
      .fresh (.fresh x.rcvrParams) := congrArg FakeCanNode.fresh hctx
  exact congrArg (fun r => (⟨{ x.fakeStart with right := r }, x.demoStart.phase⟩ : Demo)) hright

/-! ### One Consecutive Frame -/

theorem turn_left_withWaits (s : FakeLink) (n : UInt8) :
    Piped.turn (fakeCan x.sndrEnv) (fakeCan x.rcvrEnv) .left (s.withWaits n) =
      (Piped.turn (fakeCan x.sndrEnv) (fakeCan x.rcvrEnv) .left s).map
        (FakeLink.withWaits · n) := by
  by_cases hneeds : (fakeCan x.sndrEnv).needs s.left ≤ s.up.length
  · rw [Piped.turn, Piped.turn, if_pos (by exact hneeds), if_pos hneeds]
    rfl
  · rw [Piped.turn, Piped.turn, if_neg (by exact hneeds), if_neg hneeds]
    rfl

theorem turn_right_withWaits {s : FakeLink}
    (hright : (s.withWaits n).actRight (fakeCan x.rcvrEnv) =
      FakeLink.withWaits (s.actRight (fakeCan x.rcvrEnv)) n) :
    Piped.turn (fakeCan x.sndrEnv) (fakeCan x.rcvrEnv) .right (s.withWaits n) =
      (Piped.turn (fakeCan x.sndrEnv) (fakeCan x.rcvrEnv) .right s).map
        (FakeLink.withWaits · n) := by
  by_cases hneeds : (fakeCan x.rcvrEnv).needs s.right ≤ s.down.length
  · rw [Piped.turn, Piped.turn, if_pos (by exact hneeds), if_pos hneeds, hright]
    rfl
  · rw [Piped.turn, Piped.turn, if_neg (by exact hneeds), if_neg hneeds]
    rfl

theorem demoTurn_withWaits (hright : (d.link.withWaits n).actRight (fakeCan x.rcvrEnv) =
    FakeLink.withWaits (d.link.actRight (fakeCan x.rcvrEnv)) n) (u : DemoTurn) :
    x.demoTurn u (d.withWaits n) = (x.demoTurn u d).map (·.withWaits n) := by
  obtain ⟨link, phase⟩ := d
  cases u with
  | sndr =>
      by_cases hphase : phase = .sending ∨ phase = .receiving
      · rw [demoTurn, demoTurn, if_pos (by exact hphase), if_pos (by exact hphase),
          Demo.withWaits, turn_left_withWaits, Option.map_map, Option.map_map]
        rfl
      · rw [demoTurn, demoTurn, if_neg (by exact hphase), if_neg (by exact hphase)]
        rfl
  | look =>
      by_cases hphase : phase = .looking
      · subst hphase
        rfl
      · rw [demoTurn, demoTurn, if_neg (by exact hphase), if_neg (by exact hphase)]
        rfl
  | rcvr =>
      by_cases hphase : phase ≠ .ended
      · rw [demoTurn, demoTurn, if_pos (by exact hphase), if_pos (by exact hphase),
          Demo.withWaits, turn_right_withWaits hright, Option.map_map, Option.map_map]
        rfl
      · rw [demoTurn, demoTurn, if_neg (by exact hphase), if_neg (by exact hphase)]
        rfl

theorem right_withWaits (hids : x.IdsFit) (hone : x.total ≤ 1) (h : x.DemoReached d)
    (n : UInt8) : (d.link.withWaits n).actRight (fakeCan x.rcvrEnv) =
      FakeLink.withWaits (d.link.actRight (fakeCan x.rcvrEnv)) n := by
  obtain ⟨l, hl, q, u, v, hal⟩ := demo_link hids h
  refine withWaits_actRight _ n (fun rest hst => ?_) fun f hst => ?_
  · have hrcvr := hal.rcvr
    rw [hst] at hrcvr
    cases hrcvr
  · have hget := hal.frame_of_indicating hst
    have hrcvr := hal.inv.rcvr
    rw [← hal.right.1, ← hal.right.2.2] at hrcvr
    have hlt := (List.getElem?_eq_some_iff.mp hget).1
    refine ⟨pci_of_frame hget _, hrcvr.not_continued hget ?_ _⟩
    by_cases hlong : sfNumDataBytes < x.acked.msg.length
    · have hlen : x.frames.length = x.total + 1 := length_frames hlong
      have hpos : 0 < x.total := total_pos hlong
      change _ ∨ d.link.right.frames = x.total
      omega
    · have hframes : x.frames.length = 1 := by
        rw [frames, canonicalFrames, if_pos (by exact not_lt.mp hlong)]
        rfl
      omega

/-- The runs are those without FC.WAIT frames. -/
theorem follows_waits (hids : x.IdsFit) (hone : x.total ≤ 1) (n : UInt8) :
    Stutters x.DemoStep x.DemoStep
      (fun d d₀ => x.DemoReached d₀ ∧ d = d₀.withWaits n) fun _ => 0 where
  step := by
    rintro _ d₀ d' ⟨h, rfl⟩ ⟨u, hu⟩
    rw [demoTurn_withWaits (right_withWaits hids hone h n)] at hu
    obtain ⟨d₁, hd, rfl⟩ := Option.map_eq_some_iff.mp hu
    exact .inl ⟨d₁, ⟨u, hd⟩, h.tail ⟨u, hd⟩, rfl⟩

theorem final_of_withWaits (hids : x.IdsFit) (hone : x.total ≤ 1) (h : x.DemoReached d)
    (hfin : Final x.DemoStep (d.withWaits n)) : Final x.DemoStep d := by
  rintro d' ⟨u, hu⟩
  refine hfin (d'.withWaits n) ⟨u, ?_⟩
  rw [demoTurn_withWaits (right_withWaits hids hone h n), hu]
  rfl

/-! ### More than one -/

theorem Drops.silent {s : FakeLink} (hlim : x.limit = 1) (hmore : 1 < x.total)
    (h : x.Drops n s) :
    s.left.out.countP Act.postsEnd = 0 ∧ s.right.out.countP Act.postsEnd = 0 := by
  obtain ⟨bytes, pending, h⟩ := h
  refine ⟨(countP_postsEnd_sndr h.sndrCalls).mpr ?_,
    (countP_postsEnd_rcvr h.rcvrCalls).mpr h.deliveries⟩
  cases h.sndr with
  | waiting hst hat =>
      have hne : x.acked.limit ≠ x.acked.total := fun heq => hmore.ne (hlim.symm.trans heq)
      have hreports := hat.reports
      rwa [if_neg (phase_ne_idle (x := x.acked) (segmented_of_more hmore) hne 1 1)] at hreports
  | receiving hst hb => exact hb.reports
  | indicating hst hf hb => exact hb.reports

/-- The two processes are where they are without FC.WAIT frames, or the sender drops what
the receiver sends. -/
theorem waits_link (hids : x.IdsFit) (hlim : x.limit = 1) (hmore : 1 < x.total)
    (h : x.WaitsReached n d) :
    (∃ s, x.FakeReached s ∧ s.right.frames ≤ 1 ∧ d.link = s.withWaits n) ∨
      x.Drops n d.link := by
  obtain ⟨t, ht, rfl⟩ := (demo_stutters x).reached (a := (x.demoStart.withWaits n).link) rfl h
  exact ((leaves_waits hids hlim hmore n).reached ⟨.refl, Nat.zero_le 1, rfl⟩ ht).imp_left
    fun ⟨s, _, hs⟩ => ⟨s, hs⟩

theorem rcvrEndSem_waits (hids : x.IdsFit) (hlim : x.limit = 1) (hmore : 1 < x.total)
    (h : x.WaitsReached n d) : d.rcvrEndSem = 0 := by
  have hsilent : d.link.left.out.countP Act.postsEnd = 0 ∧
      d.link.right.out.countP Act.postsEnd = 0 := by
    obtain ⟨s, hs, -, heq⟩ | hdrops := waits_link hids hlim hmore h
    · obtain ⟨l, hl, hag⟩ := fake_refines hids hs
      have hne : x.acked.limit ≠ x.acked.total := fun heq => hmore.ne (hlim.symm.trans heq)
      obtain ⟨hreports, hdeliveries⟩ := (inv_reached hl).silent (segmented_of_more hmore) hne
      have hcalls := calls_reached hl
      have hleft : d.link.left.out = l.sndrOut := (congrArg (·.left.out) heq).trans hag.sndrOut
      have hright : d.link.right.out = l.rcvrOut :=
        (congrArg (·.right.out) heq).trans hag.rcvrOut
      rw [hleft, hright]
      exact ⟨(countP_postsEnd_sndr hcalls.sndr).mpr hreports,
        (countP_postsEnd_rcvr hcalls.rcvr).mpr hdeliveries⟩
    · exact hdrops.silent hlim hmore
  rw [Demo.rcvrEndSem, hsilent.1, hsilent.2]

theorem not_ended_waits (hids : x.IdsFit) (hlim : x.limit = 1) (hmore : 1 < x.total)
    (h : x.WaitsReached n d) : d.phase ≠ .ended := by
  induction h with
  | refl =>
      change MainPhase.sending.next x.fakeStart.left.stage ≠ .ended
      cases x.fakeStart.left.stage <;> simp [MainPhase.next]
  | @tail d d' hd hst ih =>
      obtain ⟨hphase, -, rfl⟩ | ⟨-, rfl⟩ | ⟨hphase, -, rfl⟩ := demoStep_cases hst
      · dsimp only
        generalize (d.link.actLeft (fakeCan x.sndrEnv)).left.stage = stage
        rcases hphase with hphase | hphase <;> rw [hphase] <;> cases stage <;>
          simp [MainPhase.next]
      · rw [rcvrEndSem_waits hids hlim hmore hd]
        simp
      · exact hphase

theorem blocked_waits (hids : x.IdsFit) (hlim : x.limit = 1) (hmore : 1 < x.total)
    (h : x.WaitsReached n d) (hfin : Final x.DemoStep d) : x.MainBlocked d := by
  have hstart : DemoInv (x.demoStart.withWaits n) := demoInv_start x
  have hinv : DemoInv d := invariant (fun _ _ => demoInv_step) hstart h
  have hstop : Final x.FakeStep d.link → d.link.left.stage = .receiving := by
    intro hlink
    obtain ⟨s, hs, hone, heq⟩ | hdrops := waits_link hids hlim hmore h
    · rw [heq] at hlink
      exact absurd hlink (not_final_withWaits hids hlim hmore hs hone n)
    · exact (hdrops.final hlink).left.1
  exact ((main_final hinv hfin hstop).resolve_left (not_ended_waits hids hlim hmore h)).1

/-! ### The end of the runs -/

variable (x) in
/-- The receiver sends FC.WAIT frames only in blocks of one frame. -/
def WaitsFit (n : UInt8) : Prop := n = 0 ∨ x.rcvrParams.blockSize = 1

variable (x) in
/-- The test stands where it does without FC.WAIT frames. -/
structure Mirrors (d d₀ : Demo) : Prop where
  reached : x.DemoReached d₀
  phase : d₀.phase = d.phase
  left : d₀.link.left = d.link.left
  right : d₀.link.right.out = d.link.right.out
  final : Final x.DemoStep d → Final x.DemoStep d₀

/-- FC.WAIT frames make no difference, or there is a second block and `main` never ends. -/
theorem mirrors_or (hids : x.IdsFit) (hfit : x.WaitsFit n) (h : x.WaitsReached n d) :
    (∃ d₀, x.Mirrors d d₀) ∨
      ¬ x.OneBlock ∧ d.phase ≠ .ended ∧ (Final x.DemoStep d → x.MainBlocked d) := by
  obtain rfl | hblock := hfit
  · rw [WaitsReached, demoStart_withWaits_zero] at h
    exact .inl ⟨d, h, rfl, rfl, rfl, fun hfin => hfin⟩
  · by_cases hmore : 1 < x.total
    · have hlim := limit_eq_one hblock hmore
      refine .inr ⟨fun hone => ?_, not_ended_waits hids hlim hmore h,
        blocked_waits hids hlim hmore h⟩
      exact hmore.ne (hlim.symm.trans ((oneBlock_iff (segmented_of_more hmore)).mp hone))
    · have hone := not_lt.mp hmore
      obtain ⟨d₀, -, h₀, rfl⟩ := (follows_waits hids hone n).reached ⟨.refl, rfl⟩ h
      exact .inl ⟨d₀, h₀, rfl, rfl, rfl, final_of_withWaits hids hone h₀⟩

theorem waits_acc (hids : x.IdsFit) (hfit : x.WaitsFit n) :
    Acc (flip x.DemoStep) (x.demoStart.withWaits n) := by
  obtain rfl | hblock := hfit
  · rw [demoStart_withWaits_zero]
    exact demo_acc hids
  · by_cases hmore : 1 < x.total
    · have hfake := (leaves_waits hids (limit_eq_one hblock hmore) hmore n).acc
        (fake_acc hids) ⟨.refl, Nat.zero_le 1, rfl⟩
      exact (demo_stutters x).acc hfake rfl
    · exact (follows_waits hids (not_lt.mp hmore) n).acc (demo_acc hids) ⟨.refl, rfl⟩

theorem waits_ended_of_final (hids : x.IdsFit) (hfit : x.WaitsFit n) (hone : x.OneBlock)
    (h : x.WaitsReached n d) (hfin : Final x.DemoStep d) : d.phase = .ended := by
  obtain ⟨d₀, hd⟩ | ⟨hmore, -⟩ := mirrors_or hids hfit h
  · rw [← hd.phase]
    exact ended_of_final hids hone hd.reached (hd.final hfin)
  · exact absurd hone hmore

theorem waits_done_of_ended (hids : x.IdsFit) (hfit : x.WaitsFit n) (h : x.WaitsReached n d)
    (hend : d.phase = .ended) : x.OneBlock ∧ x.DemoDone d := by
  obtain ⟨d₀, hd⟩ | ⟨-, hne, -⟩ := mirrors_or hids hfit h
  · have hend₀ := hd.phase.trans hend
    obtain ⟨-, hreports, hreceived⟩ := done_of_ended hids hd.reached hend₀
    rw [hd.left] at hreports
    rw [hd.right] at hreceived
    exact ⟨not_not.mp fun hone => not_ended hids hone hd.reached hend₀, hend, hreports,
      hreceived⟩
  · exact absurd hend hne

theorem waits_blocked_of_final (hids : x.IdsFit) (hfit : x.WaitsFit n) (hone : ¬ x.OneBlock)
    (h : x.WaitsReached n d) (hfin : Final x.DemoStep d) : x.MainBlocked d := by
  obtain ⟨d₀, hd⟩ | ⟨-, -, hblocked⟩ := mirrors_or hids hfit h
  · obtain hend | ⟨hblocked, -⟩ := demo_final hids hd.reached (hd.final hfin)
    · exact absurd hend (not_ended hids hone hd.reached)
    · have hphase : d.phase = .receiving := hd.phase.symm.trans hblocked.phase
      exact ⟨hphase, hd.left ▸ hblocked.stage, link_final hfin (.inr hphase)⟩
  · exact hblocked hfin

end Exchange

end CanTp
