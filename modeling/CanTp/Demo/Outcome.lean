import CanTp.Demo.Main

/-!
# How the test ends

`main` ends if the message is sent in more than one frame and no second block is begun: only
then does it see `rcvr_end_sem` posted after a frame has come in. It does not wait for the
other process: it may kill it before the message is handed to the session layer.
-/

namespace CanTp

open Library

theorem countP_postsEnd_sndr {out : List Act} (h : ∀ a ∈ out, a.ofRcvr = false) :
    out.countP Act.postsEnd = 0 ↔ reportsMade out = [] := by
  rw [List.countP_eq_zero, reportsMade, sndrSignals, List.filterMap_filterMap,
    List.filterMap_eq_nil_iff]
  refine forall₂_congr fun a ha => ?_
  have hrole := h a ha
  cases a <;> simp_all [Act.postsEnd, Act.sndrSignal, Act.ofRcvr]

theorem countP_postsEnd_rcvr {out : List Act} (h : ∀ a ∈ out, a.ReceivesOnly) :
    out.countP Act.postsEnd = 0 ↔ deliveries out = [] := by
  rw [List.countP_eq_zero, deliveries, List.filterMap_eq_nil_iff]
  refine forall₂_congr fun a ha => ?_
  have hrole := (h a ha).2
  cases a <;> simp_all [Act.postsEnd, Act.delivery, Act.isReport]

namespace Exchange

variable {x : Exchange} {d : Demo} {l : Link}

/-- The message needs more than one frame and no second block. -/
def OneBlock (x : Exchange) : Prop :=
  sfNumDataBytes < x.msg.length ∧
    (x.rcvrParams.blockSize = 0 ∨ numCfs x.msg.length ≤ x.rcvrParams.blockSize.toNat)

theorem oneBlock_iff (hlong : sfNumDataBytes < x.msg.length) :
    x.OneBlock ↔ x.limit = x.total := by
  have hzero : x.rcvrParams.blockSize = 0 ↔ x.blockSize = 0 := by
    rw [← UInt8.toNat_inj]
    rfl
  have htotal : numCfs x.msg.length = x.total := rfl
  have hsize : x.rcvrParams.blockSize.toNat = x.blockSize := rfl
  rw [OneBlock, hzero, htotal, hsize, limit]
  split <;> omega

theorem demo_link (hids : x.IdsFit) (h : x.DemoReached d) :
    ∃ l, x.acked.Reached l ∧ x.Related d.link l :=
  (fake_simulates hids).reached ⟨_, _, _, aligned_start x⟩ (demo_fakeReached h)

theorem demo_sem (hl : x.acked.Reached l) (hag : Agrees d.link l) :
    (d.link.left.out.countP Act.postsEnd = 0 ↔ reportsMade l.sndrOut = []) ∧
      (d.link.right.out.countP Act.postsEnd = 0 ↔ deliveries l.rcvrOut = []) := by
  have hcalls := calls_reached hl
  rw [hag.sndrOut, hag.rcvrOut]
  exact ⟨countP_postsEnd_sndr hcalls.sndr, countP_postsEnd_rcvr hcalls.rcvr⟩

theorem phase_ne_idle (hlong : sfNumDataBytes < x.msg.length) (hlim : x.limit ≠ x.total)
    (c a : Nat) : x.phase c a ≠ .idle := by
  rw [phase, if_neg (not_le.mpr hlong), if_neg hlim]
  split_ifs <;> simp

theorem Inv.silent (h : x.Inv l) (hlong : sfNumDataBytes < x.msg.length)
    (hlim : x.limit ≠ x.total) : reportsMade l.sndrOut = [] ∧ deliveries l.rcvrOut = [] := by
  have hle := limit_le_total (x := x)
  have hrcvd := h.within.received
  rw [dialogue_eq hlong] at hrcvd
  have hsent := (Dialogue.flow x.total x.limit).sent_le l.counters.confirmed l.counters.answered
  have hmax : (Dialogue.flow x.total x.limit).maxSent = x.limit + 1 := rfl
  have hreports := h.sndr.reports
  have hdeliveries := h.rcvr.deliveries
  rw [if_neg (phase_ne_idle hlong hlim _ _)] at hreports
  rw [length_frames hlong, if_pos (by omega)] at hdeliveries
  exact ⟨hreports, hdeliveries⟩

theorem Inv.answered_single (h : x.Inv l) (hshort : x.msg.length ≤ sfNumDataBytes) :
    l.counters.answered = 0 := by
  have hanswered := h.within.answered
  rw [dialogue, if_pos hshort] at hanswered
  exact Nat.le_zero.mp hanswered

theorem Inv.reported (h : x.Inv l) (hfin : Final x.Step l) (hlong : sfNumDataBytes < x.msg.length)
    (hlim : x.limit = x.total) : 0 < l.counters.answered ∧ reportsMade l.sndrOut ≠ [] := by
  obtain ⟨-, hc, ha⟩ := h.final_segmented hfin hlong
  have hreports := h.sndr.reports
  rw [hc, phase_end hlong ha (Nat.lt_succ_self _), if_pos hlim, if_pos rfl] at hreports
  exact ⟨ha, by simp [hreports]⟩

/-- If it is not so, the semaphore is never posted when `main` looks at it. -/
theorem not_ended (hids : x.IdsFit) (hone : ¬ x.OneBlock) (h : x.DemoReached d) :
    d.phase ≠ .ended := by
  intro hphase
  obtain ⟨l, hl, hrel⟩ := demo_link hids h
  have hag := hrel.agrees
  obtain ⟨q, u, v, hal⟩ := hrel
  have hinv := inv_reached hl
  have hmain := demoInv_reached h
  rw [DemoInv, hphase] at hmain
  obtain ⟨hframes, hsem⟩ : 0 < d.link.left.frames ∧ 0 < d.rcvrEndSem := by
    generalize d.link.left.stage = stage at hmain
    cases hmain with
    | ended hframes hsem => exact ⟨hframes, hsem⟩
  by_cases hlong : sfNumDataBytes < x.msg.length
  · obtain ⟨hsndr, hrcvr⟩ := demo_sem hl hag
    obtain ⟨hreports, hdeliveries⟩ := hinv.silent hlong fun hlim =>
      hone ((oneBlock_iff hlong).mpr hlim)
    rw [Demo.rcvrEndSem, hsndr.mpr hreports, hrcvr.mpr hdeliveries] at hsem
    exact absurd hsem (Nat.lt_irrefl 0)
  · -- A Single Frame is not answered, so nothing was ever indicated to `main`.
    rw [hal.left.2.2, hinv.answered_single (not_lt.mp hlong)] at hframes
    exact absurd hframes (Nat.lt_irrefl 0)

/-! ### A message that is lost -/

/-- The test while the last frame of the message has not been indicated to the receiver. -/
def BeforeLast (x : Exchange) (d d' : Demo) : Prop :=
  x.DemoStep d d' ∧ d'.link.right.frames ≤ x.total

theorem beforeLast_reached (h : Relation.ReflTransGen x.BeforeLast x.demoStart d) :
    x.DemoReached d ∧ d.link.right.frames ≤ x.total := by
  induction h with
  | refl => exact ⟨.refl, Nat.zero_le _⟩
  | tail _ hst ih => exact ⟨ih.1.tail hst.1, hst.2⟩

theorem right_of_beforeLast (hle : d.link.right.frames ≤ x.total) (hphase : d.phase ≠ .ended)
    (hfin : Final x.BeforeLast d)
    (hneeds : (fakeCan x.rcvrEnv).needs d.link.right ≤ d.link.down.length) :
    (∃ f, d.link.right.stage = .indicating f) ∧ d.link.right.frames = x.total := by
  have hcases := fakeCan_act_cases x.rcvrEnv d.link.right
    (d.link.down.take ((fakeCan x.rcvrEnv).needs d.link.right))
  have hstep : x.DemoStep d ⟨d.link.actRight (fakeCan x.rcvrEnv), d.phase⟩ :=
    ⟨.rcvr, (if_pos hphase).trans (congrArg (Option.map _) (if_pos hneeds))⟩
  have hgt : ¬ (d.link.actRight (fakeCan x.rcvrEnv)).right.frames ≤ x.total := fun hle' =>
    hfin _ ⟨hstep, hle'⟩
  have hright : (d.link.actRight (fakeCan x.rcvrEnv)).right = ((fakeCan x.rcvrEnv).act
    d.link.right (d.link.down.take ((fakeCan x.rcvrEnv).needs d.link.right))).1 := rfl
  rw [← hright] at hcases
  obtain ⟨-, -, hframes⟩ | ⟨-, ⟨hst, hframes⟩ | ⟨-, hframes⟩⟩ := hcases
  · omega
  · exact ⟨hst, by omega⟩
  · omega

theorem Aligned.done_of_blocked {s : FakeLink} {q u v : Nat} (h : x.Aligned s l q u v)
    (hq : q = l.sent.length) (hup : s.up.length < (fakeCan x.sndrEnv).needs s.left) :
    s.left.stage = .receiving ∧ l.counters.confirmed = l.sent.length := by
  obtain ⟨-, hup'⟩ := h.up_blocked hup
  have hsndr := h.sndr
  cases hstage : s.left.stage with
  | receiving =>
      rw [hstage] at hsndr
      cases hsndr with
      | receiving hn => exact ⟨rfl, hn.symm⟩
  | indicating f => simp [fakeCan, hstage] at hup
  | waiting nb rest =>
      rw [hstage] at hsndr
      cases hsndr with
      | waiting hn =>
          have hqc : q = l.counters.confirmed := by simpa [fakeCan, hstage] using hup'
          omega

theorem Inv.reported_of_sent (h : x.Inv l) (hlong : sfNumDataBytes < x.msg.length)
    (hlim : x.limit = x.total) (hn : l.sent.length = x.total + 1)
    (hc : l.counters.confirmed = l.sent.length) :
    0 < l.counters.answered ∧ reportsMade l.sndrOut = [x.success] := by
  have htotal := total_pos hlong
  have ha : 0 < l.counters.answered := by
    apply Nat.pos_of_ne_zero
    intro hzero
    rw [h.length_sent, sent_eq hlong, if_pos hzero] at hn
    omega
  have hreports := h.sndr.reports
  rw [phase_end hlong ha (by omega), if_pos hlim, if_pos rfl] at hreports
  exact ⟨ha, hreports⟩

/-- Where nothing can happen any more before the last frame is handled, `main` has ended. -/
theorem ended_of_beforeLast (hids : x.IdsFit) (hlong : sfNumDataBytes < x.msg.length)
    (hlim : x.limit = x.total) (hreached : x.DemoReached d)
    (hle : d.link.right.frames ≤ x.total) (hfin : Final x.BeforeLast d) : d.phase = .ended := by
  by_contra hphase
  obtain ⟨l, hl, hrel⟩ := demo_link hids hreached
  obtain ⟨hsndr, -⟩ := demo_sem hl hrel.agrees
  obtain ⟨q, u, v, hal⟩ := hrel
  have hinv := inv_reached hl
  have hmain := demoInv_reached hreached
  have hlook : d.phase ≠ .looking := fun h => hfin _ ⟨⟨.look, if_pos h⟩, hle⟩
  have hrun : d.phase = .sending ∨ d.phase = .receiving := by
    cases hp : d.phase <;> simp_all
  have hblocked : d.link.up.length < (fakeCan x.sndrEnv).needs d.link.left :=
    not_le.mp fun hneeds =>
      hfin _ ⟨⟨.sndr, (if_pos hrun).trans (congrArg (Option.map _) (if_pos hneeds))⟩, hle⟩
  by_cases hneeds : (fakeCan x.rcvrEnv).needs d.link.right ≤ d.link.down.length
  · -- The receiver is about to handle the last frame: the sender has nothing left to do.
    obtain ⟨⟨f, hf⟩, hframes⟩ := right_of_beforeLast hle hphase hfin hneeds
    have hn : q = l.sent.length ∧ l.sent.length = x.total + 1 := by
      have hrcvr := hal.rcvr
      have hqn := hal.read_le
      have hmax : l.sent.length ≤ x.total + 1 := by
        rw [← length_frames hlong, hinv.length_sent]
        exact x.sent_le_length _ _
      rw [hal.right.2.2] at hframes
      rw [hf] at hrcvr
      cases hrcvr with
      | indicating hg hq hget => omega
    obtain ⟨hstage, hc⟩ := hal.done_of_blocked hn.1 hblocked
    obtain ⟨ha, hreports⟩ := hinv.reported_of_sent hlong hlim hn.2 hc
    rw [DemoInv, hstage] at hmain
    generalize hp : d.phase = phase at hmain
    cases hmain with
    | receiving hown =>
        rw [hsndr.mp (hown (hal.left.2.2 ▸ ha))] at hreports
        cases hreports
    | looking => exact hlook hp
    | ended => exact hphase hp
  · have hlast := (hinv.final_segmented
      (hal.final (Piped.final_iff.mpr ⟨hblocked, not_le.mp hneeds⟩)) hlong).1
    have hlim' : x.acked.limit = x.limit := rfl
    rw [hal.right.2.2] at hle
    omega

theorem ended_of_final (hids : x.IdsFit) (hone : x.OneBlock) (h : x.DemoReached d)
    (hfin : Final x.DemoStep d) : d.phase = .ended := by
  refine (demo_final hids h hfin).resolve_right ?_
  rintro ⟨⟨-, -, hlink⟩, hown⟩
  obtain ⟨l, hl, hrel⟩ := demo_link hids h
  obtain ⟨hsndr, -⟩ := demo_sem hl hrel.agrees
  obtain ⟨q, u, v, hal⟩ := hrel
  obtain ⟨ha, hreports⟩ := (inv_reached hl).reported (hal.final hlink) hone.1
    ((oneBlock_iff hone.1).mp hone)
  rw [hal.left.2.2] at hown
  exact hreports (hsndr.mp (hown ha))

/-- A Single Frame has been handed over where the test stops, and `main` waits on. -/
theorem blocked_single (hids : x.IdsFit) (hshort : x.msg.length ≤ sfNumDataBytes)
    (h : x.DemoReached d) (hfin : Final x.DemoStep d) :
    x.MainBlocked d ∧ ∃ a, deliveries d.link.right.out = [a] ∧ a.Carries x.msg := by
  have hone : ¬ x.OneBlock := fun hone => not_lt.mpr hshort hone.1
  obtain ⟨hblocked, -⟩ := (demo_final hids h hfin).resolve_left (not_ended hids hone h)
  refine ⟨hblocked, ?_⟩
  obtain ⟨l, hl, hrel⟩ := demo_link hids h
  have hag := hrel.agrees
  obtain ⟨q, u, v, hal⟩ := hrel
  have hinv := inv_reached hl
  obtain ⟨hreceived, -⟩ := hinv.final_single (hal.final hblocked.link) hshort
  have hlen : x.acked.frames.length = 1 := by
    rw [frames, canonicalFrames, if_pos (by exact hshort)]
    rfl
  rw [hag.rcvrOut]
  exact hinv.delivered (hlen.trans hreceived.symm).le

/-- In every order of the steps of the two processes `main` comes to its end, exactly if
the message is sent in more than one frame and in one block. A Single Frame is handed over,
and leaves `main` in `fake_can_rx_task` for ever. -/
theorem demo_ends_iff (x : Exchange) (hids : x.IdsFit) :
    (Ends x.DemoStep x.demoStart (fun d => d.phase = .ended) ↔
      sfNumDataBytes < x.msg.length ∧ (x.rcvrParams.blockSize = 0 ∨
        numCfs x.msg.length ≤ x.rcvrParams.blockSize.toNat)) ∧
    (x.msg.length ≤ sfNumDataBytes → Ends x.DemoStep x.demoStart fun d =>
      x.MainBlocked d ∧ ∃ a, deliveries d.link.right.out = [a] ∧ a.Carries x.msg) := by
  have hacc := acc_iff_finite.mp (demo_acc hids)
  refine ⟨⟨fun hends => ?_, fun hone => ?_⟩, fun hshort => ?_⟩
  · by_contra hone
    obtain ⟨d, hreached, hfin⟩ := hends.exists_final
    exact not_ended hids hone hreached (hends.final d hreached hfin)
  · exact ⟨hacc, fun d hreached hfin => ended_of_final hids hone hreached hfin⟩
  · exact ⟨hacc, fun d hreached hfin => blocked_single hids hshort hreached hfin⟩

/-- Twenty bytes, which are sent in one block, and three bytes. -/
theorem demo_ends_twenty :
    let x := accepting (List.replicate 20 7) 0 (by decide)
    let y := accepting [1, 2, 3] 0 (by decide)
    (Ends x.DemoStep x.demoStart fun d => d.phase = .ended) ∧
      Ends y.DemoStep y.demoStart fun d =>
        y.MainBlocked d ∧ ∃ a, deliveries d.link.right.out = [a] ∧ a.Carries y.msg :=
  ⟨(demo_ends_iff _ ⟨by decide, by decide⟩).1.mpr ⟨by decide, .inl rfl⟩,
    (demo_ends_iff _ ⟨by decide, by decide⟩).2 (by decide)⟩

/-- What the test has come to where `main` has ended: it has reported success once, and the
message was handed to the session layer of the receiver as a whole, or not at all. -/
structure DemoDone (x : Exchange) (d : Demo) : Prop where
  ended : d.phase = .ended
  reports : reportsMade d.link.left.out = [x.success]
  received : deliveries d.link.right.out = [] ∨
    ∃ a, deliveries d.link.right.out = [a] ∧ a.Carries x.msg

/-- `main` ends only when the sender has nothing left to do. -/
theorem done_of_ended (hids : x.IdsFit) (h : x.DemoReached d) (hend : d.phase = .ended) :
    x.DemoDone d := by
  have hone : x.OneBlock := not_not.mp fun hone => not_ended hids hone h hend
  have hlong := hone.1
  have hlim := (oneBlock_iff hlong).mp hone
  obtain ⟨l, hl, hrel⟩ := demo_link hids h
  have hag := hrel.agrees
  obtain ⟨q, u, v, hal⟩ := hrel
  have hinv := inv_reached hl
  obtain ⟨hstage, hframes⟩ : d.link.left.stage = .receiving ∧ 0 < d.link.left.frames := by
    have hmain := demoInv_reached h
    rw [DemoInv, hend] at hmain
    generalize d.link.left.stage = stage at hmain ⊢
    cases hmain with
    | ended hframes => exact ⟨rfl, hframes⟩
  have ha : 0 < l.counters.answered := hal.left.2.2 ▸ hframes
  have hc : l.counters.confirmed = l.sent.length := by
    have hsndr := hal.sndr
    rw [hstage] at hsndr
    cases hsndr with
    | receiving hn => exact hn.symm
  have hn : l.sent.length = x.total + 1 := by
    have hsent : l.sent.length = x.dialogue.sent l.counters.confirmed l.counters.answered :=
      hinv.length_sent
    rw [sent_eq hlong, if_neg ha.ne', hlim] at hsent
    omega
  refine ⟨hend, ?_, ?_⟩
  · rw [hag.sndrOut]
    exact (hinv.reported_of_sent hlong hlim hn hc).2
  · have hdeliveries := hinv.rcvr.deliveries
    rw [hag.rcvrOut]
    split at hdeliveries
    · exact .inl hdeliveries
    · exact .inr hdeliveries

/-- In some order of the steps `main` has reported success and has ended, and has killed the
receiving process before the message was handed to the session layer. -/
theorem demo_may_lose (x : Exchange) (hids : x.IdsFit) (hone : x.OneBlock) :
    ∃ d, x.DemoReached d ∧ d.phase = .ended ∧ reportsMade d.link.left.out = [x.success] ∧
      deliveries d.link.right.out = [] := by
  have hlong := hone.1
  have hlim := (oneBlock_iff hlong).mp hone
  have hacc : Acc (flip x.BeforeLast) x.demoStart :=
    Subrelation.accessible (fun h => h.1) (demo_acc hids)
  obtain ⟨d, hrun, hfin⟩ := exists_final_of_acc hacc
  obtain ⟨hreached, hle⟩ := beforeLast_reached hrun
  have hphase := ended_of_beforeLast hids hlong hlim hreached hle hfin
  obtain ⟨l, hl, hrel⟩ := demo_link hids hreached
  have hag := hrel.agrees
  obtain ⟨hsndr, hrcvr⟩ := demo_sem hl hag
  obtain ⟨q, u, v, hal⟩ := hrel
  have hinv := inv_reached hl
  have hnone : deliveries l.rcvrOut = [] := by
    have hdeliveries := hinv.rcvr.deliveries
    have hlen : x.acked.frames.length = x.total + 1 := length_frames hlong
    rw [hal.right.2.2] at hle
    rwa [if_pos (by omega)] at hdeliveries
  refine ⟨d, hreached, hphase, ?_, hag.rcvrOut ▸ hnone⟩
  have hsem : 0 < d.rcvrEndSem := by
    have hmain := demoInv_reached hreached
    rw [DemoInv, hphase] at hmain
    generalize d.link.left.stage = stage at hmain
    cases hmain with
    | ended hframes hsem => exact hsem
  have hreports := hinv.sndr.reports
  rw [Demo.rcvrEndSem, hrcvr.mpr hnone] at hsem
  rw [hag.sndrOut]
  split at hreports
  · exact hreports
  · exact absurd (hsndr.mpr hreports) hsem.ne'

/-- Twenty bytes, which are sent in one block. -/
theorem demo_may_lose_twenty :
    let x := accepting (List.replicate 20 7) 0 (by decide)
    ∃ d, x.DemoReached d ∧ d.phase = .ended ∧ reportsMade d.link.left.out = [x.success] ∧
      deliveries d.link.right.out = [] :=
  demo_may_lose _ ⟨by decide, by decide⟩ ⟨by decide, .inl rfl⟩

end Exchange

end CanTp
