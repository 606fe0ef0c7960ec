import CanTp.FakeCan.Dropping

/-!
# The runs with FC.WAIT frames

A run of the two processes follows one without FC.WAIT frames until the receiver handles its
second frame, and then the sender drops what comes in until both wait: of a message with
more than one Consecutive Frame the second one is never sent.
-/

namespace CanTp

open Library

namespace Exchange

variable {x : Exchange} {s : FakeLink}

theorem fakeCanTx_continued {c : CantpRxtxStatus} {r : RxFrame} (h : ContinuedBy c r)
    (hblock : c.BlockDone) (hid : c.params.id = x.rcvrParams.id) :
    ∃ t rest, (canTp.step c (.canrxCb r)).2.filterMap Act.fakeCanTx = t :: rest ∧
      rest.length = c.params.wftNum.toNat ∧
      ∀ a ∈ t :: rest, a.nb = false ∧ x.IsFlow a.frame := by
  have hfcs := h.fakeCanTx hblock
  have hlen := congrArg List.length hfcs
  rw [List.length_append, List.length_replicate, List.length_singleton] at hlen
  have hflow : ∀ a ∈ (canTp.step c (.canrxCb r)).2.filterMap Act.fakeCanTx,
      a.nb = false ∧ x.IsFlow a.frame := by
    rw [hfcs]
    refine List.forall_mem_append.mpr ⟨fun a ha => ?_, fun a ha => ?_⟩
    · rw [List.eq_of_mem_replicate ha]
      exact ⟨rfl, hid, rfl, nPciT_flowFrame _ _ _⟩
    · rw [List.mem_singleton.mp ha]
      exact ⟨rfl, hid, rfl, nPciT_flowFrame _ _ _⟩
  cases hacts : (canTp.step c (.canrxCb r)).2.filterMap Act.fakeCanTx with
  | nil =>
      rw [hacts] at hlen
      cases hlen
  | cons t rest =>
      rw [hacts] at hlen hflow
      exact ⟨t, rest, rfl, Nat.succ.inj hlen, hflow⟩

theorem blockDone_second {c : CantpRxtxStatus} {out : List Act}
    {fcs : List (Nat × CantpCanFrame)} (hlim : x.limit = 1) (hmore : 1 < x.total)
    (h : x.acked.RcvrAt 1 c out fcs) (n : UInt8) : (c.withWaits n).BlockDone := by
  have hlim' : x.acked.limit = 1 := hlim
  have hbs : 0 < x.acked.blockSize :=
    (limit_eq_blockSize (hlim'.trans_lt (show 1 < x.acked.total from hmore))).2
  refine ⟨?_, (h.blockEnds_iff Nat.one_pos hlim'.ge hmore hbs).mpr hlim'.symm⟩
  have hsize : c.params.blockSize.toNat = x.acked.blockSize := by
    rw [h.params]
    rfl
  exact UInt8.lt_iff_toNat_lt.mpr (hbs.trans_eq hsize.symm)

theorem indicate_second {c : CantpRxtxStatus} {out : List Act}
    {fcs : List (Nat × CantpCanFrame)} {f : CantpCanFrame} (hlim : x.limit = 1)
    (hmore : 1 < x.total) (h : x.acked.RcvrAt 1 c out fcs) (hget : x.frames[1]? = some f)
    (canFrame : FakeCanPhy) (n : UInt8) :
    ∃ c' acts g rest, FakeCanNode.indicate (x.rcvrEnv 1).acked
        ⟨c.withWaits n, out, 1, canFrame, .indicating f⟩ f =
          (⟨c', out ++ acts, 2, canFrame.put g, .waiting false rest⟩, g.wire) ∧
      (∀ a ∈ acts, a.ReceivesOnly) ∧ deliveries (out ++ acts) = [] ∧ rest.length = n.toNat ∧
      x.IsFlow g ∧ ∀ t ∈ rest, t.nb = false ∧ x.IsFlow t.frame := by
  have hlong : sfNumDataBytes < x.acked.msg.length := segmented_of_more hmore
  obtain ⟨hcont, hstored⟩ :=
    continued_of_rcvrAt h hlong hmore hget n (x.rcvrEnv 1).acked
  have hid : c.params.id = x.rcvrParams.id := by
    rw [h.params]
    rfl
  obtain ⟨⟨nb, g⟩, rest, hacts, hrest, hflow⟩ :=
    fakeCanTx_continued hcont (blockDone_second hlim hmore h n) hid
  obtain ⟨⟨rfl, hflowG⟩, hflowRest⟩ := List.forall_mem_cons.mp hflow
  have hrole := deliver_role hget (c.withWaits n) (x.rcvrEnv 1).acked fun _ => Int.le_refl 0
  have hact := FakeCanNode.indicate_cons
    (n := ⟨c.withWaits n, out, 1, canFrame, .indicating f⟩) hacts
  have hnone := h.deliveries
  rw [if_pos (by rw [length_frames hlong]; exact Nat.lt_succ_of_lt hmore)] at hnone
  dsimp only at hact
  generalize canTp.step (c.withWaits n) (.canrxCb (f.rx (x.rcvrEnv 1).acked)) = p
    at hact hstored hrole
  refine ⟨p.1, p.2, g, rest, hact, hrole, ?_, hrest, hflowG, hflowRest⟩
  rw [deliveries_append, hnone, hstored]
  rfl

theorem Aligned.frame_of_indicating {q u v : Nat} (h : x.Aligned s l q u v) {f : CantpCanFrame}
    (hst : s.right.stage = .indicating f) : x.frames[s.right.frames]? = some f := by
  have hrcvr := h.rcvr
  rw [hst] at hrcvr
  cases hrcvr with
  | indicating _ _ hf => rw [h.right.2.2, hf]

/-- When the receiver handles the second frame, the sender has come to the end of its block,
or only the confirmation of that frame is missing. -/
theorem Aligned.droppingSndr {l : Link} {q u v : Nat} {f : CantpCanFrame} (hlim : x.limit = 1)
    (hmore : 1 < x.total) (h : x.Aligned s l q u v) (hst : s.right.stage = .indicating f)
    (hr : l.counters.received = 1) : ∃ bytes, x.DroppingSndr s.left bytes ∧
      s.left.frames = 1 ∧ s.left.stage.toHandle = 0 ∧ s.up = bytes ∧ s.down = [] := by
  have hlong : sfNumDataBytes < x.acked.msg.length := segmented_of_more hmore
  have hlim' : x.acked.limit = 1 := hlim
  obtain ⟨⟨lctx, lout, lframes, lcanFrame, lstage⟩, right, down, up⟩ := s
  obtain ⟨hinv, ⟨hctx, hout, hframes⟩, -, hsndr, hrcvr, hcq, hqn, hvu, hug, hdown, hup⟩ := h
  dsimp only at *
  subst hctx hout
  have hsndrAt := hinv.sndr
  have hsent := hinv.length_sent
  rw [sent_eq hlong, hlim'] at hsent
  have hfcs : l.fcs.length = 1 := by
    rw [hinv.rcvr.fcs_eq, hr, List.length_map, answers_eq hlong,
      Dialogue.flowAnswers_one _ (limit_pos hlong)]
    rfl
  rw [hst] at hrcvr
  cases hrcvr with
  | indicating hg hq hf =>
      rw [hr] at hq
      have hcn := hsndr.sent_le
      have ha : l.counters.answered = 1 := by
        split at hsent <;> omega
      rw [ha, if_neg Nat.one_ne_zero] at hsent
      rw [ha] at hsndrAt hsndr hframes
      rw [if_neg (by omega), if_neg (by omega)] at hdown
      rw [if_neg (by omega : ¬ u < l.fcs.length), List.append_nil] at hup
      cases hsndr with
      | receiving hn hu =>
          rw [if_neg (by omega)] at hup
          have hc : l.counters.confirmed = 2 := by omega
          rw [hc] at hsndrAt
          exact ⟨[], .receiving rfl (blocked_of_sndrAt hlim hmore hsndrAt), hframes, rfl, hup,
            hdown⟩
      | indicating hn hu => omega
      | waiting hn hu =>
          rw [if_pos (by omega)] at hup
          have hc : l.counters.confirmed = 1 := by omega
          rw [hc] at hsndrAt
          exact ⟨[ackByte], .waiting rfl hsndrAt, hframes, rfl, hup, hdown⟩

theorem Aligned.drops {l : Link} {q u v : Nat} {f : CantpCanFrame} (hlim : x.limit = 1)
    (hmore : 1 < x.total) (h : x.Aligned s l q u v) (hl : x.acked.Reached l)
    (hst : s.right.stage = .indicating f) (hone : s.right.frames = 1) (n : UInt8) :
    x.Drops n (Piped.actRight (fakeCan x.rcvrEnv) (s.withWaits n)) := by
  have hr : l.counters.received = 1 := h.right.2.2.symm.trans hone
  obtain ⟨bytes, hsndr, hframes, hhandle, hup, hdown⟩ := h.droppingSndr hlim hmore hst hr
  have hget := h.frame_of_indicating hst
  have hcalls := calls_reached hl
  have hrcvrAt := h.inv.rcvr
  rw [hone] at hget
  rw [hr, ← h.right.1, ← h.right.2.1] at hrcvrAt
  have hleftOut := h.left.2.1
  have hrightOut := h.right.2.1
  obtain ⟨left, ⟨ctx, out, frames, canFrame, stage⟩, down, up⟩ := s
  dsimp only at *
  subst hst hone hup hdown
  obtain ⟨c, acts, g, rest, hact, hrole, hdeliveries, hrest, hflow, hflowRest⟩ :=
    indicate_second hlim hmore hrcvrAt hget canFrame n
  rw [actRight_indicating x.rcvrEnv (f := f) rfl]
  dsimp only [FakeLink.withWaits, FakeCanNode.withWaits]
  rw [hact]
  refine ⟨up, some g, hsndr, .sent hflow hflowRest, by simp, fun _ => rfl, ?_,
    hleftOut ▸ hcalls.sndr, List.forall_mem_append.mpr ⟨hrightOut ▸ hcalls.rcvr, hrole⟩,
    hdeliveries⟩
  rw [hframes, hhandle]
  simp only [FakeCanStage.toSend, Option.elim_some, hrest]
  exact Nat.add_comm _ _

/-- Up to the handling of the second frame the receiver does what it does without FC.WAIT
frames; from then on they are dropped. -/
theorem leaves_waits (hids : x.IdsFit) (hlim : x.limit = 1) (hmore : 1 < x.total) (n : UInt8) :
    Leaves x.FakeStep x.FakeStep
      (fun s s₀ => x.FakeReached s₀ ∧ s₀.right.frames ≤ 1 ∧ s = s₀.withWaits n) (x.Drops n)
      work where
  step := by
    rintro s s₀ t ⟨hs, hone, rfl⟩ hst
    obtain ⟨l, hl, q, u, v, h⟩ := (fake_simulates hids).reached ⟨_, _, _, aligned_start x⟩ hs
    obtain ⟨hneeds, rfl⟩ | ⟨hneeds, rfl⟩ := Piped.step_iff.mp hst
    · exact .inl ⟨_, Piped.step_iff.mpr (.inl ⟨hneeds, rfl⟩),
        hs.tail (Piped.step_iff.mpr (.inl ⟨hneeds, rfl⟩)), hone, rfl⟩
    · by_cases hsecond : s₀.right.frames = 1 ∧ ∃ f, s₀.right.stage = .indicating f
      · obtain ⟨hframes, f, hstage⟩ := hsecond
        exact .inr (h.drops hlim hmore hl hstage hframes n)
      · have hcomm : FakeLink.withWaits (s₀.actRight (fakeCan x.rcvrEnv)) n =
            (s₀.withWaits n).actRight (fakeCan x.rcvrEnv) := by
          refine (withWaits_actRight _ n (fun rest hst => ?_) fun f hst => ?_).symm
          · have hrcvr := h.rcvr
            rw [hst] at hrcvr
            cases hrcvr
          · have hget := h.frame_of_indicating hst
            have hzero : s₀.right.frames = 0 := by
              by_contra hne
              exact hsecond ⟨by omega, f, hst⟩
            rw [hzero] at hget
            have hrcvr := h.inv.rcvr
            rw [← h.right.1, ← h.right.2.2, hzero] at hrcvr
            exact ⟨pci_of_frame hget _, hrcvr.not_continued hget (.inl rfl) _⟩
        refine .inl ⟨_, Piped.step_iff.mpr (.inr ⟨hneeds, rfl⟩),
          hs.tail (Piped.step_iff.mpr (.inr ⟨hneeds, rfl⟩)), ?_, hcomm.symm⟩
        obtain ⟨-, -, hframes⟩ | ⟨-, ⟨hind, hframes⟩ | ⟨-, hframes⟩⟩ :=
          fakeCan_act_cases x.rcvrEnv s₀.right (s₀.down.take ((fakeCan x.rcvrEnv).needs s₀.right))
        · exact hframes.trans_le hone
        · have hne : s₀.right.frames ≠ 1 := fun heq => hsecond ⟨heq, hind⟩
          refine hframes.trans_le ?_
          omega
        · exact hframes.trans_le hone
  off h hst := h.step hids hlim hmore hst

theorem limit_eq_one (hblock : x.rcvrParams.blockSize = 1) (hmore : 1 < x.total) :
    x.limit = 1 := by
  rw [limit, blockSize, hblock]
  exact if_pos ⟨Nat.one_pos, hmore⟩

theorem Aligned.two_handled {l : Link} {q u v : Nat} (h : x.Aligned s l q u v)
    (hfin : Final x.FakeStep s) (hlim : x.limit = 1) (hmore : 1 < x.total) :
    1 < s.right.frames := by
  obtain ⟨-, hreceived, hconfirmed, hanswered⟩ := h.counters_of_final hfin
  have hlong : sfNumDataBytes < x.acked.msg.length := segmented_of_more hmore
  have hlim' : x.acked.limit = 1 := hlim
  have hsent := h.inv.length_sent
  rw [sent_eq hlong, hlim'] at hsent
  have hfcs := congrArg List.length h.inv.rcvr.fcs_eq
  rw [List.length_map, answers_eq hlong] at hfcs
  rw [h.right.2.2]
  by_contra hle
  have hone : l.counters.received = 1 := by
    split at hsent <;> omega
  rw [hone, Dialogue.flowAnswers_one _ (limit_pos hlong)] at hfcs
  rw [hanswered, hfcs, hconfirmed, ← hreceived, hone] at hsent
  cases hsent

/-- The two processes stop where they do without FC.WAIT frames, and so not before that. -/
theorem not_final_withWaits (hids : x.IdsFit) (hlim : x.limit = 1) (hmore : 1 < x.total)
    (hs : x.FakeReached s) (hone : s.right.frames ≤ 1) (n : UInt8) :
    ¬ Final x.FakeStep (s.withWaits n) := by
  intro hfin
  obtain ⟨l, -, q, u, v, h⟩ := (fake_simulates hids).reached ⟨_, _, _, aligned_start x⟩ hs
  obtain ⟨hleft, hright⟩ := Piped.final_iff.mp hfin
  have hfin' : Final x.FakeStep s := Piped.final_iff.mpr ⟨hleft, hright⟩
  exact absurd (h.two_handled hfin' hlim hmore) (not_lt.mpr hone)

/-- A receiver in blocks of one frame that sends FC.WAIT frames never gets the message. -/
theorem waits_dropped (x : Exchange) (n : UInt8) (hids : x.IdsFit)
    (hblock : x.rcvrParams.blockSize = 1) (hmore : 1 < x.total) :
    Ends x.FakeStep (x.fakeStart.withWaits n) (x.WaitsDropped n) := by
  have hlim := limit_eq_one hblock hmore
  refine (leaves_waits hids hlim hmore n).ends (fake_acc hids) ⟨.refl, Nat.zero_le 1, rfl⟩ ?_
    fun hoff hfin => hoff.final hfin
  rintro t s hs ⟨-, hone, rfl⟩ hfin
  exact absurd hfin (not_final_withWaits hids hlim hmore hs hone n)

/-- Twenty bytes, with two FC.WAIT frames behind the first Consecutive Frame. -/
theorem waits_dropped_twenty :
    let x := accepting (List.replicate 20 7) 1 (by decide)
    Ends x.FakeStep (x.fakeStart.withWaits 2) (x.WaitsDropped 2) :=
  waits_dropped _ 2 ⟨by decide, by decide⟩ rfl (by decide)

end Exchange

end CanTp
