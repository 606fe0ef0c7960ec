import CanTp.FakeCan.Waits

/-!
# Flow Control frames that are dropped

The sender is not prepared for FC.WAIT frames: when the first of them comes in it is in
`CF_FC_WAIT`, where it drops what comes in, or on its way there. So the receiver sends all
its FC.WAIT frames and the FC.CTS behind them, one after the other, and then both wait.
-/

namespace CanTp

open Library

namespace Exchange

variable {x : Exchange} {c : CantpRxtxStatus} {f : CantpCanFrame}

variable (x) in
/-- A Flow Control frame of the receiver. -/
structure IsFlow (f : CantpCanFrame) : Prop where
  id : f.id = x.rcvrParams.id
  dlc : f.dlc = 8
  pci : f.frame.nPciT = CantpNPciType.flowControll.toUInt8

theorem IsFlow.dropped (h : x.IsFlow f) (hst : c.sndr.state ≠ .ffFcWait) (env : Env) :
    canTp.step c (.canrxCb (f.rx env)) = (c, [.sndrStateSemTake (1000 * nBsTimerMs)]) := by
  obtain ⟨id, idt, dlc, frame⟩ := f
  obtain rfl := h.dlc
  have hframe : (CantpCanFrame.rx ⟨id, idt, 8, frame⟩ env).frame = frame := rxFrame_eight frame
  have hpci : (CantpCanFrame.rx ⟨id, idt, 8, frame⟩ env).pci = some .flowControll := by
    rw [RxFrame.pci, hframe, h.pci]
    rfl
  rw [canTp_step, canrx_flowControll hpci, canrxFlowControll_drop (by exact hst)]
  rfl

variable (x) in
/-- The sender has come to the end of its block and waits in `CF_FC_WAIT`. -/
structure Blocked (s : FakeCanNode) : Prop where
  state : s.ctx.sndr.state = .cfFcWait
  sent : s.out.filterMap Act.dataFrame = x.frames.take 2
  reports : reportsMade s.out = []

variable (x) in
/-- Where the sender stands while the receiver sends FC.WAIT frames: it waits for the
confirmation of its last frame, which comes with the bytes given, or it is blocked. -/
inductive DroppingSndr : FakeCanNode → List UInt8 → Prop
  | waiting {s waits} (hst : s.stage = .waiting true [])
      (h : x.acked.SndrAt 1 1 s.ctx s.out waits) : DroppingSndr s [ackByte]
  | receiving {s} (hst : s.stage = .receiving) (h : x.Blocked s) : DroppingSndr s []
  | indicating {s f} (hst : s.stage = .indicating f) (hf : x.IsFlow f) (h : x.Blocked s) :
      DroppingSndr s []

variable (x) in
/-- Where the receiver stands meanwhile: the frame it has sent has not been read, or is
acknowledged by the bytes given, or it has sent all frames. -/
inductive DroppingRcvr : FakeCanStage → Option CantpCanFrame → List UInt8 → Prop
  | sent {f rest} (hf : x.IsFlow f) (hrest : ∀ t ∈ rest, t.nb = false ∧ x.IsFlow t.frame) :
      DroppingRcvr (.waiting false rest) (some f) []
  | acked {rest} (hrest : ∀ t ∈ rest, t.nb = false ∧ x.IsFlow t.frame) :
      DroppingRcvr (.waiting false rest) none [ackByte]
  | done : DroppingRcvr .receiving none []

end Exchange

/-- The transmissions that a process has still to begin, and the frames that it has read but
not handled. -/
def FakeCanStage.toSend : FakeCanStage → Nat
  | .waiting _ rest => rest.length
  | _ => 0

def FakeCanStage.toHandle : FakeCanStage → Nat
  | .indicating _ => 1
  | _ => 0

namespace Exchange

variable {x : Exchange} {s t : FakeLink} {n : UInt8}

variable (x) in
/-- The sender drops the Flow Control frames of the receiver: the first FC.CTS has been
handled before, and `n` FC.WAIT frames and an FC.CTS have been handled, are on their way or
are still to be sent. -/
structure Dropping (n : UInt8) (s : FakeLink) (bytes : List UInt8)
    (pending : Option CantpCanFrame) : Prop where
  sndr : x.DroppingSndr s.left bytes
  rcvr : x.DroppingRcvr s.right.stage pending s.down
  up_eq : s.up = bytes ++ pending.elim [] CantpCanFrame.wire
  unread : bytes ≠ [] → pending.isSome
  count : s.left.frames + s.left.stage.toHandle + pending.elim 0 (fun _ => 1) +
    s.right.stage.toSend = n.toNat + 2
  sndrCalls : ∀ a ∈ s.left.out, a.ofRcvr = false
  rcvrCalls : ∀ a ∈ s.right.out, a.ReceivesOnly
  deliveries : deliveries s.right.out = []

/-- What is left to be done: bytes to be read, a frame to be handled and frames to be sent. -/
def work (s : FakeLink) : Nat :=
  s.up.length + s.down.length + s.left.stage.toHandle + 14 * s.right.stage.toSend

section Step

variable {ctx : CantpRxtxStatus} {out : List Act} {frames : Nat} {canFrame : FakeCanPhy}
  {left right : FakeCanNode} {down up bytes : List UInt8} {pending : Option CantpCanFrame}

theorem segmented_of_more (hmore : 1 < x.total) : sfNumDataBytes < x.msg.length := by
  have h := (lt_numCfs_iff x.msg.length 1).mp hmore
  rw [cfStart, ffNumDataBytes, cfNumDataBytes] at h
  rw [sfNumDataBytes]
  omega

theorem blocked_of_sndrAt (hlim : x.limit = 1) (hmore : 1 < x.total) {s : FakeCanNode}
    {waits : List Nat} (h : x.acked.SndrAt 2 1 s.ctx s.out waits) : x.Blocked s := by
  have hlong : sfNumDataBytes < x.acked.msg.length := segmented_of_more hmore
  have hlim' : x.acked.limit = 1 := hlim
  have hphase : x.acked.phase 2 1 = .cfWait 1 := by
    have hne : ¬ x.acked.limit = x.acked.total := fun heq => hmore.ne (hlim'.symm.trans heq)
    rw [phase_end hlong Nat.one_pos (hlim'.trans_lt Nat.one_lt_two), if_neg hne, hlim']
  refine ⟨?_, ?_, ?_⟩
  · rw [h.phase.state_eq, hphase]
    rfl
  · rw [h.sent, sent_eq hlong, hlim']
    rfl
  · rw [h.reports, hphase]
    rfl

/-- The confirmation of the last frame of the block leads to `CF_FC_WAIT` and brings no
further frame. -/
theorem blocked_of_confirm (hlim : x.limit = 1) (hmore : 1 < x.total) {waits : List Nat}
    (h : x.acked.SndrAt 1 1 ctx out waits) (frames : Nat) (canFrame : FakeCanPhy) :
    let p := canTp.step ctx .cantxConfirmCb
    p.2.filterMap Act.fakeCanTx = [] ∧
      x.Blocked ⟨p.1, out ++ p.2, frames, canFrame, .receiving⟩ := by
  intro p
  have hlong : sfNumDataBytes < x.acked.msg.length := segmented_of_more hmore
  have hlim' : x.acked.limit = 1 := hlim
  obtain ⟨hmoves, hparams⟩ := h.confirm_sending hlong Nat.one_pos Nat.one_pos hlim'.ge
  have hnone : p.2.filterMap Act.dataFrame = [] := by
    have hsent := hmoves.sent
    rw [sent_eq hlong, sent_eq hlong, hlim'] at hsent
    exact List.self_eq_append_right.mp hsent
  constructor
  · rw [fakeCanTx_of_sndr (confirm_role ctx), hnone]
    rfl
  · exact blocked_of_sndrAt hlim hmore (h.moves hmoves hparams rfl)

theorem Dropping.left_waiting (hlim : x.limit = 1) (hmore : 1 < x.total) {s : FakeLink}
    (hs : s = ⟨⟨ctx, out, frames, canFrame, .waiting true []⟩, right, down, ackByte :: up⟩)
    (h : x.Dropping n s [ackByte] pending) (env : Nat → Env) :
    x.Dropping n (s.actLeft (fakeCan env)) [] pending ∧
      work (s.actLeft (fakeCan env)) < work s := by
  subst hs
  obtain ⟨hsndr, hrcvr, hup, -, hcount, hsndrCalls, hrcvrCalls, hdeliveries⟩ := h
  cases hsndr with
  | waiting hst hat =>
      obtain ⟨hnone, hblocked⟩ := blocked_of_confirm hlim hmore hat frames canFrame
      have hact : (fakeCan env).act ⟨ctx, out, frames, canFrame, .waiting true []⟩ [ackByte] =
          (⟨(canTp.step ctx .cantxConfirmCb).1, out ++ (canTp.step ctx .cantxConfirmCb).2, frames,
            canFrame, .receiving⟩, []) := by
        refine (FakeCanNode.confirm_nil _).trans ?_
        rw [FakeCanNode.handles, hnone]
        rfl
      have ht : Piped.actLeft (fakeCan env)
          ⟨⟨ctx, out, frames, canFrame, .waiting true []⟩, right, down, ackByte :: up⟩ =
          ⟨⟨(canTp.step ctx .cantxConfirmCb).1, out ++ (canTp.step ctx .cantxConfirmCb).2, frames,
            canFrame, .receiving⟩, right, down ++ [], up⟩ :=
        congrArg (fun p : FakeCanNode × List UInt8 => (⟨p.1, right, down ++ p.2, up⟩ : FakeLink))
          hact
      rw [ht, List.append_nil]
      refine ⟨⟨.receiving rfl hblocked, hrcvr, List.tail_eq_of_cons_eq hup, absurd rfl, hcount,
        List.forall_mem_append.mpr ⟨hsndrCalls, confirm_role ctx⟩, hrcvrCalls, hdeliveries⟩, ?_⟩
      simp [work, FakeCanStage.toHandle]

theorem Dropping.left_receiving (hids : x.IdsFit) {f : CantpCanFrame} {s : FakeLink}
    (hs : s = ⟨⟨ctx, out, frames, canFrame, .receiving⟩, right, down, f.wire⟩)
    (h : x.Dropping n s [] (some f)) (env : Nat → Env) :
    x.Dropping n (s.actLeft (fakeCan env)) [] none ∧
      work (s.actLeft (fakeCan env)) < work s := by
  subst hs
  obtain ⟨hsndr, hrcvr, -, -, hcount, hsndrCalls, hrcvrCalls, hdeliveries⟩ := h
  obtain ⟨rctx, rout, rframes, rcanFrame, rstage⟩ := right
  dsimp only at hrcvr hcount
  cases hrcvr with
  | sent hf hrest =>
      have hlen := f.length_wire
      have hget : (FakeCanPhy.ofList (f.wire.take 14)).get = f := by
        rw [List.take_of_length_le hlen.le]
        exact f.get_wire (hf.id ▸ hids.rcvr)
      have ht : ∀ (right : FakeCanNode) (bs : List UInt8), Piped.actLeft (fakeCan env)
          ⟨⟨ctx, out, frames, canFrame, .receiving⟩, right, [], bs⟩ =
          ⟨⟨ctx, out, frames, canFrame, .indicating (FakeCanPhy.ofList (bs.take 14)).get⟩, right,
            [ackByte], bs.drop 14⟩ := fun _ _ => rfl
      rw [ht, hget, List.drop_of_length_le hlen.le]
      refine ⟨⟨.indicating rfl hf ?_, .acked hrest, rfl, absurd rfl, ?_, hsndrCalls,
        hrcvrCalls, hdeliveries⟩, ?_⟩
      · cases hsndr with
        | receiving hst hb => exact ⟨hb.state, hb.sent, hb.reports⟩
        | indicating hst => cases hst
      · rw [← hcount]
        simp only [FakeCanStage.toHandle, Option.elim_some, Option.elim_none]
      · simp [work, FakeCanStage.toHandle, hlen]

theorem Dropping.left_indicating {f : CantpCanFrame} {s : FakeLink}
    (hs : s = ⟨⟨ctx, out, frames, canFrame, .indicating f⟩, right, down, up⟩)
    (h : x.Dropping n s [] pending) (env : Nat → Env) :
    x.Dropping n (s.actLeft (fakeCan env)) [] pending ∧
      work (s.actLeft (fakeCan env)) < work s := by
  subst hs
  obtain ⟨hsndr, hrcvr, hup, -, hcount, hsndrCalls, hrcvrCalls, hdeliveries⟩ := h
  cases hsndr with
  | receiving hst => cases hst
  | indicating hst hf hb =>
      cases hst
      have hne : ctx.sndr.state ≠ .ffFcWait := by
        rw [hb.state]
        simp
      have hdropped := hf.dropped hne (env frames).acked
      have hact : (fakeCan env).act ⟨ctx, out, frames, canFrame, .indicating f⟩ [] =
          (⟨ctx, out ++ [.sndrStateSemTake (1000 * nBsTimerMs)], frames + 1, canFrame,
            .receiving⟩, []) := by
        simp only [fakeCan, FakeCanNode.indicate, FakeCanNode.handles, hdropped]
        rfl
      have ht : Piped.actLeft (fakeCan env)
          ⟨⟨ctx, out, frames, canFrame, .indicating f⟩, right, down, up⟩ =
          ⟨⟨ctx, out ++ [.sndrStateSemTake (1000 * nBsTimerMs)], frames + 1, canFrame,
            .receiving⟩, right, down ++ [], up⟩ :=
        congrArg (fun p : FakeCanNode × List UInt8 => (⟨p.1, right, down ++ p.2, up⟩ : FakeLink))
          hact
      rw [ht, List.append_nil]
      refine ⟨⟨.receiving rfl ⟨hb.state, ?_, ?_⟩, hrcvr, hup, absurd rfl, ?_, ?_, hrcvrCalls,
        hdeliveries⟩, ?_⟩
      · rw [List.filterMap_append, hb.sent]
        exact List.append_nil _
      · rw [reportsMade_append, hb.reports]
        rfl
      · rw [← hcount]
        simp only [FakeCanStage.toHandle]
      · exact List.forall_mem_append.mpr ⟨hsndrCalls, by simp [Act.ofRcvr]⟩
      · simp [work, FakeCanStage.toHandle]

theorem Dropping.right_waiting {rest : List FakeCanTx} {s : FakeLink}
    (hs : s = ⟨left, ⟨ctx, out, frames, canFrame, .waiting false rest⟩, [ackByte], []⟩)
    (h : x.Dropping n s [] none) (env : Nat → Env) :
    (∃ pending, x.Dropping n (s.actRight (fakeCan env)) [] pending) ∧
      work (s.actRight (fakeCan env)) < work s := by
  subst hs
  obtain ⟨hsndr, hrcvr, -, -, hcount, hsndrCalls, hrcvrCalls, hdeliveries⟩ := h
  have ht : Piped.actRight (fakeCan env)
      ⟨left, ⟨ctx, out, frames, canFrame, .waiting false rest⟩, [ackByte], []⟩ =
      let p := FakeCanNode.transmit ⟨ctx, out, frames, canFrame, .waiting false rest⟩ rest
      ⟨left, p.1, [], [] ++ p.2⟩ := rfl
  rw [ht]
  cases hrcvr with
  | acked hrest =>
      cases rest with
      | nil =>
          rw [FakeCanNode.transmit_nil]
          exact ⟨⟨none, hsndr, .done, rfl, absurd rfl, hcount, hsndrCalls, hrcvrCalls,
            hdeliveries⟩, by simp [work, FakeCanStage.toSend]⟩
      | cons t rest =>
          obtain ⟨nb, f⟩ := t
          obtain ⟨⟨rfl, hf⟩, hrest'⟩ := List.forall_mem_cons.mp hrest
          rw [FakeCanNode.transmit_cons]
          dsimp only [List.nil_append]
          refine ⟨⟨some f, hsndr, .sent hf hrest', by simp, absurd rfl, ?_,
            hsndrCalls, hrcvrCalls, hdeliveries⟩, ?_⟩
          · simp only [FakeCanStage.toSend, List.length_cons, Option.elim_none,
              Option.elim_some] at hcount ⊢
            omega
          · simp [work, FakeCanStage.toSend]
            omega

variable (x) in
/-- The sender drops what the receiver sends. -/
def Drops (n : UInt8) (s : FakeLink) : Prop := ∃ bytes pending, x.Dropping n s bytes pending

theorem Dropping.left_step (hids : x.IdsFit) (hlim : x.limit = 1) (hmore : 1 < x.total)
    (h : x.Dropping n s bytes pending) (env : Nat → Env)
    (hneeds : (fakeCan env).needs s.left ≤ s.up.length) :
    x.Drops n (s.actLeft (fakeCan env)) ∧ work (s.actLeft (fakeCan env)) < work s := by
  obtain ⟨⟨ctx, out, frames, canFrame, stage⟩, right, down, up⟩ := s
  have hup := h.up_eq
  have hsndr := h.sndr
  dsimp only at hup hsndr hneeds
  cases hsndr with
  | waiting hst =>
      dsimp only at hst
      subst hst hup
      obtain ⟨h', hlt⟩ := h.left_waiting hlim hmore rfl env
      exact ⟨⟨_, _, h'⟩, hlt⟩
  | receiving hst =>
      dsimp only at hst
      subst hst
      cases pending with
      | none =>
          rw [hup] at hneeds
          cases hneeds
      | some f =>
          rw [List.nil_append, Option.elim_some] at hup
          obtain ⟨h', hlt⟩ := h.left_receiving hids (by rw [hup]) env
          exact ⟨⟨_, _, h'⟩, hlt⟩
  | indicating hst =>
      dsimp only at hst
      subst hst
      obtain ⟨h', hlt⟩ := h.left_indicating rfl env
      exact ⟨⟨_, _, h'⟩, hlt⟩

theorem Dropping.right_step (h : x.Dropping n s bytes pending) (env : Nat → Env)
    (hneeds : (fakeCan env).needs s.right ≤ s.down.length) :
    x.Drops n (s.actRight (fakeCan env)) ∧ work (s.actRight (fakeCan env)) < work s := by
  obtain ⟨left, ⟨ctx, out, frames, canFrame, stage⟩, down, up⟩ := s
  have hup := h.up_eq
  have hunread := h.unread
  have hrcvr := h.rcvr
  dsimp only at hup hrcvr hneeds
  cases hrcvr with
  | sent => cases hneeds
  | acked hrest =>
      obtain rfl : bytes = [] := by
        by_contra hne
        cases hunread hne
      obtain ⟨⟨pending, h'⟩, hlt⟩ := h.right_waiting (by rw [hup]; rfl) env
      exact ⟨⟨_, _, h'⟩, hlt⟩
  | done => cases hneeds

/-- What comes in is dropped until nothing is left to be done. -/
theorem Drops.step (hids : x.IdsFit) (hlim : x.limit = 1) (hmore : 1 < x.total)
    (h : x.Drops n s) (hst : x.FakeStep s t) : x.Drops n t ∧ work t < work s := by
  obtain ⟨bytes, pending, h⟩ := h
  obtain ⟨hneeds, rfl⟩ | ⟨hneeds, rfl⟩ := Piped.step_iff.mp hst
  · exact h.left_step hids hlim hmore _ hneeds
  · exact h.right_step _ hneeds

variable (x) in
/-- All Flow Control frames of the receiver have been dropped: no second Consecutive Frame
was sent, nothing is reported and nothing delivered, and both processes wait for a frame. -/
structure WaitsDropped (n : UInt8) (s : FakeLink) : Prop where
  blocked : x.Blocked s.left
  handled : s.left.frames = n.toNat + 2
  deliveries : deliveries s.right.out = []
  left : s.left.stage = .receiving ∧ s.up = []
  right : s.right.stage = .receiving ∧ s.down = []

theorem Drops.final (h : x.Drops n s) (hfin : Final x.FakeStep s) : x.WaitsDropped n s := by
  obtain ⟨bytes, pending, hsndr, hrcvr, hup, hunread, hcount, -, -, hdeliveries⟩ := h
  obtain ⟨hl, hr⟩ := Piped.final_iff.mp hfin
  obtain ⟨⟨ctx, out, frames, canFrame, stage⟩, ⟨rctx, rout, rframes, rcanFrame, rstage⟩, down,
    up⟩ := s
  dsimp only at hsndr hrcvr hup hcount hl hr
  subst hup
  cases hsndr with
  | waiting hst =>
      dsimp only at hst
      subst hst
      simp [fakeCan] at hl
  | indicating hst =>
      dsimp only at hst
      subst hst
      cases hl
  | receiving hst hb =>
      dsimp only at hst
      subst hst
      cases hrcvr with
      | @sent f =>
          have hlen := f.length_wire
          rw [List.nil_append, Option.elim_some, hlen] at hl
          exact absurd hl (Nat.lt_irrefl 14)
      | acked => exact absurd hr (Nat.lt_irrefl 1)
      | done => exact ⟨hb, hcount, hdeliveries, ⟨rfl, rfl⟩, rfl, rfl⟩

end Step

end Exchange

end CanTp
