import CanTp.FakeCan.Alignment

/-!
# The pipes refine the link

Every state of the two processes is aligned with a state of the link that delivers every
frame once and in order, and every step of theirs is a turn of that link or the reading of
some bytes. The link is an idealization with three independent turns; over the pipes the
acknowledgements order them further.
-/

namespace CanTp

open Library

namespace Exchange

variable {x : Exchange} {l l' : Link} {acts : List Act} {node left right : FakeCanNode}
  {down up : List UInt8} {q u v : Nat}

/-- The sender transmits what a handler asks for, when all frames sent are confirmed. -/
theorem Aligned.of_sndr (hinv : x.acked.Inv l')
    (hleft : node.ctx = l'.sndr ∧ node.out = l'.sndrOut ∧ node.frames = l'.counters.answered)
    (hright : right.ctx = l'.rcvr ∧ right.out = l'.rcvrOut ∧
      right.frames = l'.counters.received)
    (hrcvr : x.RcvrStage l'.fcs.length v q l'.counters.received right.stage)
    (hout : l'.sndrOut = l.sndrOut ++ acts) (hrole : ∀ a ∈ acts, a.ofRcvr = false)
    (hq : l.sent.length = q) (hc : l'.counters.confirmed = q) (hu : u = l'.counters.answered)
    (hvu : v ≤ u) (hug : u ≤ l'.fcs.length) (hdown : down = if v < u then [ackByte] else [])
    (hup : up = if u < l'.fcs.length then x.fc.wire else []) :
    x.Aligned ⟨(node.transmit (acts.filterMap Act.fakeCanTx)).1, right,
      down ++ (node.transmit (acts.filterMap Act.fakeCanTx)).2, up⟩ l' q u v := by
  have hone : l'.sent.length ≤ l.sent.length + 1 := by
    rw [hinv.length_sent, hq, ← hc]
    exact x.halfDuplex.sent_le _ _
  obtain ⟨hnone, hlen⟩ | ⟨f, hsome, hlen, hget⟩ := sent_of_acts hinv hout hrole hone
  · rw [hnone, FakeCanNode.transmit_nil]
    refine ⟨hinv, hleft, hright, .receiving (by omega) hu, hrcvr, by omega, by omega, hvu, hug,
      ?_, ?_⟩
    · rw [if_neg (by omega : ¬ q < l'.sent.length), hdown]
    · rw [if_neg (by omega : ¬ l'.counters.confirmed < q), hup]
      rfl
  · rw [hsome, FakeCanNode.transmit_single]
    refine ⟨hinv, hleft, hright, .waiting (by omega) hu, hrcvr, by omega, by omega, hvu, hug,
      ?_, ?_⟩
    · rw [if_pos (by omega : q < l'.sent.length), hdown, wire_eq (hq ▸ hget)]
    · rw [if_neg (by omega : ¬ l'.counters.confirmed < q), hup]
      rfl

theorem Aligned.of_rcvr (hinv : x.acked.Inv l) (hinv' : x.acked.Inv l')
    (hleft : left.ctx = l'.sndr ∧ left.out = l'.sndrOut ∧ left.frames = l'.counters.answered)
    (hright : node.ctx = l'.rcvr ∧ node.out = l'.rcvrOut ∧
      node.frames = l'.counters.received)
    (hsndr : x.SndrStage l'.sent.length l'.counters.confirmed u l'.counters.answered left.stage)
    (hfcs : l'.fcs = l.fcs ++ (acts.filterMap Act.fcFrame).map fun g => (l'.counters.received, g))
    (hr : l'.counters.received = l.counters.received + 1)
    (hrole : ∀ a ∈ acts, a.onlySndr = false)
    (hu : l.fcs.length = u) (hv : u = v) (hq : q = l'.counters.received)
    (hcq : l'.counters.confirmed ≤ q) (hqn : q ≤ l'.sent.length)
    (hdown : down = if q < l'.sent.length then x.wire q else [])
    (hup : up = if l'.counters.confirmed < q then [ackByte] else []) :
    x.Aligned ⟨left, (node.transmit (acts.filterMap Act.fakeCanTx)).1, down,
      up ++ (node.transmit (acts.filterMap Act.fakeCanTx)).2⟩ l' q u v := by
  obtain ⟨hnone, hlen⟩ | ⟨hsome, hlen⟩ := fcs_of_acts hinv hinv' hfcs hr hrole
  · rw [hnone, FakeCanNode.transmit_nil]
    refine ⟨hinv', hleft, hright, hsndr, .receiving (by omega) hq, hcq, hqn, by omega, by omega,
      ?_, ?_⟩
    · rw [if_neg (by omega : ¬ v < u), hdown]
      rfl
    · rw [if_neg (by omega : ¬ u < l'.fcs.length), hup]
  · rw [hsome, FakeCanNode.transmit_single]
    refine ⟨hinv', hleft, hright, hsndr, .waiting (by omega) hq, hcq, hqn, by omega, by omega,
      ?_, ?_⟩
    · rw [if_neg (by omega : ¬ v < u), hdown]
      rfl
    · rw [if_pos (by omega : u < l'.fcs.length), hup]

theorem aligned_start (x : Exchange) : x.Aligned x.fakeStart x.acked.start 0 0 0 := by
  refine .of_sndr (l := { x.acked.start with sndrOut := [] }) (inv_start _) ⟨rfl, rfl, rfl⟩
    ⟨rfl, rfl, rfl⟩ (.receiving rfl rfl) rfl ?_ rfl rfl rfl (Nat.le_refl _) (Nat.le_refl _) rfl rfl
  exact (sndr_effect _ rfl).acts

/-! ### The bytes that are read -/

theorem SndrStage.sent_le {n c u a : Nat} {st : FakeCanStage} (h : x.SndrStage n c u a st) :
    c ≤ n ∧ n ≤ c + 1 ∧ a ≤ u := by
  cases h <;> omega

theorem RcvrStage.fcs_le {g v q r : Nat} {st : FakeCanStage} (h : x.RcvrStage g v q r st) :
    v ≤ g ∧ g ≤ v + 1 ∧ r ≤ q := by
  cases h <;> omega

theorem exists_frame (hinv : x.acked.Inv l) (hlt : q < l.sent.length) :
    ∃ f, x.frames[q]? = some f := by
  have hlen := x.acked.sent_le_length l.counters.confirmed l.counters.answered
  rw [← hinv.length_sent] at hlen
  exact ⟨_, List.getElem?_eq_getElem (hlt.trans_le hlen)⟩

section Read

variable {ctx : CantpRxtxStatus} {out : List Act} {frames : Nat} {canFrame : FakeCanPhy}
  {nb : Bool} {rest : List FakeCanTx} {f : CantpCanFrame}

theorem Aligned.left_receiving (hids : x.IdsFit)
    (h : x.Aligned ⟨⟨ctx, out, frames, canFrame, .receiving⟩, right, down, up⟩ l q u v)
    (hneeds : 14 ≤ up.length) :
    x.Aligned ⟨⟨ctx, out, frames, canFrame, .indicating (FakeCanPhy.ofList (up.take 14)).get⟩,
      right, down ++ [ackByte], up.drop 14⟩ l q (u + 1) v := by
  obtain ⟨hinv, hleft, hright, hsndr, hrcvr, hcq, hqn, hvu, hug, hdown, hup⟩ := h
  have hgv := hrcvr.fcs_le
  dsimp only at *
  cases hsndr with
  | receiving hn hu =>
      rw [if_neg (by omega), List.nil_append] at hup
      have hlt : u < l.fcs.length := by
        by_contra hge
        rw [if_neg hge] at hup
        rw [hup] at hneeds
        cases hneeds
      rw [if_neg (by omega), if_neg (by omega)] at hdown
      rw [if_pos hlt] at hup
      have hlen := x.fc.length_wire
      have htake : up.take 14 = x.fc.wire := by rw [hup, List.take_of_length_le hlen.le]
      have hdrop : up.drop 14 = [] := by rw [hup, List.drop_of_length_le hlen.le]
      rw [htake, hdrop, x.fc.get_wire hids.rcvr]
      refine ⟨hinv, hleft, hright, .indicating hn (by omega), hrcvr, hcq, hqn, by omega, hlt,
        ?_, ?_⟩
      · rw [if_pos (by omega), if_neg (by omega), hdown]
        rfl
      · rw [if_neg (by omega), if_neg (by omega)]
        rfl

theorem Aligned.right_receiving (hids : x.IdsFit)
    (h : x.Aligned ⟨left, ⟨ctx, out, frames, canFrame, .receiving⟩, down, up⟩ l q u v)
    (hneeds : 14 ≤ down.length) :
    x.Aligned ⟨left, ⟨ctx, out, frames, canFrame,
      .indicating (FakeCanPhy.ofList (down.take 14)).get⟩, down.drop 14, up ++ [ackByte]⟩
      l (q + 1) u v := by
  obtain ⟨hinv, hleft, hright, hsndr, hrcvr, hcq, hqn, hvu, hug, hdown, hup⟩ := h
  have hcn := hsndr.sent_le
  dsimp only at *
  cases hrcvr with
  | receiving hg hq =>
      rw [if_neg (by omega), List.nil_append] at hdown
      have hlt : q < l.sent.length := by
        by_contra hge
        rw [if_neg hge] at hdown
        rw [hdown] at hneeds
        cases hneeds
      obtain ⟨f, hf⟩ := exists_frame hinv hlt
      rw [if_neg (by omega), if_neg (by omega)] at hup
      rw [if_pos hlt, wire_eq hf] at hdown
      have hlen := f.length_wire
      have htake : down.take 14 = f.wire := by rw [hdown, List.take_of_length_le hlen.le]
      have hdrop : down.drop 14 = [] := by rw [hdown, List.drop_of_length_le hlen.le]
      rw [htake, hdrop, f.get_wire (id_of_frame hf ▸ hids.sndr)]
      refine ⟨hinv, hleft, hright, hsndr, .indicating hg (by omega) (hq ▸ hf), by omega, hlt,
        hvu, hug, ?_, ?_⟩
      · rw [if_neg (by omega), if_neg (by omega)]
        rfl
      · rw [if_pos (by omega), if_neg (by omega), hup]
        rfl

/-- The Flow Control frame that the sender has not answered yet finds it idle. -/
theorem Aligned.not_sending (h : x.Aligned ⟨left, right, down, up⟩ l q u v)
    (hlt : l.counters.answered < l.fcs.length) (hq : l.counters.confirmed = q) :
    l.sent.length ≠ l.counters.confirmed + 1 := by
  intro hn
  obtain ⟨⟨k, f⟩, hk⟩ : ∃ p, l.fcs[l.counters.answered]? = some p :=
    ⟨_, List.getElem?_eq_getElem hlt⟩
  have hget := (h.inv.getElem?_fcs hk).1
  have hle := x.halfDuplex.le_received (List.mem_of_getElem? hget)
  have hlt := x.halfDuplex.confirmed_lt (h.inv.length_sent.symm.trans hn) hget
  have hr := h.rcvr.fcs_le
  omega

/-- A sender that waits finds the acknowledgement of its frame at the head of the pipe. -/
theorem Aligned.up_cons (h : x.Aligned ⟨left, right, down, up⟩ l q u v)
    (hn : l.sent.length = l.counters.confirmed + 1) (hu : u = l.counters.answered)
    (hneeds : 1 ≤ up.length) :
    l.counters.confirmed < q ∧ up = ackByte :: if u < l.fcs.length then x.fc.wire else [] := by
  have hup := h.up_eq
  dsimp only at hup
  by_cases hcq : l.counters.confirmed < q
  · rw [if_pos hcq] at hup
    exact ⟨hcq, hup⟩
  · have hc := h.confirmed_le
    rw [if_neg hcq, List.nil_append] at hup
    by_cases hlt : u < l.fcs.length
    · exact absurd hn (h.not_sending (hu ▸ hlt) (by omega))
    · rw [if_neg hlt] at hup
      rw [hup] at hneeds
      cases hneeds

theorem Aligned.down_cons (h : x.Aligned ⟨left, right, down, up⟩ l q u v)
    (hg : l.fcs.length = v + 1) (hq : q = l.counters.received) (hneeds : 1 ≤ down.length) :
    v < u ∧ down = ackByte :: if q < l.sent.length then x.wire q else [] := by
  have hdown := h.down_eq
  dsimp only at hdown
  by_cases hvu : v < u
  · rw [if_pos hvu] at hdown
    exact ⟨hvu, hdown⟩
  · have hle := h.acked_le
    have hcn := h.sndr.sent_le
    have hcq := h.confirmed_le
    rw [if_neg hvu, List.nil_append] at hdown
    by_cases hlt : q < l.sent.length
    · exact absurd (by omega) (h.not_sending (by omega) (by omega))
    · rw [if_neg hlt] at hdown
      rw [hdown] at hneeds
      cases hneeds

theorem Aligned.right_waiting
    (h : x.Aligned ⟨left, ⟨ctx, out, frames, canFrame, .waiting nb rest⟩, down, up⟩ l q u v)
    (hneeds : 1 ≤ down.length) :
    nb = false ∧ rest = [] ∧
      x.Aligned ⟨left, ⟨ctx, out, frames, canFrame, .receiving⟩, down.drop 1, up ++ []⟩
        l q u (v + 1) := by
  obtain ⟨rfl, rfl, hg, hq⟩ : nb = false ∧ rest = [] ∧ l.fcs.length = v + 1 ∧
      q = l.counters.received := by
    have hrcvr := h.rcvr
    dsimp only at hrcvr
    cases hrcvr with
    | waiting hg hq => exact ⟨rfl, rfl, hg, hq⟩
  obtain ⟨hvu, hdown⟩ := h.down_cons hg hq hneeds
  refine ⟨rfl, rfl, h.inv, h.left, h.right, h.sndr, .receiving hg hq, h.confirmed_le,
    h.read_le, hvu, h.answered_le, ?_, (List.append_nil up).trans h.up_eq⟩
  have hug := h.answered_le
  rw [hdown, if_neg (by omega : ¬ v + 1 < u)]
  rfl

/-! ### The handlers -/

theorem Aligned.left_indicating
    (h : x.Aligned ⟨⟨ctx, out, frames, canFrame, .indicating f⟩, right, down, up⟩ l q u v) :
    ∃ l', x.acked.Step l l' ∧ x.Aligned
      (Piped.actLeft (fakeCan x.sndrEnv)
        ⟨⟨ctx, out, frames, canFrame, .indicating f⟩, right, down, up⟩) l' q u v := by
  obtain ⟨hinv, ⟨rfl, rfl, rfl⟩, hright, hsndr, hrcvr, hcq, hqn, hvu, hug, hdown, hup⟩ := h
  have hr := hrcvr.fcs_le
  dsimp only at *
  cases hsndr with
  | indicating hn hu =>
      rw [if_neg (by omega : ¬ q < l.sent.length), List.append_nil] at hdown
      rw [if_neg (by omega : ¬ l.counters.confirmed < q), List.nil_append] at hup
      obtain ⟨⟨k, g⟩, hk⟩ : ∃ p, l.fcs[l.counters.answered]? = some p :=
        ⟨_, List.getElem?_eq_getElem (by omega)⟩
      obtain ⟨hget, rfl⟩ := hinv.getElem?_fcs hk
      have hkr := x.halfDuplex.le_received (List.mem_of_getElem? hget)
      have hkc : k ≤ l.counters.confirmed := by omega
      have hc : l.counters.confirmed = q := by omega
      refine ⟨x.acked.answered l x.fc, ⟨.answer, ?_⟩, ?_⟩
      · rw [turn, hk]
        exact if_pos hkc
      · exact .of_sndr (hinv.answer hk hkc).1 ⟨rfl, rfl, rfl⟩ hright hrcvr rfl
          (answer_role x _ _) (hn.trans hc) hc hu hvu hug hdown hup

theorem Aligned.left_waiting
    (h : x.Aligned ⟨⟨ctx, out, frames, canFrame, .waiting nb rest⟩, right, down, up⟩ l q u v)
    (hneeds : 1 ≤ up.length) :
    ∃ l', x.acked.Step l l' ∧ x.Aligned
      (Piped.actLeft (fakeCan x.sndrEnv)
        ⟨⟨ctx, out, frames, canFrame, .waiting nb rest⟩, right, down, up⟩) l' q u v := by
  obtain ⟨rfl, rfl, hn, hu⟩ : nb = true ∧ rest = [] ∧
      l.sent.length = l.counters.confirmed + 1 ∧ u = l.counters.answered := by
    have hsndr := h.sndr
    dsimp only at hsndr
    cases hsndr with
    | waiting hn hu => exact ⟨rfl, rfl, hn, hu⟩
  obtain ⟨hcq, hcons⟩ := h.up_cons hn hu hneeds
  obtain ⟨hinv, ⟨rfl, rfl, rfl⟩, hright, hsndr, hrcvr, -, hqn, hvu, hug, hdown, hup⟩ := h
  have hneed : (fakeCan x.sndrEnv).needs
      ⟨l.sndr, l.sndrOut, l.counters.answered, canFrame, .waiting true []⟩ = 1 := rfl
  dsimp only at *
  rw [if_neg (by omega : ¬ q < l.sent.length), List.append_nil] at hdown
  have hlt : l.counters.confirmed < l.sent.length := by omega
  have hc : l.counters.confirmed + 1 = q := by omega
  refine ⟨confirmed l, ⟨.confirm, if_pos hlt⟩, ?_⟩
  have hrest : up.drop 1 = if u < l.fcs.length then x.fc.wire else [] := by
    rw [hcons]
    rfl
  have hact : (fakeCan x.sndrEnv).act
      ⟨l.sndr, l.sndrOut, l.counters.answered, canFrame, .waiting true []⟩ (up.take 1) = _ :=
    FakeCanNode.confirm_nil _
  simp only [Piped.actLeft, hneed, hact]
  exact .of_sndr (hinv.confirm hlt).1 ⟨rfl, rfl, rfl⟩ hright hrcvr rfl (confirm_role _)
    (hn.trans hc) hc hu hvu hug hdown hrest

theorem Aligned.right_indicating
    (h : x.Aligned ⟨left, ⟨ctx, out, frames, canFrame, .indicating f⟩, down, up⟩ l q u v) :
    ∃ l', x.acked.Step l l' ∧ x.Aligned
      (Piped.actRight (fakeCan x.rcvrEnv)
        ⟨left, ⟨ctx, out, frames, canFrame, .indicating f⟩, down, up⟩) l' q u v := by
  obtain ⟨hinv, hleft, ⟨rfl, rfl, rfl⟩, hsndr, hrcvr, hcq, hqn, hvu, hug, hdown, hup⟩ := h
  have hcn := hsndr.sent_le
  dsimp only at *
  cases hrcvr with
  | indicating hg hq hf =>
      rw [if_neg (by omega : ¬ v < u), List.nil_append] at hdown
      rw [if_neg (by omega : ¬ u < l.fcs.length), List.append_nil] at hup
      have hget : l.sent[l.counters.received]? = some f := by
        have hlt : l.counters.received < l.sent.length := by omega
        rw [List.getElem?_eq_getElem hlt, ← hf]
        exact (hinv.frame_of_sent (List.getElem?_eq_getElem hlt)).symm
      refine ⟨x.acked.delivered l f, ⟨.deliver, congrArg (Option.map _) hget⟩, ?_⟩
      exact .of_rcvr hinv (hinv.deliver hget).1 hleft ⟨rfl, rfl, rfl⟩ hsndr rfl rfl
        (fun a ha => (deliver_role hf _ _ (fun _ => Int.le_refl 0) a ha).1) (by omega) (by omega)
        hq hcq hqn hdown hup

end Read

/-! ### The simulation -/

variable {s t : FakeLink}

/-- The two processes are somewhere on the way to the link `l`. -/
def Related (x : Exchange) (s : FakeLink) (l : Link) : Prop := ∃ q u v, x.Aligned s l q u v

/-- How many readings a process can make before it calls a handler. -/
def readings : FakeCanStage → Nat
  | .waiting .. => 2
  | .receiving => 1
  | .indicating _ => 0

theorem Aligned.left_step (hids : x.IdsFit) (h : x.Aligned s l q u v)
    (hneeds : (fakeCan x.sndrEnv).needs s.left ≤ s.up.length) :
    (∃ l', x.acked.Step l l' ∧ x.Related (s.actLeft (fakeCan x.sndrEnv)) l') ∨
      x.Related (s.actLeft (fakeCan x.sndrEnv)) l ∧
        readings (s.actLeft (fakeCan x.sndrEnv)).left.stage < readings s.left.stage := by
  obtain ⟨⟨ctx, out, frames, canFrame, stage⟩, right, down, up⟩ := s
  cases stage with
  | receiving => exact .inr ⟨⟨_, _, _, h.left_receiving hids hneeds⟩, Nat.zero_lt_one⟩
  | indicating f =>
      obtain ⟨l', hstep, h'⟩ := h.left_indicating
      exact .inl ⟨l', hstep, _, _, _, h'⟩
  | waiting nb rest =>
      obtain ⟨l', hstep, h'⟩ := h.left_waiting hneeds
      exact .inl ⟨l', hstep, _, _, _, h'⟩

theorem Aligned.right_step (hids : x.IdsFit) (h : x.Aligned s l q u v)
    (hneeds : (fakeCan x.rcvrEnv).needs s.right ≤ s.down.length) :
    (∃ l', x.acked.Step l l' ∧ x.Related (s.actRight (fakeCan x.rcvrEnv)) l') ∨
      x.Related (s.actRight (fakeCan x.rcvrEnv)) l ∧
        readings (s.actRight (fakeCan x.rcvrEnv)).right.stage < readings s.right.stage := by
  obtain ⟨left, ⟨ctx, out, frames, canFrame, stage⟩, down, up⟩ := s
  cases stage with
  | receiving => exact .inr ⟨⟨_, _, _, h.right_receiving hids hneeds⟩, Nat.zero_lt_one⟩
  | indicating f =>
      obtain ⟨l', hstep, h'⟩ := h.right_indicating
      exact .inl ⟨l', hstep, _, _, _, h'⟩
  | waiting nb rest =>
      obtain ⟨rfl, rfl, h'⟩ := h.right_waiting hneeds
      exact .inr ⟨⟨_, _, _, h'⟩, Nat.one_lt_two⟩

theorem needs_le (env : Nat → Env) (n : FakeCanNode) : (fakeCan env).needs n ≤ 14 := by
  obtain ⟨ctx, out, frames, canFrame, stage⟩ := n
  cases stage <;> simp [fakeCan]

theorem Aligned.down_blocked (h : x.Aligned s l q u v)
    (hlt : s.down.length < (fakeCan x.rcvrEnv).needs s.right) :
    q = l.sent.length ∧ (u = v ∨ 1 < (fakeCan x.rcvrEnv).needs s.right) := by
  have hlen := congrArg List.length h.down_eq
  rw [List.length_append] at hlen
  constructor
  · refine h.read_le.antisymm (not_lt.mp fun hq => ?_)
    obtain ⟨f, hf⟩ := exists_frame h.inv hq
    rw [if_pos hq, wire_eq hf, f.length_wire] at hlen
    have hneeds := needs_le x.rcvrEnv s.right
    omega
  · by_cases hvu : v < u
    · rw [if_pos hvu, List.length_singleton] at hlen
      exact .inr (by omega)
    · exact .inl (h.acked_le.antisymm (not_lt.mp hvu)).symm

theorem Aligned.up_blocked (h : x.Aligned s l q u v)
    (hlt : s.up.length < (fakeCan x.sndrEnv).needs s.left) :
    u = l.fcs.length ∧ (q = l.counters.confirmed ∨ 1 < (fakeCan x.sndrEnv).needs s.left) := by
  have hlen := congrArg List.length h.up_eq
  rw [List.length_append] at hlen
  constructor
  · refine h.answered_le.antisymm (not_lt.mp fun hu => ?_)
    rw [if_pos hu, CantpCanFrame.length_wire] at hlen
    have hneeds := needs_le x.sndrEnv s.left
    omega
  · by_cases hcq : l.counters.confirmed < q
    · rw [if_pos hcq, List.length_singleton] at hlen
      exact .inr (by omega)
    · exact .inl (h.confirmed_le.antisymm (not_lt.mp hcq)).symm

/-- Where both processes are blocked, the sender is back in `fake_can_rx_task`, and all
frames have been read, handled and confirmed. -/
theorem Aligned.counters_of_final (h : x.Aligned s l q u v) (hfin : Final x.FakeStep s) :
    s.left.stage = .receiving ∧ l.counters.received = l.sent.length ∧
      l.counters.confirmed = l.sent.length ∧ l.counters.answered = l.fcs.length := by
  obtain ⟨hup, hdown⟩ := Piped.final_iff.mp hfin
  obtain ⟨hu, hup'⟩ := h.up_blocked hup
  obtain ⟨hq, hdown'⟩ := h.down_blocked hdown
  obtain ⟨⟨ctxS, outS, framesS, canS, stageS⟩, ⟨ctxR, outR, framesR, canR, stageR⟩, down, up⟩ := s
  have hsndr := h.sndr
  have hrcvr := h.rcvr
  dsimp only at hsndr hrcvr
  cases hsndr with
  | receiving hn hua =>
      cases hrcvr with
      | receiving hg hqr => exact ⟨rfl, by omega, by omega, by omega⟩
      | indicating => exact absurd hdown (Nat.not_lt_zero _)
      | waiting hg hqr =>
          have huv := hdown'.resolve_right (Nat.lt_irrefl 1)
          omega
  | indicating => exact absurd hup (Nat.not_lt_zero _)
  | waiting hn hua =>
      have hqc := hup'.resolve_right (Nat.lt_irrefl 1)
      omega

theorem Aligned.final (h : x.Aligned s l q u v) (hfin : Final x.FakeStep s) :
    Final x.acked.Step l := by
  obtain ⟨-, hr, hc, ha⟩ := h.counters_of_final hfin
  rintro l' ⟨_ | _ | _, ht⟩
  · rw [turn, hr, List.getElem?_eq_none (Nat.le_refl _)] at ht
    cases ht
  · rw [turn, hc, if_neg (Nat.lt_irrefl _)] at ht
    cases ht
  · rw [turn, ha, List.getElem?_eq_none (Nat.le_refl _)] at ht
    cases ht

theorem fake_simulates (hids : x.IdsFit) : Simulates x.FakeStep x.acked.Step x.Related
    fun s => readings s.left.stage + readings s.right.stage where
  step := by
    rintro s l t ⟨q, u, v, h⟩ hst
    obtain ⟨hneeds, rfl⟩ | ⟨hneeds, rfl⟩ := Piped.step_iff.mp hst
    · exact (h.left_step hids hneeds).imp_right fun h' => ⟨h'.1, Nat.add_lt_add_right h'.2 _⟩
    · exact (h.right_step hids hneeds).imp_right fun h' => ⟨h'.1, Nat.add_lt_add_left h'.2 _⟩
  final := fun ⟨_, _, _, h⟩ hfin => h.final hfin

end Exchange

end CanTp
