import CanTp.Link.Delivery

/-!
# Block flow control

The two nodes agree on the end of the first block. There the sender enters
`CF_FC_WAIT`, a state in which it takes no Flow Control frame, so a message with more
Consecutive Frames than one block has is never completed.
-/

namespace CanTp

open Library

namespace Exchange

variable {x : Exchange} {l : Link}

/-- All bytes of the message are in the buffer of the receiver, and
`cantp_received_cb` was called. -/
def Stored (x : Exchange) (l : Link) : Prop :=
  (∃ d, deliveries l.rcvrOut = [d]) ∧
    ∃ buf, l.rcvr.rcvr.data = some buf ∧ buf.take x.msg.length = x.msg

/-- Block flow control works: a sender in `CF_FC_WAIT` with data left answers the next
Flow Control frame with the next frame of the message, every run ends with the message
stored, and the sender enters `CF_FC_WAIT` on the confirmation of those Consecutive
Frames that the receiver has answered. -/
structure BlocksComplete (x : Exchange) : Prop where
  resumes : ∀ l l', x.Reached l → l.sndr.sndr.state = .cfFcWait →
    0 < l.sndr.sndr.remaining → x.turn .answer l = some l' →
    ∃ f, x.frames[l.sent.length]? = some f ∧ l'.sent = l.sent ++ [f]
  completes : Ends x.Step x.start x.Stored
  agrees : ∀ l, x.Reached l → ∀ k, k ≤ l.counters.received → k ≤ l.counters.confirmed →
    (k ∈ l.waits ↔ 1 < k ∧ k ∈ l.fcs.map Prod.fst)

theorem limit_of_total_le (h : x.total ≤ x.blockSize) : x.limit = x.total :=
  if_neg fun hb => absurd hb.2 (not_lt.mpr h)

theorem phase_of_limit_eq (hlim : x.limit = x.total) (c a : Nat) :
    (x.phase c a).state ≠ .cfFcWait := by
  rw [phase, if_pos hlim]
  split_ifs <;> exact CantpState.noConfusion

theorem mem_waitsIn_iff (hlong : sfNumDataBytes < x.msg.length) {c a k : Nat} :
    k ∈ waitsIn (x.phase c a) ↔ 0 < a ∧ x.limit < c ∧ x.limit < x.total ∧ k = x.limit + 1 := by
  have hle := limit_le_total (x := x)
  rw [phase, if_neg (not_le.mpr hlong)]
  split_ifs <;> simp [waitsIn] <;> omega

/-- The two nodes agree on the end of the block, for every block size: the sender enters
`CF_FC_WAIT` on the confirmation of those Consecutive Frames that the receiver answers. -/
theorem blocks_agree (hlong : sfNumDataBytes < x.msg.length) (h : x.Reached l) {k : Nat}
    (hr : k ≤ l.counters.received) (hc : k ≤ l.counters.confirmed) :
    k ∈ l.waits ↔ 1 < k ∧ k ∈ l.fcs.map Prod.fst := by
  have hinv := inv_reached h
  have htags : l.fcs.map Prod.fst =
      Dialogue.flowAnswers x.total x.limit l.counters.received := by
    rw [hinv.rcvr.fcs_eq, answers_eq hlong, List.map_map]
    exact List.map_id _
  have hpos := limit_pos hlong
  have hsent := hinv.within.confirmed
  rw [sent_eq hlong] at hsent
  rw [hinv.sndr.waits_eq, mem_waitsIn_iff hlong, htags]
  constructor
  · rintro ⟨-, -, hlim, rfl⟩
    exact ⟨by omega, (Dialogue.mem_flowAnswers_iff (by omega)).mpr ⟨hlim, hr, rfl⟩⟩
  · rintro ⟨hone, hk⟩
    obtain ⟨hlim, -, rfl⟩ := (Dialogue.mem_flowAnswers_iff hone).mp hk
    -- Without an answer only the First Frame is confirmed.
    have ha : 0 < l.counters.answered := by
      apply Nat.pos_of_ne_zero
      intro hzero
      rw [if_pos hzero] at hsent
      omega
    exact ⟨ha, hc, hlim, rfl⟩

theorem total_le_of_blocksComplete (hlong : sfNumDataBytes < x.msg.length)
    (hbs : 0 < x.blockSize) (h : x.BlocksComplete) : x.total ≤ x.blockSize := by
  apply not_lt.mp
  intro hlt
  have hlim : x.limit = x.blockSize := if_pos ⟨hbs, hlt⟩
  obtain ⟨l, hreached, hfin⟩ := x.exists_final
  have hinv := inv_reached hreached
  have hnone := hinv.rcvr.deliveries
  rw [length_frames hlong, (hinv.final_segmented hfin hlong).1, hlim,
    if_pos (Nat.succ_lt_succ hlt)] at hnone
  obtain ⟨⟨d, hd⟩, -⟩ := h.completes.final l hreached hfin
  rw [hnone] at hd
  cases hd

theorem Inv.stored (h : x.Inv l) (hfin : Final x.Step l)
    (hlong : sfNumDataBytes < x.msg.length) (hlim : x.limit = x.total) : x.Stored l := by
  have hr := (h.final_segmented hfin hlong).1
  rw [hlim] at hr
  obtain ⟨d, hd, -⟩ := h.delivered (by rw [length_frames hlong, hr])
  have hstage := h.rcvr.stage
  rw [hr] at hstage
  have hcomplete := hstage hlong
  rw [if_neg (Nat.lt_irrefl _)] at hcomplete
  obtain ⟨buf, hbuf, -, htake⟩ := hcomplete.holds
  exact ⟨⟨d, hd⟩, buf, hbuf, by rw [htake, List.take_length]⟩

/-- Block flow control works exactly for the messages whose Consecutive Frames fit into
one block. -/
theorem blocks_complete_iff (x : Exchange) (hlong : sfNumDataBytes < x.msg.length)
    (hbs : 0 < x.rcvrParams.blockSize) :
    x.BlocksComplete ↔ numCfs x.msg.length ≤ x.rcvrParams.blockSize.toNat := by
  have hpos : 0 < x.blockSize := UInt8.lt_iff_toNat_lt.mp hbs
  constructor
  · exact total_le_of_blocksComplete hlong hpos
  · intro hle
    have hlim : x.limit = x.total := limit_of_total_le hle
    constructor
    · intro l _ hl hst
      have hstate := (inv_reached hl).sndr.phase.state_eq
      exact absurd (hstate.symm.trans hst) (phase_of_limit_eq hlim _ _)
    · apply ends
      intro l hinv hfin
      exact hinv.stored hfin hlong hlim
    · intro l hl k hr hc
      exact blocks_agree hlong hl hr hc

/-- Twenty bytes, whose two Consecutive Frames fit into a block of eight. -/
theorem blocks_complete_twenty :
    (accepting (List.replicate 20 7) 8 (by decide)).BlocksComplete :=
  (blocks_complete_iff _ (by decide) (by decide)).mpr (by decide)

/-- Twenty bytes in blocks of one frame: the FC.CTS after the first Consecutive Frame
comes in at a sender in `CF_FC_WAIT`, which hands over no frame. -/
theorem not_blocks_complete :
    ¬ (accepting (List.replicate 20 7) 1 (by decide)).BlocksComplete := fun h => by
  let x := accepting (List.replicate 20 7) 1 (by decide)
  let ts : List Turn := [.deliver, .confirm, .answer, .deliver, .confirm]
  let l := (x.runTurns ts x.start).getD x.start
  have hrun : x.runTurns ts x.start = some l := by decide
  obtain ⟨f, -, hsent⟩ := h.resumes l ((x.turn .answer l).getD l)
    (reached_runTurns .refl hrun) (by decide) (by decide) (by decide)
  have hlen := congrArg List.length hsent
  rw [List.length_append, List.length_singleton] at hlen
  exact absurd hlen (by decide)

end Exchange

end CanTp
