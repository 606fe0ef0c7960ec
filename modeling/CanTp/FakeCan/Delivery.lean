import CanTp.FakeCan.Refinement
import CanTp.Link.Blocks

/-!
# End-to-end delivery over the pipes

What the two processes of the test come to, in every order of their steps. Each run ends,
all runs end in the same state, and there the message has been delivered if it has no more
than 255 bytes and the receiver asks for no blocks.
-/

namespace CanTp

open Library

namespace Exchange

variable {x : Exchange} {s : FakeLink} {l : Link}

/-- The message has been transferred between the two processes: as `Transferred`. -/
structure FakeTransferred (x : Exchange) (s : FakeLink) : Prop where
  received : ∃ d buf, deliveries s.right.out = [d] ∧ d.len.toNat = x.msg.length ∧
    d.data = some buf ∧ buf.take d.len.toNat = x.msg
  idle : s.left.ctx.sndr.state = .idle
  reports : reportsMade s.left.out = [x.success]

/-- All bytes of the message are in the buffer of the receiving process, and
`cantp_received_cb` was called. -/
def FakeStored (x : Exchange) (s : FakeLink) : Prop :=
  (∃ d, deliveries s.right.out = [d]) ∧
    ∃ buf, s.right.ctx.rcvr.data = some buf ∧ buf.take x.msg.length = x.msg

/-- The two processes have the contexts of the link, and have made its calls. -/
structure Agrees (s : FakeLink) (l : Link) : Prop where
  sndr : s.left.ctx = l.sndr
  sndrOut : s.left.out = l.sndrOut
  rcvr : s.right.ctx = l.rcvr
  rcvrOut : s.right.out = l.rcvrOut

theorem Related.agrees (h : x.Related s l) : Agrees s l := by
  obtain ⟨q, u, v, h⟩ := h
  exact ⟨h.left.1, h.left.2.1, h.right.1, h.right.2.1⟩

/-- What holds at the ends of the runs of the link holds where the processes stop. -/
theorem fake_ends (hids : x.IdsFit) {P : FakeLink → Prop}
    (hP : ∀ s l, Agrees s l → x.acked.Inv l → Final x.acked.Step l → P s) :
    Ends x.FakeStep x.fakeStart P := by
  have hlink : Ends x.acked.Step x.acked.start
      fun l => x.acked.Inv l ∧ Final x.acked.Step l := ends fun l hinv hfin => ⟨hinv, hfin⟩
  exact (fake_simulates hids).ends hlink ⟨_, _, _, aligned_start x⟩
    fun hrel hl => hP _ _ hrel.agrees hl.1 hl.2

theorem fake_acc (hids : x.IdsFit) : Acc (flip x.FakeStep) x.fakeStart :=
  acc_iff_finite.mpr (fake_ends (P := fun _ => True) hids fun _ _ _ _ _ => trivial).finite

theorem fake_stops (x : Exchange) (hids : x.IdsFit) :
    ∃ s, x.FakeReached s ∧ Final x.FakeStep s :=
  exists_final_of_acc (fake_acc hids)

/-- The two processes refine the link: whatever the order of their steps, they make the
calls that two nodes make on a link that delivers every frame once and in order. -/
theorem fake_refines (hids : x.IdsFit) (h : x.FakeReached s) :
    ∃ l, x.acked.Reached l ∧ Agrees s l := by
  obtain ⟨l, hl, hrel⟩ := (fake_simulates hids).reached ⟨_, _, _, aligned_start x⟩ h
  exact ⟨l, hl, hrel.agrees⟩

/-- Twenty bytes in two blocks, from the call of `cantp_send` on. -/
theorem fake_refines_twenty :
    let x := accepting (List.replicate 20 7) 1 (by decide)
    ∃ s, Final x.FakeStep s ∧ ∃ l, x.acked.Reached l ∧ Agrees s l := by
  intro x
  have hids : x.IdsFit := ⟨by decide, by decide⟩
  obtain ⟨s, hs, hfin⟩ := x.fake_stops hids
  exact ⟨s, hfin, fake_refines hids hs⟩

/-- An acknowledgement or nothing, and behind it a frame with `P` or nothing. -/
def AckThenFrame (P : CantpCanFrame → Prop) (bytes : List UInt8) : Prop :=
  ∃ ack rest, bytes = ack ++ rest ∧ (ack = [] ∨ ack = [ackByte]) ∧
    (rest = [] ∨ ∃ f, P f ∧ rest = f.wire)

/-- What a process finds in its pipe, and all that is in it. Nothing is taken for something
else, and no pipe ever holds more than one acknowledgement and, behind it, one frame. -/
structure Framed (x : Exchange) (s : FakeLink) : Prop where
  left_receiving : s.left.stage = .receiving → s.up = [] ∨ s.up = x.fc.wire
  left_waiting : ∀ nb rest, s.left.stage = .waiting nb rest → ∀ b ∈ s.up.head?, b = ackByte
  right_receiving : s.right.stage = .receiving →
    s.down = [] ∨ ∃ f, x.frames[s.right.frames]? = some f ∧ s.down = f.wire
  right_waiting : ∀ nb rest, s.right.stage = .waiting nb rest →
    ∀ b ∈ s.down.head?, b = ackByte
  down : AckThenFrame (· ∈ x.frames) s.down
  up : AckThenFrame (· = x.fc) s.up

theorem Aligned.contents {q u v : Nat} (h : x.Aligned s l q u v) :
    AckThenFrame (· ∈ x.frames) s.down ∧ AckThenFrame (· = x.fc) s.up := by
  have hack : ∀ p : Prop, [Decidable p] →
      (if p then [ackByte] else []) = [] ∨ (if p then [ackByte] else []) = [ackByte] :=
    fun p _ => (ite_eq_or_eq p _ _).symm
  refine ⟨⟨_, _, h.down_eq, hack _, ?_⟩, ⟨_, _, h.up_eq, hack _, ?_⟩⟩
  · split
    · rename_i hlt
      obtain ⟨f, hf⟩ := exists_frame h.inv hlt
      exact .inr ⟨f, List.mem_of_getElem? hf, wire_eq hf⟩
    · exact .inl rfl
  · split
    · exact .inr ⟨_, rfl, rfl⟩
    · exact .inl rfl

theorem Aligned.framed {q u v : Nat} (h : x.Aligned s l q u v) : x.Framed s := by
  have hsndr := h.sndr
  have hrcvr := h.rcvr
  have hcq := h.confirmed_le
  have hqn := h.read_le
  have hvu := h.acked_le
  have hug := h.answered_le
  refine ⟨fun hst => ?_, fun nb rest hst b hb => ?_, fun hst => ?_, fun nb rest hst b hb => ?_,
    h.contents.1, h.contents.2⟩
  · rw [hst] at hsndr
    cases hsndr with
    | receiving hn hu =>
        rw [h.up_eq, if_neg (by omega), List.nil_append]
        split
        · exact .inr rfl
        · exact .inl rfl
  · rw [hst] at hsndr
    cases hsndr with
    | waiting hn hu =>
        rw [(h.up_cons hn hu (List.length_pos_of_mem (List.mem_of_mem_head? hb))).2] at hb
        exact (Option.some.inj hb).symm
  · rw [hst] at hrcvr
    cases hrcvr with
    | receiving hg hq =>
        rw [h.down_eq, if_neg (by omega), List.nil_append]
        split
        · rename_i hlt
          obtain ⟨f, hf⟩ := exists_frame h.inv hlt
          rw [h.right.2.2, ← hq]
          exact .inr ⟨f, hf, wire_eq hf⟩
        · exact .inl rfl
  · rw [hst] at hrcvr
    cases hrcvr with
    | waiting hg hq =>
        rw [(h.down_cons hg hq (List.length_pos_of_mem (List.mem_of_mem_head? hb))).2] at hb
        exact (Option.some.inj hb).symm

/-- Neither process ever takes a byte for what it is not. -/
theorem framed_of_reached (hids : x.IdsFit) (h : x.FakeReached s) : x.Framed s := by
  obtain ⟨l, -, q, u, v, hrel⟩ := (fake_simulates hids).reached ⟨_, _, _, aligned_start x⟩ h
  exact hrel.framed

/-- Twenty bytes in two blocks, to the end of a run. -/
theorem framed_twenty :
    let x := accepting (List.replicate 20 7) 1 (by decide)
    ∃ s, Final x.FakeStep s ∧ x.Framed s := by
  intro x
  have hids : x.IdsFit := ⟨by decide, by decide⟩
  obtain ⟨s, hs, hfin⟩ := x.fake_stops hids
  exact ⟨s, hfin, framed_of_reached hids hs⟩

/-! ### One outcome -/

/-- In every order of its turns the link comes to the same end, and so do the two processes
in every order of their steps: with the contexts and the calls of that end. -/
theorem fake_outcome (x : Exchange) (hids : x.IdsFit) :
    ∃ l t, Ends x.acked.Step x.acked.start (· = l) ∧ Ends x.FakeStep x.fakeStart (· = t) ∧
      Agrees t l := by
  obtain ⟨l, hl, hfin⟩ := x.acked.exists_final
  have hlink := x.acked.commutes.ends (inv_start _) hl hfin
  have hfake : Ends x.FakeStep x.fakeStart (Agrees · l) :=
    (fake_simulates hids).ends hlink ⟨_, _, _, aligned_start x⟩
      fun hrel heq => heq ▸ hrel.agrees
  obtain ⟨t, ht, htfin⟩ := hfake.exists_final
  exact ⟨l, t, hlink, (Piped.commutes _ _).ends trivial ht htfin, hfake.final t ht htfin⟩

/-- Twenty bytes in blocks of one frame, which stop after the first block. -/
theorem fake_outcome_twenty :
    let x := accepting (List.replicate 20 7) 1 (by decide)
    ∃ l t, Ends x.acked.Step x.acked.start (· = l) ∧ Ends x.FakeStep x.fakeStart (· = t) ∧
      Agrees t l :=
  fake_outcome _ ⟨by decide, by decide⟩

/-! ### Delivery -/

theorem Inv.transferred_iff_length (h : x.Inv l) (hfin : Final x.Step l)
    (hbs : x.rcvrParams.blockSize = 0) : x.Transferred l ↔ x.msg.length ≤ 255 := by
  obtain ⟨hr, hidle⟩ := h.final_of_blockSize_zero hfin hbs
  obtain ⟨d, hd, hlen, buf, hbuf, htake⟩ := h.delivered hr
  have hmod : d.len.toNat = x.msg.length % 256 := by rw [hlen, UInt8.toNat_ofNat']
  constructor
  · rintro ⟨⟨d', buf', hd', hlen', -⟩, -, -⟩
    obtain rfl := List.singleton_inj.mp (hd.symm.trans hd')
    omega
  · intro hle
    have htoNat : d.len.toNat = x.msg.length := by omega
    refine ⟨⟨d, buf, hd, htoNat, hbuf, by rw [htoNat, htake]⟩, ?_, ?_⟩
    · rw [h.sndr.phase.state_eq, hidle]
      rfl
    · rw [h.sndr.reports, hidle, if_pos rfl]

theorem Agrees.fakeTransferred_iff (h : Agrees s l) :
    x.FakeTransferred s ↔ x.acked.Transferred l := by
  obtain ⟨hsndr, hsout, -, hrout⟩ := h
  constructor
  · rintro ⟨hr, hi, hp⟩
    exact ⟨hrout ▸ hr, hsndr ▸ hi, hsout ▸ hp⟩
  · rintro ⟨hr, hi, hp⟩
    exact ⟨hrout ▸ hr, hsndr ▸ hi, hsout ▸ hp⟩

theorem Inv.stored_iff (h : x.Inv l) (hfin : Final x.Step l) (hlong : sfNumDataBytes < x.msg.length)
    (hbs : 0 < x.blockSize) : x.Stored l ↔ x.total ≤ x.blockSize := by
  constructor
  · intro hstored
    apply not_lt.mp
    intro hlt
    have hlim : x.limit = x.blockSize := if_pos ⟨hbs, hlt⟩
    have hnone := h.rcvr.deliveries
    rw [length_frames hlong, (h.final_segmented hfin hlong).1, hlim,
      if_pos (Nat.succ_lt_succ hlt)] at hnone
    obtain ⟨⟨d, hd⟩, -⟩ := hstored
    rw [hnone] at hd
    cases hd
  · intro hle
    exact h.stored hfin hlong (limit_of_total_le hle)

theorem Agrees.fakeStored_iff (h : Agrees s l) : x.FakeStored s ↔ x.acked.Stored l := by
  rw [FakeStored, h.rcvr, h.rcvrOut]
  rfl

/-- What the ends of the runs of the link decide, the ends of the runs over the pipes
decide. -/
theorem fake_ends_iff (hids : x.IdsFit) {P : FakeLink → Prop} {p : Prop}
    (hP : ∀ s l, Agrees s l → x.acked.Inv l → Final x.acked.Step l → (P s ↔ p)) :
    Ends x.FakeStep x.fakeStart P ↔ p := by
  have hends := fake_ends hids hP
  constructor
  · intro h
    obtain ⟨s, hreached, hfin⟩ := h.exists_final
    exact (hends.final s hreached hfin).mp (h.final s hreached hfin)
  · intro hp
    exact ⟨hends.finite, fun s hreached hfin => (hends.final s hreached hfin).mpr hp⟩

/-- Without block flow control a message is transferred between the two processes, in
every order of their steps, exactly if its length fits into the length argument of
`cantp_received_cb`. -/
theorem fake_transferred_iff (x : Exchange) (hids : x.IdsFit)
    (hbs : x.rcvrParams.blockSize = 0) :
    Ends x.FakeStep x.fakeStart x.FakeTransferred ↔ x.msg.length ≤ 255 :=
  fake_ends_iff hids fun _ _ hag hinv hfin =>
    hag.fakeTransferred_iff.trans (hinv.transferred_iff_length hfin hbs)

/-- Twenty bytes, in a First Frame and two Consecutive Frames. -/
theorem fake_transferred_twenty :
    let x := accepting (List.replicate 20 7) 0 (by decide)
    Ends x.FakeStep x.fakeStart x.FakeTransferred :=
  (fake_transferred_iff _ ⟨by decide, by decide⟩ rfl).mpr (by decide)

theorem length_dataFrames_le (hids : x.IdsFit) (hlong : sfNumDataBytes < x.msg.length)
    (hbs : 0 < x.blockSize) (h : x.FakeReached s) :
    (s.left.out.filterMap Act.dataFrame).length ≤ x.blockSize + 1 := by
  obtain ⟨l, hl, hag⟩ := fake_refines hids h
  have hsent : l.sent.length = x.dialogue.sent l.counters.confirmed l.counters.answered :=
    (inv_reached hl).length_sent
  have hlim : x.limit ≤ x.blockSize := by
    rw [limit]
    split
    · exact Nat.le_refl _
    · omega
  rw [sent_eq hlong] at hsent
  rw [hag.sndrOut]
  change l.sent.length ≤ _
  rw [hsent]
  split <;> omega

/-- With block flow control the message is stored, in every order of the steps, exactly if
its Consecutive Frames fit into one block, and no second block is ever begun. -/
theorem fake_stored_iff (x : Exchange) (hids : x.IdsFit)
    (hlong : sfNumDataBytes < x.msg.length) (hbs : 0 < x.rcvrParams.blockSize) :
    (Ends x.FakeStep x.fakeStart x.FakeStored ↔
      numCfs x.msg.length ≤ x.rcvrParams.blockSize.toNat) ∧
    ∀ s, x.FakeReached s →
      (s.left.out.filterMap Act.dataFrame).length ≤ x.rcvrParams.blockSize.toNat + 1 := by
  have hpos : 0 < x.blockSize := UInt8.lt_iff_toNat_lt.mp hbs
  exact ⟨fake_ends_iff hids fun _ _ hag hinv hfin =>
    hag.fakeStored_iff.trans (hinv.stored_iff hfin hlong hpos),
    fun _ hs => length_dataFrames_le hids hlong hpos hs⟩

/-- Twenty bytes, whose two Consecutive Frames fit into a block of eight. -/
theorem fake_stored_twenty :
    let x := accepting (List.replicate 20 7) 8 (by decide)
    Ends x.FakeStep x.fakeStart x.FakeStored :=
  (fake_stored_iff _ ⟨by decide, by decide⟩ (by decide) (by decide)).1.mpr (by decide)

end Exchange

end CanTp
