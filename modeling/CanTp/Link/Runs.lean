import CanTp.Link.Receiver

/-!
# The runs of an exchange

Together the two nodes do what the counts of their dialogue say: every turn of the link
is a step of the dialogue, and the link stops only where the dialogue does. So every run
ends, and `Inv.final` says where.
-/

namespace CanTp

open Library

namespace Exchange

/-- Both nodes are where the counters of the link have led them. -/
structure Inv (x : Exchange) (l : Link) : Prop where
  within : x.dialogue.Within l.counters
  sndr : x.SndrAt l.counters.confirmed l.counters.answered l.sndr l.sndrOut l.waits
  rcvr : x.RcvrAt l.counters.received l.rcvr l.rcvrOut l.fcs

variable {x : Exchange} {l l' : Link}

theorem inv_start (x : Exchange) : x.Inv x.start :=
  ⟨x.dialogue.within_start, sndrAt_start x, rcvrAt_start x⟩

theorem sent_le_length (x : Exchange) (c a : Nat) :
    x.dialogue.sent c a ≤ x.frames.length := by
  by_cases hlong : sfNumDataBytes < x.msg.length
  · have hlim := limit_le_total (x := x)
    rw [length_frames hlong, dialogue_eq hlong]
    exact ((Dialogue.flow x.total x.limit).sent_le c a).trans (Nat.succ_le_succ hlim)
  · have hshort := not_lt.mp hlong
    rw [dialogue, if_pos hshort, frames, canonicalFrames, if_pos hshort]
    exact Nat.le_refl 1

theorem Inv.length_sent (h : x.Inv l) :
    l.sent.length = x.dialogue.sent l.counters.confirmed l.counters.answered := by
  rw [Link.sent, h.sndr.sent, List.length_take, Nat.min_eq_left (x.sent_le_length _ _)]

theorem Inv.opened (h : x.Inv l) (ha : 0 < l.counters.answered) :
    0 < l.counters.confirmed := by
  have hwithin := h.within
  by_cases hlong : sfNumDataBytes < x.msg.length
  · rw [dialogue_eq hlong] at hwithin
    exact (hwithin.flow_opened ha).2
  · have hanswered := hwithin.answered
    rw [dialogue, if_pos (not_lt.mp hlong)] at hanswered
    exact absurd ha (not_lt.mpr hanswered)

theorem Inv.getElem?_fcs (h : x.Inv l) {i n : Nat} {f : CantpCanFrame}
    (hget : l.fcs[i]? = some (n, f)) :
    (x.dialogue.answers l.counters.received)[i]? = some n ∧ f = x.fc := by
  rw [h.rcvr.fcs_eq, List.getElem?_map] at hget
  obtain ⟨k, hk, heq⟩ := Option.map_eq_some_iff.mp hget
  obtain ⟨rfl, rfl⟩ := Prod.mk.inj heq
  exact ⟨hk, rfl⟩

theorem Inv.deliver (h : x.Inv l) {f : CantpCanFrame}
    (hget : l.sent[l.counters.received]? = some f) :
    x.Inv (x.delivered l f) ∧ x.dialogue.Step l.counters (x.delivered l f).counters := by
  have hlt := (List.getElem?_eq_some_iff.mp hget).1
  rw [h.length_sent] at hlt
  rw [Link.sent, h.sndr.sent, List.getElem?_take, if_pos hlt] at hget
  have hstep : x.dialogue.Step l.counters (x.delivered l f).counters := .deliver hlt
  exact ⟨⟨h.within.step hstep, h.sndr, h.rcvr.deliver hlt hget⟩, hstep⟩

theorem Inv.confirm (h : x.Inv l) (hlt : l.counters.confirmed < l.sent.length) :
    x.Inv (confirmed l) ∧ x.dialogue.Step l.counters (confirmed l).counters := by
  rw [h.length_sent] at hlt
  have hstep : x.dialogue.Step l.counters (confirmed l).counters := .confirm hlt
  obtain ⟨hmoves, hp⟩ := h.sndr.confirm hlt h.opened
  obtain ⟨hne, hnil, hwaits⟩ := waitsIn_confirm hlt h.opened
  have hrecord : (confirmed l).waits =
      waitsIn (x.phase (l.counters.confirmed + 1) l.counters.answered) := by
    have hbefore := h.sndr.phase.state_eq
    have hafter := hmoves.phase.state_eq
    simp only [confirmed, h.sndr.waits_eq, hwaits, hnil, hbefore, hafter, ne_eq, hne,
      not_false_eq_true, true_and, List.nil_append]
  exact ⟨⟨h.within.step hstep, h.sndr.moves hmoves hp hrecord, h.rcvr⟩, hstep⟩

theorem Inv.answer (h : x.Inv l) {n : Nat} {f : CantpCanFrame}
    (hget : l.fcs[l.counters.answered]? = some (n, f)) (hle : n ≤ l.counters.confirmed) :
    x.Inv (x.answered l f) ∧ x.dialogue.Step l.counters (x.answered l f).counters := by
  obtain ⟨hn, rfl⟩ := h.getElem?_fcs hget
  have hstep : x.dialogue.Step l.counters (x.answered l x.fc).counters := .answer hn hle
  exact ⟨⟨h.within.step hstep, h.sndr.answer _ hn hle h.within.confirmed, h.rcvr⟩, hstep⟩

theorem refines (x : Exchange) :
    Refines x.Step x.dialogue.Step Link.counters x.Inv where
  step l l' h := by
    rintro ⟨t, ht⟩
    cases t with
    | deliver =>
        obtain ⟨f, hget, rfl⟩ := Option.map_eq_some_iff.mp ht
        exact h.deliver hget
    | confirm =>
        rw [turn] at ht
        split at ht
        · rename_i hlt
          obtain rfl := Option.some.inj ht
          exact h.confirm hlt
        · cases ht
    | answer =>
        rw [turn] at ht
        split at ht
        · rename_i n f hget
          split at ht
          · rename_i hle
            obtain rfl := Option.some.inj ht
            exact h.answer hget hle
          · cases ht
        · cases ht
  final l h hfin s hs := by
    cases hs with
    | deliver hlt =>
        rw [← h.length_sent] at hlt
        exact hfin _ ⟨.deliver, congrArg (Option.map _) (List.getElem?_eq_getElem hlt)⟩
    | confirm hlt =>
        rw [← h.length_sent] at hlt
        exact hfin _ ⟨.confirm, if_pos hlt⟩
    | @answer k hget hle =>
        have hfcs : l.fcs[l.counters.answered]? = some (k, x.fc) := by
          rw [h.rcvr.fcs_eq, List.getElem?_map, hget]
          rfl
        refine hfin (x.answered l x.fc) ⟨.answer, ?_⟩
        rw [turn, hfcs]
        exact if_pos hle

theorem counts (x : Exchange) :
    ∃ m bound, Counts x.Step (fun l => x.Inv l ∧ x.dialogue.Within l.counters) m bound :=
  ⟨_, _, x.refines.counts x.dialogue.counts⟩

theorem inv_reached (h : x.Reached l) : x.Inv l :=
  invariant (fun _ _ hi hs => (x.refines.step _ _ hi hs).1) (inv_start x) h

/-- Every run ends, with the property of the final states. -/
theorem ends {P : Link → Prop} (hP : ∀ l, x.Inv l → Final x.Step l → P l) :
    Ends x.Step x.start P := by
  obtain ⟨m, bound, hcounts⟩ := x.counts
  exact hcounts.ends ⟨inv_start x, x.dialogue.within_start⟩ fun l h hfin => hP l h.1 hfin

theorem exists_final (x : Exchange) : ∃ l, x.Reached l ∧ Final x.Step l := by
  obtain ⟨m, bound, hcounts⟩ := x.counts
  exact hcounts.exists_final ⟨inv_start x, x.dialogue.within_start⟩

theorem Inv.final_segmented (h : x.Inv l) (hfin : Final x.Step l)
    (hlong : sfNumDataBytes < x.msg.length) :
    l.counters.received = x.limit + 1 ∧ l.counters.confirmed = x.limit + 1 ∧
      0 < l.counters.answered := by
  have hwithin := h.within
  have hstop := x.refines.final l h hfin
  rw [dialogue_eq hlong] at hwithin hstop
  exact hwithin.flow_final hstop

theorem Inv.final_single (h : x.Inv l) (hfin : Final x.Step l)
    (hshort : x.msg.length ≤ sfNumDataBytes) :
    l.counters.received = 1 ∧ l.counters.confirmed = 1 := by
  have hwithin := h.within
  have hstop := x.refines.final l h hfin
  rw [dialogue, if_pos hshort] at hwithin hstop
  obtain ⟨hr, hc, -⟩ := hwithin.final hstop
  exact ⟨hr, hc⟩

end Exchange

end CanTp
