import CanTp.Link.Runs
import CanTp.Library.Simulation

/-!
# The turns of the link commute

A frame is delivered without regard to what happens at the sender, and a Flow Control
frame comes in only while no frame of the sender waits for its confirmation. So two turns
that are possible at one moment can be taken in both orders.
-/

namespace CanTp

open Library

namespace Exchange

variable {x : Exchange} {l t u : Link}

theorem halfDuplex (x : Exchange) : x.dialogue.HalfDuplex := by
  rw [dialogue]
  split
  · exact Dialogue.halfDuplex_single
  · rename_i hlong
    exact Dialogue.halfDuplex_flow _ (limit_pos (not_le.mp hlong))

theorem getElem?_append_of_eq_some {α : Type*} {xs ys : List α} {i : Nat} {a : α}
    (h : xs[i]? = some a) : (xs ++ ys)[i]? = some a := by
  rw [List.getElem?_append_left (List.getElem?_eq_some_iff.mp h).1, h]

theorem deliver_confirm (ht : x.turn .deliver l = some t) (hu : x.turn .confirm l = some u) :
    ∃ v, x.turn .confirm t = some v ∧ x.turn .deliver u = some v := by
  obtain ⟨f, hget, rfl⟩ := Option.map_eq_some_iff.mp ht
  obtain ⟨hlt, heq⟩ := Option.ite_none_right_eq_some.mp hu
  obtain rfl := Option.some.inj heq
  have hsent : (confirmed l).sent[(confirmed l).counters.received]? = some f := by
    rw [Link.sent, confirmed, List.filterMap_append]
    exact getElem?_append_of_eq_some hget
  exact ⟨confirmed (x.delivered l f), if_pos hlt, Option.map_eq_some_iff.mpr ⟨f, hsent, rfl⟩⟩

theorem deliver_answer (ht : x.turn .deliver l = some t) (hu : x.turn .answer l = some u) :
    ∃ v, x.turn .answer t = some v ∧ x.turn .deliver u = some v := by
  obtain ⟨f, hget, rfl⟩ := Option.map_eq_some_iff.mp ht
  rw [turn] at hu
  split at hu
  · rename_i n g hfc
    obtain ⟨hle, heq⟩ := Option.ite_none_right_eq_some.mp hu
    obtain rfl := Option.some.inj heq
    have hsent : (x.answered l g).sent[(x.answered l g).counters.received]? = some f := by
      rw [Link.sent, answered, List.filterMap_append]
      exact getElem?_append_of_eq_some hget
    have hfcs : (x.delivered l f).fcs[(x.delivered l f).counters.answered]? = some (n, g) := by
      rw [delivered]
      exact getElem?_append_of_eq_some hfc
    refine ⟨x.answered (x.delivered l f) g, ?_, Option.map_eq_some_iff.mpr ⟨f, hsent, rfl⟩⟩
    rw [turn, hfcs]
    exact if_pos hle
  · cases hu

/-- While a frame waits for its confirmation no Flow Control frame comes in. -/
theorem Inv.not_answer (h : x.Inv l) (ht : x.turn .confirm l = some t) :
    x.turn .answer l = none := by
  have hlt := (Option.ite_none_right_eq_some.mp ht).1
  have hle := x.halfDuplex.sent_le l.counters.confirmed l.counters.answered
  rw [h.length_sent] at hlt
  rw [turn]
  split
  · rename_i n f hget
    have hbefore := x.halfDuplex.confirmed_lt (le_antisymm hle hlt) (h.getElem?_fcs hget).1
    exact if_neg (not_le.mpr hbefore)
  · rfl

/-- Two turns that are possible in one state can be taken in both orders. -/
theorem commutes (x : Exchange) : Commutes x.Step x.Inv where
  keeps h hst := (x.refines.step _ _ h hst).1
  diamond {l t u} h := by
    rintro ⟨a, ht⟩ ⟨b, hu⟩
    have apart : ∀ {p q}, x.turn .confirm l = some p → x.turn .answer l = some q → False :=
      fun hp hq => by rw [h.not_answer hp] at hq; cases hq
    by_cases hab : a = b
    · obtain rfl := hab
      exact .inl (Option.some.inj (ht.symm.trans hu))
    refine .inr ?_
    cases a <;> cases b <;> first | exact absurd rfl hab | skip
    case deliver.confirm =>
      obtain ⟨v, htv, huv⟩ := deliver_confirm ht hu
      exact ⟨v, ⟨_, htv⟩, ⟨_, huv⟩⟩
    case deliver.answer =>
      obtain ⟨v, htv, huv⟩ := deliver_answer ht hu
      exact ⟨v, ⟨_, htv⟩, ⟨_, huv⟩⟩
    case confirm.deliver =>
      obtain ⟨v, huv, htv⟩ := deliver_confirm hu ht
      exact ⟨v, ⟨_, htv⟩, ⟨_, huv⟩⟩
    case answer.deliver =>
      obtain ⟨v, huv, htv⟩ := deliver_answer hu ht
      exact ⟨v, ⟨_, htv⟩, ⟨_, huv⟩⟩
    case confirm.answer => exact (apart ht hu).elim
    case answer.confirm => exact (apart hu ht).elim

end Exchange

end CanTp
