import CanTp.Library.Transition
import Mathlib.Data.List.Infix
import Mathlib.Tactic.Common

/-!
# Counting a dialogue

Two parties joined by a link that neither loses nor reorders, as counts. A `Dialogue`
says how many frames the first party has handed over after a number of confirmations
and of answers, and which answers the second party has given to a number of received
frames; an answer is a number, that of the frames received when it was given. It comes
in only after that many frames have been confirmed.

`single` is a dialogue of one frame without answers. In `flow total limit` the answer to
an opening frame starts a stream of `total` frames, which the first party stops after
`limit` of them.
-/

namespace Library

/-- The frames received, the frames confirmed and the answers that came in. -/
structure Counters where
  received : Nat
  confirmed : Nat
  answered : Nat
deriving DecidableEq, Repr

/-- What two parties send each other, as counts. -/
structure Dialogue where
  sent : Nat → Nat → Nat
  answers : Nat → List Nat
  sent_mono : ∀ {c a c' a'}, c ≤ c' → a ≤ a' → sent c a ≤ sent c' a'
  answers_mono : ∀ {r r'}, r ≤ r' → answers r <+: answers r'
  maxSent : Nat
  maxAnswers : Nat
  sent_le : ∀ c a, sent c a ≤ maxSent
  length_answers_le : ∀ r, (answers r).length ≤ maxAnswers

namespace Dialogue

variable {D : Dialogue} {s t : Counters}

/-- One frame is received or confirmed, or one answer comes in. -/
inductive Step (D : Dialogue) : Counters → Counters → Prop
  | deliver {s : Counters} (h : s.received < D.sent s.confirmed s.answered) :
      Step D s { s with received := s.received + 1 }
  | confirm {s : Counters} (h : s.confirmed < D.sent s.confirmed s.answered) :
      Step D s { s with confirmed := s.confirmed + 1 }
  | answer {s : Counters} {k : Nat} (h : (D.answers s.received)[s.answered]? = some k)
      (hk : k ≤ s.confirmed) : Step D s { s with answered := s.answered + 1 }

/-- No frame was received or confirmed before it was sent, and no answer came in before
the confirmation of its frame. -/
structure Within (D : Dialogue) (s : Counters) : Prop where
  received : s.received ≤ D.sent s.confirmed s.answered
  confirmed : s.confirmed ≤ D.sent s.confirmed s.answered
  answered : s.answered ≤ (D.answers s.received).length
  answer : ∀ i k, i < s.answered → (D.answers s.received)[i]? = some k → k ≤ s.confirmed

theorem within_start (D : Dialogue) : D.Within ⟨0, 0, 0⟩ :=
  ⟨Nat.zero_le _, Nat.zero_le _, Nat.zero_le _, fun _ _ h => absurd h (Nat.not_lt_zero _)⟩

theorem getElem?_answers {r r' i : Nat} (h : r ≤ r') (hi : i < (D.answers r).length) :
    (D.answers r')[i]? = (D.answers r)[i]? := by
  obtain ⟨l, hl⟩ := D.answers_mono h
  rw [← hl, List.getElem?_append_left hi]

theorem Within.step (h : D.Within s) (hst : D.Step s t) : D.Within t := by
  cases hst with
  | deliver hlt =>
      refine ⟨hlt, h.confirmed, h.answered.trans (D.answers_mono (Nat.le_succ _)).length_le,
        fun i k hi hk => h.answer i k hi ?_⟩
      rwa [← getElem?_answers (Nat.le_succ s.received) (hi.trans_le h.answered)]
  | confirm hlt =>
      have hmono : D.sent s.confirmed s.answered ≤ D.sent (s.confirmed + 1) s.answered :=
        D.sent_mono (Nat.le_succ _) (Nat.le_refl _)
      exact ⟨h.received.trans hmono, Nat.le_trans hlt hmono, h.answered,
        fun i k hi hk => (h.answer i k hi hk).trans (Nat.le_succ _)⟩
  | @answer k hget hk =>
      have hmono : D.sent s.confirmed s.answered ≤ D.sent s.confirmed (s.answered + 1) :=
        D.sent_mono (Nat.le_refl _) (Nat.le_succ _)
      refine ⟨h.received.trans hmono, h.confirmed.trans hmono,
        (List.getElem?_eq_some_iff.mp hget).1, fun i j hi hj => ?_⟩
      rcases Nat.lt_succ_iff_lt_or_eq.mp hi with hlt | rfl
      · exact h.answer i j hlt hj
      · rw [hget] at hj
        exact Option.some.inj hj ▸ hk

/-- Every step moves one counter on, and all three are bounded. -/
theorem counts (D : Dialogue) : Counts D.Step D.Within
    (fun s => s.received + s.confirmed + s.answered)
    (2 * D.maxSent + D.maxAnswers) where
  step s t hs hst := by
    refine ⟨hs.step hst, ?_⟩
    cases hst <;> simp only [] <;> omega
  le s hs := by
    have hr := hs.received.trans (D.sent_le _ _)
    have hc := hs.confirmed.trans (D.sent_le _ _)
    have ha := hs.answered.trans (D.length_answers_le _)
    omega

/-- A dialogue ends when everything sent is received and confirmed and all answers have
come in. -/
theorem Within.final (h : D.Within s) (hfin : Final D.Step s) :
    s.received = D.sent s.confirmed s.answered ∧
      s.confirmed = D.sent s.confirmed s.answered ∧
      ∀ k, (D.answers s.received)[s.answered]? = some k → s.confirmed < k :=
  ⟨le_antisymm h.received (not_lt.mp fun hlt => hfin _ (.deliver hlt)),
    le_antisymm h.confirmed (not_lt.mp fun hlt => hfin _ (.confirm hlt)),
    fun _ hk => not_le.mp fun hle => hfin _ (.answer hk hle)⟩

/-! ### One frame -/

/-- One frame, and no answer. -/
def single : Dialogue where
  sent _ _ := 1
  answers _ := []
  sent_mono _ _ := Nat.le_refl _
  answers_mono _ := List.prefix_refl _
  maxSent := 1
  maxAnswers := 0
  sent_le _ _ := Nat.le_refl _
  length_answers_le _ := Nat.le_refl _

/-! ### A stream with flow control -/

/-- The answers in `flow total limit` once `r` frames are received. -/
def flowAnswers (total limit r : Nat) : List Nat :=
  if r = 0 then [] else if limit < total ∧ limit < r then [1, limit + 1] else [1]

theorem getElem?_flowAnswers_zero (total limit : Nat) {r : Nat} (h : 0 < r) :
    (flowAnswers total limit r)[0]? = some 1 := by
  rw [flowAnswers, if_neg h.ne']
  split <;> rfl

theorem getElem?_flowAnswers_succ {total limit r i k : Nat}
    (h : (flowAnswers total limit r)[i + 1]? = some k) : limit < total ∧ k = limit + 1 := by
  unfold flowAnswers at h
  split at h
  · cases h
  · split at h
    · rename_i hlim
      cases i with
      | zero => exact ⟨hlim.1, (Option.some.inj h).symm⟩
      | succ i => cases h
    · cases h

theorem mem_flowAnswers_iff {total limit r k : Nat} (hk : 1 < k) :
    k ∈ flowAnswers total limit r ↔ limit < total ∧ limit < r ∧ k = limit + 1 := by
  rw [flowAnswers]
  split
  · simp
    omega
  · split <;> simp <;> omega

theorem flowAnswers_one (total : Nat) {limit : Nat} (h : 0 < limit) :
    flowAnswers total limit 1 = [1] := by
  rw [flowAnswers, if_neg Nat.one_ne_zero, if_neg (by omega)]

/-- The last frame before the limit is answered, unless the stream ends with it. -/
theorem flowAnswers_succ {total limit r : Nat} (hr : 0 < r) (hle : r ≤ limit) :
    flowAnswers total limit (r + 1) = flowAnswers total limit r ++
      if limit < total ∧ r = limit then [r + 1] else [] := by
  simp only [flowAnswers]
  rw [if_neg (Nat.succ_ne_zero r), if_neg hr.ne']
  by_cases hend : limit < total ∧ r = limit
  · rw [if_pos hend, if_pos ⟨hend.1, by omega⟩, if_neg (by omega), hend.2]
    rfl
  · rw [if_neg hend, if_neg (by omega), if_neg (by omega)]
    rfl

theorem flowAnswers_mono {total limit r r' : Nat} (h : r ≤ r') :
    flowAnswers total limit r <+: flowAnswers total limit r' := by
  simp only [flowAnswers]
  by_cases hr : r = 0
  · rw [if_pos hr]
    exact List.nil_prefix
  · have hr' : ¬ r' = 0 := by omega
    rw [if_neg hr, if_neg hr']
    by_cases hlim : limit < total ∧ limit < r
    · have hlim' : limit < total ∧ limit < r' := ⟨hlim.1, hlim.2.trans_le h⟩
      rw [if_pos hlim, if_pos hlim']
    · rw [if_neg hlim]
      split
      · exact List.prefix_append [1] [limit + 1]
      · exact List.prefix_refl _

/-- An opening frame, and `limit` of the `total` frames that its answer asks for. -/
def flow (total limit : Nat) : Dialogue where
  sent c a := if a = 0 then 1 else min (c + 1) (limit + 1)
  answers := flowAnswers total limit
  sent_mono hc ha := by split <;> split <;> omega
  answers_mono h := flowAnswers_mono h
  maxSent := limit + 1
  maxAnswers := 2
  sent_le c a := by split <;> omega
  length_answers_le r := by
    rw [flowAnswers]
    split
    · exact Nat.zero_le _
    · split <;> simp

/-- An answer comes in only after the opening frame is received and confirmed. -/
theorem Within.flow_opened {total limit : Nat} (h : (flow total limit).Within s)
    (ha : 0 < s.answered) : 0 < s.received ∧ 0 < s.confirmed := by
  have hlen := ha.trans_le h.answered
  have hr : 0 < s.received := by
    apply Nat.pos_of_ne_zero
    intro hzero
    rw [hzero] at hlen
    exact absurd hlen (Nat.lt_irrefl 0)
  exact ⟨hr, h.answer 0 1 ha (getElem?_flowAnswers_zero total limit hr)⟩

theorem Within.flow_final {total limit : Nat} (h : (flow total limit).Within s)
    (hfin : Final (flow total limit).Step s) :
    s.received = limit + 1 ∧ s.confirmed = limit + 1 ∧ 0 < s.answered := by
  obtain ⟨hr, hc, ha⟩ := h.final hfin
  have hsent : (flow total limit).sent s.confirmed s.answered =
    if s.answered = 0 then 1 else min (s.confirmed + 1) (limit + 1) := rfl
  rw [hsent] at hr hc
  by_cases hzero : s.answered = 0
  · rw [if_pos hzero] at hr hc
    have hpos : 0 < s.received := by omega
    have hlt := ha 1 (by rw [hzero]; exact getElem?_flowAnswers_zero total limit hpos)
    omega
  · rw [if_neg hzero] at hr hc
    omega

/-! ### One frame at a time -/

/-- Each frame waits for the confirmation of the one before it, each received frame has at
most one answer, and no answer comes in while a frame of the first party is not confirmed. -/
structure HalfDuplex (D : Dialogue) : Prop where
  sent_le : ∀ c a, D.sent c a ≤ c + 1
  answers_le : ∀ r, (D.answers (r + 1)).length ≤ (D.answers r).length + 1
  le_received : ∀ {r k}, k ∈ D.answers r → k ≤ r
  confirmed_lt : ∀ {c a r k}, D.sent c a = c + 1 → (D.answers r)[a]? = some k → c < k

theorem halfDuplex_single : single.HalfDuplex where
  sent_le c _ := Nat.succ_le_succ (Nat.zero_le c)
  answers_le _ := Nat.zero_le _
  le_received hk := absurd hk List.not_mem_nil
  confirmed_lt _ hk := by cases hk

theorem halfDuplex_flow (total : Nat) {limit : Nat} (h : 0 < limit) :
    (flow total limit).HalfDuplex where
  sent_le c a := by
    simp only [flow]
    split <;> omega
  answers_le r := by
    simp only [flow]
    by_cases hr : r = 0
    · rw [hr, flowAnswers_one total h, flowAnswers, if_pos rfl]
      exact Nat.le_refl 1
    · simp only [flowAnswers, if_neg (Nat.succ_ne_zero r), if_neg hr]
      split <;> split <;> simp
  le_received {r k} hk := by
    simp only [flow, flowAnswers] at hk
    split at hk
    · exact absurd hk List.not_mem_nil
    · split at hk
      · obtain rfl | rfl := List.mem_pair.mp hk <;> omega
      · obtain rfl := List.mem_singleton.mp hk
        omega
  confirmed_lt {c a r k} hsent hk := by
    simp only [flow] at hsent hk
    cases a with
    | zero =>
        have hr : 0 < r := Nat.pos_of_ne_zero fun hr => by simp [hr, flowAnswers] at hk
        obtain rfl := Option.some.inj ((getElem?_flowAnswers_zero total limit hr).symm.trans hk)
        rw [if_pos rfl] at hsent
        omega
    | succ a =>
        obtain ⟨-, rfl⟩ := getElem?_flowAnswers_succ hk
        rw [if_neg (Nat.succ_ne_zero a)] at hsent
        omega

end Dialogue

end Library
