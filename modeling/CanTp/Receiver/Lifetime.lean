import CanTp.Receiver.Delivery
import CanTp.Receiver.Outcome

/-!
# The life of a receiver

What a context has to do with its session layer and with the sender of a message, from its
first frame to its last. It asks about First Frames until one is accepted, answers that one
with Flow Control frames, and hands over what it has received: the message, if it is
completed, and Single Frames. Nothing leads back. A context receives one segmented message
at most, and none after a Single Frame.
-/

namespace CanTp

open Library

/-- A First Frame is presented to the session layer, a Flow Control frame is sent, a
message is handed over. -/
inductive Dealing
  | asked
  | flow
  | delivered
deriving DecidableEq, Repr

def Act.dealing : Act → Option Dealing
  | .rcvrRxFfCb .. => some .asked
  | .canTx .. => some .flow
  | .receivedCb .. => some .delivered
  | _ => none

/-- The dealings in the calls `acts`. -/
def dealings (acts : List Act) : List Dealing := acts.filterMap Act.dealing

@[simp] theorem dealings_append (a b : List Act) :
    dealings (a ++ b) = dealings a ++ dealings b := List.filterMap_append

theorem dealings_cons (a : Act) (acts : List Act) :
    dealings (a :: acts) = a.dealing.toList ++ dealings acts := by
  rw [dealings, List.filterMap_cons]
  cases a.dealing <;> rfl

/-- A Single Frame comes in. -/
def Event.isSingle : Event → Bool
  | .canrxCb r => r.pci = some .singleFrame
  | _ => false

/-- First `asked` questions, then `flows` Flow Control frames, then `delivered` messages. -/
def inOrder (asked flows delivered : Nat) : List Dealing :=
  List.replicate asked .asked ++ List.replicate flows .flow ++
    List.replicate delivered .delivered

theorem inOrder_asked (a : Nat) : inOrder a 0 0 ++ [.asked] = inOrder (a + 1) 0 0 := by
  simp [inOrder, List.replicate_succ']

theorem inOrder_flows (a b k : Nat) :
    inOrder a b 0 ++ List.replicate k .flow = inOrder a (b + k) 0 := by
  simp [inOrder, ← List.replicate_append_replicate]

theorem inOrder_delivered (a b d : Nat) :
    inOrder a b d ++ [.delivered] = inOrder a b (d + 1) := by
  simp [inOrder, List.replicate_succ']

/-- The state of a receiver that has had these dealings, `singles` of them with a Single
Frame. -/
inductive Life (singles : Nat) : Nat → Nat → Nat → CantpState → Prop
  | idle {asked} (h : singles = 0) : Life singles asked 0 0 .idle
  | abandoned {asked} (h : singles = 0) : Life singles (asked + 1) 0 0 .ffRcvd
  | receiving {asked flows} (h : singles = 0) : Life singles (asked + 1) (flows + 1) 0 .fcSent
  | completed {asked flows} (h : singles = 0) : Life singles (asked + 1) (flows + 1) 1 .txDone
  | single {asked flows delivered} (hasked : flows = 0 ∨ 0 < asked)
      (hdelivered : delivered = singles ∨ delivered = singles + 1 ∧ 0 < flows) :
      Life singles asked flows delivered .rxDone

theorem Life.bounds {n a b d : Nat} {st : CantpState} (h : Life n a b d st) :
    (b = 0 ∨ 0 < a) ∧ (d = n ∨ d = n + 1 ∧ 0 < b) := by
  cases h with
  | idle h => exact ⟨.inl rfl, .inl h.symm⟩
  | abandoned h => exact ⟨.inl rfl, .inl h.symm⟩
  | receiving h => exact ⟨.inr (Nat.succ_pos _), .inl h.symm⟩
  | completed h => exact ⟨.inr (Nat.succ_pos _), .inr ⟨by rw [h], Nat.succ_pos _⟩⟩
  | single hasked hdelivered => exact ⟨hasked, hdelivered⟩

theorem Life.of_single {n a b d : Nat} {st : CantpState} (h : Life n a b d st) :
    Life (n + 1) a b (d + 1) .rxDone :=
  .single h.bounds.1 (h.bounds.2.imp (congrArg (· + 1)) (And.imp_left (congrArg (· + 1))))

/-- How a life goes on: after the calls `acts`, in the state `st`. -/
def Life.GoesOn (n a b d : Nat) (acts : List Act) (st : CantpState) : Prop :=
  ∃ a' b' d', inOrder a b d ++ dealings acts = inOrder a' b' d' ∧ Life n a' b' d' st

theorem Life.goesOn_silent {n a b d : Nat} {st : CantpState} {acts : List Act}
    (h : Life n a b d st) (hacts : ∀ act ∈ acts, act.dealing = none) :
    Life.GoesOn n a b d acts st := by
  refine ⟨a, b, d, ?_, h⟩
  rw [dealings, List.filterMap_eq_nil_iff.mpr hacts, List.append_nil]

section Step

variable {c : CantpRxtxStatus} {r : RxFrame} {w : World} {n a b d : Nat}

theorem dealing_of_sndr {act : Act} (h : act.ofRcvr = false) : act.dealing = none := by
  cases act <;> first | rfl | cases h

theorem dealings_of_awaits {env : Env} {acts : List Act} (h : ∀ act ∈ acts, act.IsAwait env) :
    ∃ k, dealings acts = List.replicate k .flow := by
  refine ⟨_, List.eq_replicate_of_mem fun x hx => ?_⟩
  obtain ⟨act, hact, hdeal⟩ := List.mem_filterMap.mp hx
  have hawait := h act hact
  cases act <;> first | exact hawait.elim | cases hdeal
  rfl

theorem dealings_writes {acts : List Act} (h : ∀ act ∈ acts, ∃ i v, act = .rcvrWrite i v) :
    dealings acts = [] := by
  refine List.filterMap_eq_nil_iff.mpr fun act hact => ?_
  obtain ⟨i, v, rfl⟩ := h act hact
  rfl

theorem dealings_cfWrites (s : RcvrState) (f : CantpFrame) : dealings (s.cfWrites f) = [] := by
  refine dealings_writes fun act hact => ?_
  obtain ⟨i, -, rfl⟩ := List.mem_map.mp hact
  exact ⟨_, _, rfl⟩

theorem dealings_accepted (env : Env) (w : World) :
    dealings (ffLog r ⟨c, [.printCantpFrame r.frame]⟩ ++
      fcActs env (ctsFrame c.params CantpFrame.zero) w) = [.asked, .flow] := by
  have hwrites : dealings (ffWrites r.frame) = [] := by
    refine dealings_writes fun act hact => ?_
    obtain ⟨i, -, rfl⟩ := List.mem_map.mp hact
    exact ⟨_, _, rfl⟩
  have hfc : dealings (fcActs env (ctsFrame c.params CantpFrame.zero) w) = [.flow] := by
    rw [fcActs]
    split <;> rfl
  simp only [ffLog, dealings_append, dealings_cons, hwrites, hfc]
  rfl

theorem RxOutcome.goesOn (h : RxOutcome c r w) (hlife : Life n a b d c.rcvr.state)
    (hpci : r.pci ≠ some .singleFrame) : Life.GoesOn n a b d w.log w.ctx.rcvr.state := by
  cases h with
  | unknown => exact hlife.goesOn_silent (by simp)
  | flow hpci s log hdrop hbl hlog =>
      refine hlife.goesOn_silent fun act hact => ?_
      have hflow := hlog act hact
      cases act <;> first | rfl | exact hflow.elim
  | single h => exact absurd h hpci
  | ffIgnored | cfIgnored | cfForeign => exact hlife.goesOn_silent (by simp [Act.dealing])
  | ffRefused hpci hst =>
      rw [hst] at hlife
      cases hlife with
      | idle h => exact ⟨_, _, _, inOrder_asked a, .idle h⟩
  | ffAbandoned hpci hst =>
      rw [hst] at hlife
      cases hlife with
      | idle h => exact ⟨_, _, _, inOrder_asked a, .abandoned h⟩
  | ffAccepted hst buf hacc =>
      rw [hst] at hlife
      cases hlife with
      | idle h =>
          refine ⟨a + 1, 1, 0, ?_, .receiving h⟩
          rw [dealings_accepted, ← inOrder_flows (a + 1) 0 1, ← inOrder_asked]
          exact (List.append_assoc _ [Dealing.asked] [Dealing.flow]).symm
  | cfRejected hpci hst =>
      exact hlife.goesOn_silent (by simp [Act.dealing])
  | cfLast h =>
      rw [h.1.2.1] at hlife
      cases hlife with
      | @receiving asked flows hn =>
          refine ⟨asked + 1, flows + 1, 1, ?_, .completed hn⟩
          rw [dealings_cons, dealings_append, dealings_cfWrites]
          exact inOrder_delivered _ _ 0
  | cfMore h =>
      obtain ⟨⟨acts, hlog, hacts⟩, ⟨wft, t, hrcvr⟩, -, -⟩ :=
        awaits_rcvrAwaitNext r.env (w := ⟨{ c with rcvr := c.rcvr.storeCf r.frame },
          .printCantpFrame r.frame :: c.rcvr.cfWrites r.frame⟩) h.1.2.1
      rw [h.1.2.1] at hlife
      cases hlife with
      | @receiving asked flows hn =>
          obtain ⟨k, hk⟩ := dealings_of_awaits hacts
          refine ⟨asked + 1, flows + k + 1, 0, ?_, ?_⟩
          · rw [hlog, dealings_append, dealings_cons, dealings_cfWrites, hk,
              Nat.add_right_comm flows k 1]
            exact inOrder_flows _ _ k
          · rw [hrcvr]
            exact h.1.2.1 ▸ Life.receiving hn

/-- A Single Frame is handed over whatever has gone before. -/
theorem Life.goesOn_single (h : Life n a b d c.rcvr.state) (hpci : r.pci = some .singleFrame) :
    Life.GoesOn (n + 1) a b d (canTp.step c (.canrxCb r)).2
      (canTp.step c (.canrxCb r)).1.rcvr.state := by
  rw [canTp_step, canrx_singleFrame hpci]
  exact ⟨a, b, d + 1, inOrder_delivered a b d, h.of_single⟩

theorem Life.goesOn_sndr {e : Event} (h : Life n a b d c.rcvr.state) (he : e.isSndr = true) :
    Life.GoesOn n a b d (canTp.step c e).2 (canTp.step c e).1.rcvr.state := by
  have heff := sndr_effect c he
  rw [heff.rcvr_eq]
  exact h.goesOn_silent fun act hact => dealing_of_sndr (heff.acts act hact)

theorem Life.step (h : Life n a b d c.rcvr.state) (e : Event) :
    Life.GoesOn (n + if e.isSingle then 1 else 0) a b d (canTp.step c e).2
      (canTp.step c e).1.rcvr.state := by
  cases e with
  | canrxCb r =>
      by_cases hpci : r.pci = some .singleFrame
      · rw [if_pos (by simpa [Event.isSingle] using hpci)]
        exact h.goesOn_single hpci
      · rw [if_neg (by simpa [Event.isSingle] using hpci)]
        exact (rx_outcome c r).goesOn h hpci
  | rcvrTimerCb => exact h.goesOn_silent fun act hact => by cases hact
  | send | cantxConfirmCb | sndrTimerCb | sndrTimerExpiry => exact h.goesOn_sndr rfl

end Step

/-- The life of a context that was fresh, in any run. -/
theorem life_run (p : CantpParams) (es : List Event) : ∃ a b d,
    dealings (canTp.outputs (.fresh p) es) = inOrder a b d ∧
      Life (es.countP Event.isSingle) a b d (canTp.run (.fresh p) es).rcvr.state := by
  induction es using List.reverseRecOn with
  | nil => exact ⟨0, 0, 0, rfl, .idle rfl⟩
  | append_singleton es e ih =>
      obtain ⟨a, b, d, hout, hlife⟩ := ih
      obtain ⟨a', b', d', hdeal, hlife'⟩ := hlife.step e
      refine ⟨a', b', d', ?_, ?_⟩
      · rw [Mealy.outputs_append, dealings_append, hout, ← hdeal, Mealy.outputs_cons,
          Mealy.outputs_nil, List.append_nil]
      · rw [Mealy.run_append, List.countP_append, List.countP_singleton]
        exact hlife'

/-- In its whole life, whatever comes in and whatever the session layer says, a context first
asks about First Frames, then sends Flow Control frames, and then hands over messages: the
Single Frames, and at most one that is segmented, for which it has asked and sent a Flow
Control frame. -/
theorem dealings_inOrder (p : CantpParams) (es : List Event) : ∃ asked flows delivered,
    dealings (canTp.outputs (.fresh p) es) = inOrder asked flows delivered ∧
      (flows = 0 ∨ 0 < asked) ∧
      (delivered = es.countP Event.isSingle ∨
        delivered = es.countP Event.isSingle + 1 ∧ 0 < flows) := by
  obtain ⟨a, b, d, hout, hlife⟩ := life_run p es
  exact ⟨a, b, d, hout, hlife.bounds⟩

end CanTp
