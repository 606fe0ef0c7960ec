import CanTp.Link.Runs
import CanTp.Roles
import CanTp.Receiver.Outcome

/-!
# Who makes which calls

In an exchange the sending node makes no call of the receiver role, and the receiving node
none of the sender role: it reports no result either, as no transmission of it fails.
-/

namespace CanTp

open Library

/-- The calls made while a frame that is no Flow Control frame is handled. -/
def Act.OfReception (env : Env) : Act → Prop
  | .rcvrRxFfCb .. | .rcvrWrite .. | .receivedCb .. => True
  | a => a.IsAwait env

theorem Act.IsAwait.ofReception {env : Env} {a : Act} (h : a.IsAwait env) :
    a.OfReception env := by
  cases a <;> first | exact h | exact h.elim

section Reception

variable {c : CantpRxtxStatus} {r : RxFrame} {w : World}

theorem ofReception_ffLog {a : Act} (ha : a ∈ ffLog r ⟨c, [.printCantpFrame r.frame]⟩) :
    a.OfReception r.env := by
  rcases mem_ffLog ha with hlog | rfl | ⟨i, b, rfl⟩ | ⟨f, rfl⟩
  · rw [List.mem_singleton.mp hlog]
    trivial
  · trivial
  · trivial
  · trivial

theorem ofReception_cfWrites {s : RcvrState} {f : CantpFrame} {env : Env} {a : Act}
    (ha : a ∈ s.cfWrites f) : a.OfReception env := by
  obtain ⟨i, -, rfl⟩ := List.mem_map.mp ha
  trivial

theorem RxOutcome.ofReception (h : RxOutcome c r w) (hpci : r.pci ≠ some .flowControll) :
    ∀ a ∈ w.log, a.OfReception r.env := by
  cases h with
  | flow h => exact absurd h hpci
  | ffAccepted _ buf h =>
      intro a ha
      rcases List.mem_append.mp ha with ha | ha
      · exact ofReception_ffLog ha
      · exact (isAwait_fcActs ha).ofReception
  | cfLast h =>
      intro a ha
      rcases List.mem_cons.mp ha with rfl | ha
      · trivial
      · rcases List.mem_append.mp ha with ha | ha
        · exact ofReception_cfWrites ha
        · rw [List.mem_singleton.mp ha]
          trivial
  | cfMore h =>
      obtain ⟨⟨acts, hlog, hacts⟩, -, -, -⟩ :=
        awaits_rcvrAwaitNext r.env (w := ⟨{ c with rcvr := c.rcvr.storeCf r.frame },
          .printCantpFrame r.frame :: c.rcvr.cfWrites r.frame⟩) h.1.2.1
      intro a ha
      rw [hlog] at ha
      rcases List.mem_append.mp ha with ha | ha
      · rcases List.mem_cons.mp ha with rfl | ha
        · trivial
        · exact ofReception_cfWrites ha
      · exact (hacts a ha).ofReception
  | _ => simp [Act.OfReception, Act.IsAwait]

end Reception

/-- A call of the receiver role that is not one of the sender role. -/
def Act.ReceivesOnly (a : Act) : Prop := a.onlySndr = false ∧ a.isReport = false

theorem Act.OfReception.receivesOnly {env : Env} {a : Act} (h : a.OfReception env)
    (hok : ∀ log, 0 ≤ env.canTx log) : a.ReceivesOnly := by
  cases a <;> first | exact ⟨rfl, rfl⟩ | exact h.elim | skip
  obtain ⟨log, hlt⟩ := h
  exact absurd hlt (not_lt.mpr (hok log))

namespace Exchange

variable {x : Exchange} {l l' : Link}

theorem confirm_role (c : CantpRxtxStatus) :
    ∀ a ∈ (canTp.step c .cantxConfirmCb).2, a.ofRcvr = false :=
  (sndr_effect c rfl).acts

theorem answer_role (x : Exchange) (c : CantpRxtxStatus) (env : Env) :
    ∀ a ∈ (canTp.step c (.canrxCb (x.fc.rx env))).2, a.ofRcvr = false :=
  (sndr_effect c (by simp [Event.isSndr, pci_rx_fc])).acts

theorem pci_of_frame {r : Nat} {f : CantpCanFrame} (hget : x.frames[r]? = some f) (env : Env) :
    (f.rx env).pci ≠ some .flowControll := by
  have hframe : ∀ g, f = ⟨x.id, x.idt, 8, g⟩ → (f.rx env).frame = g := by
    rintro g rfl
    exact rxFrame_eight g
  by_cases hlong : sfNumDataBytes < x.msg.length
  · cases r with
    | zero =>
        rw [frames_eq hlong, List.getElem?_cons_zero] at hget
        rw [pci_of_ffFrame (hframe _ (Option.some.inj hget).symm)]
        simp
    | succ k =>
        have hk := (List.getElem?_eq_some_iff.mp hget).1
        rw [length_frames hlong] at hk
        rw [getElem?_frames_succ hlong (Nat.lt_of_succ_lt_succ hk)] at hget
        rw [(isCf_of_cfAt rfl (hframe _ (Option.some.inj hget).symm)).pci]
        simp
  · have hshort := not_lt.mp hlong
    rw [frames, canonicalFrames, if_pos hshort, List.map_singleton] at hget
    have hf := List.mem_singleton.mp (List.mem_of_getElem? hget)
    rw [pci_of_sfFrame (hframe _ hf) hshort]
    simp

theorem deliver_role {r : Nat} {f : CantpCanFrame} (hget : x.frames[r]? = some f)
    (c : CantpRxtxStatus) (env : Env) (hok : ∀ log, 0 ≤ env.canTx log) :
    ∀ a ∈ (canTp.step c (.canrxCb (f.rx env))).2, a.ReceivesOnly := fun a ha =>
  ((rx_outcome c (f.rx env)).ofReception (pci_of_frame hget env) a ha).receivesOnly hok

theorem Inv.frame_of_sent (h : x.Inv l) {i : Nat} {f : CantpCanFrame}
    (hget : l.sent[i]? = some f) : x.frames[i]? = some f := by
  rw [Link.sent, h.sndr.sent, List.getElem?_take] at hget
  exact (Option.ite_none_right_eq_some.mp hget).2

/-- Each node keeps to its role. -/
structure Calls (l : Link) : Prop where
  sndr : ∀ a ∈ l.sndrOut, a.ofRcvr = false
  rcvr : ∀ a ∈ l.rcvrOut, a.ReceivesOnly

theorem calls_step (hinv : x.Inv l) (h : Calls l) (hst : x.Step l l') : Calls l' := by
  obtain ⟨t, ht⟩ := hst
  cases t with
  | deliver =>
      obtain ⟨f, hget, rfl⟩ := Option.map_eq_some_iff.mp ht
      exact ⟨h.sndr, List.forall_mem_append.mpr ⟨h.rcvr, deliver_role (hinv.frame_of_sent hget)
        _ _ (x.transmits _)⟩⟩
  | confirm =>
      obtain ⟨-, heq⟩ := Option.ite_none_right_eq_some.mp ht
      obtain rfl := Option.some.inj heq
      exact ⟨List.forall_mem_append.mpr ⟨h.sndr, confirm_role _⟩, h.rcvr⟩
  | answer =>
      rw [turn] at ht
      split at ht
      · rename_i n f hget
        obtain rfl := (hinv.getElem?_fcs hget).2
        obtain ⟨-, heq⟩ := Option.ite_none_right_eq_some.mp ht
        obtain rfl := Option.some.inj heq
        exact ⟨List.forall_mem_append.mpr ⟨h.sndr, answer_role x _ _⟩, h.rcvr⟩
      · cases ht

theorem calls_start (x : Exchange) : Calls x.start where
  sndr := (sndr_effect _ rfl).acts
  rcvr _ ha := absurd ha List.not_mem_nil

theorem calls_reached (h : x.Reached l) : Calls l := by
  induction h with
  | refl => exact calls_start x
  | tail hreached hs ih => exact calls_step (inv_reached hreached) ih hs

end Exchange

end CanTp
