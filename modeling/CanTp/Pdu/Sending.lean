import CanTp.Pdu.Codec
import CanTp.Flow.Waits
import CanTp.Roles

/-!
# A context sends units only

Every frame that a context hands to the link layer is a unit and zeros behind it: the
sender role sends Single, First and Consecutive Frames, the receiver role Flow Control
frames, and of these only FC.CTS with the parameters of the context and FC.WAIT. This holds
for every order of calls, whatever frames come in.
-/

namespace CanTp

open Library

/-- The units the sender role sends: a Single Frame with its length and zeros behind the
message, or one of the other two. -/
def NPdu.OfSndr : NPdu → Prop
  | .single len d => len.val ≤ sfNumDataBytes ∧ ∀ i : Fin sfNumDataBytes, len.val ≤ i → d i = 0
  | .first .. | .consec .. => True
  | .flowControll .. => False

/-- The units the receiver role sends with the block size `bs` and the STmin `st`. -/
def NPdu.OfRcvr (bs st : UInt8) (p : NPdu) : Prop :=
  p = .ofFlow .cts bs st ∨ p = .ofFlow .wait 0 0

/-- A call that sends a unit, or no frame. -/
def Act.SendsUnit (q : CantpParams) : Act → Prop
  | .canTxNb _ _ _ f => ∃ p : NPdu, f = p.frame ∧ p.OfSndr
  | .canTx _ _ _ f _ => ∃ p : NPdu, f = p.frame ∧ p.OfRcvr q.blockSize q.stMin
  | _ => True

/-- All frames sent are units. -/
def SendsUnits (q : CantpParams) (log : List Act) : Prop := ∀ a ∈ log, a.SendsUnit q

/-! ### The frames -/

section Frames

theorem ofList_congr {l m : List UInt8} (h : ∀ i < 8, l.getD i 0 = m.getD i 0) :
    CantpFrame.ofList l = CantpFrame.ofList m :=
  CantpFrame.ext_byte fun i hi => by
    rw [CantpFrame.byte_ofList _ _ hi, CantpFrame.byte_ofList _ _ hi, h i hi]

theorem getD_ofFn {n i : Nat} (hi : i < n) (l : List UInt8) :
    (List.ofFn fun i : Fin n => l.getD i 0).getD i 0 = l.getD i 0 := by
  rw [List.getD_eq_getElem?_getD, List.getElem?_ofFn, dif_pos hi, Option.getD_some]

theorem sfFrame_eq (data : List UInt8) {len : Nat} (h : len ≤ sfNumDataBytes) :
    ∃ p : NPdu, sfFrame data len = p.frame ∧ p.OfSndr := by
  have hlen : len < 16 := h.trans_lt (by decide)
  let d : Fin sfNumDataBytes → UInt8 := fun i => (data.take len).getD i 0
  refine ⟨.single ⟨len, hlen⟩ d, ofList_congr fun i hi => ?_, h, fun i hi => ?_⟩
  · cases i with
    | zero => rw [NPdu.bytes, List.getD_cons_zero, List.getD_cons_zero, Nat.zero_add]
    | succ i =>
        have hi' : i < sfNumDataBytes := Nat.lt_of_succ_lt_succ hi
        rw [NPdu.bytes, List.getD_cons_succ, List.getD_cons_succ, getD_ofFn hi', getD_slice,
          if_pos hi', Nat.zero_add]
  · have hout : (data.take len).length ≤ i := (List.length_take_le ..).trans hi
    change (data.take len).getD i 0 = 0
    rw [List.getD_eq_getElem?_getD, List.getElem?_eq_none hout, Option.getD_none]

theorem ffFrame_eq (data : List UInt8) (len : Nat) :
    ∃ p : NPdu, ffFrame data len = p.frame ∧ p.OfSndr := by
  refine ⟨.first (Fin.ofNat 4096 len) fun i => data.getD i 0, ofList_congr fun i hi => ?_,
    trivial⟩
  rcases i with _ | _ | i
  · have hhigh : len / 256 % 16 = len % 4096 / 256 := by omega
    rw [NPdu.bytes, List.getD_cons_zero, List.getD_cons_zero, hhigh]
    rfl
  · have hlow : len % 256 = len % 4096 % 256 := by omega
    rw [NPdu.bytes, List.getD_cons_succ, List.getD_cons_succ, List.getD_cons_zero,
      List.getD_cons_zero, hlow]
    rfl
  · have hi' : i < ffNumDataBytes := Nat.lt_of_succ_lt_succ (Nat.lt_of_succ_lt_succ hi)
    rw [NPdu.bytes, List.getD_cons_succ, List.getD_cons_succ, List.getD_cons_succ,
      List.getD_cons_succ, getD_ofFn hi', getD_slice, if_pos hi', Nat.zero_add]

theorem cfFrame_eq (sn : Nat) (bytes : List UInt8) :
    ∃ p : NPdu, cfFrame sn bytes = p.frame ∧ p.OfSndr := by
  refine ⟨.consec (Fin.ofNat 16 sn) fun i => bytes.getD i 0, ofList_congr fun i hi => ?_,
    trivial⟩
  cases i with
  | zero => rfl
  | succ i =>
      rw [NPdu.bytes, List.getD_cons_succ, List.getD_cons_succ]
      exact (getD_ofFn (by exact Nat.lt_of_succ_lt_succ hi) bytes).symm

end Frames

/-! ### The calls -/

section Calls

variable {c : CantpRxtxStatus} {r : RxFrame} {e : Event} {w : World}

theorem sendsUnit_cfActs (q : CantpParams) (c : CantpRxtxStatus) :
    ∀ a ∈ c.cfActs, a.SendsUnit q := by
  intro a ha
  rcases mem_cfActs ha with ⟨i, rfl⟩ | rfl | rfl | rfl
  · trivial
  · trivial
  · trivial
  · exact cfFrame_eq ..

theorem sendsUnit_sentCf {q : CantpParams} (h : ∀ a ∈ w.log, a.SendsUnit q) :
    ∀ a ∈ (sentCf w).log, a.SendsUnit q := fun a ha =>
  (List.mem_append.mp ha).elim (h a) (sendsUnit_cfActs q _ a)

theorem send_sendsUnit (q : CantpParams) (c : CantpRxtxStatus) (id : UInt32) (idt : UInt8)
    (data : List UInt8) (len : UInt16) :
    ∀ a ∈ (canTp.step c (.send id idt data len)).2, a.SendsUnit q := by
  rw [canTp_step, handle]
  by_cases h : len.toNat ≤ sfNumDataBytes
  · rw [send_single h]
    simpa [Act.SendsUnit] using sfFrame_eq data h
  · rw [send_segmented (not_le.mp h)]
    simpa [Act.SendsUnit] using ffFrame_eq data len.toNat

theorem confirm_sendsUnit (q : CantpParams) (c : CantpRxtxStatus) :
    ∀ a ∈ (canTp.step c .cantxConfirmCb).2, a.SendsUnit q := by
  rw [canTp_step, handle]
  have hconf := confirm_outcome ⟨c, []⟩
  generalize cantpCantxConfirmCb ⟨c, []⟩ = w at hconf ⊢
  cases hconf with
  | next =>
      refine sendsUnit_sentCf fun a ha => ?_
      simp only [List.nil_append, List.mem_cons] at ha
      rcases ha with rfl | ha
      · trivial
      · split at ha
        · rw [List.mem_singleton.mp ha]
          trivial
        · exact absurd ha List.not_mem_nil
  | _ => simp [Act.SendsUnit]

theorem timerCb_sendsUnit {q : CantpParams} (hlog : w.log = []) :
    ∀ a ∈ (cantpSndrTimerCb w).log, a.SendsUnit q := by
  unfold cantpSndrTimerCb
  split <;> simp [hlog, Act.SendsUnit]

theorem flow_sendsUnit (q : CantpParams) (hr : r.pci = some .flowControll) :
    ∀ a ∈ (canTp.step c (.canrxCb r)).2, a.SendsUnit q := by
  rw [canTp_step, canrx_flowControll hr]
  by_cases hst : c.sndr.state = .ffFcWait
  · rw [canrxFlowControll_take (by exact hst)]
    cases hcts : ctsDelay r.frame with
    | none =>
        obtain ⟨us, name, hother⟩ := flowControl_other c.sndr r.id hcts
        rw [hother _ rfl]
        simp [Act.SendsUnit]
    | some us =>
        by_cases hrem : 0 < c.sndr.remaining
        · rw [flowControl_cts hcts (by exact hrem)]
          exact sendsUnit_sentCf (by simp [Act.SendsUnit])
        · rw [flowControl_cts_none hcts (not_lt.mp (by exact hrem))]
          simp [Act.SendsUnit]
  · rw [canrxFlowControll_drop (by exact hst)]
    simp [Act.SendsUnit]

theorem sendsUnit_cts (q : CantpParams) : (q.fcCall q.cts).SendsUnit q :=
  ⟨.ofFlow .cts q.blockSize q.stMin, rfl, .inl rfl⟩

theorem sendsUnit_waitCalls (q : CantpParams) : ∀ a ∈ q.waitCalls, a.SendsUnit q := by
  intro a ha
  rcases List.mem_cons.mp ha with rfl | ha
  · trivial
  · rw [List.mem_singleton.mp ha]
    exact ⟨.ofFlow .wait 0 0, rfl, .inr rfl⟩

theorem paces_sendsUnit (c : CantpRxtxStatus) (r : RxFrame) :
    ∀ a ∈ (canTp.step c (.canrxCb r)).2.filter Act.paces, a.SendsUnit c.params := by
  intro a ha
  by_cases hcont : ContinuedBy c r
  · rw [hcont.paces] at ha
    rcases List.mem_append.mp ha with ha | ha
    · obtain ⟨l, hl, ha⟩ := List.mem_flatten.mp ha
      rw [(List.mem_replicate.mp hl).2] at ha
      exact sendsUnit_waitCalls _ a ha
    · split at ha
      · rw [List.mem_singleton.mp ha]
        exact sendsUnit_cts _
      · exact absurd ha List.not_mem_nil
  · rw [canTp_step] at ha
    rcases (rx_outcome c r).paces hcont with hnone | hcts
    · rw [hnone] at ha
      exact absurd ha List.not_mem_nil
    · rw [hcts] at ha
      rw [List.mem_singleton.mp ha]
      exact sendsUnit_cts _

theorem rx_sendsUnit (c : CantpRxtxStatus) (hr : r.pci ≠ some .flowControll) :
    ∀ a ∈ (canTp.step c (.canrxCb r)).2, a.SendsUnit c.params := by
  intro a ha
  have honly := ((rx_outcome c r).sndr_alone hr).2 a ha
  have hpaces := paces_sendsUnit c r a
  cases a with
  | canTxNb => cases honly
  | canTx => exact hpaces (List.mem_filter.mpr ⟨ha, rfl⟩)
  | _ => trivial

theorem step_sendsUnit (c : CantpRxtxStatus) (e : Event) :
    ∀ a ∈ (canTp.step c e).2, a.SendsUnit c.params := by
  cases e with
  | send id idt data len => exact send_sendsUnit _ c id idt data len
  | cantxConfirmCb => exact confirm_sendsUnit _ c
  | sndrTimerCb => exact timerCb_sendsUnit rfl
  | sndrTimerExpiry =>
      rw [canTp_step, handle, sndrTimerExpiry]
      split
      · exact timerCb_sendsUnit rfl
      · simp
  | rcvrTimerCb => exact fun a ha => absurd ha List.not_mem_nil
  | canrxCb r =>
      by_cases hr : r.pci = some .flowControll
      · exact flow_sendsUnit _ hr
      · exact rx_sendsUnit c hr

theorem RxOutcome.params_eq (h : RxOutcome c r w) : w.ctx.params = c.params := by
  cases h with
  | cfMore h => rw [(rcvrAwaitNext_spec r.env (by exact h.1.2.1)).1]; rfl
  | _ => rfl

/-- Nothing but a request changes the parameters, and a request only the CAN id. -/
theorem step_sameButId (c : CantpRxtxStatus) (e : Event) :
    SameButId c.params (canTp.step c e).1.params := by
  cases e with
  | canrxCb r => rw [canTp_step, (rx_outcome c r).params_eq]; exact .refl _
  | rcvrTimerCb => exact .refl _
  | send | cantxConfirmCb | sndrTimerCb | sndrTimerExpiry => exact (sndr_effect c rfl).params

theorem Act.SendsUnit.of_sameButId {q q' : CantpParams} (h : SameButId q q') {a : Act}
    (ha : a.SendsUnit q') : a.SendsUnit q := by
  rw [h] at ha
  exact ha

end Calls

/-- In every run of a context, from any state and whatever frames come in: the sender role
hands only Single Frames of at most seven bytes, First Frames and Consecutive Frames to the
link layer, the receiver role only FC.CTS with the parameters of the context and FC.WAIT,
and each frame is its unit with zeros behind it. -/
theorem outputs_sendUnits (c : CantpRxtxStatus) (es : List Event) :
    SendsUnits c.params (canTp.outputs c es) := by
  induction es generalizing c with
  | nil => exact fun a ha => absurd ha List.not_mem_nil
  | cons e es ih =>
      intro a ha
      rw [Mealy.outputs_cons] at ha
      rcases List.mem_append.mp ha with ha | ha
      · exact step_sendsUnit c e a ha
      · exact (ih _ a ha).of_sameButId (step_sameButId c e)

end CanTp
