import CanTp.Receiver.Delivery
import CanTp.Receiver.Outcome

/-!
# A receiver on a link that loses, delays and repeats

The frames of one message come in at the receiver in any order; some come in again, some
never do. `Along` says what the receiver makes of them as long as each Consecutive Frame
comes in less than sixteen places away from its own, so that its number tells its place: it
completes the message exactly when the frames of the reception have come in as they were
sent. A frame out of its place keeps the arrivals apart from the frames taken for good.
-/

namespace CanTp

open Library

/-- A session layer that accepts a First Frame and supplies a buffer supplies one of the
announced length. -/
def Env.Supplies (env : Env) : Prop :=
  ∀ id idt data len buf, 0 ≤ (env.rcvrRxFfCb id idt data len).1 →
    (env.rcvrRxFfCb id idt data len).2 = some buf → len.toNat ≤ buf.length

/-- The frame `r` is the frame `i` of the message `msg` from the node `id`, counted from
its First Frame. -/
def RxFrame.IsPart (r : RxFrame) (id : UInt32) (msg : List UInt8) (i : Nat) : Prop :=
  r.id = id ∧ (canonicalFrames msg msg.length)[i]? = some r.frame

/-- The receiver with the context `c` and the calls `out`, when the Consecutive Frames that
have come in during its reception are those at `places`. -/
inductive Along (id : UInt32) (msg : List UInt8) (places : List Nat) (c : CantpRxtxStatus)
    (out : List Act) : Prop
  /-- No First Frame has been accepted. -/
  | opening (hst : c.rcvr.state ≠ .fcSent) (hsn : c.rcvr.state = .idle → c.rcvr.sn = 0)
      (hplaces : places = []) (hout : deliveries out = [])
  /-- No frame has been rejected as long as all of them have come in at their places. -/
  | receiving {taken : Nat} (hrec : Reception id msg.length places.length taken c.rcvr)
      (hle : taken ≤ places.length)
      (hfill : taken = places.length → Filling id msg taken c.rcvr)
      (hplaces : taken = places.length ↔ places = List.range places.length)
      (hout : deliveries out = [])
  /-- The message is delivered. -/
  | done {d : Delivery} (hst : c.rcvr.state = .txDone)
      (hplaces : places = List.range (numCfs msg.length)) (hout : deliveries out = [d])
      (hd : d.Carries msg)

section Parts

variable {id : UInt32} {msg : List UInt8} {r : RxFrame} {i : Nat}

theorem RxFrame.IsPart.first (h : r.IsPart id msg 0) (hlong : sfNumDataBytes < msg.length) :
    r.frame = ffFrame msg msg.length := by
  have hget := h.2
  rw [canonicalFrames, if_neg (not_le.mpr hlong)] at hget
  exact (Option.some.inj hget).symm

theorem RxFrame.IsPart.consec (h : r.IsPart id msg (i + 1))
    (hlong : sfNumDataBytes < msg.length) :
    i < numCfs msg.length ∧ r.frame = cfAt msg msg.length i ∧ r.IsCf id := by
  have hget := h.2
  rw [canonicalFrames, if_neg (not_le.mpr hlong), List.getElem?_cons_succ] at hget
  obtain ⟨hlt, hf⟩ := List.getElem?_eq_some_iff.mp hget
  rw [length_canonicalCfs] at hlt
  have hf' : r.frame = cfAt msg msg.length i := by rw [← hf]; simp [canonicalCfs]
  exact ⟨hlt, hf', isCf_of_cfAt h.1 hf'⟩

end Parts

section Frames

variable {id : UInt32} {msg : List UInt8} {places : List Nat} {c : CantpRxtxStatus}
  {out : List Act} {r : RxFrame}

theorem first_frame (hf : r.frame = ffFrame msg msg.length) (henv : r.env.Supplies)
    (hlong : sfNumDataBytes < msg.length) (hshort : msg.length < 4096)
    (hst : c.rcvr.state ≠ .fcSent) (hsn : c.rcvr.state = .idle → c.rcvr.sn = 0) :
    deliveries (canTp.step c (.canrxCb r)).2 = [] ∧
      ((canTp.step c (.canrxCb r)).1.rcvr.state ≠ .fcSent ∧
          ((canTp.step c (.canrxCb r)).1.rcvr.state = .idle →
            (canTp.step c (.canrxCb r)).1.rcvr.sn = 0) ∨
        Filling r.id msg 0 (canTp.step c (.canrxCb r)).1.rcvr) := by
  have hpci := pci_of_ffFrame hf
  by_cases hidle : c.rcvr.state = .idle
  · have hout := first_outcome (c := c) hpci
    rw [canTp_step]
    generalize handle (.canrxCb r) ⟨c, []⟩ = w at hout ⊢
    cases hout with
    | flow hne => rw [hpci] at hne; cases hne
    | unknown hne => rw [hpci] at hne; cases hne
    | single hne => rw [hpci] at hne; cases hne
    | ffIgnored _ hne => exact absurd hidle hne
    | ffRefused => exact ⟨rfl, .inl ⟨by simp, fun _ => hsn hidle⟩⟩
    | ffAbandoned => exact ⟨rfl, .inl ⟨by simp [RcvrState.announced],
        fun hne => absurd hne (by simp [RcvrState.announced])⟩⟩
    | ffAccepted _ buf hacc =>
        have hlen := henv _ _ _ _ buf hacc.ok hacc.buffer
        rw [hf, cantpFfLenGet_ffFrame msg hshort] at hlen
        exact ⟨deliveries_ffLog r c fun _ ha => isAwait_fcActs ha,
          .inr (filling_accepted (hsn hidle) hf hshort hlong hlen)⟩
    | cfIgnored hne => rw [hpci] at hne; cases hne
    | cfForeign hne => rw [hpci] at hne; cases hne
    | cfRejected hne => rw [hpci] at hne; cases hne
    | cfLast hne => rw [hne.1.1] at hpci; cases hpci
    | cfMore hne => rw [hne.1.1] at hpci; cases hpci
  · rw [step_ff_ignored hidle hpci]
    exact ⟨rfl, .inl ⟨hst, fun h => absurd h hidle⟩⟩

theorem deliveries_append_nil {acts : List Act} (h : deliveries acts = []) :
    deliveries (out ++ acts) = deliveries out := by
  rw [deliveries_append, h, List.append_nil]

theorem Along.first (h : Along id msg places c out) (hr : r.IsPart id msg 0)
    (henv : r.env.Supplies) (hlong : sfNumDataBytes < msg.length) (hshort : msg.length < 4096) :
    Along id msg places (canTp.step c (.canrxCb r)).1
      (out ++ (canTp.step c (.canrxCb r)).2) := by
  have hf := hr.first hlong
  have hpci := pci_of_ffFrame hf
  cases h with
  | opening hst hsn hplaces hout =>
      obtain ⟨hnone, hafter⟩ := first_frame hf henv hlong hshort hst hsn
      have hout' := (deliveries_append_nil hnone).trans hout
      subst hplaces
      rcases hafter with ⟨hst', hsn'⟩ | hfill
      · exact .opening hst' hsn' rfl hout'
      · rw [hr.1] at hfill
        exact .receiving hfill.toReception (Nat.le_refl 0) (fun _ => hfill)
          (iff_of_true rfl rfl) hout'
  | receiving hrec hle hfill hplaces hout =>
      rw [step_ff_ignored (by simp [hrec.state]) hpci]
      exact .receiving hrec hle hfill hplaces ((deliveries_append_nil rfl).trans hout)
  | done hst hplaces hout hd =>
      rw [step_ff_ignored (by simp [hst]) hpci]
      exact .done hst hplaces ((deliveries_append_nil rfl).trans hout) hd

theorem append_eq_range_iff (places : List Nat) (i : Nat) :
    places ++ [i] = List.range (places ++ [i]).length ↔
      i = places.length ∧ places = List.range places.length := by
  rw [List.length_append, List.length_singleton, List.range_succ]
  constructor
  · intro h
    obtain ⟨hplaces, hi⟩ := List.append_inj' h rfl
    exact ⟨List.singleton_inj.mp hi, hplaces⟩
  · rintro ⟨hi, hplaces⟩
    rw [← hplaces, ← hi]

theorem Along.ignored (h : Along id msg places c out) (hst : c.rcvr.state ≠ .fcSent)
    (hr : r.IsCf id) :
    Along id msg places (canTp.step c (.canrxCb r)).1
      (out ++ (canTp.step c (.canrxCb r)).2) := by
  rw [step_cf_ignored hst hr.pci]
  cases h with
  | opening hst hsn hplaces hout =>
      exact .opening hst hsn hplaces ((deliveries_append_nil rfl).trans hout)
  | receiving hrec => exact absurd hrec.state hst
  | done hst hplaces hout hd =>
      exact .done hst hplaces ((deliveries_append_nil rfl).trans hout) hd

theorem Along.consec {i : Nat} (h : Along id msg places c out) (hst : c.rcvr.state = .fcSent)
    (hr : r.IsPart id msg (i + 1)) (hlong : sfNumDataBytes < msg.length)
    (hnear : i < places.length + 16 ∧ places.length < i + 16) :
    Along id msg (places ++ [i]) (canTp.step c (.canrxCb r)).1
      (out ++ (canTp.step c (.canrxCb r)).2) := by
  obtain ⟨hi, hf, hcf⟩ := hr.consec hlong
  have hlen : (places ++ [i]).length = places.length + 1 := List.length_append
  cases h with
  | opening hne => exact absurd hst hne
  | done hdone => rw [hst] at hdone; cases hdone
  | receiving hrec hle hfill hplaces hout =>
      have hrange := append_eq_range_iff places i
      rw [hlen] at hrange
      cases hrec.arrives hle hfill hcf hf hi hnear with
      | complete hplace htaken hlast hall hone =>
          obtain ⟨buf, hbuf, -, htake⟩ := hall.holds
          have hdeliver := deliveries_append out (canTp.step c (.canrxCb r)).2
          rw [hout, hone, List.nil_append] at hdeliver
          have hplaces' := hrange.mpr ⟨hplace, hplaces.mp htaken⟩
          rw [hlast] at hplaces'
          exact .done hall.state hplaces' hdeliver
            ⟨rfl, buf, hbuf, by rw [htake, List.take_length]⟩
      | fills hplace htaken hnext hnone =>
          have hnext' : Filling id msg (places ++ [i]).length _ := hlen ▸ hnext
          exact .receiving hnext'.toReception (Nat.le_refl _) (fun _ => hnext')
            (iff_of_true rfl (hlen ▸ hrange.mpr ⟨hplace, hplaces.mp htaken⟩))
            ((deliveries_append_nil hnone).trans hout)
      | apart hoff hnext hlt hnone =>
          rw [← hlen] at hnext hlt
          refine .receiving hnext hlt.le (fun heq => absurd heq hlt.ne)
            (iff_of_false hlt.ne ?_) ((deliveries_append_nil hnone).trans hout)
          rw [hlen, hrange, ← hplaces]
          exact hoff

end Frames

end CanTp
