import CanTp.Pdu.Codec
import CanTp.Receiver.Outcome

/-!
# A context reads units only

What `cantp_canrx_cb` does with a received frame depends on the unit that the frame
carries and on nothing else: neither on the bytes behind a Flow Control unit nor on the
number of bytes received, and a frame that carries no unit is not there. Only
`print_cantp_frame` gets to see the frame itself.
-/

namespace CanTp

open Library

/-- The frame as a peer would have sent it: its unit alone. -/
def RxFrame.normal (r : RxFrame) : Option RxFrame :=
  r.frame.pdu.map fun p => .ofFrame r.env r.id r.idt p.frame

/-- The calls of a context with the frames in their normal form. -/
def Event.normal : Event → Option Event
  | .canrxCb r => r.normal.map .canrxCb
  | e => some e

/-- The calls of `print_cantp_frame`. -/
def Act.prints : Act → Bool
  | .printCantpFrame _ => true
  | _ => false

/-- The calls made, what is printed apart. -/
def unprinted (log : List Act) : List Act := log.filter fun a => !a.prints

theorem unprinted_append (l m : List Act) : unprinted (l ++ m) = unprinted l ++ unprinted m :=
  List.filter_append ..

section Frames

variable {f g : CantpFrame} {p : NPdu}

/-- All bytes of a frame are read, except of a Flow Control frame. -/
theorem frame_eq_of_pdu (hf : f.pdu = some p) (hpci : p.pci ≠ .flowControll) :
    f = p.frame := by
  have hlen : p.bytes.length = f.u8.toList.length := by
    rw [p.length_bytes, if_neg hpci, Vector.length_toList]
  rw [NPdu.frame, (pdu_iff_begins.mp hf).eq_of_length hlen, CantpFrame.ofList_toList]

theorem flow_fields_eq (hf : f.pdu = some p) (hg : g.pdu = some p)
    (hpci : p.pci = .flowControll) : f.fcFs = g.fcFs ∧ f.fcBs = g.fcBs ∧ f.fcSt = g.fcSt := by
  have heq : f.pduAs .flowControll = g.pduAs .flowControll := by
    rw [← hpci, (pdu_eq_some_iff.mp hf).2, (pdu_eq_some_iff.mp hg).2]
  obtain ⟨hfs, hbs, hst⟩ := NPdu.flowControll.inj heq
  rw [CantpFrame.fcFs, CantpFrame.fcFs, fin_ofNat_eq_iff f.toNat_low_lt, Fin.val_ofNat,
    Nat.mod_eq_of_lt g.toNat_low_lt] at hfs
  exact ⟨UInt8.toNat_inj.mp hfs, hbs, hst⟩

theorem sndrRxFlowControlFrame_congr (id : UInt32) (w : World)
    (h : f.fcFs = g.fcFs ∧ f.fcBs = g.fcBs ∧ f.fcSt = g.fcSt) :
    sndrRxFlowControlFrame id f w = sndrRxFlowControlFrame id g w := by
  rw [sndrRxFlowControlFrame, h.1, h.2.1, h.2.2]
  rfl

theorem sndrRxFlowControlFrame_append (id : UInt32) (f : CantpFrame) (c : CantpRxtxStatus) :
    ∃ c' acts, ∀ log, sndrRxFlowControlFrame id f ⟨c, log⟩ = ⟨c', log ++ acts⟩ := by
  cases hcts : ctsDelay f with
  | none =>
      obtain ⟨us, name, hother⟩ := flowControl_other c.sndr id hcts
      refine ⟨{ c with sndr := c.sndr.withFc id f us name }, [], fun log => ?_⟩
      rw [hother _ rfl, List.append_nil]
  | some us =>
      by_cases hrem : 0 < c.sndr.remaining
      · let c' := { c with sndr := c.sndr.withFc id f us .nCs }
        exact ⟨{ c' with sndr := c'.sndr.afterCf }, c'.cfActs, fun log =>
          flowControl_cts hcts hrem⟩
      · refine ⟨{ c with sndr := c.sndr.withFc id f us .nAs }, [], fun log => ?_⟩
        rw [flowControl_cts_none hcts (not_lt.mp hrem), List.append_nil]

end Frames

section Calls

variable {c : CantpRxtxStatus} {r : RxFrame} {p : NPdu}

theorem RxFrame.pci_eq (h : r.frame.pdu = some p) : r.pci = some p.pci :=
  CantpNPciType.ofUInt8_eq_some_iff.mpr (pdu_eq_some_iff.mp h).1

theorem step_of_no_pdu (h : r.frame.pdu = none) : canTp.step c (.canrxCb r) = (c, []) := by
  have hpci : r.pci = none := Option.map_eq_none_iff.mp h
  rw [canTp_step, canrx_unknown hpci]

theorem step_congr {r' : RxFrame} (hf : r.frame = r'.frame) (henv : r.env = r'.env)
    (hid : r.id = r'.id) (hidt : r.idt = r'.idt) :
    canTp.step c (.canrxCb r) = canTp.step c (.canrxCb r') := by
  rw [RxFrame.frame, RxFrame.frame] at hf
  rw [canTp_step, canTp_step, handle, handle, cantpCanrxCb, cantpCanrxCb]
  simp only [cantpCanrxCbAmong, World.mark_eq, hf, henv, hid, hidt]

/-- A Flow Control frame and what comes of it, whatever else the frame carries. -/
theorem step_flow {r' : RxFrame} (h : r.frame.pdu = some p) (h' : r'.frame.pdu = some p)
    (hpci : p.pci = .flowControll) (hid : r.id = r'.id) :
    (canTp.step c (.canrxCb r)).1 = (canTp.step c (.canrxCb r')).1 ∧
      unprinted (canTp.step c (.canrxCb r)).2 = unprinted (canTp.step c (.canrxCb r')).2 := by
  have hfields := flow_fields_eq h h' hpci
  rw [canTp_step, canTp_step, canrx_flowControll (hpci ▸ RxFrame.pci_eq h),
    canrx_flowControll (hpci ▸ RxFrame.pci_eq h')]
  by_cases hst : c.sndr.state = .ffFcWait
  · rw [canrxFlowControll_take (by exact hst), canrxFlowControll_take (by exact hst),
      sndrRxFlowControlFrame_congr _ _ hfields, hid]
    obtain ⟨c', acts, happend⟩ := sndrRxFlowControlFrame_append r'.id r'.frame c
    have hprinted : ∀ f, sndrRxFlowControlFrame r'.id r'.frame
        ((World.mk c []).emit (.printCantpFrame f)) = ⟨c', .printCantpFrame f :: acts⟩ :=
      fun f => happend [.printCantpFrame f]
    rw [hprinted, hprinted]
    exact ⟨rfl, rfl⟩
  · rw [canrxFlowControll_drop (by exact hst), canrxFlowControll_drop (by exact hst)]
    exact ⟨rfl, rfl⟩

/-- A frame is handled as the frame that carries its unit alone. -/
theorem step_normal (h : r.frame.pdu = some p) :
    (canTp.step c (.canrxCb (.ofFrame r.env r.id r.idt p.frame))).1 =
        (canTp.step c (.canrxCb r)).1 ∧
      unprinted (canTp.step c (.canrxCb (.ofFrame r.env r.id r.idt p.frame))).2 =
        unprinted (canTp.step c (.canrxCb r)).2 := by
  have hframe := frame_ofFrame r.env r.id r.idt p.frame
  by_cases hpci : p.pci = .flowControll
  · exact step_flow (by rw [hframe, pdu_frame]) h hpci rfl
  · rw [step_congr (hframe.trans (frame_eq_of_pdu h hpci).symm) rfl rfl rfl]
    exact ⟨rfl, rfl⟩

end Calls

/-- In every run of a context: if each received frame is replaced by one that carries its
unit alone, and a frame without a unit is taken out, the context comes to the same state and
makes the same calls. -/
theorem run_normal (c : CantpRxtxStatus) (es : List Event) :
    canTp.run c (es.filterMap Event.normal) = canTp.run c es ∧
      unprinted (canTp.outputs c (es.filterMap Event.normal)) =
        unprinted (canTp.outputs c es) := by
  induction es generalizing c with
  | nil => exact ⟨rfl, rfl⟩
  | cons e es ih =>
      have hkept : e.normal = some e → canTp.run c ((e :: es).filterMap Event.normal) =
          canTp.run c (e :: es) ∧ unprinted (canTp.outputs c ((e :: es).filterMap Event.normal)) =
            unprinted (canTp.outputs c (e :: es)) := fun he => by
        rw [List.filterMap_cons_some he, Mealy.run_cons, Mealy.run_cons, Mealy.outputs_cons,
          Mealy.outputs_cons, unprinted_append, unprinted_append, (ih _).1, (ih _).2]
        exact ⟨rfl, rfl⟩
      cases e with
      | canrxCb r =>
          rw [Mealy.run_cons, Mealy.outputs_cons, unprinted_append, ← (ih _).1, ← (ih _).2]
          cases hpdu : r.frame.pdu with
          | none =>
              rw [List.filterMap_cons_none (by simp [Event.normal, RxFrame.normal, hpdu]),
                step_of_no_pdu hpdu]
              exact ⟨rfl, rfl⟩
          | some p =>
              obtain ⟨hctx, hcalls⟩ := step_normal (c := c) hpdu
              rw [List.filterMap_cons_some (by simp [Event.normal, RxFrame.normal, hpdu]; rfl),
                Mealy.run_cons, Mealy.outputs_cons, unprinted_append, hctx, hcalls]
              exact ⟨rfl, rfl⟩
      | _ => exact hkept rfl

end CanTp
