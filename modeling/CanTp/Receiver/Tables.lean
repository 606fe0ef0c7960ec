import CanTp.Carriers
import CanTp.Receiver.Outcome

/-!
# Tables with a fixed number of entries

The frame type, the flow status and the data length of a received frame are four bits each,
and the tables they index have four, three and eight entries. The type is looked at before
a frame is printed, the other two are not: the copy of the received bytes runs to the data
length whatever it is, and a Flow Control frame that the sender takes is printed with the
name of its status. Four bits too is the length of a Single Frame, and the session layer
reads as many bytes from the seven that there are.
-/

namespace CanTp

open Library

/-- The index is inside of the array or table, or the value is set. -/
def Access.Inside : Access → Prop
  | .rxFrame i | .rxData i | .printed i => i < 8
  | .frameName i => i < 4
  | .flowStatusName i => i < 3
  | .stateName i => i < 15
  | .unset => False

instance : ∀ a : Access, Decidable a.Inside
  | .rxFrame i | .rxData i | .printed i => inferInstanceAs (Decidable (i < 8))
  | .frameName i => inferInstanceAs (Decidable (i < 4))
  | .flowStatusName i => inferInstanceAs (Decidable (i < 3))
  | .stateName i => inferInstanceAs (Decidable (i < 15))
  | .unset => isFalse id

/-- The frame `r` is a Flow Control frame that the sender takes, at once or after the wait
for its state to change, in which the other tasks make `others` of the context. -/
def FcHandled (others : CantpRxtxStatus → CantpRxtxStatus) (c : CantpRxtxStatus)
    (r : RxFrame) : Prop :=
  r.pci = some .flowControll ∧ (c.sndr.state = .ffFcWait ∨
    (0 ≤ r.env.sndrStateSemTake ∧ (others c).sndr.state = .ffFcWait))

/-- The lengths in the frame `r` are numbers of bytes that it can have, and its flow status
is one of the three if the sender takes it. -/
structure IndexesNamed (others : CantpRxtxStatus → CantpRxtxStatus) (c : CantpRxtxStatus)
    (r : RxFrame) : Prop where
  dlc : r.dlc.toNat ≤ 8
  single : r.pci = some .singleFrame → r.frame.sfLen.toNat ≤ sfNumDataBytes
  status : FcHandled others c r → r.frame.fcFs.toNat < 3

/-- The handling of the frame `r` in `c`, with a trace of the elements accessed. -/
def RxFrame.canrxTraced (r : RxFrame) (others : CantpRxtxStatus → CantpRxtxStatus)
    (c : CantpRxtxStatus) : Traced World Access :=
  cantpCanrxCbAmong others r.env r.id r.idt r.dlc r.data ⟨⟨c, []⟩, []⟩

/-- The elements accessed while the frame `r` is handled in `c`. -/
def RxFrame.accesses (r : RxFrame) (others : CantpRxtxStatus → CantpRxtxStatus)
    (c : CantpRxtxStatus) : List Access :=
  (r.canrxTraced others c).trace

/-- Between `t` and `u` nothing outside is accessed. -/
abbrev StaysInside (t u : Traced World Access) : Prop := Traced.Adds Access.Inside t u

/-! ### Printing -/

section Print

variable {f : CantpFrame} {t u : Traced World Access} {pci : CantpNPciType}

theorem nameRead_inside (st : CantpState) : st.nameRead.Inside := by
  cases st <;> decide

theorem StaysInside.stateName (h : StaysInside t u) (st : CantpState) :
    StaysInside t (u.mark [st.nameRead]) :=
  h.mark (by simpa using nameRead_inside st)

theorem StaysInside.sndrSetState (h : StaysInside t u) (st : CantpState) :
    StaysInside t (cantpSndrSetState u st) :=
  StaysInside.stateName h st

theorem StaysInside.rcvrSetState (h : StaysInside t u) (st : CantpState) :
    StaysInside t (cantpRcvrSetState u st) :=
  StaysInside.stateName h st

theorem toNat_lt_of_ofUInt8 {v : UInt8} (h : CantpNPciType.ofUInt8 v = some pci) :
    v.toNat < 4 := by
  unfold CantpNPciType.ofUInt8 at h
  split_ifs at h with h0 h1 h2 h3
  · simp [h0]
  · simp [h1]
  · simp [h2]
  · simp [h3]

/-- A frame of a known type is printed inside of the tables, if its flow status has a name. -/
theorem printCantpFrame_inside (hpci : CantpNPciType.ofUInt8 f.nPciT = some pci)
    (hfs : pci = .flowControll → f.fcFs.toNat < 3) : ∀ a ∈ printCantpFrame f, a.Inside := by
  have hname := toNat_lt_of_ofUInt8 hpci
  intro a ha
  rw [printCantpFrame, hpci] at ha
  rcases List.mem_cons.mp ha with rfl | ha
  · exact hname
  · cases pci with
    | singleFrame | firstFrame | consecFrame =>
        obtain ⟨i, hi, rfl⟩ := List.mem_map.mp ha
        simp only [List.mem_range, sfNumDataBytes, ffNumDataBytes, cfNumDataBytes] at hi
        simp only [Access.Inside]
        omega
    | flowControll =>
        rw [List.mem_singleton.mp ha]
        exact hfs rfl

theorem StaysInside.print (h : StaysInside t u) (pci : CantpNPciType)
    (hpci : CantpNPciType.ofUInt8 f.nPciT = some pci)
    (hfs : pci = .flowControll → f.fcFs.toNat < 3) : StaysInside t (callPrintCantpFrame f u) :=
  h.mark (printCantpFrame_inside hpci hfs)

theorem StaysInside.printFc (h : StaysInside t u) (fs : CantpFcFlowStatus)
    (hpci : f.nPciT = CantpNPciType.flowControll.toUInt8) (hfs : f.fcFs = fs.toUInt8) :
    StaysInside t (callPrintCantpFrame f u) := by
  refine StaysInside.print h .flowControll ?_ fun _ => ?_
  · rw [hpci, CantpNPciType.ofUInt8_toUInt8]
  · rw [hfs]
    cases fs <;> decide

theorem StaysInside.printCts (h : StaysInside t u) (p : CantpParams) :
    StaysInside t (callPrintCantpFrame (ctsFrame p f) u) := by
  refine StaysInside.printFc h .cts ?_ ?_
  · simp [ctsFrame, CantpFrame.setFcSt, CantpFrame.setFcBs, CantpFrame.setFcFs,
      CantpNPciType.toUInt8]
  · simp [ctsFrame, CantpFrame.setFcSt, CantpFrame.setFcBs, CantpFrame.setFcFs,
      CantpFrame.fcFs, CantpFcFlowStatus.toUInt8]

theorem StaysInside.printWait (h : StaysInside t u) :
    StaysInside t (callPrintCantpFrame (waitFrame f) u) := by
  refine StaysInside.printFc h .wait ?_ ?_
  · simp [waitFrame, CantpFrame.setFcSt, CantpFrame.setFcBs, CantpFrame.setFcFs,
      CantpNPciType.toUInt8]
  · simp [waitFrame, CantpFrame.setFcSt, CantpFrame.setFcBs, CantpFrame.setFcFs,
      CantpFrame.fcFs, CantpFcFlowStatus.toUInt8]

end Print

/-! ### The functions of the sender and the receiver -/

section Functions

variable {env : Env} {id : UInt32} {idt : UInt8} {frame : CantpFrame}
  {t u : Traced World Access}

theorem StaysInside.sendCf (h : StaysInside t u) :
    StaysInside t (sndrSendCfAfrerFc u) := by
  simp only [sndrSendCfAfrerFc, cantpCanTxNb, Traced.val_eq, Traced.on_eq, Traced.call_eq]
  split
  · exact (h.on _).on _
  · rename_i hrem
    simp only [sndrCopy_eq (not_le.mp hrem)]
    refine Traced.Adds.on (StaysInside.print (StaysInside.sndrSetState
      (((h.on _).on _).on _) _) .consecFrame ?_ fun h => by cases h) _
    simp [SndrState.nextCf, CantpNPciType.ofUInt8]

theorem StaysInside.rxFlowControl (h : StaysInside t u) :
    StaysInside t (sndrRxFlowControlFrame id frame u) := by
  have hstart : ∀ f g e, StaysInside t (((u.on f).on g).on e) := fun f g e =>
    ((h.on f).on g).on e
  simp only [sndrRxFlowControlFrame, Traced.val_eq, Traced.on_eq]
  split
  · exact hstart _ _ _
  · split
    · exact StaysInside.sendCf (Traced.Adds.on (hstart _ _ _) _)
    · exact Traced.Adds.on (Traced.Adds.on (hstart _ _ _) _) _
    · exact Traced.Adds.on (hstart _ _ _) _
    · exact Traced.Adds.on (hstart _ _ _) _

theorem StaysInside.copy {n k : Nat} {store : Nat → World → World} (h : StaysInside t u)
    (hn : k + n ≤ 8) : StaysInside t
      (forUpTo n (fun i v => (v.mark [.rxFrame (k + i)]).on (store i)) u) := by
  refine h.trans (Traced.Adds.forUpTo (fun i hi v => ?_) u)
  refine ((Traced.Adds.refl v).mark fun a ha => ?_).on _
  have hlt : k + i < 8 := by omega
  rw [List.mem_singleton.mp ha]
  exact hlt

theorem StaysInside.rxFirstFrame {idt : UInt8} (h : StaysInside t u) :
    StaysInside t (rcvrRxFirstFrame env id idt frame u) := by
  have hstart : ∀ f g e, StaysInside t
      ((((cantpRcvrSetState u .ffRcvd).on f).on g).on e) := fun f g e =>
    (((StaysInside.rcvrSetState h .ffRcvd).on f).on g).on e
  simp only [rcvrRxFirstFrame, Traced.val_eq, Traced.on_eq, Traced.mark_eq]
  split
  · exact StaysInside.rcvrSetState (Traced.Adds.on (hstart _ _ _) _) _
  · split
    · exact hstart _ _ _
    · refine Traced.Adds.on (Traced.Adds.on (StaysInside.rcvrSetState (Traced.Adds.on
        (StaysInside.printCts (StaysInside.rcvrSetState (Traced.Adds.on (Traced.Adds.on
          (Traced.Adds.on ?_ _) _) _) _) _) _) _) _) _
      exact StaysInside.copy (hstart _ _ _) (by decide)

theorem StaysInside.waitTurn (h : StaysInside t u) :
    StaysInside t (rcvrWaitTurn env frame u) :=
  Traced.Adds.on (StaysInside.rcvrSetState (Traced.Adds.on (StaysInside.printWait
    (Traced.Adds.on h _)) _) _) _

/-- The loop over the FC.WAIT frames, by its own recursion. -/
theorem StaysInside.waitLoop (h : StaysInside t u) :
    StaysInside t (rcvrWaitLoop env frame u) := by
  induction frame, u using @rcvrWaitLoop.induct (Traced World Access) _ env with
  | case1 frame u u' hgt =>
      rw [rcvrWaitLoop, if_pos hgt]
      exact (StaysInside.waitTurn h).on _
  | case2 frame u u' hgt u'' hlt ih =>
      rw [rcvrWaitLoop, if_neg hgt, if_pos hlt]
      exact ih ((StaysInside.waitTurn h).on _)
  | case3 frame u u' hgt u'' hlt =>
      rw [rcvrWaitLoop, if_neg hgt, if_neg hlt]
      exact (StaysInside.waitTurn h).on _

theorem StaysInside.sendWaits (h : StaysInside t u) :
    StaysInside t (rcvrSendWaits env frame u).2 := by
  rw [rcvrSendWaits]
  split
  · exact StaysInside.waitLoop (h.on _)
  · exact h

theorem StaysInside.countBlock (h : StaysInside t u) :
    StaysInside t (rcvrCountBlock env frame u) := by
  simp only [rcvrCountBlock, Traced.val_eq, Traced.on_eq]
  split
  · split
    · exact Traced.Adds.on (StaysInside.rcvrSetState (Traced.Adds.on (StaysInside.printCts
        (Traced.Adds.on (Traced.Adds.on h _) _) _) _) _) _
    · exact (h.on _).on _
  · exact h.on _

theorem bytesRcvd_le {remaining : Int} (h : ¬ remaining ≤ 0) :
    (if remaining < cfNumDataBytes then UInt8.ofInt remaining
      else UInt8.ofNat cfNumDataBytes).toNat ≤ 7 := by
  rw [cfNumDataBytes]
  split
  · rw [toNat_ofInt_uint8 (by omega) (by omega)]
    omega
  · decide

theorem StaysInside.rxConsecutiveFrame (h : StaysInside t u) :
    StaysInside t (rcvrRxConsecutiveFrame env id frame u) := by
  have hstart : ∀ f g e, StaysInside t (((u.on f).on g).on e) := fun f g e =>
    ((h.on f).on g).on e
  simp only [rcvrRxConsecutiveFrame, Traced.val_eq, Traced.on_eq, Traced.mark_eq]
  split
  · exact h
  · split
    · exact hstart _ _ _
    · split
      · exact hstart _ _ _
      · rename_i hrem
        have hlen := bytesRcvd_le hrem
        split
        · exact Traced.Adds.on (StaysInside.rcvrSetState
            (StaysInside.copy (hstart _ _ _) (by omega)) _) _
        · exact StaysInside.countBlock (StaysInside.sendWaits
            (StaysInside.copy (hstart _ _ _) (by omega)))

/-- A Flow Control frame is printed with the name of its status, whatever the sender then
makes of it. -/
theorem rxFlowControl_print_iff (hpci : CantpNPciType.ofUInt8 frame.nPciT = some .flowControll) :
    (∀ a ∈ (sndrRxFlowControlFrame id frame (callPrintCantpFrame frame t)).trace, a.Inside) ↔
      (∀ a ∈ t.trace, a.Inside) ∧ frame.fcFs.toNat < 3 := by
  rw [Traced.Adds.forall_iff (StaysInside.rxFlowControl (.refl (callPrintCantpFrame frame t)))]
  constructor
  · intro h
    refine ⟨fun a ha => h a (List.mem_append_left _ ha), ?_⟩
    refine h (.flowStatusName frame.fcFs.toNat) (List.mem_append_right _ ?_)
    simp [printCantpFrame, hpci]
  · rintro ⟨h, hfs⟩
    exact (Traced.Adds.forall_iff (StaysInside.print (.refl t) _ hpci fun _ => hfs)).mpr h

theorem canrxFlowControll_inside_iff {others : CantpRxtxStatus → CantpRxtxStatus}
    (hpci : CantpNPciType.ofUInt8 frame.nPciT = some .flowControll) :
    (∀ a ∈ (canrxFlowControllAmong others env id frame t).trace, a.Inside) ↔
      (∀ a ∈ t.trace, a.Inside) ∧ (t.val.ctx.sndr.state = .ffFcWait ∨
        0 ≤ env.sndrStateSemTake ∧ (others t.val.ctx).sndr.state = .ffFcWait →
        frame.fcFs.toNat < 3) := by
  simp only [canrxFlowControllAmong, Traced.val_eq, Traced.on_eq]
  by_cases hst : t.val.ctx.sndr.state = .ffFcWait
  · rw [if_neg (not_not_intro hst), rxFlowControl_print_iff hpci]
    simp [hst]
  · rw [if_pos hst]
    by_cases hsem : env.sndrStateSemTake < 0
    · rw [if_pos hsem]
      simp [hst, hsem]
    · rw [if_neg hsem]
      split
      · rename_i hst'
        have hst' : ¬ (others t.val.ctx).sndr.state = .ffFcWait := hst'
        simp [hst, hst']
      · rename_i hst'
        have hst' : (others t.val.ctx).sndr.state = .ffFcWait := not_not.mp hst'
        rw [rxFlowControl_print_iff hpci]
        simp [hst', not_lt.mp hsem]

end Functions

/-! ### The handling of a frame -/

section Canrx

variable {others : CantpRxtxStatus → CantpRxtxStatus} {c : CantpRxtxStatus} {r : RxFrame}

theorem receivedSf_inside_iff (len : UInt8) :
    (∀ a ∈ receivedSf len, a.Inside) ↔ len.toNat ≤ sfNumDataBytes := by
  simp only [receivedSf, List.forall_mem_map, List.mem_range, Access.Inside, sfNumDataBytes]
  constructor
  · intro h
    by_contra hlen
    exact absurd (h 7 (by omega)) (by decide)
  · intro hlen i hi
    omega

theorem rxFrameCopied_inside_iff (dlc : UInt8) :
    (∀ a ∈ rxFrameCopied dlc, a.Inside) ↔ dlc.toNat ≤ 8 := by
  simp only [rxFrameCopied, List.mem_flatMap, List.mem_range, List.mem_pair]
  constructor
  · intro h
    by_contra hdlc
    exact absurd (h (.rxFrame 8) ⟨8, by omega, Or.inl rfl⟩) (by decide)
  · rintro hdlc a ⟨i, hi, rfl | rfl⟩
    · exact lt_of_lt_of_le hi hdlc
    · exact lt_of_lt_of_le hi hdlc

/-- Where the handling of a frame starts, with the bytes copied. -/
def copied (c : CantpRxtxStatus) (dlc : UInt8) : Traced World Access :=
  ⟨⟨c, []⟩, rxFrameCopied dlc⟩

theorem accesses_inside_of_single (hpci : r.pci = some .singleFrame) :
    (∀ a ∈ r.accesses others c, a.Inside) ↔
      r.dlc.toNat ≤ 8 ∧ r.frame.sfLen.toNat ≤ sfNumDataBytes := by
  have hsf : CantpNPciType.ofUInt8 (rxFrame r.dlc r.data).nPciT = some .singleFrame := hpci
  have hdone : StaysInside (copied c r.dlc)
      (cantpRcvrSetState (callPrintCantpFrame r.frame (copied c r.dlc)) .rxDone) :=
    StaysInside.rcvrSetState (StaysInside.print (.refl _) _ hsf fun h => by cases h) _
  have hall := hdone.forall_iff
  rw [copied, rxFrameCopied_inside_iff] at hall
  simp only [RxFrame.accesses, RxFrame.canrxTraced, cantpCanrxCbAmong, hsf, Traced.on_eq,
    Traced.mark_eq, Traced.on_trace, Traced.mark_trace, List.forall_mem_append]
  exact and_congr hall (receivedSf_inside_iff _)

theorem accesses_inside_of_ne (hsf : r.pci ≠ some .singleFrame)
    (hpci : r.pci ≠ some .flowControll) :
    (∀ a ∈ r.accesses others c, a.Inside) ↔ r.dlc.toNat ≤ 8 := by
  rw [← rxFrameCopied_inside_iff r.dlc]
  have hadds : ∀ u : Traced World Access, StaysInside (copied c r.dlc) u →
      ((∀ a ∈ u.trace, a.Inside) ↔ ∀ a ∈ rxFrameCopied r.dlc, a.Inside) :=
    fun u h => h.forall_iff
  refine hadds _ ?_
  unfold RxFrame.pci RxFrame.frame at hsf hpci
  simp only [RxFrame.canrxTraced, cantpCanrxCbAmong]
  rcases hp : CantpNPciType.ofUInt8 (rxFrame r.dlc r.data).nPciT with _ | pci
  · exact .refl _
  · have hprint : StaysInside (copied c r.dlc)
        (callPrintCantpFrame (rxFrame r.dlc r.data) (copied c r.dlc)) :=
      StaysInside.print (.refl _) _ hp fun h => absurd (hp.trans (congrArg some h)) hpci
    cases pci with
    | singleFrame => exact absurd hp hsf
    | firstFrame =>
        dsimp only
        split
        · exact StaysInside.rxFirstFrame (StaysInside.stateName hprint _)
        · exact StaysInside.stateName hprint _
    | consecFrame =>
        dsimp only
        split
        · exact StaysInside.rxConsecutiveFrame (StaysInside.stateName hprint _)
        · exact StaysInside.stateName hprint _
    | flowControll => exact absurd hp hpci

theorem accesses_inside_of_fc (hpci : r.pci = some .flowControll) :
    (∀ a ∈ r.accesses others c, a.Inside) ↔
      r.dlc.toNat ≤ 8 ∧ (FcHandled others c r → r.frame.fcFs.toNat < 3) := by
  have hfc : CantpNPciType.ofUInt8 (rxFrame r.dlc r.data).nPciT = some .flowControll := hpci
  rw [← rxFrameCopied_inside_iff r.dlc]
  simp only [RxFrame.accesses, RxFrame.canrxTraced, cantpCanrxCbAmong, hfc]
  refine (canrxFlowControll_inside_iff hpci).trans (and_congr_right' ?_)
  simp only [FcHandled, hpci, true_and]
  rfl

theorem accesses_inside :
    (∀ a ∈ r.accesses others c, a.Inside) ↔ IndexesNamed others c r := by
  by_cases hsf : r.pci = some .singleFrame
  · refine (accesses_inside_of_single hsf).trans ⟨fun h => ⟨h.1, fun _ => h.2, fun hfc => ?_⟩,
      fun h => ⟨h.dlc, h.single hsf⟩⟩
    exact absurd (hsf.symm.trans hfc.1) (by simp)
  · by_cases hpci : r.pci = some .flowControll
    · exact (accesses_inside_of_fc hpci).trans
        ⟨fun h => ⟨h.1, fun h' => absurd h' hsf, h.2⟩, fun h => ⟨h.dlc, h.status⟩⟩
    · exact (accesses_inside_of_ne hsf hpci).trans
        ⟨fun h => ⟨h, fun h' => absurd h' hsf, fun hfc => absurd hfc.1 hpci⟩, fun h => h.dlc⟩

end Canrx

/-! ### Runs -/

/-- A context that answers every received frame with the elements accessed for it. Each call
comes with what the other tasks make of the context while it waits. -/
def canTpAccesses :
    Mealy CantpRxtxStatus (Event × (CantpRxtxStatus → CantpRxtxStatus)) Access where
  step c e :=
    match e.1 with
    | .canrxCb r =>
        ((r.canrxTraced e.2 c).val.ctx, r.accesses e.2 c)
    | call => ((canTp.step c call).1, [])

/-- Without other tasks it is the machine of one context. -/
theorem canTpAccesses_run (c : CantpRxtxStatus) (es : List Event) :
    canTpAccesses.run c (es.map fun e => (e, fun c => c)) = canTp.run c es := by
  have hstep : ∀ c e, (canTpAccesses.step c (e, fun c => c)).1 = (canTp.step c e).1 := by
    intro c e
    cases e with
    | canrxCb r => exact congrArg World.ctx (cantpCanrxCb_val ..)
    | send | cantxConfirmCb | sndrTimerCb | sndrTimerExpiry | rcvrTimerCb => rfl
  induction es generalizing c with
  | nil => rfl
  | cons e es ih => rw [List.map_cons, Mealy.run_cons, Mealy.run_cons, hstep, ih]

/-- In every run of a context, with whatever the other tasks do: all accesses are inside
exactly if no frame has a data length over eight, no Single Frame a length over seven, and
no Flow Control frame that the sender takes a status without a name. -/
theorem accesses_inside_iff (p : CantpParams)
    (es : List (Event × (CantpRxtxStatus → CantpRxtxStatus))) :
    (∀ a ∈ canTpAccesses.outputs (.fresh p) es, a.Inside) ↔
      canTpAccesses.Admits (fun c e => Event.OnRx (IndexesNamed e.2) c e.1) (.fresh p) es := by
  rw [Mealy.forall_outputs_iff]
  refine Mealy.admits_congr_of (P := fun _ => True) (fun c e _ => ?_) (fun _ _ _ _ => trivial)
    trivial
  obtain ⟨call, others⟩ := e
  cases call with
  | canrxCb r => exact accesses_inside
  | send | cantxConfirmCb | sndrTimerCb | sndrTimerExpiry | rcvrTimerCb =>
      exact iff_of_true (fun a ha => by cases ha) trivial

/-- The frames that `cantp_rx_task` passes on. -/
def RxFrame.PassedOn (r : RxFrame) : Prop := r.dlc.toNat < 16 ∧ r.data.length = 8

/-- A Single Frame that is said to have nine bytes. -/
theorem not_accesses_inside :
    ¬ ∀ (p : CantpParams) (es : List (Event × (CantpRxtxStatus → CantpRxtxStatus))),
      canTpAccesses.Admits (fun c e => Event.OnRx (fun _ r => r.PassedOn) c e.1) (.fresh p) es →
      ∀ a ∈ canTpAccesses.outputs (.fresh p) es, a.Inside := by
  intro h
  have hinside := h ⟨0, 0, 0, 0, 0, 0, 0, 0⟩
    [(.canrxCb ⟨.accepting, 5, 0, 9, [7, 1, 2, 3, 4, 5, 6, 7]⟩, fun c => c)]
    ⟨⟨by decide, by decide⟩, trivial⟩ (.rxFrame 8) (by decide)
  exact absurd hinside (by decide)

end CanTp
