import CanTp.Receiver.History

/-!
# Frames of other nodes

A Consecutive Frame is compared with the paired id and a First Frame with the state,
so neither disturbs a reception when it comes from another node. A Single Frame is
compared with nothing: it takes the receiver out of `FC_SENT`, and the rest of the
reception is lost.

`receptionOf id` is the receiver as the node `id` sees it: of a step it shows the
bytes stored and the FC frames sent, and the deliveries if the frame is its own.
-/

namespace CanTp

open Library

/-- What a step contributes to the reception of a node: `own` says that the frame
came from that node. -/
def Act.ofReception (own : Bool) : Act → Bool
  | .rcvrWrite .. | .canTx .. => true
  | .receivedCb .. => own
  | _ => false

/-- The receiver with the calls that belong to the reception from `id`. -/
def receptionOf (id : UInt32) : Mealy CantpRxtxStatus RxFrame Act where
  step c r := ((canTp.step c (.canrxCb r)).1,
    (canTp.step c (.canrxCb r)).2.filter (Act.ofReception (r.id = id)))

/-- The stores, the FC frames and the deliveries of the reception are the same
without the frames of other nodes, and so are the bytes stored in the end. -/
def Undisturbed (c : CantpRxtxStatus) (rs : List RxFrame) : Prop :=
  let M := receptionOf c.rcvr.idPair
  let own := rs.filter fun r => r.id = c.rcvr.idPair
  M.outputs c rs = M.outputs c own ∧
    (M.run c rs).rcvr.data = (M.run c own).rcvr.data

/-- No Single Frame of another node arrives while the reception from `id` goes on. -/
def NoForeignSf (id : UInt32) (c : CantpRxtxStatus) (r : RxFrame) : Prop :=
  r.id ≠ id → r.pci = some .singleFrame → c.rcvr.state ≠ .fcSent

instance (id : UInt32) (c : CantpRxtxStatus) (r : RxFrame) :
    Decidable (NoForeignSf id c r) :=
  inferInstanceAs (Decidable (_ → _ → _))

/-- The reception is over: the receiver is neither in it nor ready for another one. -/
def CantpState.Over (st : CantpState) : Prop := st ≠ .idle ∧ st ≠ .fcSent

/-- The run with all frames and the run with the frames of `id` only are in the same
state, in the middle of the reception, or have both come to its end. -/
def SameReception (id : UInt32) (s t : CantpRxtxStatus) : Prop :=
  (s = t ∧ s.rcvr.state = .fcSent ∧ s.rcvr.idPair = id) ∨
    (s.rcvr.state.Over ∧ t.rcvr.state.Over ∧ s.rcvr.data = t.rcvr.data)

section Step

variable {id : UInt32} {c : CantpRxtxStatus} {r : RxFrame}

/-- When the reception is over a frame stores nothing and sends nothing, and what it
delivers does not depend on the context. -/
theorem step_over (hover : c.rcvr.state.Over) (hr : r.pci ≠ some .flowControll) :
    (canTp.step c (.canrxCb r)).1.rcvr.state.Over ∧
      (canTp.step c (.canrxCb r)).1.rcvr.data = c.rcvr.data ∧
      (canTp.step c (.canrxCb r)).2.filter (Act.ofReception (r.id = id)) =
        if r.id = id ∧ r.pci = some .singleFrame then
          [.receivedCb r.id r.idt (some ((List.range sfNumDataBytes).map r.frame.sfD))
            r.frame.sfLen]
        else [] := by
  obtain ⟨hidle, hsent⟩ := hover
  rw [canTp_step]
  rcases hpci : r.pci with _ | pci
  · rw [canrx_unknown hpci]
    exact ⟨⟨hidle, hsent⟩, rfl, by simp⟩
  · cases pci with
    | singleFrame =>
        rw [canrx_singleFrame hpci]
        refine ⟨⟨by simp, by simp⟩, rfl, ?_⟩
        by_cases hid : r.id = id <;> simp [hid, Act.ofReception]
    | firstFrame =>
        rw [canrx_firstFrame hpci, if_neg hidle]
        exact ⟨⟨hidle, hsent⟩, rfl, by simp [Act.ofReception]⟩
    | consecFrame =>
        rw [canrx_consecFrame hpci, if_neg hsent]
        exact ⟨⟨hidle, hsent⟩, rfl, by simp [Act.ofReception]⟩
    | flowControll => exact absurd hpci hr

/-- In the middle of a reception every frame leads to `FC_SENT`, with the same pair,
or ends the reception. -/
theorem step_fcSent (hst : c.rcvr.state = .fcSent) (hr : r.pci ≠ some .flowControll) :
    ((canTp.step c (.canrxCb r)).1.rcvr.state = .fcSent ∧
        (canTp.step c (.canrxCb r)).1.rcvr.idPair = c.rcvr.idPair) ∨
      (canTp.step c (.canrxCb r)).1.rcvr.state.Over := by
  have hidle : c.rcvr.state ≠ .idle := by simp [hst]
  rw [canTp_step]
  rcases hpci : r.pci with _ | pci
  · rw [canrx_unknown hpci]
    exact Or.inl ⟨hst, rfl⟩
  · cases pci with
    | singleFrame =>
        rw [canrx_singleFrame hpci]
        exact Or.inr ⟨by simp, by simp⟩
    | firstFrame =>
        rw [canrx_firstFrame hpci, if_neg hidle]
        exact Or.inl ⟨hst, rfl⟩
    | consecFrame =>
        rw [canrx_consecFrame hpci, if_pos hst]
        by_cases hid : c.rcvr.idPair = r.id
        · by_cases htake : c.rcvr.Takes r.id r.frame
          · by_cases hrem : c.rcvr.remaining ≤ cfNumDataBytes
            · rw [rxCf_last (by exact htake) (by exact hrem)]
              exact Or.inr ⟨by simp, by simp⟩
            · rw [rxCf_more (by exact htake) (by exact hrem)]
              have hawait := awaits_rcvrAwaitNext r.env (w := ⟨{ c with
                rcvr := c.rcvr.storeCf r.frame }, (World.emit ⟨c, []⟩
                  (.printCantpFrame r.frame)).log ++ c.rcvr.cfWrites r.frame⟩) hst
              exact Or.inl ⟨hawait.state_eq.trans hst, hawait.idPair_eq⟩
          · rw [rxCf_reject (by exact hid) (by exact htake)]
            exact Or.inl ⟨hst, rfl⟩
        · rw [rxCf_foreign (by exact hid)]
          exact Or.inl ⟨hst, rfl⟩
    | flowControll => exact absurd hpci hr

theorem step_foreign (hst : c.rcvr.state = .fcSent) (hid : r.id ≠ c.rcvr.idPair)
    (hr : r.pci ≠ some .flowControll) (hsf : r.pci ≠ some .singleFrame) :
    (canTp.step c (.canrxCb r)).1 = c ∧
      ∀ own, (canTp.step c (.canrxCb r)).2.filter (Act.ofReception own) = [] := by
  have hidle : c.rcvr.state ≠ .idle := by simp [hst]
  rw [canTp_step]
  rcases hpci : r.pci with _ | pci
  · rw [canrx_unknown hpci]
    exact ⟨rfl, fun _ => rfl⟩
  · cases pci with
    | singleFrame => exact absurd hpci hsf
    | firstFrame =>
        rw [canrx_firstFrame hpci, if_neg hidle]
        exact ⟨rfl, fun _ => rfl⟩
    | consecFrame =>
        rw [canrx_consecFrame hpci, if_pos hst, rxCf_foreign (by exact hid.symm)]
        exact ⟨rfl, fun _ => rfl⟩
    | flowControll => exact absurd hpci hr

theorem SameReception.own {s t : CantpRxtxStatus} (h : SameReception id s t)
    (hr : r.pci ≠ some .flowControll) :
    SameReception id ((receptionOf id).step s r).1 ((receptionOf id).step t r).1 ∧
      ((receptionOf id).step s r).2 = ((receptionOf id).step t r).2 := by
  rcases h with ⟨rfl, hst, hpair⟩ | ⟨hs, ht, hdata⟩
  · refine ⟨?_, rfl⟩
    rcases step_fcSent hst hr with ⟨hst', hpair'⟩ | hover
    · exact Or.inl ⟨rfl, hst', hpair'.trans hpair⟩
    · exact Or.inr ⟨hover, hover, rfl⟩
  · obtain ⟨hs', hsdata, hsout⟩ := @step_over id _ _ hs hr
    obtain ⟨ht', htdata, htout⟩ := @step_over id _ _ ht hr
    exact ⟨Or.inr ⟨hs', ht', by rw [receptionOf]; exact hsdata.trans (hdata.trans htdata.symm)⟩,
      hsout.trans htout.symm⟩

/-- A frame of another node moves only the run with all frames. -/
theorem SameReception.foreign {s t : CantpRxtxStatus} (h : SameReception id s t)
    (hid : r.id ≠ id) (hr : r.pci ≠ some .flowControll) (hsf : NoForeignSf id s r) :
    SameReception id ((receptionOf id).step s r).1 t ∧ ((receptionOf id).step s r).2 = [] := by
  rcases h with ⟨rfl, hst, hpair⟩ | ⟨hs, ht, hdata⟩
  · obtain ⟨hctx, hout⟩ := step_foreign hst (by rwa [hpair]) hr fun h => hsf hid h hst
    have hsame : ((receptionOf id).step s r).1 = s := hctx
    rw [hsame]
    exact ⟨Or.inl ⟨rfl, hst, hpair⟩, hout _⟩
  · obtain ⟨hs', hsdata, hsout⟩ := @step_over id _ _ hs hr
    refine ⟨Or.inr ⟨hs', ht, hsdata.trans hdata⟩, hsout.trans ?_⟩
    rw [if_neg fun h => hid h.1]

end Step

theorem SameReception.data_eq {id : UInt32} {s t : CantpRxtxStatus}
    (h : SameReception id s t) : s.rcvr.data = t.rcvr.data := by
  rcases h with ⟨rfl, -, -⟩ | ⟨-, -, hdata⟩
  · rfl
  · exact hdata

/-- For every receiver in the middle of a reception and every interleaving with
frames of other nodes in which no Single Frame of another node arrives during the
reception: the reception is the same as without those frames. -/
theorem reception_undisturbed (c : CantpRxtxStatus) (rs : List RxFrame)
    (hst : c.rcvr.state = .fcSent) (hrs : ∀ r ∈ rs, r.pci ≠ some .flowControll)
    (hsf : (receptionOf c.rcvr.idPair).Admits (NoForeignSf c.rcvr.idPair) c rs) :
    Undisturbed c rs := by
  have hok : (receptionOf c.rcvr.idPair).Admits (fun s r =>
      NoForeignSf c.rcvr.idPair s r ∧ r.pci ≠ some .flowControll) c rs :=
    Mealy.admits_and.mpr ⟨hsf, Mealy.admits_of_forall hrs c⟩
  have hstart : SameReception c.rcvr.idPair c c := Or.inl ⟨rfl, hst, rfl⟩
  obtain ⟨hrun, hout⟩ := Mealy.erase (fun r => r.id = c.rcvr.idPair) (fun _ => true)
    (fun s t r h hr _ => by
      obtain ⟨hsame, hout⟩ := h.own hr.2
      exact ⟨hsame, by rw [hout]⟩)
    (fun s t r h hr hkeep => by
      obtain ⟨hsame, hout⟩ := h.foreign (by simpa using hkeep) hr.2 hr.1
      exact ⟨hsame, by rw [hout]; rfl⟩)
    hstart hok
  rw [List.filter_true, List.filter_true] at hout
  exact ⟨hout, hrun.data_eq⟩

/-- A Consecutive Frame of another node between two of the reception. -/
theorem reception_undisturbed_cf :
    let rx := RxFrame.ofFrame .accepting
    let msg := List.replicate 20 7
    Undisturbed (canTp.step (.fresh ⟨0, 0, 0, 0, 0, 0, 0, 0⟩)
      (.canrxCb (rx 5 0 (ffFrame msg 20)))).1
      [rx 5 0 (cfAt msg 20 0), rx 6 0 (cfAt msg 20 0), rx 5 0 (cfAt msg 20 1)] :=
  reception_undisturbed
    (canTp.step (.fresh ⟨0, 0, 0, 0, 0, 0, 0, 0⟩)
      (.canrxCb (.ofFrame .accepting 5 0 (ffFrame (List.replicate 20 7) 20)))).1
    [.ofFrame .accepting 5 0 (cfAt (List.replicate 20 7) 20 0),
      .ofFrame .accepting 6 0 (cfAt (List.replicate 20 7) 20 0),
      .ofFrame .accepting 5 0 (cfAt (List.replicate 20 7) 20 1)]
    (by decide) (by decide) (by decide)

/-- A Single Frame of another node between two frames of the reception ends it. -/
theorem reception_disturbed :
    ¬ ∀ (c : CantpRxtxStatus) (rs : List RxFrame), c.rcvr.state = .fcSent →
      (∀ r ∈ rs, r.pci ≠ some .flowControll) → Undisturbed c rs := by
  intro h
  have hund := h
    (canTp.step (.fresh ⟨0, 0, 0, 0, 0, 0, 0, 0⟩)
      (.canrxCb (.ofFrame .accepting 5 0 (ffFrame (List.replicate 20 7) 20)))).1
    [.ofFrame .accepting 6 0 (sfFrame [1, 2] 2),
      .ofFrame .accepting 5 0 (cfAt (List.replicate 20 7) 20 0)]
    (by decide) (by decide)
  exact absurd hund.1 (by decide)

end CanTp
