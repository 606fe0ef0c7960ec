import CanTp.Dispatch

/-!
# From one carrier to another

The functions are made of the operations of a carrier, so that a way from one carrier to
another goes through each of them. A trace of accesses changes nothing in what they do, and
a port that returns at once is the link layer of the bare world.
-/

namespace CanTp

open Library Carrier

section Map

variable {τ τ' : Type} [Carrier τ World Access TxNb] [Carrier τ' World Access TxNb]
  (φ : Hom τ τ') (ψ : CallHom τ τ') (env : Env) (id : UInt32) (idt : UInt8)
  (frame : CantpFrame) (t : τ)

@[simp] theorem cantpSndrSetState_map (state : CantpState) :
    cantpSndrSetState (φ.map t) state = φ.map (cantpSndrSetState t state) := by
  simp [cantpSndrSetState]

@[simp] theorem cantpRcvrSetState_map (state : CantpState) :
    cantpRcvrSetState (φ.map t) state = φ.map (cantpRcvrSetState t state) := by
  simp [cantpRcvrSetState]

@[simp] theorem callPrintCantpFrame_map :
    callPrintCantpFrame frame (φ.map t) = φ.map (callPrintCantpFrame frame t) := by
  simp [callPrintCantpFrame]

@[simp] theorem cantpCanTxNb_map :
    cantpCanTxNb (ψ.map t) frame = ψ.map (cantpCanTxNb t frame) := by
  simp [cantpCanTxNb]

@[simp] theorem sndrSendCfAfrerCf_map :
    sndrSendCfAfrerCf (ψ.map t) = ψ.map (sndrSendCfAfrerCf t) := by
  simp [sndrSendCfAfrerCf]

@[simp] theorem sndrContinueBlock_map :
    sndrContinueBlock (ψ.map t) = ψ.map (sndrContinueBlock t) := by
  simp [sndrContinueBlock]

@[simp] theorem sndrCfConfirmed_map :
    sndrCfConfirmed (ψ.map t) = ψ.map (sndrCfConfirmed t) := by
  simp [sndrCfConfirmed, apply_ite ψ.map]

theorem cantpCantxConfirmCb_map :
    cantpCantxConfirmCb (ψ.map t) = ψ.map (cantpCantxConfirmCb t) := by
  simp only [cantpCantxConfirmCb, ψ.val_map]
  cases (val t).ctx.sndr.state <;> simp

@[simp] theorem sndrSendCfAfrerFc_map :
    sndrSendCfAfrerFc (ψ.map t) = ψ.map (sndrSendCfAfrerFc t) := by
  simp [sndrSendCfAfrerFc, apply_ite ψ.map]

@[simp] theorem sndrRxFlowControlFrame_map :
    sndrRxFlowControlFrame id frame (ψ.map t) = ψ.map (sndrRxFlowControlFrame id frame t) := by
  simp only [sndrRxFlowControlFrame, val_on]
  cases stTimUsOf frame.fcSt with
  | none => simp
  | some us =>
      rcases CantpFcFlowStatus.ofUInt8 frame.fcFs with _ | fs
      · simp
      · cases fs <;> simp

theorem cantpSend_map (data : List UInt8) (len : UInt16) :
    cantpSend id idt data len (ψ.map t) = ψ.map (cantpSend id idt data len t) := by
  simp [cantpSend, apply_ite ψ.map]

@[simp] theorem storeFrame_map (k n : Nat) (d : Nat → UInt8) :
    forUpTo n (fun i u => on (mark u [.rxFrame (k + i)]) (rcvrStoreByte (d i))) (φ.map t) =
      φ.map (forUpTo n (fun i u => on (mark u [.rxFrame (k + i)]) (rcvrStoreByte (d i))) t) :=
  φ.forUpTo_map (fun _ _ => by simp) n t

@[simp] theorem rcvrRxFirstFrame_map :
    rcvrRxFirstFrame env id idt frame (φ.map t) =
      φ.map (rcvrRxFirstFrame env id idt frame t) := by
  simp [rcvrRxFirstFrame, apply_ite φ.map]

@[simp] theorem rcvrWaitTurn_map :
    rcvrWaitTurn env frame (φ.map t) = φ.map (rcvrWaitTurn env frame t) := by
  simp [rcvrWaitTurn]

@[simp] theorem rcvrWaitLoop_map :
    rcvrWaitLoop env frame (φ.map t) = φ.map (rcvrWaitLoop env frame t) := by
  induction frame, t using @rcvrWaitLoop.induct τ _ env with
  | case1 frame t t' hgt =>
      rw [rcvrWaitLoop.eq_1 env frame t, rcvrWaitLoop]
      simp only [rcvrWaitTurn_map, φ.val_map, φ.on_map]
      rw [if_pos hgt, if_pos hgt]
  | case2 frame t t' hgt t'' hlt ih =>
      rw [rcvrWaitLoop.eq_1 env frame t, rcvrWaitLoop]
      simp only [rcvrWaitTurn_map, φ.val_map, φ.on_map]
      rw [if_neg hgt, if_neg hgt, if_pos hlt, if_pos hlt, ih]
  | case3 frame t t' hgt t'' hlt =>
      rw [rcvrWaitLoop.eq_1 env frame t, rcvrWaitLoop]
      simp only [rcvrWaitTurn_map, φ.val_map, φ.on_map]
      rw [if_neg hgt, if_neg hgt, if_neg hlt, if_neg hlt]

@[simp] theorem rcvrSendWaits_map :
    rcvrSendWaits env frame (φ.map t) =
      ((rcvrSendWaits env frame t).1, φ.map (rcvrSendWaits env frame t).2) := by
  simp only [rcvrSendWaits, φ.val_map]
  split_ifs <;> simp

@[simp] theorem rcvrCountBlock_map :
    rcvrCountBlock env frame (φ.map t) = φ.map (rcvrCountBlock env frame t) := by
  simp [rcvrCountBlock, apply_ite φ.map]

@[simp] theorem rcvrRxConsecutiveFrame_map :
    rcvrRxConsecutiveFrame env id frame (φ.map t) =
      φ.map (rcvrRxConsecutiveFrame env id frame t) := by
  simp [rcvrRxConsecutiveFrame, apply_ite φ.map]

@[simp] theorem canrxFlowControllAmong_map (others : CantpRxtxStatus → CantpRxtxStatus) :
    canrxFlowControllAmong others env id frame (ψ.map t) =
      ψ.map (canrxFlowControllAmong others env id frame t) := by
  simp [canrxFlowControllAmong, apply_ite ψ.map]

/-- Only the branch for a Flow Control frame makes calls. -/
theorem cantpCanrxCbAmong_map_of_ne (others : CantpRxtxStatus → CantpRxtxStatus) (dlc : UInt8)
    (data : List UInt8)
    (hpci : CantpNPciType.ofUInt8 (rxFrame dlc data).nPciT ≠ some .flowControll) :
    cantpCanrxCbAmong others env id idt dlc data (φ.map t) =
      φ.map (cantpCanrxCbAmong others env id idt dlc data t) := by
  simp only [cantpCanrxCbAmong]
  rcases hp : CantpNPciType.ofUInt8 (rxFrame dlc data).nPciT with _ | pci
  · simp
  · cases pci with
    | flowControll => exact absurd hp hpci
    | singleFrame | firstFrame | consecFrame => simp [apply_ite φ.map]

theorem cantpCanrxCbAmong_map (others : CantpRxtxStatus → CantpRxtxStatus) (dlc : UInt8)
    (data : List UInt8) :
    cantpCanrxCbAmong others env id idt dlc data (ψ.map t) =
      ψ.map (cantpCanrxCbAmong others env id idt dlc data t) := by
  by_cases hpci : CantpNPciType.ofUInt8 (rxFrame dlc data).nPciT = some .flowControll
  · simp [cantpCanrxCbAmong, hpci]
  · exact cantpCanrxCbAmong_map_of_ne ψ.toHom env id idt t others dlc data hpci

end Map

/-! ### A trace of the accesses -/

/-- Without the trace. -/
def untraced : CallHom (Traced World Access) World where
  map := Traced.val
  val_map _ := rfl
  on_map _ _ := rfl
  mark_map _ _ := rfl
  call_map _ _ := rfl

/-- A trace of its accesses changes nothing in the handling of a frame. -/
theorem cantpCanrxCb_val (env : Env) (id : UInt32) (idt dlc : UInt8) (data : List UInt8)
    (t : Traced World Access) :
    (cantpCanrxCb env id idt dlc data t).val = cantpCanrxCb env id idt dlc data t.val :=
  (cantpCanrxCbAmong_map untraced env id idt t (fun c => c) dlc data).symm

/-! ### A port -/

instance {port : Port World TxNb} : Carrier (Via port) World Access TxNb := Via.carrier Access

/-- Before the first call over a port. -/
def started (port : Port World TxNb) : Hom World (Via port) where
  map := Via.start port
  val_map _ := rfl
  on_map _ _ := rfl
  mark_map _ _ := rfl

/-- A port that returns at once. -/
def later : CallHom World (Via (.later emitTx)) where
  toHom := started _
  call_map _ _ := rfl

end CanTp
