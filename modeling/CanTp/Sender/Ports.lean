import CanTp.Carriers
import CanTp.Receiver.Outcome

/-!
# Link layers that confirm at once or later

The link layer of the Linux port calls `cantp_cantx_confirm_cb` inside of
`cantp_can_tx_nb`, so that a confirmation runs into the next frame and its confirmation;
a link layer with a task returns at once and confirms afterwards. Here the functions of the
sender run over a port for `cantp_can_tx_nb`: with the port that returns at once they
are the functions as they stand. None of them touches the context after its transmission,
and the data left counts how deep the calls can go, so the two link layers come to the
same.
-/

namespace CanTp

open Library

/-! ### The functions over a port -/

/-- `cantp_cantx_confirm_cb` -/
def cantpCantxConfirmCbVia (port : Port World TxNb) (w : World) : Option World :=
  (cantpCantxConfirmCb (Via.start port w)).result

/-- One call, handled to its end. -/
def handleVia (port : Port World TxNb) : Event → World → Option World
  | .send id idt data len, w => (cantpSend id idt data len (Via.start port w)).result
  | .cantxConfirmCb, w => cantpCantxConfirmCbVia port w
  | .canrxCb r, w => (cantpCanrxCb r.env r.id r.idt r.dlc r.data (Via.start port w)).result
  | .sndrTimerCb, w => some (cantpSndrTimerCb w)
  | .sndrTimerExpiry, w => some (sndrTimerExpiry w)
  | .rcvrTimerCb, w => some (cantpRcvrTimerCb w)

theorem cantpCantxConfirmCbVia_later (w : World) :
    cantpCantxConfirmCbVia (.later emitTx) w = some (cantpCantxConfirmCb w) :=
  congrArg Via.result (cantpCantxConfirmCb_map later w)

/-- With the port that returns at once every call is handled as it stands. -/
theorem handleVia_later (e : Event) (w : World) :
    handleVia (.later emitTx) e w = some (handle e w) := by
  cases e with
  | send id idt data len => exact congrArg Via.result (cantpSend_map later id idt w data len)
  | cantxConfirmCb => exact cantpCantxConfirmCbVia_later w
  | canrxCb r =>
      exact congrArg Via.result
        (cantpCanrxCbAmong_map later r.env r.id r.idt w (fun c => c) r.dlc r.data)
  | sndrTimerCb | sndrTimerExpiry | rcvrTimerCb => rfl

/-! ### Nothing follows a transmission -/

/-- The number of transmissions in a log. -/
def txCalls (w : World) : Nat := w.log.countP Act.sendsData

/-- The data left, which decreases with every Consecutive Frame. -/
def World.left (w : World) : Nat := w.ctx.sndr.len.toNat - w.ctx.sndr.index.toNat

theorem World.left_lt (w : World) : w.left < 2 ^ 16 :=
  (Nat.sub_le ..).trans_lt w.ctx.sndr.len.toNat_lt

theorem txCalls_emitTx (x : TxNb) (w : World) : txCalls (emitTx x w) = txCalls w + 1 :=
  List.countP_append

section Last

variable {w t : World} {x : TxNb}

theorem txCalls_sentCf (w : World) : txCalls (sentCf w) = txCalls w + 1 := by
  have hreads : ((List.range w.ctx.sndr.nextLen).map
      fun i => Act.sndrRead (w.ctx.sndr.index.toNat + i)).countP Act.sendsData = 0 := by
    rw [List.countP_map]
    exact List.countP_eq_zero.mpr fun _ _ => Bool.false_ne_true
  rw [txCalls, sentCf, List.countP_append, CantpRxtxStatus.cfActs, List.countP_append, hreads]
  rfl

theorem left_sentCf (hrem : 0 < w.ctx.sndr.remaining) : (sentCf w).left < w.left := by
  have hindex := index_afterCf hrem
  rw [SndrState.remaining] at hrem
  change w.ctx.sndr.len.toNat - w.ctx.sndr.afterCf.index.toNat < _
  rw [hindex, World.left, cfNumDataBytes]
  omega

/-- Over any port, `f` transmits at most once, as the last thing it does, and leaves fewer
data then. -/
abbrev TxLast (w : World) (f : ∀ port : Port World TxNb, Via port) : Prop :=
  CallsLast txCalls (fun u => u.left < w.left) w fun port => (f port).result

theorem sentCf_txLast {f : ∀ port : Port World TxNb, Via port}
    (hf : ∀ port, f port = ((started port).map t).call x) (hsent : emitTx x t = sentCf w)
    (hrem : 0 < w.ctx.sndr.remaining) : TxLast w f := by
  refine .call x t ?_ ?_ fun port => ?_
  · have hcalls := txCalls_emitTx x t
    rw [hsent, txCalls_sentCf] at hcalls
    omega
  · have hleft := left_sentCf hrem
    rw [← hsent] at hleft
    exact hleft
  · rw [hf]
    exact Via.result_call t x

theorem afrerCf_txLast (hrem : 0 < w.ctx.sndr.remaining) :
    TxLast w fun port => sndrSendCfAfrerCf ((started port).map w) :=
  sentCf_txLast (fun _ => rfl) (sndrSendCfAfrerCf_eq hrem) hrem

theorem continueBlock_txLast (hrem : 0 < w.ctx.sndr.remaining) :
    TxLast w fun port => sndrContinueBlock ((started port).map w) := by
  simp only [sndrContinueBlock, cantpSndrSetState_map, Carrier.Hom.on_map, World.on_eq]
  refine (afrerCf_txLast ?_).of_eq ?_ fun u hu => ?_
  · split <;> exact hrem
  · split <;> simp [txCalls, Act.sendsData]
  · split at hu <;> exact hu

theorem cfConfirmed_txLast (w : World) :
    TxLast w fun port => sndrCfConfirmed ((started port).map w) := by
  simp only [sndrCfConfirmed, cantpSndrSetState_map, Carrier.Hom.on_map, Carrier.Hom.val_map,
    World.on_eq, World.val_eq]
  refine .via_ite (fun _ => .ret w.sndrTimerStop rfl) fun hneg =>
    .via_ite (fun _ => .ret _ ?_) fun hzero => ?_
  · simp [txCalls, Act.sendsData]
  have hrem : 0 < w.ctx.sndr.remaining := lt_of_le_of_ne (not_lt.mp hneg) (Ne.symm hzero)
  refine .via_ite (fun _ => .via_ite (fun _ => .ret _ ?_) fun _ => ?_) fun _ => ?_
  · split <;> simp [txCalls, Act.sendsData]
  · refine (continueBlock_txLast ?_).of_eq ?_ fun u hu => ?_
    · split <;> exact hrem
    · split <;> rfl
    · split at hu <;> exact hu
  · refine (continueBlock_txLast ?_).of_eq ?_ fun u hu => ?_
    · split <;> exact hrem
    · split <;> rfl
    · split at hu <;> exact hu

theorem confirm_txLast (w : World) :
    TxLast w fun port => cantpCantxConfirmCb ((started port).map w) := by
  cases hst : w.ctx.sndr.state with
  | cfSending | cfSent =>
      simp only [cantpCantxConfirmCb, Carrier.Hom.val_map, World.val_eq, hst]
      exact cfConfirmed_txLast w
  | sfSending | ffSending =>
      simp only [cantpCantxConfirmCb, cantpSndrSetState_map, Carrier.Hom.on_map,
        Carrier.Hom.val_map, World.on_eq, World.val_eq, hst]
      exact .ret _ (by simp [txCalls, Act.sendsData])
  | _ =>
      simp only [cantpCantxConfirmCb, Carrier.Hom.val_map, World.val_eq, hst]
      exact .ret w rfl

theorem afrerFc_txLast (w : World) :
    TxLast w fun port => sndrSendCfAfrerFc ((started port).map w) := by
  simp only [sndrSendCfAfrerFc, Carrier.Hom.on_map, Carrier.Hom.val_map, World.on_eq,
    World.val_eq]
  refine .via_ite (fun _ => .ret _ rfl) fun hrem => ?_
  have hpos : 0 < w.ctx.sndr.remaining := not_le.mp hrem
  exact sentCf_txLast (fun _ => rfl)
    ((if_neg hrem).symm.trans (sndrSendCfAfrerFc_eq hpos)) hpos

theorem rxFlowControl_txLast (id : UInt32) (frame : CantpFrame) (w : World) :
    TxLast w fun port => sndrRxFlowControlFrame id frame ((started port).map w) := by
  simp only [sndrRxFlowControlFrame, Carrier.Hom.on_map, Carrier.Hom.val_map, World.on_eq,
    World.val_eq]
  cases stTimUsOf frame.fcSt with
  | none => exact .ret _ rfl
  | some us =>
      rcases CantpFcFlowStatus.ofUInt8 frame.fcFs with _ | fs
      · exact .ret _ rfl
      · cases fs with
        | cts => exact (afrerFc_txLast _).of_eq rfl fun _ hu => hu
        | wait | ovf => exact .ret _ rfl

theorem canrxFlowControll_txLast (env : Env) (id : UInt32) (frame : CantpFrame) (w : World) :
    TxLast w fun port => canrxFlowControll env id frame ((started port).map w) := by
  have hprint : ∀ v : World, txCalls v = txCalls w → v.left = w.left →
      TxLast w fun port => sndrRxFlowControlFrame id frame
        ((started port).map (v.emit (.printCantpFrame frame))) :=
    fun v hcalls hleft => (rxFlowControl_txLast id frame _).of_eq
      (by rw [← hcalls]; simp [txCalls, Act.sendsData]) fun u hu => hleft ▸ hu
  simp only [canrxFlowControll, canrxFlowControllAmong, callPrintCantpFrame_map,
    callPrintCantpFrame_eq, Carrier.Hom.on_map, Carrier.Hom.val_map, World.on_eq, World.val_eq]
  refine .via_ite (fun _ => .via_ite (fun _ => .ret _ ?_) fun _ => .via_ite (fun _ => .ret _ ?_)
    fun _ => hprint _ ?_ rfl) fun _ => hprint w rfl rfl
  all_goals simp [txCalls, Act.sendsData]

theorem txCalls_timerCb (w : World) : txCalls (cantpSndrTimerCb w) = txCalls w := by
  rw [cantpSndrTimerCb]
  split <;> simp [txCalls, Act.sendsData]

theorem canrx_txLast (c : CantpRxtxStatus) (r : RxFrame) :
    TxLast ⟨c, []⟩ fun port => cantpCanrxCb r.env r.id r.idt r.dlc r.data
      ((started port).map ⟨c, []⟩) := by
  by_cases hpci : r.pci = some .flowControll
  · have hfc : CantpNPciType.ofUInt8 (rxFrame r.dlc r.data).nPciT = some .flowControll := hpci
    simp only [cantpCanrxCb, cantpCanrxCbAmong, hfc]
    exact canrxFlowControll_txLast r.env r.id r.frame ⟨c, []⟩
  · have hcanrx : ∀ port, cantpCanrxCb r.env r.id r.idt r.dlc r.data
        ((started port).map ⟨c, []⟩) = (started port).map (handle (.canrxCb r) ⟨c, []⟩) :=
      fun port =>
        cantpCanrxCbAmong_map_of_ne (started port) r.env r.id r.idt _ _ r.dlc r.data hpci
    simp only [hcanrx]
    refine .ret _ (List.countP_eq_zero.mpr fun a ha hsends => ?_)
    have honly := ((rx_outcome c r).sndr_alone hpci).2 a ha
    cases a <;> first | exact Bool.noConfusion hsends | exact Bool.noConfusion honly

theorem send_callsLast (id : UInt32) (idt : UInt8) (data : List UInt8) (len : UInt16)
    (w : World) : CallsLast txCalls (fun u => u.left < 2 ^ 16) w
      fun port => (cantpSend id idt data len ((started port).map w)).result := by
  simp only [cantpSend, callPrintCantpFrame_map, callPrintCantpFrame_eq, cantpSndrSetState_map,
    Carrier.Hom.on_map, World.on_eq]
  exact .via_ite (fun _ => .via_call _ _ (by simp [txCalls, Act.sendsData]) (World.left_lt _))
    fun _ => .via_call _ _ (by simp [txCalls, Act.sendsData]) (World.left_lt _)

/-- Every call transmits at most once, as the last thing it does. -/
theorem handle_callsLast (c : CantpRxtxStatus) (e : Event) :
    CallsLast txCalls (fun u => u.left < 2 ^ 16) ⟨c, []⟩ fun port => handleVia port e ⟨c, []⟩ := by
  have hany : ∀ {v u : World}, u.left < v.left → u.left < 2 ^ 16 := fun _ => World.left_lt _
  cases e with
  | send id idt data len => exact send_callsLast id idt data len ⟨c, []⟩
  | cantxConfirmCb => exact (confirm_txLast ⟨c, []⟩).of_eq rfl fun _ => hany
  | canrxCb r => exact (canrx_txLast c r).of_eq rfl fun _ => hany
  | sndrTimerCb => exact .ret _ (txCalls_timerCb _)
  | sndrTimerExpiry =>
      refine .ret _ ?_
      rw [sndrTimerExpiry]
      split
      · exact txCalls_timerCb _
      · rfl
  | rcvrTimerCb => exact .ret _ rfl

end Last

theorem answers_confirm :
    Answers emitTx cantpCantxConfirmCbVia txCalls cantpCantxConfirmCb World.left where
  calls_emit := txCalls_emitTx
  measure_emit _ _ := rfl
  late_eq := cantpCantxConfirmCbVia_later
  last := confirm_txLast

/-! ### Runs -/

/-- One call with a link layer that confirms inside of `cantp_can_tx_nb`, as deep as the
fuel allows. -/
def syncStep (fuel : Nat) (c : CantpRxtxStatus) (e : Event) : Option World :=
  handleVia (reenter emitTx cantpCantxConfirmCbVia fuel) e ⟨c, []⟩

/-- One call with a link layer that returns at once, and then the confirmations of the
frames it sends, one after the other. -/
def asyncStep (fuel : Nat) (c : CantpRxtxStatus) (e : Event) : Option World :=
  settle txCalls cantpCantxConfirmCb fuel 0 (handle e ⟨c, []⟩)

/-- The calls `es`, one after the other, and all that is called meanwhile. -/
def runWith (step : CantpRxtxStatus → Event → Option World) :
    CantpRxtxStatus → List Event → Option World
  | c, [] => some ⟨c, []⟩
  | c, e :: es => do
      let w ← step c e
      let w' ← runWith step w.ctx es
      pure ⟨w'.ctx, w.log ++ w'.log⟩

theorem syncStep_eq_asyncStep (c : CantpRxtxStatus) (e : Event) {fuel : Nat}
    (h : 2 ^ 16 ≤ fuel) :
    ∃ w, syncStep fuel c e = some w ∧ asyncStep fuel c e = some w := by
  have hlast : CallsLast txCalls (fun u => u.left < fuel) ⟨c, []⟩
      fun port => handleVia port e ⟨c, []⟩ :=
    (handle_callsLast c e).of_eq rfl fun _ hu => hu.trans_le h
  exact answers_confirm.run hlast (handleVia_later e ⟨c, []⟩)

/-- For every context and all calls, in any order: with enough depth, for which the
largest message suffices, the run with confirmations inside ends, in the context and with
the frames and reports of the run with confirmations afterwards. -/
theorem sync_eq_async :
    ∃ depth, ∀ (c : CantpRxtxStatus) (es : List Event) (fuel : Nat), depth ≤ fuel →
      ∃ w, runWith (syncStep fuel) c es = some w ∧ runWith (asyncStep fuel) c es = some w := by
  refine ⟨2 ^ 16, fun c es fuel hfuel => ?_⟩
  induction es generalizing c with
  | nil => exact ⟨⟨c, []⟩, rfl, rfl⟩
  | cons e es ih =>
      obtain ⟨w, hsync, hasync⟩ := syncStep_eq_asyncStep c e hfuel
      obtain ⟨w', hsync', hasync'⟩ := ih w.ctx
      refine ⟨⟨w'.ctx, w.log ++ w'.log⟩, ?_, ?_⟩
      · rw [runWith, hsync, Option.bind_eq_bind, Option.bind_some, hsync']
        rfl
      · rw [runWith, hasync, Option.bind_eq_bind, Option.bind_some, hasync']
        rfl

end CanTp
