import CanTp.Receiver.Outcome

/-!
# The pace of the receiver

Between two Consecutive Frames the receiver sleeps and sends Flow Control frames, each
FC.WAIT after a sleep and the FC.CTS at the end of a block. Here is the closed form of
that wait: the context it leaves behind, which does not depend on the outcome of a
transmission, and the calls that take time, in order.
-/

namespace CanTp

open Library

/-- A Flow Control frame. -/
def flowFrame (fs : CantpFcFlowStatus) (bs st : UInt8) : CantpFrame :=
  .ofList [0x30 + fs.toUInt8, bs, st]

/-- The calls of the receiver that take time. -/
def Act.paces : Act → Bool
  | .usleep _ | .canTx .. => true
  | _ => false

/-- The time slept in a call. -/
def Act.sleptUs : Act → Nat
  | .usleep us => us.toNat
  | _ => 0

/-- The time slept in a log. -/
def sleptUs (log : List Act) : Nat := (log.map Act.sleptUs).sum

/-- The transmission of a Flow Control frame with the status `fs`. -/
def Act.sendsFc (fs : CantpFcFlowStatus) : Act → Bool
  | .canTx _ _ _ f _ => CantpFcFlowStatus.ofUInt8 f.fcFs = some fs
  | _ => false

/-- The call that sends the Flow Control frame `f`. -/
def CantpParams.fcCall (p : CantpParams) (f : CantpFrame) : Act :=
  .canTx p.id p.idt 8 f (1000 * nArTimerMs)

/-- The FC.CTS with the parameters of the receiver. -/
def CantpParams.cts (p : CantpParams) : CantpFrame := flowFrame .cts p.blockSize p.stMin

/-- One turn of the FC.WAIT loop. -/
def CantpParams.waitCalls (p : CantpParams) : List Act :=
  [.usleep p.wftTimUs, p.fcCall (flowFrame .wait 0 0)]

/-- The frame that is counted now is the last one of its block. -/
def CantpRxtxStatus.BlockDone (c : CantpRxtxStatus) : Prop :=
  0 < c.params.blockSize ∧ c.params.blockSize ≤ c.sndr.blIndex + 1

instance (c : CantpRxtxStatus) : Decidable c.BlockDone :=
  inferInstanceAs (Decidable (_ ∧ _))

/-- The block counter after a frame is counted. -/
def CantpRxtxStatus.countedBlock (c : CantpRxtxStatus) : UInt8 :=
  if c.params.blockSize = 0 then c.sndr.blIndex
  else if c.BlockDone then 0
  else c.sndr.blIndex + 1

/-- The context after the wait for the next Consecutive Frame. -/
def CantpRxtxStatus.awaiting (c : CantpRxtxStatus) : CantpRxtxStatus :=
  { c with
    sndr.blIndex := c.countedBlock
    rcvr.wftCntr := if c.params.wftNum = 0 then c.rcvr.wftCntr else c.params.wftNum
    rcvr.timer := some ⟨.nCr, 1000 * nCrTimerMs⟩ }

/-! ### The frames -/

section Fields

variable (fs : CantpFcFlowStatus) (bs st : UInt8)

theorem byte_flowFrame {i : Nat} (hi : i < 8) :
    (flowFrame fs bs st).byte i = [0x30 + fs.toUInt8, bs, st].getD i 0 :=
  CantpFrame.byte_ofList _ i hi

@[simp] theorem nPciT_flowFrame :
    (flowFrame fs bs st).nPciT = CantpNPciType.flowControll.toUInt8 := by
  rw [CantpFrame.nPciT, byte_flowFrame fs bs st (by omega), List.getD_cons_zero]
  cases fs <;> decide

@[simp] theorem fcFs_flowFrame : (flowFrame fs bs st).fcFs = fs.toUInt8 := by
  rw [CantpFrame.fcFs, CantpFrame.low, byte_flowFrame fs bs st (by omega),
    List.getD_cons_zero]
  cases fs <;> decide

@[simp] theorem fcBs_flowFrame : (flowFrame fs bs st).fcBs = bs :=
  byte_flowFrame fs bs st (by omega)

@[simp] theorem fcSt_flowFrame : (flowFrame fs bs st).fcSt = st :=
  byte_flowFrame fs bs st (by omega)

end Fields

theorem ctsFrame_zero (p : CantpParams) : ctsFrame p .zero = p.cts := rfl

theorem waitFrame_zero : waitFrame .zero = flowFrame .wait 0 0 := rfl

/-- The FC.CTS is written over the FC.WAIT frame before it. -/
theorem ctsFrame_wait (p : CantpParams) : ctsFrame p (flowFrame .wait 0 0) = p.cts := rfl

section Wait

variable (env : Env) {w : World}

theorem paces_fcActs (f : CantpFrame) (w : World) :
    (fcActs env f w).filter Act.paces = [w.ctx.params.fcCall f] := by
  unfold fcActs
  dsimp only
  split <;> rfl

theorem paces_cfWrites (s : RcvrState) (f : CantpFrame) :
    (s.cfWrites f).filter Act.paces = [] := by
  rw [RcvrState.cfWrites, List.filter_map]
  exact List.map_eq_nil_iff.mpr (List.filter_eq_nil_iff.mpr fun _ _ => Bool.false_ne_true)

theorem paces_ffLog (r : RxFrame) (c : CantpRxtxStatus) :
    (ffLog r ⟨c, [.printCantpFrame r.frame]⟩).filter Act.paces = [] := rfl

theorem rcvrWaitTurn_eq {f : CantpFrame} (hf : waitFrame f = flowFrame .wait 0 0)
    (hst : w.ctx.rcvr.state = .fcSent) :
    (rcvrWaitTurn env f w).ctx = { w.ctx with rcvr.wftCntr := w.ctx.rcvr.wftCntr + 1 } ∧
      (rcvrWaitTurn env f w).log.filter Act.paces =
        w.log.filter Act.paces ++ w.ctx.params.waitCalls := by
  simp only [rcvrWaitTurn, World.on_eq, callPrintCantpFrame_eq, rcvrSendFc_eq, hf]
  constructor
  · simp [← hst]
  · simp only [cantpRcvrSetState_log, World.emit_log, List.append_assoc, List.filter_append]
    rw [paces_fcActs]
    rfl

theorem rcvrWaitTurn_restart {f : CantpFrame} (hf : waitFrame f = flowFrame .wait 0 0)
    (hst : w.ctx.rcvr.state = .fcSent) :
    ((rcvrWaitTurn env f w).rcvrTimerStart .nBr (1000 * nBrTimerMs)).ctx = { w.ctx with
      rcvr.wftCntr := w.ctx.rcvr.wftCntr + 1
      rcvr.timer := some ⟨.nBr, 1000 * nBrTimerMs⟩ } := by
  rw [World.rcvrTimerStart_ctx, (rcvrWaitTurn_eq env hf hst).1]

theorem toNat_wftCntr_succ (hlt : w.ctx.rcvr.wftCntr < w.ctx.params.wftNum) :
    (w.ctx.rcvr.wftCntr + 1).toNat = w.ctx.rcvr.wftCntr.toNat + 1 := by
  have hnum := w.ctx.params.wftNum.toNat_lt
  rw [UInt8.lt_iff_toNat_lt] at hlt
  rw [UInt8.toNat_add]
  exact Nat.mod_eq_of_lt (by simp only [UInt8.reduceToNat]; omega)

/-- The loop in `FC_SENT`, with `wft_num - wft_cntr` turns to come. -/
theorem rcvrWaitLoop_spec (f : CantpFrame) (w : World)
    (hf : waitFrame f = flowFrame .wait 0 0) (hst : w.ctx.rcvr.state = .fcSent)
    (hlt : w.ctx.rcvr.wftCntr < w.ctx.params.wftNum) :
    (rcvrWaitLoop env f w).ctx =
        { w.ctx with
          rcvr.wftCntr := w.ctx.params.wftNum
          rcvr.timer := some ⟨.nBr, 1000 * nBrTimerMs⟩ } ∧
      (rcvrWaitLoop env f w).log.filter Act.paces = w.log.filter Act.paces ++
        (List.replicate (w.ctx.params.wftNum.toNat - w.ctx.rcvr.wftCntr.toNat)
          w.ctx.params.waitCalls).flatten := by
  induction f, w using rcvrWaitLoop.induct env with
  | case1 f w w' hgt =>
      have hcntr := toNat_wftCntr_succ hlt
      have hwrap : w.ctx.params.wftNum.toNat < (w.ctx.rcvr.wftCntr + 1).toNat := by
        simpa [w', (rcvrWaitTurn_eq env hf hst).1] using UInt8.lt_iff_toNat_lt.mp hgt
      rw [UInt8.lt_iff_toNat_lt] at hlt
      omega
  | case2 f w w' hgt w'' hlt' ih =>
      obtain ⟨-, hlog⟩ := rcvrWaitTurn_eq env hf hst
      have hcntr := toNat_wftCntr_succ hlt
      have hctx'' : w''.ctx = _ := rcvrWaitTurn_restart env hf hst
      have hlog'' : w''.log.filter Act.paces =
          w.log.filter Act.paces ++ w.ctx.params.waitCalls := hlog
      obtain ⟨hctxs, hlogs⟩ := ih (by rw [hf]; rfl) (by rw [hctx'']; exact hst) hlt'
      rw [UInt8.lt_iff_toNat_lt] at hlt
      have hnext : w.ctx.params.wftNum.toNat - w.ctx.rcvr.wftCntr.toNat =
          (w.ctx.params.wftNum.toNat - (w.ctx.rcvr.wftCntr + 1).toNat) + 1 := by
        omega
      rw [rcvrWaitLoop, if_neg hgt, if_pos hlt', hctxs, hlogs, hlog'', hctx'', hnext,
        List.replicate_succ, List.flatten_cons, List.append_assoc]
      exact ⟨rfl, rfl⟩
  | case3 f w w' hgt w'' hlt' =>
      obtain ⟨-, hlog⟩ := rcvrWaitTurn_eq env hf hst
      have hcntr := toNat_wftCntr_succ hlt
      have hctx'' : w''.ctx = _ := rcvrWaitTurn_restart env hf hst
      have hend : ¬ (w.ctx.rcvr.wftCntr + 1).toNat < w.ctx.params.wftNum.toNat := by
        simpa [hctx''] using UInt8.lt_iff_toNat_lt.not.mp hlt'
      have hlast : w.ctx.rcvr.wftCntr + 1 = w.ctx.params.wftNum := by
        apply UInt8.toNat_inj.mp
        rw [UInt8.lt_iff_toNat_lt] at hlt
        omega
      have hone : w.ctx.params.wftNum.toNat - w.ctx.rcvr.wftCntr.toNat = 1 := by
        rw [← hlast, hcntr]
        omega
      rw [rcvrWaitLoop, if_neg hgt, if_neg hlt', hctx'', hone, hlast]
      exact ⟨rfl, hlog.trans (by simp)⟩

/-- The FC.WAIT frames after a Consecutive Frame. The frame buffer they leave behind is
one that an FC.CTS can be written over. -/
theorem rcvrSendWaits_spec (hst : w.ctx.rcvr.state = .fcSent) :
    ctsFrame w.ctx.params (rcvrSendWaits env .zero w).1 = w.ctx.params.cts ∧
      (∃ t, (rcvrSendWaits env .zero w).2.ctx = { w.ctx with
        rcvr.wftCntr :=
          if w.ctx.params.wftNum = 0 then w.ctx.rcvr.wftCntr else w.ctx.params.wftNum
        rcvr.timer := t }) ∧
      (rcvrSendWaits env .zero w).2.log.filter Act.paces = w.log.filter Act.paces ++
        (List.replicate w.ctx.params.wftNum.toNat w.ctx.params.waitCalls).flatten := by
  rw [rcvrSendWaits, World.val_eq]
  by_cases hwft : w.ctx.params.wftNum > 0
  · obtain ⟨hctx, hlog⟩ := rcvrWaitLoop_spec env .zero
      { w with ctx.rcvr.wftCntr := 0 } waitFrame_zero hst hwft
    have hzero : w.ctx.params.wftNum ≠ 0 := UInt8.pos_iff_ne_zero.mp hwft
    rw [if_pos hwft, if_neg hzero]
    exact ⟨ctsFrame_wait _, ⟨_, hctx⟩, hlog⟩
  · have hzero : w.ctx.params.wftNum = 0 := by simpa using hwft
    rw [if_neg hwft, if_pos hzero, hzero]
    exact ⟨ctsFrame_zero _, ⟨w.ctx.rcvr.timer, rfl⟩, by simp⟩

theorem rcvrCountBlock_spec (f : CantpFrame) (hst : w.ctx.rcvr.state = .fcSent) :
    (rcvrCountBlock env f w).ctx = { w.ctx with
        sndr.blIndex := w.ctx.countedBlock
        rcvr.timer := some ⟨.nCr, 1000 * nCrTimerMs⟩ } ∧
      (rcvrCountBlock env f w).log.filter Act.paces = w.log.filter Act.paces ++
        if w.ctx.BlockDone then [w.ctx.params.fcCall (ctsFrame w.ctx.params f)] else [] := by
  rw [CantpRxtxStatus.countedBlock]
  by_cases hbs : w.ctx.params.blockSize > 0
  · have hzero : w.ctx.params.blockSize ≠ 0 := UInt8.pos_iff_ne_zero.mp hbs
    rw [if_neg hzero]
    by_cases hle : w.ctx.sndr.blIndex + 1 ≥ w.ctx.params.blockSize
    · have hdone : w.ctx.BlockDone := ⟨hbs, hle⟩
      have hend : rcvrCountBlock env f w =
          let fc := ctsFrame w.ctx.params f
          let w' : World := { w with ctx.sndr.blIndex := 0 }
          (cantpRcvrSetState (rcvrSendFc env fc (w'.emit (.printCantpFrame fc)))
            .fcSent).rcvrTimerStart .nCr (1000 * nCrTimerMs) := by
        rw [rcvrCountBlock, World.val_eq, if_pos hbs]
        exact if_pos hle
      rw [if_pos hdone, if_pos hdone, hend]
      simp only [rcvrSendFc_eq]
      constructor
      · simp [← hst]
      · simp only [World.rcvrTimerStart_log, cantpRcvrSetState_log, World.emit_log,
          List.filter_append, paces_fcActs]
        simp [Act.paces]
    · have hdone : ¬ w.ctx.BlockDone := fun h => hle h.2
      have hcount : rcvrCountBlock env f w = World.rcvrTimerStart
          { w with ctx.sndr.blIndex := w.ctx.sndr.blIndex + 1 } .nCr (1000 * nCrTimerMs) := by
        rw [rcvrCountBlock, World.val_eq, if_pos hbs]
        exact if_neg hle
      rw [if_neg hdone, if_neg hdone, List.append_nil, hcount]
      exact ⟨rfl, rfl⟩
  · have hzero : w.ctx.params.blockSize = 0 := by simpa using hbs
    have hdone : ¬ w.ctx.BlockDone := fun h => hbs h.1
    rw [rcvrCountBlock, World.val_eq, if_neg hbs, if_pos hzero, if_neg hdone, List.append_nil]
    exact ⟨rfl, rfl⟩

/-- The wait for the next Consecutive Frame: `wft_num` times a sleep and an FC.WAIT, then
an FC.CTS at the end of a block. -/
theorem rcvrAwaitNext_spec (hst : w.ctx.rcvr.state = .fcSent) :
    (rcvrAwaitNext env w).ctx = w.ctx.awaiting ∧
      (rcvrAwaitNext env w).log.filter Act.paces = w.log.filter Act.paces ++
        ((List.replicate w.ctx.params.wftNum.toNat w.ctx.params.waitCalls).flatten ++
          if w.ctx.BlockDone then [w.ctx.params.fcCall w.ctx.params.cts] else []) := by
  obtain ⟨hframe, ⟨t, hctx⟩, hlog⟩ := rcvrSendWaits_spec env hst
  have hst' : (rcvrSendWaits env .zero w).2.ctx.rcvr.state = .fcSent := by
    rw [hctx]
    exact hst
  obtain ⟨hctx', hlog'⟩ :=
    rcvrCountBlock_spec env (rcvrSendWaits env .zero w).1 hst'
  rw [rcvrAwaitNext, hctx', hlog', hlog, hctx, List.append_assoc]
  exact ⟨rfl, by rw [hframe]; rfl⟩

end Wait

/-! ### Every frame -/

section Frames

variable {c : CantpRxtxStatus} {r : RxFrame} {w : World}

theorem ContinuedBy.step_eq (h : ContinuedBy c r) :
    handle (.canrxCb r) ⟨c, []⟩ = rcvrAwaitNext r.env
      ⟨{ c with rcvr := c.rcvr.storeCf r.frame },
        .printCantpFrame r.frame :: c.rcvr.cfWrites r.frame⟩ := by
  obtain ⟨⟨hpci, hst, htake⟩, hrem⟩ := h
  rw [canrx_consecFrame hpci, if_pos hst]
  exact rxCf_more htake hrem

theorem ContinuedBy.paces (h : ContinuedBy c r) :
    (canTp.step c (.canrxCb r)).2.filter Act.paces =
      (List.replicate c.params.wftNum.toNat c.params.waitCalls).flatten ++
        if c.BlockDone then [c.params.fcCall c.params.cts] else [] := by
  have hst := h.1.2.1
  rw [canTp_step, h.step_eq, (rcvrAwaitNext_spec r.env (by exact hst)).2]
  have hnone : (Act.printCantpFrame r.frame :: c.rcvr.cfWrites r.frame).filter Act.paces = [] :=
    paces_cfWrites c.rcvr r.frame
  rw [hnone]
  rfl

theorem RxOutcome.paces (h : RxOutcome c r w) (hcont : ¬ ContinuedBy c r) :
    w.log.filter Act.paces = [] ∨
      w.log.filter Act.paces = [c.params.fcCall c.params.cts] := by
  cases h with
  | cfMore h => exact absurd h hcont
  | flow _ s log _ _ hlog =>
      refine Or.inl (List.filter_eq_nil_iff.mpr fun a ha => ?_)
      have hflow := hlog a ha
      cases a <;> first | exact Bool.false_ne_true | exact hflow.elim
  | ffAccepted =>
      rw [List.filter_append, paces_ffLog, paces_fcActs, ctsFrame_zero]
      exact Or.inr rfl
  | cfLast =>
      refine Or.inl ?_
      change (c.rcvr.cfWrites r.frame ++ _).filter Act.paces = []
      rw [List.filter_append, paces_cfWrites]
      rfl
  | _ => exact Or.inl rfl

end Frames

/-! ### What is slept and sent -/

theorem sleptUs_append (l m : List Act) : sleptUs (l ++ m) = sleptUs l + sleptUs m := by
  rw [sleptUs, List.map_append, List.sum_append]
  rfl

theorem sleptUs_paces (log : List Act) : sleptUs (log.filter Act.paces) = sleptUs log := by
  induction log with
  | nil => rfl
  | cons a log ih =>
      rw [List.filter_cons]
      by_cases ha : a.paces = true
      · rw [if_pos ha]
        exact congrArg (a.sleptUs + ·) ih
      · have hzero : a.sleptUs = 0 := by cases a <;> first | rfl | exact absurd rfl ha
        rw [if_neg ha, ih, sleptUs, sleptUs, List.map_cons, List.sum_cons, hzero, Nat.zero_add]

theorem paces_of_sendsFc {a : Act} {fs : CantpFcFlowStatus} (h : a.sendsFc fs = true) :
    a.paces = true := by
  cases a <;> first | rfl | cases h

theorem sendsFc_fcCall (p : CantpParams) (fs fs' : CantpFcFlowStatus) (bs st : UInt8) :
    (p.fcCall (flowFrame fs bs st)).sendsFc fs' = decide (fs = fs') := by
  simp [CantpParams.fcCall, Act.sendsFc]

end CanTp
