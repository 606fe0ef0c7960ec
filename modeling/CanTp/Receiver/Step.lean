import CanTp.Dispatch
import CanTp.Segmentation

/-!
# What a call does to the receiver

The closed form of every way through the receiver functions. A Consecutive Frame
that is taken is `storeCf`; what follows it while the message is incomplete, the
FC.WAIT frames and the count of the block, is `rcvrAwaitNext`, of which the proofs
about stored data only use that it `Awaits`: it touches neither the buffer nor the
sequence number.
-/

namespace CanTp

open Library

/-- `ctx->rcvr.len - ctx->rcvr.index`, an `int`. -/
def RcvrState.remaining (r : RcvrState) : Int := (r.len.toNat : Int) - r.index.toNat

/-- The sequence number the next Consecutive Frame is compared with. -/
def RcvrState.nextSn (r : RcvrState) : UInt8 := snAfter r.sn

/-- The number of bytes taken from the next Consecutive Frame. -/
def RcvrState.storeLen (r : RcvrState) : Nat :=
  min cfNumDataBytes (r.len.toNat - r.index.toNat)

/-- The receiver after a Consecutive Frame that is not taken. -/
def RcvrState.rejectCf (r : RcvrState) : RcvrState :=
  { r with sn := r.nextSn, timer := none }

/-- The receiver after the data of a Consecutive Frame is stored. -/
def RcvrState.storeCf (r : RcvrState) (f : CantpFrame) : RcvrState :=
  { r with
    data := r.data.map fun d => overwrite d r.index.toNat ((List.range r.storeLen).map f.cfD)
    index := r.index + UInt16.ofNat r.storeLen
    sn := r.nextSn
    timer := none }

/-- The stores of a Consecutive Frame. -/
def RcvrState.cfWrites (r : RcvrState) (f : CantpFrame) : List Act :=
  (List.range r.storeLen).map fun i => .rcvrWrite (r.index.toNat + i) (f.cfD i)

/-- The receiver stores the data of the frame `f`. -/
def RcvrState.Takes (r : RcvrState) (id : UInt32) (f : CantpFrame) : Prop :=
  r.idPair = id ∧ r.nextSn = f.cfSn ∧ 0 < r.remaining

instance (r : RcvrState) (id : UInt32) (f : CantpFrame) : Decidable (r.Takes id f) :=
  inferInstanceAs (Decidable (_ ∧ _))

/-- What follows a Consecutive Frame that is not the last one. -/
def rcvrAwaitNext (env : Env) (w : World) : World :=
  rcvrCountBlock env (rcvrSendWaits env CantpFrame.zero w).1
    (rcvrSendWaits env CantpFrame.zero w).2

/-! ### Storing data -/

theorem rcvrStoreByte_loop (n : Nat) (b : Nat → UInt8) (w : World)
    (h : w.ctx.rcvr.index.toNat + n < 65536) :
    forUpTo n (fun i => rcvrStoreByte (b i)) w =
      ⟨{ w.ctx with
          rcvr.data := w.ctx.rcvr.data.map
            fun d => overwrite d w.ctx.rcvr.index.toNat ((List.range n).map b)
          rcvr.index := w.ctx.rcvr.index + UInt16.ofNat n },
        w.log ++ (List.range n).map fun i => .rcvrWrite (w.ctx.rcvr.index.toNat + i) (b i)⟩ := by
  induction n with
  | zero => simp
  | succ n ih =>
      have hn : (w.ctx.rcvr.index + UInt16.ofNat n).toNat = w.ctx.rcvr.index.toNat + n := by
        rw [UInt16.toNat_add, UInt16.toNat_ofNat']
        omega
      rw [forUpTo_succ, ih (by omega)]
      simp only [rcvrStoreByte, World.emit, hn, List.range_succ, List.map_append,
        List.map_cons, List.map_nil, List.append_assoc, Option.map_map]
      rw [UInt16.ofNat_add, UInt16.add_assoc]
      congr 3
      refine Option.map_congr fun d _ => ?_
      simp only [Function.comp_apply, overwrite_concat, List.length_map, List.length_range]

theorem storeLen_eq {r : RcvrState} (h : 0 < r.remaining) :
    (if r.remaining < cfNumDataBytes then UInt8.ofInt r.remaining
      else UInt8.ofNat cfNumDataBytes).toNat = r.storeLen := by
  rw [RcvrState.storeLen, cfNumDataBytes]
  unfold RcvrState.remaining at *
  split
  · rw [toNat_ofInt_uint8 (by omega) (by omega)]
    omega
  · rw [UInt8.toNat_ofNat']
    omega

theorem index_storeCf {r : RcvrState} (f : CantpFrame) (h : 0 < r.remaining) :
    (r.storeCf f).index.toNat = min r.len.toNat (r.index.toNat + cfNumDataBytes) := by
  unfold RcvrState.remaining at h
  have hl := r.len.toNat_lt
  simp only [RcvrState.storeCf, RcvrState.storeLen, cfNumDataBytes, UInt16.toNat_add,
    UInt16.toNat_ofNat']
  omega

/-! ### Consecutive Frames -/

section Consecutive

variable {env : Env} {id : UInt32} {f : CantpFrame} {w : World}

theorem rxCf_foreign (h : w.ctx.rcvr.idPair ≠ id) :
    rcvrRxConsecutiveFrame env id f w = w := by
  rw [rcvrRxConsecutiveFrame, World.val_eq, if_pos h]

theorem rxCf_reject (hid : w.ctx.rcvr.idPair = id) (h : ¬ w.ctx.rcvr.Takes id f) :
    rcvrRxConsecutiveFrame env id f w =
      ⟨{ w.ctx with rcvr := w.ctx.rcvr.rejectCf }, w.log⟩ := by
  unfold RcvrState.Takes at h
  rw [rcvrRxConsecutiveFrame, World.val_eq, if_neg (not_not.mpr hid)]
  by_cases hsn : w.ctx.rcvr.nextSn = f.cfSn
  · have hrem : w.ctx.rcvr.remaining ≤ 0 := not_lt.mp fun hrem => h ⟨hid, hsn, hrem⟩
    unfold RcvrState.nextSn snAfter at hsn
    unfold RcvrState.remaining at hrem
    by_cases hgt : w.ctx.rcvr.sn + 1 > 0x0f
    · rw [if_pos hgt] at hsn
      simp [World.rcvrTimerStop, hgt, ← hsn, RcvrState.rejectCf, RcvrState.nextSn, snAfter, hrem]
    · rw [if_neg hgt] at hsn
      simp [World.rcvrTimerStop, hgt, ← hsn, RcvrState.rejectCf, RcvrState.nextSn, snAfter, hrem]
  · unfold RcvrState.nextSn snAfter at hsn
    by_cases hgt : w.ctx.rcvr.sn + 1 > 0x0f
    · rw [if_pos hgt] at hsn
      simp [World.rcvrTimerStop, hgt, hsn, RcvrState.rejectCf, RcvrState.nextSn, snAfter]
    · rw [if_neg hgt] at hsn
      simp [World.rcvrTimerStop, hgt, hsn, RcvrState.rejectCf, RcvrState.nextSn, snAfter]

/-- A Consecutive Frame that is taken: its data is stored, and the message is
delivered if it is complete. -/
theorem rxCf_take (h : w.ctx.rcvr.Takes id f) :
    rcvrRxConsecutiveFrame env id f w =
      let r := w.ctx.rcvr.storeCf f
      let w' : World := ⟨{ w.ctx with rcvr := r }, w.log ++ w.ctx.rcvr.cfWrites f⟩
      if w.ctx.rcvr.remaining ≤ cfNumDataBytes then
        (cantpRcvrSetState w' .txDone).emit
          (.receivedCb w.ctx.params.id w.ctx.params.idt r.data r.len.toUInt8)
      else rcvrAwaitNext env w' := by
  obtain ⟨hid, hsn, hrem⟩ := h
  have hlen := storeLen_eq hrem
  have hl := w.ctx.rcvr.len.toNat_lt
  have hwrap : w.ctx.rcvr.index.toNat + w.ctx.rcvr.storeLen < 65536 := by
    unfold RcvrState.remaining at hrem
    rw [RcvrState.storeLen, cfNumDataBytes]
    omega
  have hstart : ∃ w₁ : World, w₁ = ⟨{ w.ctx with
      rcvr.sn := w.ctx.rcvr.nextSn
      rcvr.timer := none }, w.log⟩ := ⟨_, rfl⟩
  obtain ⟨w₁, hw₁⟩ := hstart
  have hloop := rcvrStoreByte_loop w.ctx.rcvr.storeLen f.cfD w₁ (by rw [hw₁]; exact hwrap)
  have hstep : rcvrRxConsecutiveFrame env id f w =
      if w.ctx.rcvr.remaining ≤ cfNumDataBytes then
        let w₂ := forUpTo w.ctx.rcvr.storeLen (fun i => rcvrStoreByte (f.cfD i)) w₁
        let w₃ := cantpRcvrSetState w₂ .txDone
        w₃.emit (.receivedCb w₃.ctx.params.id w₃.ctx.params.idt w₃.ctx.rcvr.data
          w₃.ctx.rcvr.len.toUInt8)
      else rcvrAwaitNext env
        (forUpTo w.ctx.rcvr.storeLen (fun i => rcvrStoreByte (f.cfD i)) w₁) := by
    rw [rcvrRxConsecutiveFrame, rcvrAwaitNext, World.val_eq, if_neg (not_not.mpr hid), ← hlen,
      hw₁]
    simp only [RcvrState.nextSn, snAfter] at *
    unfold RcvrState.remaining at *
    by_cases hgt : w.ctx.rcvr.sn + 1 > 0x0f
    · rw [if_pos hgt] at hsn
      simp [World.rcvrTimerStop, hgt, ← hsn, not_le.mpr hrem]
    · rw [if_neg hgt] at hsn
      simp [World.rcvrTimerStop, hgt, ← hsn, not_le.mpr hrem]
  rw [hstep, hloop, hw₁]
  rfl

theorem rxCf_last (h : w.ctx.rcvr.Takes id f) (hrem : w.ctx.rcvr.remaining ≤ cfNumDataBytes) :
    rcvrRxConsecutiveFrame env id f w =
      ⟨{ w.ctx with rcvr := { w.ctx.rcvr.storeCf f with state := .txDone } },
        w.log ++ w.ctx.rcvr.cfWrites f ++ [.receivedCb w.ctx.params.id w.ctx.params.idt
          (w.ctx.rcvr.storeCf f).data w.ctx.rcvr.len.toUInt8]⟩ := by
  rw [rxCf_take h]
  exact if_pos hrem

theorem rxCf_more (h : w.ctx.rcvr.Takes id f)
    (hrem : ¬ w.ctx.rcvr.remaining ≤ cfNumDataBytes) :
    rcvrRxConsecutiveFrame env id f w = rcvrAwaitNext env
      ⟨{ w.ctx with rcvr := w.ctx.rcvr.storeCf f }, w.log ++ w.ctx.rcvr.cfWrites f⟩ := by
  rw [rxCf_take h]
  exact if_neg hrem

end Consecutive

/-! ### Between two Consecutive Frames -/

/-- The calls made between two Consecutive Frames: a result is reported only if a
transmission fails. -/
def Act.IsAwait (env : Env) : Act → Prop
  | .canTx .. | .usleep _ | .printCantpFrame _ => True
  | .sndrResultCb _ => ∃ log, env.canTx log < 0
  | _ => False

/-- The calls made while an FC frame is sent. -/
def fcActs (env : Env) (f : CantpFrame) (w : World) : List Act :=
  let tx := .canTx w.ctx.params.id w.ctx.params.idt 8 f (1000 * nArTimerMs)
  tx :: if env.canTx (w.log ++ [tx]) < 0 then [.sndrResultCb .nTimeoutAs] else []

theorem rcvrSendFc_eq (env : Env) (f : CantpFrame) (w : World) :
    rcvrSendFc env f w = ⟨w.ctx, w.log ++ fcActs env f w⟩ := by
  rw [rcvrSendFc, fcActs]
  by_cases h : (w.cantpCanTx env f (1000 * nArTimerMs)).1 < 0
  · have hlog : env.canTx
        (w.log ++ [.canTx w.ctx.params.id w.ctx.params.idt 8 f (1000 * nArTimerMs)]) < 0 := h
    simp only [h, if_true, hlog]
    ext : 1 <;> simp [World.cantpCanTx]
  · have hlog : ¬ env.canTx
        (w.log ++ [.canTx w.ctx.params.id w.ctx.params.idt 8 f (1000 * nArTimerMs)]) < 0 := h
    simp only [h, if_false, hlog]
    ext : 1 <;> simp [World.cantpCanTx]

theorem isAwait_fcActs {env : Env} {f : CantpFrame} {w : World} {a : Act}
    (ha : a ∈ fcActs env f w) : a.IsAwait env := by
  unfold fcActs at ha
  rcases List.mem_cons.mp ha with rfl | ha
  · trivial
  · split at ha
    · rename_i hfail
      rw [List.mem_singleton.mp ha]
      exact ⟨_, hfail⟩
    · cases ha

/-! ### Failed transmissions -/

/-- A transmission of a Flow Control frame. -/
def Act.isFc : Act → Bool
  | .canTx .. => true
  | _ => false

/-- While `r` is handled, the transmission of a Flow Control frame fails. -/
def FcFails (c : CantpRxtxStatus) (r : RxFrame) : Prop :=
  ∃ pre tx post, (canTp.step c (.canrxCb r)).2 = pre ++ tx :: post ∧ tx.isFc = true ∧
    r.env.canTx (pre ++ [tx]) < 0

/-- Calls in which a result is reported only right behind a transmission that fails. -/
inductive FcLog (env : Env) : List Act → Prop
  | nil : FcLog env []
  | snoc {log : List Act} (h : FcLog env log) (a : Act) (ha : ∀ res, a ≠ .sndrResultCb res) :
      FcLog env (log ++ [a])
  | failed {log : List Act} (h : FcLog env log) {tx : Act} (htx : tx.isFc = true)
      (hfail : env.canTx (log ++ [tx]) < 0) (res : CantpResult) :
      FcLog env (log ++ [tx, .sndrResultCb res])

namespace FcLog

variable {env : Env} {log acts : List Act}

theorem append (h : FcLog env log) (hacts : ∀ a ∈ acts, ∀ res, a ≠ .sndrResultCb res) :
    FcLog env (log ++ acts) := by
  induction acts generalizing log with
  | nil => rwa [List.append_nil]
  | cons a acts ih =>
      have hsnoc := h.snoc a (hacts a (List.mem_cons_self ..))
      rw [List.append_cons]
      exact ih hsnoc fun b hb => hacts b (List.mem_cons_of_mem _ hb)

theorem of_quiet (h : ∀ a ∈ log, ∀ res, a ≠ .sndrResultCb res) : FcLog env log :=
  nil.append h

theorem fcActs (f : CantpFrame) {w : World} (h : FcLog env w.log) :
    FcLog env (w.log ++ CanTp.fcActs env f w) := by
  rw [CanTp.fcActs]
  split
  · rename_i hfail
    exact h.failed rfl hfail _
  · exact h.snoc _ (by simp)

/-- A report tells of a failure. -/
theorem exists_failure (h : FcLog env log) {res : CantpResult} (hres : .sndrResultCb res ∈ log) :
    ∃ pre tx post, log = pre ++ tx :: post ∧ tx.isFc = true ∧ env.canTx (pre ++ [tx]) < 0 := by
  induction h with
  | nil => cases hres
  | @snoc log _ a ha ih =>
      have hlog : .sndrResultCb res ∈ log := (List.mem_append.mp hres).resolve_right
        fun hlast => ha res (List.mem_singleton.mp hlast).symm
      obtain ⟨pre, tx, post, heq, htx, hfail⟩ := ih hlog
      exact ⟨pre, tx, post ++ [a], by rw [heq, List.append_assoc]; rfl, htx, hfail⟩
  | @failed log _ tx htx hfail res' => exact ⟨log, tx, [.sndrResultCb res'], rfl, htx, hfail⟩

end FcLog

/-- From `w` to `w'` the receiver waits for the next Consecutive Frame: of its own
state only the wait counter and the timer change. -/
structure Awaits (env : Env) (w w' : World) : Prop where
  log : ∃ acts, w'.log = w.log ++ acts ∧ ∀ a ∈ acts, a.IsAwait env
  rcvr : ∃ wft t, w'.ctx.rcvr = { w.ctx.rcvr with wftCntr := wft, timer := t }
  sndr : ∃ bl, w'.ctx.sndr = { w.ctx.sndr with blIndex := bl }
  params : w'.ctx.params = w.ctx.params
  failures : FcLog env w.log → FcLog env w'.log

namespace Awaits

variable {env : Env} {w w₁ w₂ : World}

theorem refl (w : World) : Awaits env w w :=
  ⟨⟨[], by simp, by simp⟩, ⟨_, _, rfl⟩, ⟨_, rfl⟩, rfl, id⟩

theorem trans (h : Awaits env w w₁) (h' : Awaits env w₁ w₂) : Awaits env w w₂ := by
  obtain ⟨⟨acts, hlog, hacts⟩, ⟨wft, t, hr⟩, ⟨bl, hs⟩, hp, hf⟩ := h
  obtain ⟨⟨acts', hlog', hacts'⟩, ⟨wft', t', hr'⟩, ⟨bl', hs'⟩, hp', hf'⟩ := h'
  refine ⟨⟨acts ++ acts', by rw [hlog', hlog, List.append_assoc], fun a ha => ?_⟩,
    ⟨wft', t', by rw [hr', hr]⟩, ⟨bl', by rw [hs', hs]⟩, hp'.trans hp, hf' ∘ hf⟩
  exact (List.mem_append.mp ha).elim (hacts a) (hacts' a)

theorem emit (w : World) (a : Act) (ha : a.IsAwait env) (hres : ∀ res, a ≠ .sndrResultCb res) :
    Awaits env w (w.emit a) :=
  ⟨⟨[a], rfl, by simp [ha]⟩, ⟨_, _, rfl⟩, ⟨_, rfl⟩, rfl, fun h => h.snoc a hres⟩

theorem timerStart (w : World) (name : TimerName) (us : Nat) :
    Awaits env w (w.rcvrTimerStart name us) :=
  ⟨⟨[], by simp, by simp⟩, ⟨_, _, rfl⟩, ⟨_, rfl⟩, rfl, id⟩

theorem wftCntr (w : World) (n : UInt8) : Awaits env w { w with ctx.rcvr.wftCntr := n } :=
  ⟨⟨[], by simp, by simp⟩, ⟨_, _, rfl⟩, ⟨_, rfl⟩, rfl, id⟩

theorem blIndex (w : World) (n : UInt8) : Awaits env w { w with ctx.sndr.blIndex := n } :=
  ⟨⟨[], by simp, by simp⟩, ⟨_, _, rfl⟩, ⟨_, rfl⟩, rfl, id⟩

theorem setState (h : w.ctx.rcvr.state = .fcSent) : Awaits env w (cantpRcvrSetState w .fcSent) := by
  refine ⟨⟨[], by simp, by simp⟩, ⟨w.ctx.rcvr.wftCntr, w.ctx.rcvr.timer, ?_⟩, ⟨_, rfl⟩, rfl, id⟩
  rw [cantpRcvrSetState_ctx, ← h]

theorem state_eq (h : Awaits env w w₁) : w₁.ctx.rcvr.state = w.ctx.rcvr.state := by
  obtain ⟨wft, t, hr⟩ := h.rcvr
  rw [hr]

theorem idPair_eq (h : Awaits env w w₁) : w₁.ctx.rcvr.idPair = w.ctx.rcvr.idPair := by
  obtain ⟨wft, t, hr⟩ := h.rcvr
  rw [hr]

theorem sendFc (f : CantpFrame) (w : World) : Awaits env w (rcvrSendFc env f w) := by
  rw [rcvrSendFc_eq]
  exact ⟨⟨_, rfl, fun _ ha => isAwait_fcActs ha⟩, ⟨_, _, rfl⟩, ⟨_, rfl⟩, rfl, FcLog.fcActs f⟩

theorem waitTurn (f : CantpFrame) (h : w.ctx.rcvr.state = .fcSent) :
    Awaits env w (rcvrWaitTurn env f w) := by
  have hsend : Awaits env w (rcvrSendFc env (waitFrame f)
      ((w.emit (.usleep w.ctx.params.wftTimUs)).emit (.printCantpFrame (waitFrame f)))) :=
    ((emit w (.usleep w.ctx.params.wftTimUs) trivial (by simp)).trans
      (emit _ (.printCantpFrame (waitFrame f)) trivial (by simp))).trans (sendFc _ _)
  have hst := hsend.trans (setState (hsend.state_eq.trans h))
  exact hst.trans (wftCntr _ _)

/-- The loop over the FC.WAIT frames, by its own recursion. -/
theorem waitLoop (f : CantpFrame) (w : World) (h : w.ctx.rcvr.state = .fcSent) :
    Awaits env w (rcvrWaitLoop env f w) := by
  induction f, w using rcvrWaitLoop.induct env with
  | case1 f w w' hgt =>
      rw [rcvrWaitLoop, if_pos hgt]
      exact (waitTurn f h).trans (timerStart _ _ _)
  | case2 f w w' hgt w'' hlt ih =>
      rw [rcvrWaitLoop, if_neg hgt, if_pos hlt]
      have hturn := (waitTurn f h).trans (timerStart w' .nBr (1000 * nBrTimerMs))
      exact hturn.trans (ih (hturn.state_eq.trans h))
  | case3 f w w' hgt w'' hlt =>
      rw [rcvrWaitLoop, if_neg hgt, if_neg hlt]
      exact (waitTurn f h).trans (timerStart _ _ _)

theorem sendWaits (f : CantpFrame) (h : w.ctx.rcvr.state = .fcSent) :
    Awaits env w (rcvrSendWaits env f w).2 := by
  rw [rcvrSendWaits]
  split
  · exact (wftCntr w 0).trans (waitLoop f _ h)
  · exact refl w

theorem countBlock (f : CantpFrame) (h : w.ctx.rcvr.state = .fcSent) :
    Awaits env w (rcvrCountBlock env f w) := by
  rw [rcvrCountBlock]
  split
  · dsimp only
    split
    · have hcount : Awaits env w { w with ctx.sndr.blIndex := w.ctx.sndr.blIndex + 1 } :=
        blIndex w _
      have hsend := ((hcount.trans (blIndex _ 0)).trans
        (emit _ (.printCantpFrame (ctsFrame w.ctx.params f)) trivial (by simp))).trans
        (sendFc (ctsFrame w.ctx.params f) _)
      exact (hsend.trans (setState (hsend.state_eq.trans h))).trans (timerStart _ _ _)
    · exact (blIndex w _).trans (timerStart _ _ _)
  · exact timerStart _ _ _

end Awaits

theorem awaits_rcvrAwaitNext (env : Env) {w : World} (h : w.ctx.rcvr.state = .fcSent) :
    Awaits env w (rcvrAwaitNext env w) :=
  have hwaits := Awaits.sendWaits CantpFrame.zero h
  hwaits.trans (Awaits.countBlock _ (hwaits.state_eq.trans h))

theorem rcvrAwaitNext_eq (env : Env) {w : World} (hwft : w.ctx.params.wftNum = 0)
    (hbs : w.ctx.params.blockSize = 0) :
    rcvrAwaitNext env w = w.rcvrTimerStart .nCr (1000 * nCrTimerMs) := by
  have hwft' : ¬ w.ctx.params.wftNum > 0 := by simp [hwft]
  have hbs' : ¬ w.ctx.params.blockSize > 0 := by simp [hbs]
  rw [rcvrAwaitNext, rcvrSendWaits, rcvrCountBlock]
  simp only [World.val_eq, World.on_eq, if_neg hwft', if_neg hbs']

theorem rcvrAwaitNext_count (env : Env) {w : World} (hwft : w.ctx.params.wftNum = 0)
    (hbs : 0 < w.ctx.params.blockSize)
    (hlt : ¬ w.ctx.params.blockSize ≤ w.ctx.sndr.blIndex + 1) :
    rcvrAwaitNext env w = { w with ctx.sndr.blIndex := w.ctx.sndr.blIndex + 1
                                   ctx.rcvr.timer := some ⟨.nCr, 1000 * nCrTimerMs⟩ } := by
  have hwft' : ¬ w.ctx.params.wftNum > 0 := by simp [hwft]
  rw [rcvrAwaitNext, rcvrSendWaits, World.val_eq, if_neg hwft', rcvrCountBlock, World.val_eq,
    if_pos hbs]
  exact if_neg hlt

/-- At the end of a block, waiting sends FC.CTS and restarts `N_Cr`. -/
theorem rcvrAwaitNext_blockEnd (env : Env) {w : World} (hwft : w.ctx.params.wftNum = 0)
    (hbs : 0 < w.ctx.params.blockSize)
    (hle : w.ctx.params.blockSize ≤ w.ctx.sndr.blIndex + 1) :
    let fc := ctsFrame w.ctx.params CantpFrame.zero
    rcvrAwaitNext env w =
      ⟨{ w.ctx with
          sndr.blIndex := 0
          rcvr.state := .fcSent
          rcvr.timer := some ⟨.nCr, 1000 * nCrTimerMs⟩ },
        w.log ++ .printCantpFrame fc ::
          fcActs env fc ⟨w.ctx, w.log ++ [.printCantpFrame fc]⟩⟩ := by
  have hwft' : ¬ w.ctx.params.wftNum > 0 := by simp [hwft]
  intro fc
  rw [rcvrAwaitNext, rcvrSendWaits, World.val_eq, if_neg hwft', rcvrCountBlock, World.val_eq,
    if_pos hbs]
  refine (if_pos hle).trans ?_
  simp only [World.val_eq, World.on_eq, rcvrSendFc_eq]
  ext : 1
  · rfl
  · simp [fcActs, fc, World.emit]

/-! ### First Frames -/

/-- The stores of a First Frame. -/
def ffWrites (f : CantpFrame) : List Act :=
  (List.range ffNumDataBytes).map fun i => .rcvrWrite i (f.ffD i)

/-- The answer of the session layer to a First Frame. -/
def RxFrame.ffAnswer (r : RxFrame) (data : Option (List UInt8)) : Int × Option (List UInt8) :=
  r.env.rcvrRxFfCb r.id r.idt data (cantpFfLenGet r.frame)

/-- The receiver after a First Frame, when the session layer is asked. -/
def RcvrState.announced (s : RcvrState) (r : RxFrame) : RcvrState :=
  { s with
    state := .ffRcvd
    data := (r.ffAnswer s.data).2
    len := cantpFfLenGet r.frame
    index := 0
    idPair := r.id
    blIndex := 0
    timer := some ⟨.nBr, 1000 * nBrTimerMs⟩ }

/-- The receiver after a First Frame that was accepted with the buffer `buf`. -/
def RcvrState.accepted (s : RcvrState) (r : RxFrame) (buf : List UInt8) : RcvrState :=
  { s.announced r with
    state := .fcSent
    data := some (overwrite buf 0 ((List.range ffNumDataBytes).map r.frame.ffD))
    index := UInt16.ofNat ffNumDataBytes
    timer := some ⟨.nCr, 1000 * nCrTimerMs⟩ }

section First

variable {r : RxFrame} {w : World}

/-- The part of `rcvr_rx_first_frame` after the session layer has supplied a buffer. -/
def rcvrAcceptFf (env : Env) (frame : CantpFrame) (w : World) : World :=
  let w := forUpTo ffNumDataBytes (fun i => rcvrStoreByte (frame.ffD i)) w
  let w := { w with ctx.rcvr.index := UInt16.ofNat ffNumDataBytes }
  let w := w.rcvrTimerStop
  let w := w.rcvrTimerStart .nAr (1000 * nArTimerMs)
  let fc := ctsFrame w.ctx.params CantpFrame.zero
  let w := cantpRcvrSetState w .fcSending
  let w := rcvrSendFc env fc (w.emit (.printCantpFrame fc))
  let w := cantpRcvrSetState w .fcSent
  let w := w.rcvrTimerStop
  w.rcvrTimerStart .nCr (1000 * nCrTimerMs)

/-- The three ways on from the question to the session layer. -/
theorem rxFf_eq (r : RxFrame) (w : World) :
    rcvrRxFirstFrame r.env r.id r.idt r.frame w =
      let w₁ : World := ⟨{ w.ctx with rcvr := w.ctx.rcvr.announced r },
        w.log ++ [.rcvrRxFfCb r.id r.idt (cantpFfLenGet r.frame)]⟩
      if (r.ffAnswer w.ctx.rcvr.data).1 < 0 then cantpRcvrSetState w₁.rcvrTimerStop .idle
      else if (r.ffAnswer w.ctx.rcvr.data).2 = none then w₁
      else rcvrAcceptFf r.env r.frame w₁ := rfl

theorem rxFf_refused (h : (r.ffAnswer w.ctx.rcvr.data).1 < 0) :
    rcvrRxFirstFrame r.env r.id r.idt r.frame w =
      ⟨{ w.ctx with rcvr := { w.ctx.rcvr.announced r with state := .idle, timer := none } },
        w.log ++ [.rcvrRxFfCb r.id r.idt (cantpFfLenGet r.frame)]⟩ := by
  rw [rxFf_eq]
  exact if_pos h

theorem rxFf_abandoned (h : ¬ (r.ffAnswer w.ctx.rcvr.data).1 < 0)
    (hd : (r.ffAnswer w.ctx.rcvr.data).2 = none) :
    rcvrRxFirstFrame r.env r.id r.idt r.frame w =
      ⟨{ w.ctx with rcvr := w.ctx.rcvr.announced r },
        w.log ++ [.rcvrRxFfCb r.id r.idt (cantpFfLenGet r.frame)]⟩ := by
  rw [rxFf_eq]
  exact (if_neg h).trans (if_pos hd)

/-- The calls of an accepted First Frame up to the transmission of the FC.CTS. -/
def ffLog (r : RxFrame) (w : World) : List Act :=
  w.log ++ .rcvrRxFfCb r.id r.idt (cantpFfLenGet r.frame) ::
    (ffWrites r.frame ++ [.printCantpFrame (ctsFrame w.ctx.params CantpFrame.zero)])

theorem mem_ffLog {a : Act} (ha : a ∈ ffLog r w) :
    a ∈ w.log ∨ a = .rcvrRxFfCb r.id r.idt (cantpFfLenGet r.frame) ∨
      (∃ i b, a = .rcvrWrite i b) ∨ ∃ f, a = .printCantpFrame f := by
  rw [ffLog, List.mem_append, List.mem_cons, List.mem_append] at ha
  rcases ha with hlog | hask | hwrite | hprint
  · exact Or.inl hlog
  · exact Or.inr (Or.inl hask)
  · obtain ⟨i, -, rfl⟩ := List.mem_map.mp hwrite
    exact Or.inr (Or.inr (Or.inl ⟨i, _, rfl⟩))
  · exact Or.inr (Or.inr (Or.inr ⟨_, List.mem_singleton.mp hprint⟩))

theorem rxFf_accepted {buf : List UInt8} (h : ¬ (r.ffAnswer w.ctx.rcvr.data).1 < 0)
    (hd : (r.ffAnswer w.ctx.rcvr.data).2 = some buf) :
    rcvrRxFirstFrame r.env r.id r.idt r.frame w =
      ⟨{ w.ctx with rcvr := w.ctx.rcvr.accepted r buf },
        ffLog r w ++ fcActs r.env (ctsFrame w.ctx.params CantpFrame.zero)
          ⟨w.ctx, ffLog r w⟩⟩ := by
  have hnone : ¬ (r.ffAnswer w.ctx.rcvr.data).2 = none := by simp [hd]
  rw [rxFf_eq]
  refine ((if_neg h).trans (if_neg hnone)).trans ?_
  rw [rcvrAcceptFf, rcvrStoreByte_loop _ _ _ (by simp [RcvrState.announced, ffNumDataBytes])]
  simp only [rcvrSendFc_eq]
  ext : 1
  · simp [RcvrState.accepted, RcvrState.announced, hd]
  · simp [ffLog, ffWrites, fcActs, World.emit, RcvrState.announced]

end First

/-! ### The dispatcher -/

section Dispatcher

variable {r : RxFrame} {w : World}

theorem canrx_singleFrame (h : r.pci = some .singleFrame) :
    handle (.canrxCb r) w =
      ⟨{ w.ctx with rcvr.state := .rxDone },
        w.log ++ [.printCantpFrame r.frame, .receivedCb r.id r.idt
          (some ((List.range sfNumDataBytes).map r.frame.sfD)) r.frame.sfLen]⟩ := by
  unfold RxFrame.pci at h
  rw [handle, cantpCanrxCb, cantpCanrxCbAmong]
  simp only [RxFrame.frame] at *
  simp only [h]
  ext : 1 <;> simp

theorem canrx_firstFrame (h : r.pci = some .firstFrame) :
    handle (.canrxCb r) w =
      if w.ctx.rcvr.state = .idle then
        rcvrRxFirstFrame r.env r.id r.idt r.frame (w.emit (.printCantpFrame r.frame))
      else w.emit (.printCantpFrame r.frame) := by
  unfold RxFrame.pci at h
  rw [handle, cantpCanrxCb, cantpCanrxCbAmong]
  simp only [RxFrame.frame] at *
  simp only [h]
  rfl

theorem canrx_consecFrame (h : r.pci = some .consecFrame) :
    handle (.canrxCb r) w =
      if w.ctx.rcvr.state = .fcSent then
        rcvrRxConsecutiveFrame r.env r.id r.frame (w.emit (.printCantpFrame r.frame))
      else w.emit (.printCantpFrame r.frame) := by
  unfold RxFrame.pci at h
  rw [handle, cantpCanrxCb, cantpCanrxCbAmong]
  simp only [RxFrame.frame] at *
  simp only [h]
  rfl

theorem canrx_unknown (h : r.pci = none) : handle (.canrxCb r) w = w := by
  unfold RxFrame.pci at h
  rw [handle, cantpCanrxCb, cantpCanrxCbAmong]
  simp only [RxFrame.frame] at *
  simp only [h]
  rfl

end Dispatcher

end CanTp
