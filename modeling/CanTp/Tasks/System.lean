import CanTp.Receiver.Outcome

/-!
# The tasks of a node

The sender task, the receive task, the session layer and the timer run at the same time
and share one context. The tasks meet at the semaphore of the sender state: every change
of the state gives a token, and both the sender task in `IDLE` and the receive task with
a Flow Control frame take one. Here `cantp_sndr_task` is cut where it waits, at the semaphore,
at the end of a transmission and at the pause between two Consecutive Frames, and
`cantp_rx_task` at the semaphore, so that anything else can run in between. Which move comes
next is left open. A call runs undivided between two of these cuts, so that a change of the
state and its token are one step; the waits of the receiver, in `cantp_can_tx` for a Flow
Control frame and in `cantp_usleep` between FC.WAIT frames, are no cuts.
-/

namespace CanTp

open Library

/-- Where the sender task is: at the top of its loop, in `cantp_sndr_wait_state_change`,
in `cantp_sndr_wait_tx_done`, before `cantp_cantx_confirm_cb`, or in the pause of it. -/
inductive SndrAt
  | top
  | idleWait
  | txWait
  | confirming
  | pausing
deriving DecidableEq, Repr

/-- Where the receive task is: in `cantp_can_rx`, or with a Flow Control frame in
`cantp_sndr_wait_state_change` or behind it. -/
inductive RxAt
  | receiving
  | taking (r : RxFrame)
  | looking (r : RxFrame)

/-- A context with its tasks and the tokens of its semaphore. -/
structure Tasks where
  ctx : CantpRxtxStatus
  tokens : Nat
  sndr : SndrAt
  rx : RxAt

/-- The moves: a request of the session layer, the expiry of the sender timer, the steps
of the sender task and those of the receive task. -/
inductive Move
  | request (id : UInt32) (idt : UInt8) (data : List UInt8) (len : UInt16)
  | expiry
  | sndrLook
  | sndrTake
  | sndrTxDone
  | sndrTxTimeout
  | sndrConfirm
  | sndrWake
  | rxFrame (r : RxFrame)
  | rxTake
  | rxTimeout
  | rxLook

/-! ### The pieces of the functions -/

/-- `sndrContinueBlock` up to its pause. -/
def sndrPause (w : World) : World :=
  let w := cantpSndrSetState w .cfSent
  if w.ctx.sndr.stTimUs > 0 then w.emit (.usleep w.ctx.sndr.stTimUs) else w

/-- `sndrContinueBlock` from its pause on. -/
def sndrResume (w : World) : World :=
  sndrSendCfAfrerCf (w.sndrTimerStart .nCs (1000 * nCsTimerMs))

/-- The case of `cantp_cantx_confirm_cb` for a Consecutive Frame up to the pause, and
whether it comes to one. -/
def sndrCfConfirmedHead (w : World) : World × Bool :=
  let w := w.sndrTimerStop
  let remaining := w.ctx.sndr.remaining
  if remaining < 0 then (w, false)
  else if remaining = 0 then
    ((cantpSndrSetState w .idle).emit .sndrTxDoneCb, false)
  else
    let w := { w with ctx.sndr.sn := w.ctx.sndr.sn + 1 }
    let w := if w.ctx.sndr.sn > 0x0f then { w with ctx.sndr.sn := 0 } else w
    if w.ctx.sndr.bsPair > 0 then
      let w := { w with ctx.sndr.blIndex := w.ctx.sndr.blIndex + 1 }
      if w.ctx.sndr.blIndex ≥ w.ctx.sndr.bsPair then
        let w := { w with ctx.sndr.blIndex := 0 }
        let w := w.sndrTimerStart .nBs (1000 * nBsTimerMs)
        (cantpSndrSetState w .cfFcWait, false)
      else (sndrPause w, true)
    else (sndrPause w, true)

/-- `cantp_cantx_confirm_cb` up to the pause, and whether it comes to one. -/
def cantpCantxConfirmHead (w : World) : World × Bool :=
  match w.ctx.sndr.state with
  | .cfSent | .cfSending => sndrCfConfirmedHead w
  | _ => (cantpCantxConfirmCb w, false)

/-- The branch of `cantp_canrx_cb` for a Flow Control frame from where the state of the
sender is looked at for the last time. -/
def canrxFlowControllLook (id : UInt32) (frame : CantpFrame) (w : World) : World :=
  if w.ctx.sndr.state ≠ .ffFcWait then w
  else sndrRxFlowControlFrame id frame (w.emit (.printCantpFrame frame))

/-- The `switch` of `cantp_sndr_task`. -/
def cantpSndrTaskSwitch : CantpState → SndrAt
  | .idle => .idleWait
  | .sfSending | .ffSending | .cfSending => .txWait
  | _ => .top

/-! ### The machine -/

/-- The tokens given in a log. -/
def gives (log : List Act) : Nat :=
  log.countP fun | .sndrStateSemGive => true | _ => false

/-- The tasks after a piece of a function that ends in `w`. -/
def Tasks.after (s : Tasks) (w : World) : Tasks × List Act :=
  ({ s with ctx := w.ctx, tokens := s.tokens + gives w.log }, w.log)

/-- One move. A move that is not possible does nothing. What a move runs is not divided: no
other task runs between a change of the state and the token it gives. -/
def Tasks.move (s : Tasks) : Move → Tasks × List Act
  | .request id idt data len => s.after (cantpSend id idt data len ⟨s.ctx, []⟩)
  | .expiry => s.after (sndrTimerExpiry ⟨s.ctx, []⟩)
  | .sndrLook =>
      if s.sndr = .top then ({ s with sndr := cantpSndrTaskSwitch s.ctx.sndr.state }, [])
      else (s, [])
  | .sndrTake =>
      if s.sndr = .idleWait ∧ 0 < s.tokens then
        ({ s with sndr := .top, tokens := s.tokens - 1 }, [])
      else (s, [])
  | .sndrTxDone => if s.sndr = .txWait then ({ s with sndr := .confirming }, []) else (s, [])
  | .sndrTxTimeout => if s.sndr = .txWait then ({ s with sndr := .top }, []) else (s, [])
  | .sndrConfirm =>
      if s.sndr = .confirming then
        let p := cantpCantxConfirmHead ⟨s.ctx, []⟩
        { s with sndr := if p.2 then .pausing else .top }.after p.1
      else (s, [])
  | .sndrWake =>
      if s.sndr = .pausing then { s with sndr := .top }.after (sndrResume ⟨s.ctx, []⟩)
      else (s, [])
  | .rxFrame r =>
      match s.rx with
      | .receiving =>
          if r.pci = some .flowControll then
            if s.ctx.sndr.state ≠ .ffFcWait then
              { s with rx := .taking r }.after
                (World.emit ⟨s.ctx, []⟩ (.sndrStateSemTake (1000 * nBsTimerMs)))
            else s.after (canrxFlowControllLook r.id r.frame ⟨s.ctx, []⟩)
          else s.after (handle (.canrxCb r) ⟨s.ctx, []⟩)
      | _ => (s, [])
  | .rxTake =>
      match s.rx with
      | .taking r =>
          if 0 < s.tokens then ({ s with rx := .looking r, tokens := s.tokens - 1 }, [])
          else (s, [])
      | _ => (s, [])
  | .rxTimeout =>
      match s.rx with
      | .taking _ => if s.tokens = 0 then ({ s with rx := .receiving }, []) else (s, [])
      | _ => (s, [])
  | .rxLook =>
      match s.rx with
      | .looking r =>
          { s with rx := .receiving }.after (canrxFlowControllLook r.id r.frame ⟨s.ctx, []⟩)
      | _ => (s, [])

/-- The machine of the tasks. -/
def tasks : Mealy Tasks Move Act where
  step := Tasks.move

/-- The start: a zeroed context, no token, both tasks at the top of their loops. -/
def Tasks.start (p : CantpParams) : Tasks := ⟨.fresh p, 0, .top, .receiving⟩

/-! ### The pieces make up the functions -/

theorem sndrCfConfirmed_eq_head (w : World) :
    sndrCfConfirmed w =
      if (sndrCfConfirmedHead w).2 then sndrResume (sndrCfConfirmedHead w).1
      else (sndrCfConfirmedHead w).1 := by
  simp only [sndrCfConfirmed, sndrCfConfirmedHead, World.val_eq, World.on_eq]
  split_ifs <;> first | rfl | contradiction

theorem cantpCantxConfirmCb_eq_head (w : World) :
    cantpCantxConfirmCb w =
      if (cantpCantxConfirmHead w).2 then sndrResume (cantpCantxConfirmHead w).1
      else (cantpCantxConfirmHead w).1 := by
  cases hst : w.ctx.sndr.state with
  | cfSending | cfSent =>
      simp only [cantpCantxConfirmCb, cantpCantxConfirmHead, World.val_eq, hst]
      exact sndrCfConfirmed_eq_head w
  | _ => simp [cantpCantxConfirmHead, hst]

theorem canrxFlowControll_eq_look (env : Env) (id : UInt32) (frame : CantpFrame) (w : World) :
    canrxFlowControll env id frame w =
      if w.ctx.sndr.state ≠ .ffFcWait ∧ env.sndrStateSemTake < 0 then
        w.emit (.sndrStateSemTake (1000 * nBsTimerMs))
      else if w.ctx.sndr.state ≠ .ffFcWait then
        canrxFlowControllLook id frame (w.emit (.sndrStateSemTake (1000 * nBsTimerMs)))
      else canrxFlowControllLook id frame w := by
  by_cases hst : w.ctx.sndr.state ≠ .ffFcWait
  · rw [canrxFlowControll_drop hst]
    by_cases htake : env.sndrStateSemTake < 0
    · rw [if_pos ⟨hst, htake⟩]
    · rw [if_neg fun h => htake h.2, if_pos hst]
      exact (if_pos hst).symm
  · rw [canrxFlowControll_take (not_not.mp hst), if_neg fun h => hst h.1, if_neg hst]
    exact (if_neg hst).symm

/-! ### What a piece does -/

/-- A sender that transmits a First Frame has a message too long for a Single Frame, and
its timer runs. -/
def FfSound (c : CantpRxtxStatus) : Prop :=
  c.sndr.state = .ffSending → sfNumDataBytes < c.sndr.len.toNat ∧ c.sndr.timer.isSome = true

/-- A piece that starts in `c` and ends in `w` gives a token when it changes the state, and
begins no First Frame for a short message or without the timer. -/
structure Piece (c : CantpRxtxStatus) (w : World) : Prop where
  given : w.ctx.sndr.state = c.sndr.state ∨ 0 < gives w.log
  sound : FfSound c → FfSound w.ctx

theorem gives_append (l m : List Act) : gives (l ++ m) = gives l + gives m :=
  List.countP_append

section Pieces

variable {c : CantpRxtxStatus} {w : World}

theorem Piece.same (hst : w.ctx.sndr.state = c.sndr.state) (hlen : w.ctx.sndr.len = c.sndr.len)
    (htimer : w.ctx.sndr.timer = c.sndr.timer) : Piece c w :=
  ⟨Or.inl hst, fun h hff => by rw [hlen, htimer]; exact h (hst.symm.trans hff)⟩

theorem Piece.keep (hst : w.ctx.sndr.state = c.sndr.state) (hff : c.sndr.state ≠ .ffSending) :
    Piece c w :=
  ⟨Or.inl hst, fun _ h => absurd (hst.symm.trans h) hff⟩

theorem Piece.set (hgives : 0 < gives w.log) (hff : w.ctx.sndr.state ≠ .ffSending) : Piece c w :=
  ⟨Or.inr hgives, fun _ h => absurd h hff⟩

theorem piece_send (c : CantpRxtxStatus) (id : UInt32) (idt : UInt8) (data : List UInt8)
    (len : UInt16) : Piece c (cantpSend id idt data len ⟨c, []⟩) := by
  by_cases hlen : len.toNat ≤ sfNumDataBytes
  · rw [send_single hlen]
    exact .set (by simp [gives]) (by simp)
  · rw [send_segmented (not_le.mp hlen)]
    exact ⟨Or.inr (by simp [gives]), fun _ _ => ⟨not_le.mp hlen, rfl⟩⟩

theorem piece_expiry (c : CantpRxtxStatus) : Piece c (sndrTimerExpiry ⟨c, []⟩) := by
  rw [sndrTimerExpiry]
  split
  · by_cases hsend : c.sndr.state.Sending
    · rw [timerCb_sending (by exact hsend)]
      exact .set (by simp [gives]) (by simp)
    · by_cases hwait : c.sndr.state = .ffFcWait
      · rw [timerCb_ffFcWait (by exact hwait)]
        exact .set (by simp [gives]) (by simp)
      · rw [timerCb_other (by exact hsend) (by exact hwait)]
        exact .keep rfl fun hff => hsend (Or.inr (Or.inl hff))
  · exact .same rfl rfl rfl

theorem gives_cfActs (c : CantpRxtxStatus) : 0 < gives c.cfActs := by
  rw [CantpRxtxStatus.cfActs, gives_append]
  exact Nat.add_pos_right _ Nat.one_pos

theorem piece_resume (c : CantpRxtxStatus) : Piece c (sndrResume ⟨c, []⟩) := by
  refine .set ?_ (by simp [sndrResume, sndrSendCfAfrerCf])
  simp only [sndrResume, sndrSendCfAfrerCf, cantpCanTxNb_eq, callPrintCantpFrame_eq,
    World.emit_log, cantpSndrSetState_log, gives_append]
  exact Nat.add_pos_left (Nat.add_pos_left (Nat.add_pos_right _ Nat.one_pos) _) _

theorem piece_cfConfirmedHead (hff : c.sndr.state ≠ .ffSending) :
    Piece c (sndrCfConfirmedHead ⟨c, []⟩).1 := by
  have hpause : ∀ w : World, Piece c (sndrPause w) := fun w => by
    unfold sndrPause
    dsimp only
    split <;> exact .set (by simp [gives]) (by simp)
  unfold sndrCfConfirmedHead
  dsimp only
  split_ifs
  · exact .keep rfl hff
  all_goals first | exact hpause _ | exact .set (by simp [gives]) (by simp)

theorem piece_confirmHead (c : CantpRxtxStatus) : Piece c (cantpCantxConfirmHead ⟨c, []⟩).1 := by
  cases hst : c.sndr.state with
  | cfSending | cfSent =>
      simp only [cantpCantxConfirmHead, hst]
      exact piece_cfConfirmedHead (by simp [hst])
  | sfSending =>
      simp only [cantpCantxConfirmHead, hst]
      rw [confirm_sfSending (w := ⟨c, []⟩) hst]
      exact .set (by simp [gives]) (by simp)
  | ffSending =>
      simp only [cantpCantxConfirmHead, hst]
      rw [confirm_ffSending (w := ⟨c, []⟩) hst]
      exact .set (by simp [gives]) (by simp)
  | _ =>
      simp only [cantpCantxConfirmHead, cantpCantxConfirmCb, World.val_eq, hst]
      exact .same rfl rfl rfl

theorem piece_look (c : CantpRxtxStatus) (id : UInt32) (frame : CantpFrame) :
    Piece c (canrxFlowControllLook id frame ⟨c, []⟩) := by
  by_cases hst : c.sndr.state = .ffFcWait
  · have hlook : canrxFlowControllLook id frame ⟨c, []⟩ =
        sndrRxFlowControlFrame id frame ⟨c, [.printCantpFrame frame]⟩ :=
      if_neg (not_not.mpr hst)
    rw [hlook]
    cases hcts : ctsDelay frame with
    | none =>
        obtain ⟨us, name, hother⟩ := flowControl_other c.sndr id hcts
        rw [hother _ rfl]
        exact .keep rfl (by simp [hst])
    | some us =>
        by_cases hrem : 0 < c.sndr.remaining
        · rw [flowControl_cts hcts (by exact hrem)]
          refine .set ?_ (by simp [sentCf, SndrState.afterCf])
          rw [sentCf, gives_append]
          exact Nat.add_pos_right _ (gives_cfActs _)
        · rw [flowControl_cts_none hcts (not_lt.mp (by exact hrem))]
          exact .keep rfl (by simp [hst])
  · rw [canrxFlowControllLook, if_pos (by exact hst)]
    exact .same rfl rfl rfl

theorem piece_canrx {r : RxFrame} (hpci : r.pci ≠ some .flowControll) (c : CantpRxtxStatus) :
    Piece c (handle (.canrxCb r) ⟨c, []⟩) := by
  obtain ⟨⟨bl, hsndr⟩, -⟩ := (rx_outcome c r).sndr_alone hpci
  exact .same (by rw [hsndr]) (by rw [hsndr]) (by rw [hsndr])

end Pieces

/-! ### What a move does -/

theorem tasks_step (s : Tasks) (m : Move) : tasks.step s m = s.move m := rfl

/-- What a move does: it runs a piece, or none, after which the sender task does not sleep
unless it slept before; or the sender task looks at the state; or one of the tasks takes a
token. -/
inductive MoveOutcome (s : Tasks) : Move → Tasks → Prop
  | piece {m : Move} {w : World} (h : Piece s.ctx w) (a : SndrAt) (x : RxAt)
      (ha : a = s.sndr ∨ a ≠ .idleWait) :
      MoveOutcome s m ⟨w.ctx, s.tokens + gives w.log, a, x⟩
  | looks : MoveOutcome s .sndrLook { s with sndr := cantpSndrTaskSwitch s.ctx.sndr.state }
  | sndrTakes : MoveOutcome s .sndrTake { s with sndr := .top, tokens := s.tokens - 1 }
  | rxTakes (r : RxFrame) (hrx : s.rx = .taking r) (htokens : 0 < s.tokens) :
      MoveOutcome s .rxTake { s with rx := .looking r, tokens := s.tokens - 1 }

section Outcome

variable {s : Tasks} {m : Move}

theorem MoveOutcome.none (a : SndrAt) (x : RxAt) (ha : a = s.sndr ∨ a ≠ .idleWait) :
    MoveOutcome s m { s with sndr := a, rx := x } :=
  .piece (w := ⟨s.ctx, []⟩) (.same rfl rfl rfl) a x ha

theorem MoveOutcome.stay : MoveOutcome s m s := .none s.sndr s.rx (Or.inl rfl)

theorem rxFrame_outcome (s : Tasks) (r : RxFrame) :
    MoveOutcome s (.rxFrame r) (tasks.step s (.rxFrame r)).1 := by
  rw [tasks_step, Tasks.move]
  split
  · split_ifs with hpci hst
    · exact .piece (.same rfl rfl rfl) s.sndr (.taking r) (Or.inl rfl)
    · exact .piece (piece_look _ _ _) s.sndr s.rx (Or.inl rfl)
    · exact .piece (piece_canrx hpci _) s.sndr s.rx (Or.inl rfl)
  · exact .stay

theorem move_outcome (s : Tasks) (m : Move) : MoveOutcome s m (tasks.step s m).1 := by
  cases m with
  | request id idt data len => exact .piece (piece_send ..) s.sndr s.rx (Or.inl rfl)
  | expiry => exact .piece (piece_expiry _) s.sndr s.rx (Or.inl rfl)
  | rxFrame r => exact rxFrame_outcome s r
  | sndrLook =>
      rw [tasks_step, Tasks.move]
      split
      · exact .looks
      · exact .stay
  | sndrTake =>
      rw [tasks_step, Tasks.move]
      split
      · exact .sndrTakes
      · exact .stay
  | sndrTxDone =>
      rw [tasks_step, Tasks.move]
      split
      · exact .none .confirming s.rx (Or.inr (by simp))
      · exact .stay
  | sndrTxTimeout =>
      rw [tasks_step, Tasks.move]
      split
      · exact .none .top s.rx (Or.inr (by simp))
      · exact .stay
  | sndrConfirm =>
      rw [tasks_step, Tasks.move]
      split
      · exact .piece (piece_confirmHead _) _ s.rx (Or.inr (by dsimp only; split <;> simp))
      · exact .stay
  | sndrWake =>
      rw [tasks_step, Tasks.move]
      split
      · exact .piece (piece_resume _) .top s.rx (Or.inr (by simp))
      · exact .stay
  | rxTake =>
      rw [tasks_step, Tasks.move]
      split
      · rename_i r hrx
        split
        · rename_i htokens
          exact .rxTakes r hrx htokens
        · exact .stay
      · exact .stay
  | rxTimeout =>
      rw [tasks_step, Tasks.move]
      split
      · split
        · exact .none s.sndr .receiving (Or.inl rfl)
        · exact .stay
      · exact .stay
  | rxLook =>
      rw [tasks_step, Tasks.move]
      split
      · exact .piece (piece_look _ _ _) s.sndr .receiving (Or.inl rfl)
      · exact .stay

/-- Every move keeps a First Frame to long messages and its timer. -/
theorem ffSound_step (m : Move) (h : FfSound s.ctx) : FfSound (tasks.step s m).1.ctx := by
  have hout := move_outcome s m
  generalize (tasks.step s m).1 = t at hout ⊢
  cases hout with
  | piece hpiece => exact hpiece.sound h
  | looks | sndrTakes | rxTakes => exact h

end Outcome

/-! ### Without moves in between -/

section Undisturbed

variable {s : Tasks}

theorem remaining_sndrPause (w : World) :
    (sndrPause w).ctx.sndr.remaining = w.ctx.sndr.remaining := by
  unfold sndrPause
  dsimp only
  split <;> rfl

theorem remaining_of_pause {w : World} (h : (cantpCantxConfirmHead w).2 = true) :
    0 < (cantpCantxConfirmHead w).1.ctx.sndr.remaining := by
  have hhead : (sndrCfConfirmedHead w).2 = true →
      0 < (sndrCfConfirmedHead w).1.ctx.sndr.remaining := by
    unfold sndrCfConfirmedHead
    dsimp only
    by_cases hneg : w.sndrTimerStop.ctx.sndr.remaining < 0
    · simp only [if_pos hneg, Bool.false_eq_true, false_implies]
    · by_cases hzero : w.sndrTimerStop.ctx.sndr.remaining = 0
      · simp only [if_neg hneg, if_pos hzero, Bool.false_eq_true, false_implies]
      · have hpos : 0 < w.ctx.sndr.remaining := lt_of_le_of_ne (not_lt.mp hneg) (Ne.symm hzero)
        simp only [if_neg hneg, if_neg hzero]
        intro _
        split_ifs <;> first | exact hpos | (rw [remaining_sndrPause]; exact hpos)
  cases hst : w.ctx.sndr.state with
  | cfSending | cfSent =>
      simp only [cantpCantxConfirmHead, hst] at h ⊢
      exact hhead h
  | _ => simp [cantpCantxConfirmHead, hst] at h

theorem sndrResume_eq {w : World} (hrem : 0 < w.ctx.sndr.remaining) :
    sndrResume w = sentCf (w.sndrTimerStart .nCs (1000 * nCsTimerMs)) :=
  sndrSendCfAfrerCf_eq hrem

/-- A confirmation that nothing runs into is handled as it stands. -/
theorem confirm_undisturbed (h : s.sndr = .confirming) :
    ∃ ms, (∀ m ∈ ms, m = .sndrConfirm ∨ m = .sndrWake) ∧
      tasks.run s ms = { s with
        ctx := (canTp.step s.ctx .cantxConfirmCb).1
        tokens := s.tokens + gives (canTp.step s.ctx .cantxConfirmCb).2
        sndr := .top } ∧
      tasks.outputs s ms = (canTp.step s.ctx .cantxConfirmCb).2 := by
  have hhead := cantpCantxConfirmCb_eq_head ⟨s.ctx, []⟩
  cases hp : (cantpCantxConfirmHead ⟨s.ctx, []⟩).2 with
  | false =>
      rw [hp, if_neg Bool.false_ne_true] at hhead
      refine ⟨[.sndrConfirm], by simp, ?_, ?_⟩
      · simp [tasks_step, Tasks.move, Tasks.after, h, hp, canTp_step, handle, hhead]
      · simp [tasks_step, Tasks.move, Tasks.after, h, canTp_step, handle, hhead]
  | true =>
      have hrem := remaining_of_pause hp
      rw [hp, if_pos rfl, sndrResume_eq hrem] at hhead
      have hresume : sndrResume ⟨(cantpCantxConfirmHead ⟨s.ctx, []⟩).1.ctx, []⟩ = _ :=
        sndrResume_eq hrem
      refine ⟨[.sndrConfirm, .sndrWake], by simp, ?_, ?_⟩
      · simp [tasks_step, Tasks.move, Tasks.after, h, hp, canTp_step, handle, hhead, hresume,
          sentCf, gives_append, Nat.add_assoc]
      · simp [tasks_step, Tasks.move, Tasks.after, h, hp, canTp_step, handle, hhead, hresume,
          sentCf]

/-- The same for a received frame: a token is taken if there is one, else the wait times
out. -/
theorem canrx_undisturbed (r : RxFrame) (h : s.rx = .receiving) :
    ∃ ms, (∀ m ∈ ms, m = .rxTake ∨ m = .rxTimeout ∨ m = .rxLook) ∧
      (tasks.run s (.rxFrame r :: ms)).ctx = (canTp.step s.ctx (.canrxCb r)).1 ∧
      tasks.outputs s (.rxFrame r :: ms) = (canTp.step s.ctx (.canrxCb r)).2 := by
  by_cases hpci : r.pci = some .flowControll
  · by_cases hst : s.ctx.sndr.state = .ffFcWait
    · refine ⟨[], by simp, ?_, ?_⟩ <;>
        simp [tasks_step, Tasks.move, Tasks.after, h, hpci, hst, canTp_step,
          canrx_flowControll hpci, canrxFlowControll_eq_look]
    · rcases Nat.eq_zero_or_pos s.tokens with htok | htok
      · refine ⟨[.rxTimeout], by simp, ?_, ?_⟩ <;>
          simp [tasks_step, Tasks.move, Tasks.after, h, hpci, hst, htok, gives, canTp_step,
            canrx_flowControll hpci, canrxFlowControll_drop]
      · refine ⟨[.rxTake, .rxLook], by simp, ?_, ?_⟩ <;>
          simp [tasks_step, Tasks.move, Tasks.after, h, hpci, hst, htok, gives, canTp_step,
            canrx_flowControll hpci, canrxFlowControll_drop, canrxFlowControllLook]
  · refine ⟨[], by simp, ?_, ?_⟩ <;>
      simp [tasks_step, Tasks.move, Tasks.after, h, hpci, canTp_step]

end Undisturbed

end CanTp
