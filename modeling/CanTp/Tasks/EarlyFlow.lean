import CanTp.Tasks.System
import CanTp.Sender.Transfer

/-!
# Early Flow Control

The answer to a First Frame can come in before the First Frame is confirmed. The receive
task then waits until a token tells of a change of the sender state, and looks at the
state once more. The wait is the right one when the next token is that of the
confirmation: when none is left from a change before, and no change but the confirmation
is to come.
-/

namespace CanTp

open Library

/-- A Flow Control frame that tells the sender to go on. -/
def RxFrame.IsCts (r : RxFrame) : Prop :=
  r.pci = some .flowControll ∧ (ctsDelay r.frame).isSome = true

instance (r : RxFrame) : Decidable r.IsCts := inferInstanceAs (Decidable (_ ∧ _))

/-- The moves of the two tasks. -/
def Move.ofTasks : Move → Bool
  | .request .. | .expiry => false
  | _ => true

/-- The receive task has a Flow Control frame to handle. -/
def RxAt.busy : RxAt → Bool
  | .receiving => false
  | _ => true

theorem receiving_of_not_busy {a : RxAt} (h : a.busy = false) : a = .receiving := by
  cases a with
  | receiving => rfl
  | taking | looking => cases h

/-- While the receive task has a Flow Control frame to handle, the tasks move, and the
session layer and the timer make the moves in `others`. -/
def Handles (others : Move → Prop) (s : Tasks) (m : Move) : Prop :=
  s.rx.busy = true ∧ (m.ofTasks = true ∨ others m)

/-- The frame `r` comes in at the sender in `s`, which sends a First Frame. However the
tasks go on, with the moves in `others` in between: the handling of `r` ends with the first
Consecutive Frame, or with a timeout before the confirmation; after the confirmation there
is a token for it. -/
structure EarlyFcKept (others : Move → Prop) (s : Tasks) (r : RxFrame) : Prop where
  acted : ∀ ms m, tasks.Admits (Handles others) (tasks.step s (.rxFrame r)).1 ms →
    let s' := tasks.run (tasks.step s (.rxFrame r)).1 ms
    Handles others s' m → (tasks.step s' m).1.rx.busy = false →
      (m = .rxTimeout ∧ s'.ctx.sndr.state = .ffSending) ∨
        .canTxNb s'.ctx.params.id s'.ctx.params.idt 8
          (cfAt s.ctx.sndr.data s.ctx.sndr.len.toNat 0) ∈ (tasks.step s' m).2
  awake : ∀ ms, tasks.Admits (Handles others) (tasks.step s (.rxFrame r)).1 ms →
    let s' := tasks.run (tasks.step s (.rxFrame r)).1 ms
    s'.rx = .taking r → s'.ctx.sndr.state ≠ .ffSending → 0 < s'.tokens

/-! ### The handling of an early frame -/

/-- The handling of `r` while the first `len` bytes of `data` are sent: before the
confirmation, between it and the token, and behind the token. -/
inductive Handling (data : List UInt8) (len : Nat) (r : RxFrame) (s : Tasks) : Prop
  | early (hrx : s.rx = .taking r) (htokens : s.tokens = 0) (hsndr : s.sndr ≠ .pausing)
      (hph : InPhase data len s.ctx.sndr .ff)
  | confirmed (hrx : s.rx = .taking r) (htokens : 0 < s.tokens) (hsndr : s.sndr = .top)
      (hph : InPhase data len s.ctx.sndr .ffWait)
  | taken (hrx : s.rx = .looking r) (hsndr : s.sndr = .top)
      (hph : InPhase data len s.ctx.sndr .ffWait)

section Handling

variable {data : List UInt8} {len : Nat} {r : RxFrame} {s : Tasks} {m : Move}
  {others : Move → Prop}

/-- The move `m` ends the handling, as it is to end. -/
structure EndsWell (data : List UInt8) (len : Nat) (s : Tasks) (m : Move) : Prop where
  done : (tasks.step s m).1.rx.busy = false
  acted : (m = .rxTimeout ∧ s.ctx.sndr.state = .ffSending) ∨
    .canTxNb s.ctx.params.id s.ctx.params.idt 8 (cfAt data len 0) ∈ (tasks.step s m).2

theorem Handling.stay (h : Handling data len r s) (hm : (tasks.step s m).1 = s) :
    Handling data len r (tasks.step s m).1 ∨ EndsWell data len s m :=
  Or.inl (by rw [hm]; exact h)

theorem move_confirm_ff (hsndr : s.sndr = .confirming) (hst : s.ctx.sndr.state = .ffSending) :
    (tasks.step s .sndrConfirm).1 = { s with
      ctx.sndr.state := .ffFcWait
      ctx.sndr.sn := 1
      ctx.sndr.index := UInt16.ofNat ffNumDataBytes
      ctx.sndr.timer := some ⟨.nBs, 1000 * nBsTimerMs⟩
      tokens := s.tokens + 1
      sndr := .top } := by
  have hhead : cantpCantxConfirmHead ⟨s.ctx, []⟩ = (cantpCantxConfirmCb ⟨s.ctx, []⟩, false) := by
    simp only [cantpCantxConfirmHead, hst]
  rw [tasks_step, Tasks.move, if_pos hsndr, hhead, confirm_ffSending (w := ⟨s.ctx, []⟩) hst]
  rfl

theorem Handling.step_early (hrx : s.rx = .taking r) (htokens : s.tokens = 0)
    (hsndr : s.sndr ≠ .pausing) (hph : InPhase data len s.ctx.sndr .ff)
    (hm : m.ofTasks = true) :
    Handling data len r (tasks.step s m).1 ∨ EndsWell data len s m := by
  have hstay : Handling data len r s := .early hrx htokens hsndr hph
  cases m with
  | request | expiry => cases hm
  | rxTimeout =>
      exact Or.inr ⟨by simp [tasks_step, Tasks.move, hrx, htokens, RxAt.busy],
        Or.inl ⟨rfl, hph.1⟩⟩
  | rxFrame | rxTake | rxLook => exact hstay.stay (by simp [tasks_step, Tasks.move, hrx, htokens])
  | sndrTake => exact hstay.stay (by simp [tasks_step, Tasks.move, htokens])
  | sndrWake => exact hstay.stay (by simp [tasks_step, Tasks.move, hsndr])
  | sndrLook =>
      rw [tasks_step, Tasks.move]
      split
      · refine Or.inl (.early hrx htokens ?_ hph)
        simp [hph.1, cantpSndrTaskSwitch]
      · exact Or.inl hstay
  | sndrTxDone | sndrTxTimeout =>
      rw [tasks_step, Tasks.move]
      split
      · exact Or.inl (.early hrx htokens (by simp) hph)
      · exact Or.inl hstay
  | sndrConfirm =>
      by_cases hconf : s.sndr = .confirming
      · rw [move_confirm_ff hconf hph.1]
        exact Or.inl (.confirmed hrx (Nat.succ_pos _) rfl (hph.opened _))
      · exact hstay.stay (by simp [tasks_step, Tasks.move, hconf])

theorem Handling.step_confirmed (hrx : s.rx = .taking r) (htokens : 0 < s.tokens)
    (hsndr : s.sndr = .top) (hph : InPhase data len s.ctx.sndr .ffWait)
    (hm : m.ofTasks = true) :
    Handling data len r (tasks.step s m).1 ∨ EndsWell data len s m := by
  have hstay : Handling data len r s := .confirmed hrx htokens hsndr hph
  cases m with
  | request | expiry => cases hm
  | rxTake =>
      refine Or.inl ?_
      simp only [tasks_step, Tasks.move, hrx, if_pos htokens]
      exact .taken rfl hsndr hph
  | rxTimeout => exact hstay.stay (by simp [tasks_step, Tasks.move, hrx, htokens.ne'])
  | rxFrame | rxLook => exact hstay.stay (by simp [tasks_step, Tasks.move, hrx])
  | sndrLook =>
      refine Or.inl ?_
      rw [tasks_step, Tasks.move, if_pos hsndr]
      exact .confirmed hrx htokens (by simp [hph.1, cantpSndrTaskSwitch]) hph
  | sndrTake | sndrTxDone | sndrTxTimeout | sndrConfirm | sndrWake =>
      exact hstay.stay (by simp [tasks_step, Tasks.move, hsndr])

theorem look_sends (hcts : r.IsCts) (hrx : s.rx = .looking r)
    (hph : InPhase data len s.ctx.sndr .ffWait) : EndsWell data len s .rxLook := by
  obtain ⟨us, hus⟩ := Option.isSome_iff_exists.mp hcts.2
  obtain ⟨hst, hcur, hsn⟩ := hph
  have hpos := numCfs_pos hcur.long
  have hlook : canrxFlowControllLook r.id r.frame ⟨s.ctx, []⟩ = _ :=
    (if_neg (not_not.mpr hst)).trans (flowControl_cts hus (by exact hcur.remaining_pos hpos))
  refine ⟨by simp [tasks_step, Tasks.move, hrx, Tasks.after, RxAt.busy], Or.inr ?_⟩
  simp only [tasks_step, Tasks.move, hrx, Tasks.after, hlook]
  refine List.mem_append_right _ (List.mem_append_right _ ?_)
  have hnext := Cursor.nextCf_eq (s := s.ctx.sndr.withFc r.id r.frame us .nCs)
    (hcur.of_eq rfl rfl rfl) hpos (by exact hsn)
  simp [hnext]

theorem Handling.step_taken (hcts : r.IsCts) (hrx : s.rx = .looking r) (hsndr : s.sndr = .top)
    (hph : InPhase data len s.ctx.sndr .ffWait) (hm : m.ofTasks = true) :
    Handling data len r (tasks.step s m).1 ∨ EndsWell data len s m := by
  have hstay : Handling data len r s := .taken hrx hsndr hph
  cases m with
  | request | expiry => cases hm
  | rxLook => exact Or.inr (look_sends hcts hrx hph)
  | rxFrame | rxTake | rxTimeout => exact hstay.stay (by simp [tasks_step, Tasks.move, hrx])
  | sndrLook =>
      refine Or.inl ?_
      rw [tasks_step, Tasks.move, if_pos hsndr]
      exact .taken hrx (by simp [hph.1, cantpSndrTaskSwitch]) hph
  | sndrTake | sndrTxDone | sndrTxTimeout | sndrConfirm | sndrWake =>
      exact hstay.stay (by simp [tasks_step, Tasks.move, hsndr])

/-- One move of the tasks goes on with the handling, or ends it well. -/
theorem Handling.step (hcts : r.IsCts) (h : Handling data len r s) (hm : m.ofTasks = true) :
    Handling data len r (tasks.step s m).1 ∨ EndsWell data len s m := by
  cases h with
  | early hrx htokens hsndr hph => exact step_early hrx htokens hsndr hph hm
  | confirmed hrx htokens hsndr hph => exact step_confirmed hrx htokens hsndr hph hm
  | taken hrx hsndr hph => exact step_taken hcts hrx hsndr hph hm

theorem Handling.busy (h : Handling data len r s) : s.rx.busy = true := by
  cases h with
  | early hrx | confirmed hrx | taken hrx => rw [hrx]; rfl

/-- The handling goes on until the receive task is done with it. -/
theorem Handling.run (hcts : r.IsCts) (h : Handling data len r s)
    (hothers : ∀ m, others m → m.ofTasks = true) {ms : List Move}
    (hms : tasks.Admits (Handles others) s ms) (hbusy : (tasks.run s ms).rx.busy = true) :
    Handling data len r (tasks.run s ms) := by
  refine Mealy.run_induction (M := tasks)
    (P := fun s => s.rx.busy = true → Handling data len r s)
    (fun s m hs hok hbusy' => ?_) (fun _ => h) hms hbusy
  rcases (hs hok.1).step hcts (hok.2.elim id (hothers m)) with hnext | hends
  · exact hnext
  · rw [hends.done] at hbusy'
    cases hbusy'

end Handling

/-! ### The frame comes in -/

section Frame

variable {s : Tasks} {r : RxFrame} {others : Move → Prop}

theorem move_rxFrame (hrx : s.rx = .receiving) (hpci : r.pci = some .flowControll)
    (hst : s.ctx.sndr.state = .ffSending) :
    (tasks.step s (.rxFrame r)).1 = { s with rx := .taking r } := by
  simp [tasks_step, Tasks.move, hrx, hpci, hst, Tasks.after, gives]

/-- Without a token, with no other frame to come and no other move in between, an early
frame is kept. -/
theorem earlyFcKept_of_noToken (hrx : s.rx = .receiving) (hst : s.ctx.sndr.state = .ffSending)
    (hcts : r.IsCts) (hlong : sfNumDataBytes < s.ctx.sndr.len.toNat) (htokens : s.tokens = 0)
    (hsndr : s.sndr ≠ .pausing) (hothers : ∀ m, others m → m.ofTasks = true) :
    EarlyFcKept others s r := by
  have hstart : Handling s.ctx.sndr.data s.ctx.sndr.len.toNat r
      (tasks.step s (.rxFrame r)).1 := by
    rw [move_rxFrame hrx hcts.1 hst]
    exact .early rfl htokens hsndr ⟨hst, rfl, rfl, hlong⟩
  constructor
  · intro ms m hms s' hok hover
    have hrun := hstart.run hcts hothers hms hok.1
    rcases hrun.step hcts (hok.2.elim id (hothers m)) with hnext | hends
    · rw [hnext.busy] at hover
      cases hover
    · exact hends.acted
  · intro ms hms s' hrx' hst'
    have hbusy : s'.rx.busy = true := by
      rw [hrx']
      rfl
    cases hstart.run hcts hothers hms hbusy with
    | early _ _ _ hph => exact absurd hph.1 hst'
    | confirmed _ htokens' => exact htokens'
    | taken hlooking => cases hrx'.symm.trans hlooking

theorem move_look_drop (hrx : s.rx = .looking r) (hst : s.ctx.sndr.state ≠ .ffFcWait) :
    (tasks.step s .rxLook).1.rx.busy = false ∧ (tasks.step s .rxLook).2 = [] := by
  have hlook : canrxFlowControllLook r.id r.frame ⟨s.ctx, []⟩ = ⟨s.ctx, []⟩ := if_pos hst
  simp [tasks_step, Tasks.move, hrx, Tasks.after, hlook, RxAt.busy]

/-- While a frame that is kept waits, a token for it comes in `FF_FC_WAIT` only. -/
theorem EarlyFcKept.token (h : EarlyFcKept others s r) (hrx : s.rx = .receiving)
    (hst : s.ctx.sndr.state = .ffSending) (hpci : r.pci = some .flowControll) (ms : List Move)
    (hms : tasks.Admits (Handles others) { s with rx := .taking r } ms)
    (hrx' : (tasks.run { s with rx := .taking r } ms).rx = .taking r)
    (htokens : 0 < (tasks.run { s with rx := .taking r } ms).tokens) :
    (tasks.run { s with rx := .taking r } ms).ctx.sndr.state = .ffFcWait := by
  by_contra hne
  have hacted := h.acted (ms ++ [.rxTake]) .rxLook
  rw [move_rxFrame hrx hpci hst, Mealy.run_append, Mealy.admits_append] at hacted
  generalize tasks.run { s with rx := .taking r } ms = t at hrx' htokens hne hacted
  have htake : tasks.run t [.rxTake] = { t with rx := .looking r, tokens := t.tokens - 1 } := by
    simp [tasks_step, Tasks.move, hrx', htokens]
  obtain ⟨hover, hnone⟩ := move_look_drop (s := tasks.run t [.rxTake]) (r := r)
    (by rw [htake]) (by rw [htake]; exact hne)
  have hbusy : (tasks.run t [.rxTake]).rx.busy = true := by
    rw [htake]
    rfl
  rcases hacted ⟨hms, ⟨by rw [hrx']; rfl, Or.inl rfl⟩, trivial⟩ ⟨hbusy, Or.inl rfl⟩ hover with
    ⟨hm, -⟩ | hsent
  · cases hm
  · rw [hnone] at hsent
    cases hsent

/-- A token that is there when the frame comes in is taken, and the state still the old
one. -/
theorem EarlyFcKept.noToken (h : EarlyFcKept others s r) (hrx : s.rx = .receiving)
    (hst : s.ctx.sndr.state = .ffSending) (hpci : r.pci = some .flowControll) :
    s.tokens = 0 := by
  by_contra htokens
  have hwait := h.token hrx hst hpci [] trivial rfl (Nat.pos_of_ne_zero htokens)
  cases hst.symm.trans hwait

theorem EarlyFcKept.move (h : EarlyFcKept others s r) (hrx : s.rx = .receiving)
    (hst : s.ctx.sndr.state = .ffSending) (hpci : r.pci = some .flowControll) {m : Move}
    {t : Tasks} (hm : m.ofTasks = true ∨ others m)
    (ht : (tasks.step { s with rx := .taking r } m).1 = t) (hrx' : t.rx = .taking r)
    (htokens : 0 < t.tokens) : t.ctx.sndr.state = .ffFcWait := by
  subst ht
  exact h.token hrx hst hpci [m] ⟨⟨rfl, hm⟩, trivial⟩ hrx' htokens

/-- A Consecutive Frame of an earlier transfer that is still to come takes the place of
the confirmation. -/
theorem EarlyFcKept.notPausing (h : EarlyFcKept others s r) (hrx : s.rx = .receiving)
    (hst : s.ctx.sndr.state = .ffSending) (hpci : r.pci = some .flowControll) :
    s.sndr ≠ .pausing := by
  intro hsndr
  have hresume : (sndrResume ⟨s.ctx, []⟩).ctx.sndr.state = .cfSending := rfl
  have hgives : 0 < gives (sndrResume ⟨s.ctx, []⟩).log := by
    refine (piece_resume s.ctx).given.resolve_left fun hsame => ?_
    rw [hresume, hst] at hsame
    cases hsame
  have hwake : (tasks.step { s with rx := .taking r } .sndrWake).1 = _ :=
    congrArg Prod.fst (if_pos (by exact hsndr))
  cases hresume.symm.trans
    (h.move hrx hst hpci (Or.inl rfl) hwake rfl (Nat.add_pos_right _ hgives))

/-- A request gives a token, and begins with another frame. -/
theorem EarlyFcKept.noRequest (h : EarlyFcKept others s r) (hrx : s.rx = .receiving)
    (hst : s.ctx.sndr.state = .ffSending) (hpci : r.pci = some .flowControll) {id : UInt32}
    {idt : UInt8} {data : List UInt8} {len : UInt16} : ¬ others (.request id idt data len) := by
  intro hm
  have hsend : 0 < gives (cantpSend id idt data len (⟨s.ctx, []⟩ : World)).log ∧
      (cantpSend id idt data len (⟨s.ctx, []⟩ : World)).ctx.sndr.state ≠ .ffFcWait := by
    by_cases hlen : len.toNat ≤ sfNumDataBytes
    · rw [send_single hlen]
      exact ⟨by simp [gives], by simp⟩
    · rw [send_segmented (not_le.mp hlen)]
      exact ⟨by simp [gives], by simp⟩
  exact hsend.2 (h.move hrx hst hpci (Or.inr hm) rfl rfl (Nat.add_pos_right _ hsend.1))

/-- The expiry of `N_As` ends the transfer, and its token comes in `IDLE`. -/
theorem EarlyFcKept.noExpiry (h : EarlyFcKept others s r) (hrx : s.rx = .receiving)
    (hst : s.ctx.sndr.state = .ffSending) (hpci : r.pci = some .flowControll)
    (htimer : s.ctx.sndr.timer.isSome = true) : ¬ others .expiry := by
  intro hm
  have hexpiry : sndrTimerExpiry ⟨s.ctx, []⟩ = _ :=
    (if_pos htimer).trans (timerCb_sending (by exact Or.inr (Or.inl hst)))
  have hgives : 0 < gives (sndrTimerExpiry ⟨s.ctx, []⟩).log := by
    rw [hexpiry]
    simp [gives]
  have hidle := h.move hrx hst hpci (Or.inr hm) rfl rfl (Nat.add_pos_right _ hgives)
  change (sndrTimerExpiry ⟨s.ctx, []⟩).ctx.sndr.state = .ffFcWait at hidle
  rw [hexpiry] at hidle
  cases hidle

end Frame

/-! ### Every history -/

theorem ffSound_run (p : CantpParams) (ms : List Move) : FfSound (tasks.run (.start p) ms).ctx :=
  Mealy.run_induction (P := fun s : Tasks => FfSound s.ctx)
    (fun _ m h _ => ffSound_step m h) (fun h => by cases h)
    (Mealy.admits_of_forall (fun _ _ => trivial) _)

/-- After every run of the tasks, whatever was sent before: an FC.CTS that comes in before
the confirmation of the First Frame is kept exactly if no token is left from a change
before, the sender task is not in the pause of a transfer that the request replaced, and
neither a request nor the timer runs into the handling. -/
theorem earlyFcKept_iff (p : CantpParams) (ms : List Move) (r : RxFrame)
    (others : Move → Prop) (hrx : (tasks.run (.start p) ms).rx.busy = false)
    (hst : (tasks.run (.start p) ms).ctx.sndr.state = .ffSending) (hcts : r.IsCts) :
    let s := tasks.run (.start p) ms
    EarlyFcKept others s r ↔
      s.tokens = 0 ∧ s.sndr ≠ .pausing ∧ ∀ m, others m → m.ofTasks = true := by
  intro s
  have hrx' : s.rx = .receiving := receiving_of_not_busy hrx
  obtain ⟨hlong, htimer⟩ := ffSound_run p ms hst
  constructor
  · intro h
    refine ⟨h.noToken hrx' hst hcts.1, h.notPausing hrx' hst hcts.1, fun m hm => ?_⟩
    cases m with
    | request => exact absurd hm (h.noRequest hrx' hst hcts.1)
    | expiry => exact absurd hm (h.noExpiry hrx' hst hcts.1 htimer)
    | _ => rfl
  · rintro ⟨htokens, hsndr, hothers⟩
    exact earlyFcKept_of_noToken hrx' hst hcts hlong htokens hsndr hothers

/-- The sender task has slept and taken the token of the request. -/
theorem earlyFcKept_first :
    EarlyFcKept (fun _ => False) (tasks.run (.start ⟨0, 0, 0, 0, 0, 0, 0, 0⟩)
      [.sndrLook, .request 5 0 (List.replicate 20 7) 20, .sndrTake])
      (.ofFrame .accepting 9 0 (.ofList [0x30, 0, 0])) :=
  (earlyFcKept_iff ⟨0, 0, 0, 0, 0, 0, 0, 0⟩
    [.sndrLook, .request 5 0 (List.replicate 20 7) 20, .sndrTake]
    (.ofFrame .accepting 9 0 (.ofList [0x30, 0, 0])) (fun _ => False) (by decide) (by decide)
    (by decide)).mpr ⟨by decide, by decide, fun _ hm => hm.elim⟩

/-- A request that follows a Single Frame finds the token of its confirmation: even where
nothing but the tasks moves, the frame is lost. -/
theorem earlyFc_not_kept :
    ¬ ∀ (p : CantpParams) (ms : List Move) (r : RxFrame),
      (tasks.run (.start p) ms).rx.busy = false →
      (tasks.run (.start p) ms).ctx.sndr.state = .ffSending → r.IsCts →
      EarlyFcKept (fun _ => False) (tasks.run (.start p) ms) r := by
  intro h
  have hkept := h ⟨0, 0, 0, 0, 0, 0, 0, 0⟩
    [.sndrLook, .request 5 0 [1, 2] 2, .sndrTake, .sndrLook, .sndrTxDone, .sndrConfirm,
      .request 5 0 (List.replicate 20 7) 20, .sndrLook]
    (.ofFrame .accepting 9 0 (.ofList [0x30, 0, 0])) (by decide) (by decide) (by decide)
  exact absurd (hkept.noToken (receiving_of_not_busy (by decide)) (by decide) (by decide))
    (by decide)

end CanTp
