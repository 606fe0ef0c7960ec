import CanTp.Receiver.Along
import CanTp.Link.System

/-!
# Two nodes on a bus that loses, delays and repeats frames

A sending node and a receiving node as in `CanTp.Link.System`, on a link that promises less:
whatever the sender has handed over may come in at the receiver at any later time, in any
order, any number of times or never. Confirmations come at any time, any number of times and
without a frame, the timers expire at any moment, and Flow Control frames of any contents come
in at the sender. The session layer of the receiver answers as it likes, with a buffer of the
announced length if it supplies one.

What is left is safety, as long as each Consecutive Frame that the receiver takes part in a
reception comes less than sixteen places away from its own, which is as far as a number of
four bits tells places apart: the receiver hands over the message as it was sent, or nothing,
and the message exactly if the frames of the reception came in as they were sent.
-/

namespace CanTp

open Library

/-! ### The frames of a sender -/

section Frames

variable {c : CantpRxtxStatus} {e : Event} {w : World}

/-- The frames handed over in `w` carry the ids of the parameters, which are those of `c`. -/
structure KeepsIds (c : CantpRxtxStatus) (w : World) : Prop where
  params : w.ctx.params = c.params
  frames : w.log.filterMap Act.dataFrame =
    (framesSent w.log).map fun f => ⟨c.params.id, c.params.idt, 8, f⟩

theorem keepsIds_of_none (hp : w.ctx.params = c.params)
    (h : ∀ a ∈ w.log, a.sendsData = false) : KeepsIds c w := by
  have hnone : ∀ a ∈ w.log, a.dataFrame = none ∧ ∀ f, a.sndrSignal ≠ some (.inl f) :=
    fun a ha => by
      have hsends := h a ha
      cases a with
      | canTxNb => cases hsends
      | _ => exact ⟨rfl, by simp [Act.sndrSignal]⟩
  have hdata : w.log.filterMap Act.dataFrame = [] :=
    List.filterMap_eq_nil_iff.mpr fun a ha => (hnone a ha).1
  have hframes : framesSent w.log = [] := by
    refine List.filterMap_eq_nil_iff.mpr fun x hx => ?_
    obtain ⟨a, ha, hsig⟩ := List.mem_filterMap.mp hx
    cases x with
    | inl f => exact absurd hsig ((hnone a ha).2 f)
    | inr r => rfl
  exact ⟨hp, by rw [hdata, hframes]; rfl⟩

theorem framesSent_append (l m : List Act) :
    framesSent (l ++ m) = framesSent l ++ framesSent m := by
  rw [framesSent, sndrSignals_append, List.filterMap_append]
  rfl

theorem keepsIds_sentCf (hp : w.ctx.params = c.params)
    (h : ∀ a ∈ w.log, a.sendsData = false) : KeepsIds c (sentCf w) := by
  have hbefore := keepsIds_of_none hp h
  have hdata : w.ctx.cfActs.filterMap Act.dataFrame =
      [⟨w.ctx.params.id, w.ctx.params.idt, 8, w.ctx.sndr.nextCf⟩] := by
    rw [filterMap_cfActs fun _ => rfl]
    rfl
  have hframes : framesSent w.ctx.cfActs = [w.ctx.sndr.nextCf] := by
    rw [framesSent, sndrSignals, filterMap_cfActs fun _ => rfl]
    rfl
  refine ⟨hp, ?_⟩
  rw [sentCf, List.filterMap_append, framesSent_append, hbefore.frames, hdata, hframes,
    List.map_append, hp]
  rfl

theorem keepsIds_confirm (c : CantpRxtxStatus) : KeepsIds c (cantpCantxConfirmCb ⟨c, []⟩) := by
  have hconf := confirm_outcome ⟨c, []⟩
  generalize cantpCantxConfirmCb ⟨c, []⟩ = w at hconf ⊢
  cases hconf with
  | next =>
      refine keepsIds_sentCf rfl fun a ha => ?_
      simp only [List.nil_append, List.mem_cons] at ha
      rcases ha with rfl | ha
      · rfl
      · split at ha
        · rw [List.mem_singleton.mp ha]
          rfl
        · exact absurd ha List.not_mem_nil
  | _ => exact keepsIds_of_none rfl (by simp [Act.sendsData])

theorem keepsIds_timerCb (hp : w.ctx.params = c.params) (hlog : w.log = []) :
    KeepsIds c (cantpSndrTimerCb w) := by
  unfold cantpSndrTimerCb
  split <;> exact keepsIds_of_none hp (by simp [hlog, Act.sendsData])

theorem keepsIds_flow {r : RxFrame} (hr : r.pci = some .flowControll) (c : CantpRxtxStatus) :
    KeepsIds c (handle (.canrxCb r) ⟨c, []⟩) := by
  rw [canrx_flowControll hr]
  by_cases hst : c.sndr.state = .ffFcWait
  · rw [canrxFlowControll_take (by exact hst)]
    cases hcts : ctsDelay r.frame with
    | none =>
        obtain ⟨us, name, hother⟩ := flowControl_other c.sndr r.id hcts
        rw [hother _ rfl]
        exact keepsIds_of_none rfl (by simp [Act.sendsData])
    | some us =>
        by_cases hrem : 0 < c.sndr.remaining
        · rw [flowControl_cts hcts (by exact hrem)]
          exact keepsIds_sentCf rfl (by simp [Act.sendsData])
        · rw [flowControl_cts_none hcts (not_lt.mp (by exact hrem))]
          exact keepsIds_of_none rfl (by simp [Act.sendsData])
  · rw [canrxFlowControll_drop (by exact hst)]
    exact keepsIds_of_none rfl (by simp [Act.sendsData])

theorem keepsIds_followUp (c : CantpRxtxStatus) (he : SndrFollowUp e) :
    KeepsIds c (handle e ⟨c, []⟩) := by
  cases e with
  | send => cases he.2
  | cantxConfirmCb => exact keepsIds_confirm c
  | sndrTimerCb => exact keepsIds_timerCb rfl rfl
  | sndrTimerExpiry =>
      rw [handle, sndrTimerExpiry]
      split
      · exact keepsIds_timerCb rfl rfl
      · exact keepsIds_of_none rfl (by simp)
  | rcvrTimerCb => cases he.1
  | canrxCb r => exact keepsIds_flow (by simpa [Event.isSndr] using he.1) c

end Frames

/-! ### The link -/

/-- A segmented message of at most 4095 bytes, and the parameters of the two nodes. -/
structure LossyExchange where
  id : UInt32
  idt : UInt8
  msg : List UInt8
  sndrParams : CantpParams
  rcvrParams : CantpParams
  long : sfNumDataBytes < msg.length
  short : msg.length < 4096

/-- The two nodes, all calls they have made, and the places in the message of the
Consecutive Frames that have come in during the reception. -/
structure LossyLink where
  sndr : CantpRxtxStatus
  rcvr : CantpRxtxStatus
  sndrOut : List Act
  rcvrOut : List Act
  places : List Nat

namespace LossyLink

/-- The frames the sender has handed to the link layer. -/
def sent (l : LossyLink) : List CantpCanFrame := l.sndrOut.filterMap Act.dataFrame

/-- The sender handles the event `e`. -/
def handled (l : LossyLink) (e : Event) : LossyLink :=
  let p := canTp.step l.sndr e
  { l with sndr := p.1, sndrOut := l.sndrOut ++ p.2 }

/-- The receiver gets `f`, the frame `i` of the message. -/
def received (l : LossyLink) (env : Env) (i : Nat) (f : CantpCanFrame) : LossyLink :=
  let p := canTp.step l.rcvr (.canrxCb (f.rx env))
  { l with rcvr := p.1, rcvrOut := l.rcvrOut ++ p.2
           places := match i with
             | 0 => l.places
             | i + 1 => if l.rcvr.rcvr.state = .fcSent then l.places ++ [i] else l.places }

/-- The timer of the receiver expires. -/
def rcvrTimer (l : LossyLink) : LossyLink :=
  let p := canTp.step l.rcvr .rcvrTimerCb
  { l with rcvr := p.1, rcvrOut := l.rcvrOut ++ p.2 }

/-- Each Consecutive Frame of the reception has come in less than sixteen places away from
its own. -/
def Near (l : LossyLink) : Prop :=
  ∀ n i, l.places[n]? = some i → i < n + 16 ∧ n < i + 16

end LossyLink

/-- What can happen on the link. A frame that has been sent is neither used up nor kept in
order by it. -/
inductive LossyStep : LossyLink → LossyLink → Prop
  | sndr {l : LossyLink} {e : Event} (he : SndrFollowUp e) : LossyStep l (l.handled e)
  | rcvrTimer {l : LossyLink} : LossyStep l l.rcvrTimer
  | deliver {l : LossyLink} {env : Env} {i : Nat} {f : CantpCanFrame} (henv : env.Supplies)
      (hget : l.sent[i]? = some f) : LossyStep l (l.received env i f)

namespace LossyExchange

variable (x : LossyExchange)

/-- `cantp_send` -/
def request : Event := .send x.id x.idt x.msg (UInt16.ofNat x.msg.length)

/-- `cantp_send` on a fresh sender, and a fresh receiver. -/
def start : LossyLink where
  sndr := (canTp.step (.fresh x.sndrParams) x.request).1
  rcvr := .fresh x.rcvrParams
  sndrOut := (canTp.step (.fresh x.sndrParams) x.request).2
  rcvrOut := []
  places := []

/-- The states of the link in the runs of the exchange. -/
def Reached (l : LossyLink) : Prop := Relation.ReflTransGen LossyStep x.start l

/-- The frame of the link layer for the frame `f`. -/
def carried (f : CantpFrame) : CantpCanFrame := ⟨x.id, x.idt, 8, f⟩

/-- The sender after the request and any other calls. -/
structure SndrRun (c : CantpRxtxStatus) (out : List Act) : Prop where
  run : ∃ es, (∀ e ∈ es, SndrFollowUp e) ∧ c = canTp.run (.fresh x.sndrParams) (x.request :: es) ∧
    out = canTp.outputs (.fresh x.sndrParams) (x.request :: es)
  ids : c.params.id = x.id ∧ c.params.idt = x.idt
  frames : out.filterMap Act.dataFrame = (framesSent out).map x.carried

variable {x} {c : CantpRxtxStatus} {out : List Act}

theorem toNat_length (x : LossyExchange) :
    (UInt16.ofNat x.msg.length).toNat = x.msg.length := by
  have hshort := x.short
  rw [UInt16.toNat_ofNat']
  omega

theorem sndrRun_start (x : LossyExchange) : x.SndrRun x.start.sndr x.start.sndrOut := by
  have hlong : sfNumDataBytes < (UInt16.ofNat x.msg.length).toNat := by
    rw [x.toNat_length]
    exact x.long
  refine ⟨⟨[], fun _ h => absurd h List.not_mem_nil, rfl, (List.append_nil _).symm⟩, ?_, ?_⟩
  · rw [start, request, canTp_step, handle, send_segmented hlong]
    exact ⟨rfl, rfl⟩
  · rw [start, request, canTp_step, handle, send_segmented hlong]
    rfl

theorem SndrRun.step (h : x.SndrRun c out) {e : Event} (he : SndrFollowUp e) :
    x.SndrRun (canTp.step c e).1 (out ++ (canTp.step c e).2) := by
  obtain ⟨⟨es, hes, hrun, hout⟩, hids, hframes⟩ := h
  obtain ⟨hp, hnew⟩ := keepsIds_followUp c he
  refine ⟨⟨es ++ [e], ?_, ?_, ?_⟩, ?_, ?_⟩
  · exact List.forall_mem_append.mpr ⟨hes, List.forall_mem_singleton.mpr he⟩
  · rw [← List.cons_append, Mealy.run_append, ← hrun]
    rfl
  · rw [← List.cons_append, Mealy.outputs_append, ← hrun, ← hout]
    exact congrArg _ (List.append_nil _).symm
  · rw [canTp_step, hp]
    exact hids
  · rw [List.filterMap_append, framesSent_append, List.map_append, hframes]
    congr 1
    rw [canTp_step, hnew, hids.1, hids.2]
    rfl

/-- The frames handed over are the first frames of the message. -/
theorem SndrRun.sent (h : x.SndrRun c out) {i : Nat} {f : CantpCanFrame}
    (hget : (out.filterMap Act.dataFrame)[i]? = some f) (env : Env) :
    (f.rx env).IsPart x.id x.msg i := by
  obtain ⟨⟨es, hes, -, hout⟩, -, hframes⟩ := h
  have hlong : sfNumDataBytes < (UInt16.ofNat x.msg.length).toNat := by
    rw [x.toNat_length]
    exact x.long
  have hemits : Emits x.msg (UInt16.ofNat x.msg.length).toNat _ out :=
    hout ▸ emits_segmented hlong hes
  rw [x.toNat_length] at hemits
  obtain ⟨p, rest, hsignals, hshape⟩ := hemits.signals
  have hprefix : framesSent out <+: canonicalFrames x.msg x.msg.length := by
    rw [framesSent, hsignals, canonicalFrames, if_neg (not_le.mpr x.long)]
    exact List.cons_prefix_cons.mpr ⟨rfl, hshape.items⟩
  rw [hframes, List.getElem?_map] at hget
  obtain ⟨g, hg, rfl⟩ := Option.map_eq_some_iff.mp hget
  obtain ⟨more, hmore⟩ := hprefix
  refine ⟨rfl, ?_⟩
  rw [← hmore, List.getElem?_append_left (List.getElem?_eq_some_iff.mp hg).1, hg]
  exact congrArg some (rxFrame_eight g).symm

/-! ### Safety -/

/-- The sender hands over the message, and the receiver has come as far as `Along` says. -/
structure Inv (x : LossyExchange) (l : LossyLink) : Prop where
  sndr : x.SndrRun l.sndr l.sndrOut
  rcvr : Along x.id x.msg l.places l.rcvr l.rcvrOut

theorem inv_start (x : LossyExchange) : x.Inv x.start where
  sndr := sndrRun_start x
  rcvr := .opening (by simp [start, CantpRxtxStatus.fresh]) (fun _ => rfl) rfl rfl

variable {l l' : LossyLink}

theorem Inv.deliver (h : x.Inv l) {env : Env} (henv : env.Supplies) {i : Nat}
    {f : CantpCanFrame} (hget : l.sent[i]? = some f) (hnear : (l.received env i f).Near) :
    x.Inv (l.received env i f) := by
  have hpart := h.sndr.sent hget env
  refine ⟨h.sndr, ?_⟩
  cases i with
  | zero => exact h.rcvr.first hpart henv x.long x.short
  | succ i =>
      by_cases hst : l.rcvr.rcvr.state = .fcSent
      · have hplaces : (l.received env (i + 1) f).places = l.places ++ [i] := if_pos hst
        rw [hplaces]
        refine h.rcvr.consec hst hpart x.long (hnear l.places.length i ?_)
        rw [hplaces, List.getElem?_concat_length]
      · have hplaces : (l.received env (i + 1) f).places = l.places := if_neg hst
        rw [hplaces]
        exact h.rcvr.ignored hst (hpart.consec x.long).2.2

theorem places_prefix (hst : LossyStep l l') : l.places <+: l'.places := by
  cases hst with
  | sndr | rcvrTimer => exact List.prefix_rfl
  | @deliver _ i =>
      cases i with
      | zero => exact List.prefix_rfl
      | succ i =>
          simp only [LossyLink.received]
          split
          · exact List.prefix_append _ _
          · exact List.prefix_rfl

theorem near_of_step (hst : LossyStep l l') (hnear : l'.Near) : l.Near := by
  intro n i hi
  obtain ⟨more, hmore⟩ := places_prefix hst
  apply hnear
  rw [← hmore, List.getElem?_append_left (List.getElem?_eq_some_iff.mp hi).1, hi]

theorem Inv.step (h : x.Inv l) (hst : LossyStep l l') (hnear : l'.Near) : x.Inv l' := by
  cases hst with
  | sndr he => exact ⟨h.sndr.step he, h.rcvr⟩
  | rcvrTimer =>
      refine ⟨h.sndr, ?_⟩
      rw [LossyLink.rcvrTimer, canTp_step]
      simpa [handle, cantpRcvrTimerCb] using h.rcvr
  | deliver henv hget => exact h.deliver henv hget hnear

theorem inv_reached (h : x.Reached l) (hnear : l.Near) : x.Inv l := by
  induction h with
  | refl => exact inv_start x
  | tail _ hst ih => exact (ih (near_of_step hst hnear)).step hst hnear

/-- In every run in which no frame of the reception comes in sixteen places or more away from
its own, whatever else happens: the receiver has handed over the message, once, if the frames
of the reception have come in as they were sent, and nothing otherwise. -/
theorem lossy_safe (x : LossyExchange) (h : x.Reached l) (hnear : l.Near) :
    (l.places = List.range (numCfs x.msg.length) ∧
      ∃ d, deliveries l.rcvrOut = [d] ∧ d.Carries x.msg) ∨
    (l.places ≠ List.range (numCfs x.msg.length) ∧ deliveries l.rcvrOut = []) := by
  have hpos := numCfs_pos x.long
  cases (inv_reached h hnear).rcvr with
  | opening _ _ hplaces hout =>
      refine .inr ⟨fun heq => ?_, hout⟩
      rw [hplaces] at heq
      exact absurd (congrArg List.length heq) (by simp; omega)
  | receiving hrec _ _ hplaces hout =>
      refine .inr ⟨fun heq => ?_, hout⟩
      have hlen : l.places.length = numCfs x.msg.length := by rw [heq, List.length_range]
      have htaken := hplaces.mpr (by rw [hlen, heq])
      have hmissing := hrec.missing
      omega
  | done _ hplaces hout hd => exact .inl ⟨hplaces, _, hout, hd⟩

theorem supplies_accepting : Env.accepting.Supplies := fun _ _ _ len buf _ hbuf => by
  obtain rfl := Option.some.inj hbuf
  rw [List.length_replicate]

/-- Twenty bytes, whose two Consecutive Frames change places. -/
theorem lossy_safe_twenty :
    let x : LossyExchange := ⟨1, 0, List.replicate 20 7, ⟨0, 0, 0, 0, 0, 0, 0, 0⟩,
      ⟨2, 0, 0, 0, 0, 0, 0, 0⟩, by decide, by decide⟩
    let cts := RxFrame.ofFrame .accepting 2 0 (ctsFrame x.rcvrParams .zero)
    let l := ((x.start.handled .cantxConfirmCb).handled (.canrxCb cts)).handled .cantxConfirmCb
    let l' := ((l.received .accepting 0 (x.carried (ffFrame x.msg 20))).received .accepting 2
      (x.carried (cfAt x.msg 20 1))).received .accepting 1 (x.carried (cfAt x.msg 20 0))
    (l'.places = List.range (numCfs x.msg.length) ∧
      ∃ d, deliveries l'.rcvrOut = [d] ∧ d.Carries x.msg) ∨
    (l'.places ≠ List.range (numCfs x.msg.length) ∧ deliveries l'.rcvrOut = []) := by
  intro x cts l l'
  have hsent : x.Reached l :=
    .tail (.tail (.tail .refl (.sndr (by decide))) (.sndr (by decide))) (.sndr (by decide))
  have hreached : x.Reached l' :=
    .tail (.tail (.tail hsent (.deliver supplies_accepting (by decide)))
      (.deliver supplies_accepting (by decide))) (.deliver supplies_accepting (by decide))
  have hplaces : l'.places = [1, 0] := by decide
  refine lossy_safe x hreached fun n i hi => ?_
  rw [hplaces] at hi
  rcases n with _ | _ | n
  · obtain rfl := Option.some.inj hi
    decide
  · obtain rfl := Option.some.inj hi
    decide
  · cases hi

end LossyExchange

end CanTp
