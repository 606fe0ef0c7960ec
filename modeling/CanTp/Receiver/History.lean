import CanTp.Receiver.Loss

/-!
# One reception after the other

A reception ends with the delivery of a Single Frame, with the last Consecutive Frame
of a segmented message, with the refusal of a First Frame by the session layer, or
without a buffer for it. Only the refusal leads back to `IDLE`, the one state in which
a First Frame is accepted: after every other end the receiver takes Single Frames and
nothing else.
-/

namespace CanTp

open Library

/-- How a reception has ended. -/
inductive ReceptionEnd
  | single
  | segmented
  | refused
  | abandoned
deriving DecidableEq, Repr

/-- The frames `rs` are one reception of the context `c`, from its first frame to its
end. -/
def Ended (c : CantpRxtxStatus) (rs : List RxFrame) : ReceptionEnd → Prop
  | .single => ∃ r, rs = [r] ∧ r.pci = some .singleFrame
  | .segmented => ∃ ff buf cfs last, rs = ff :: (cfs ++ [last]) ∧ c.rcvr.state = .idle ∧
      ff.FfAccepted c.rcvr.data buf ∧ (∀ r ∈ cfs ++ [last], r.pci = some .consecFrame) ∧
      (canTp.run c ((ff :: cfs).map .canrxCb)).rcvr.state = .fcSent ∧
      (canTp.run c (rs.map .canrxCb)).rcvr.state = .txDone
  | .refused => ∃ ff, rs = [ff] ∧ c.rcvr.state = .idle ∧ ff.pci = some .firstFrame ∧
      (ff.ffAnswer c.rcvr.data).1 < 0
  | .abandoned => ∃ ff, rs = [ff] ∧ c.rcvr.state = .idle ∧ ff.pci = some .firstFrame ∧
      0 ≤ (ff.ffAnswer c.rcvr.data).1 ∧ (ff.ffAnswer c.rcvr.data).2 = none

/-- A sequence of receptions, each of which has ended before the next one begins. -/
inductive Receptions : CantpRxtxStatus → List (ReceptionEnd × List RxFrame) → Prop
  | nil (c : CantpRxtxStatus) : Receptions c []
  | cons {c : CantpRxtxStatus} {k : ReceptionEnd} {rs : List RxFrame}
      {hist : List (ReceptionEnd × List RxFrame)} (h : Ended c rs k)
      (ht : Receptions (canTp.run c (rs.map .canrxCb)) hist) : Receptions c ((k, rs) :: hist)

/-- The frames of `msg` as they come in, with a session layer that accepts it. -/
structure Incoming (msg : List UInt8) (rs : List RxFrame) : Prop where
  frames : rs.map RxFrame.frame = canonicalFrames msg msg.length
  id : ∃ id, ∀ r ∈ rs, r.id = id
  accepts : ∀ r ∈ rs, r.pci = some .firstFrame → ∀ data, r.SessionAccepts data
  short : msg.length < 4096

/-- The delivery carries `msg`, with a length argument of eight bits. -/
def Delivery.Carries (msg : List UInt8) (d : Delivery) : Prop :=
  d.len = UInt8.ofNat msg.length ∧ ∃ buf, d.data = some buf ∧ buf.take msg.length = msg

/-- The frame `r` is answered with the FC.CTS of the context. -/
def AnsweredWithCts (c : CantpRxtxStatus) (r : RxFrame) : Prop :=
  .canTx c.params.id c.params.idt 8 (ctsFrame c.params CantpFrame.zero)
    (1000 * nArTimerMs) ∈ (canTp.step c (.canrxCb r)).2

/-- The frames `rs` of `msg` are received as by a fresh context: a First Frame is
answered with FC.CTS, and the message is delivered once. -/
def ReceivedAsFresh (c : CantpRxtxStatus) (msg : List UInt8) (rs : List RxFrame) : Prop :=
  (∀ r ∈ rs, r.pci = some .firstFrame → AnsweredWithCts c r) ∧
    ∃ d, deliveries (canTp.outputs c (rs.map .canrxCb)) = [d] ∧ d.Carries msg

/-- The receiver has ended a reception and is not in `IDLE`. -/
def CantpState.Spent (st : CantpState) : Prop := st = .rxDone ∨ st = .txDone ∨ st = .ffRcvd

theorem CantpState.Spent.ne_idle {st : CantpState} (h : st.Spent) : st ≠ .idle := by
  rcases h with rfl | rfl | rfl <;> simp

theorem CantpState.Spent.ne_fcSent {st : CantpState} (h : st.Spent) : st ≠ .fcSent := by
  rcases h with rfl | rfl | rfl <;> simp

section Receive

variable {id : UInt32} {msg : List UInt8} {taken : Nat} {c : CantpRxtxStatus} {r : RxFrame}
  {rs : List RxFrame}

theorem Complete.carries (h : Complete msg c.rcvr) (id : UInt32) (idt : UInt8) :
    Delivery.Carries msg ⟨id, idt, c.rcvr.data, UInt8.ofNat msg.length⟩ := by
  obtain ⟨buf, hbuf, -, htake⟩ := h.holds
  exact ⟨rfl, buf, hbuf, by rw [htake, List.take_length]⟩

/-- The remaining frames of a message complete and deliver it. -/
theorem Filling.run (h : Filling id msg taken c.rcvr) (hlt : taken < numCfs msg.length)
    (hid : ∀ r ∈ rs, r.id = id)
    (hrs : rs.map RxFrame.frame = (canonicalCfs msg msg.length).drop taken) :
    Complete msg (canTp.run c (rs.map .canrxCb)).rcvr ∧
      ∃ d, deliveries (canTp.outputs c (rs.map .canrxCb)) = [d] ∧ d.Carries msg := by
  induction rs generalizing c taken with
  | nil =>
      have hlen := congrArg List.length hrs
      rw [List.length_drop, length_canonicalCfs] at hlen
      exact absurd hlen.symm (Nat.sub_ne_zero_of_lt hlt)
  | cons r rs ih =>
      have hlen : taken < (canonicalCfs msg msg.length).length := by
        rwa [length_canonicalCfs]
      rw [List.drop_eq_getElem_cons hlen, List.map_cons, List.cons.injEq] at hrs
      obtain ⟨hf, htail⟩ := hrs
      have hr : r.IsCf id := isCf_of_mem (hid r (List.mem_cons_self ..))
        (hf ▸ List.getElem_mem hlen)
      have hcf : r.frame = cfAt msg msg.length taken := by
        rw [hf]
        simp [canonicalCfs]
      have hid' : ∀ r' ∈ rs, r'.id = id := fun r' hr' => hid r' (List.mem_cons_of_mem _ hr')
      rw [List.map_cons, Mealy.run_cons, Mealy.outputs_cons, deliveries_append]
      by_cases hlast : taken + 1 = numCfs msg.length
      · obtain ⟨hcomplete, hdeliver⟩ := h.last hr hcf hlast
        have hnil : rs = [] := by
          have hlen' := congrArg List.length htail
          rw [List.length_map, List.length_drop, length_canonicalCfs, hlast,
            Nat.sub_self] at hlen'
          exact List.length_eq_zero_iff.mp hlen'
        subst hnil
        exact ⟨hcomplete, _, (List.append_nil _).trans hdeliver, hcomplete.carries _ _⟩
      · obtain ⟨hnext, hnone⟩ := h.next hr hcf (by omega)
        rw [hnone, List.nil_append]
        exact ih hnext (by omega) hid' htail

theorem Incoming.single (h : Incoming msg rs) (hlen : msg.length ≤ sfNumDataBytes) :
    ∃ r, rs = [r] ∧ r.frame = sfFrame msg msg.length ∧ r.pci = some .singleFrame := by
  have hframes := h.frames
  rw [canonicalFrames, if_pos hlen] at hframes
  obtain ⟨r, rfl, hr⟩ := List.map_eq_singleton_iff.mp hframes
  exact ⟨r, rfl, hr, pci_of_sfFrame hr hlen⟩

theorem Incoming.segmented (h : Incoming msg rs) (hlen : sfNumDataBytes < msg.length) :
    ∃ ff cfs, rs = ff :: cfs ∧ ff.frame = ffFrame msg msg.length ∧
      ff.pci = some .firstFrame ∧ (∀ data, ff.SessionAccepts data) ∧
      (∀ r ∈ cfs, r.IsCf ff.id) ∧
      cfs.map RxFrame.frame = canonicalCfs msg msg.length := by
  have hframes := h.frames
  rw [canonicalFrames, if_neg (not_le.mpr hlen)] at hframes
  obtain ⟨ff, cfs, rfl, hff, hcfs⟩ := List.map_eq_cons_iff.mp hframes
  obtain ⟨id, hid⟩ := h.id
  have hpci : ff.pci = some .firstFrame := pci_of_ffFrame hff
  refine ⟨ff, cfs, rfl, hff, hpci, h.accepts ff (List.mem_cons_self ..) hpci,
    fun r hr => ?_, hcfs⟩
  refine isCf_of_mem ?_ (hcfs ▸ List.mem_map_of_mem hr)
  rw [hid r (List.mem_cons_of_mem _ hr), hid ff (List.mem_cons_self ..)]

theorem carries_sfFrame (id : UInt32) (idt : UInt8) (hlen : msg.length ≤ sfNumDataBytes) :
    Delivery.Carries msg ⟨id, idt,
      some ((List.range sfNumDataBytes).map (sfFrame msg msg.length).sfD),
      (sfFrame msg msg.length).sfLen⟩ := by
  refine ⟨sfLen_sfFrame msg _ hlen, _, rfl, List.ext_getElem? fun j => ?_⟩
  rw [List.getElem?_take]
  by_cases hj : j < msg.length
  · rw [if_pos hj, List.getElem?_map, List.getElem?_range (by omega), Option.map_some,
      sfD_sfFrame msg _ j hj hlen, List.getElem?_eq_getElem hj,
      List.getD_eq_getElem?_getD, List.getElem?_eq_getElem hj]
    rfl
  · rw [if_neg hj, List.getElem?_eq_none (not_lt.mp hj)]

theorem Incoming.received_single (h : Incoming msg rs) (hlen : msg.length ≤ sfNumDataBytes)
    (c : CantpRxtxStatus) :
    ReceivedAsFresh c msg rs ∧
      (canTp.run c (rs.map .canrxCb)).rcvr.state = .rxDone := by
  obtain ⟨r, rfl, hr, hpci⟩ := h.single hlen
  have hstep : canTp.step c (.canrxCb r) = ({ c with rcvr.state := .rxDone },
      [.printCantpFrame r.frame, .receivedCb r.id r.idt
        (some ((List.range sfNumDataBytes).map r.frame.sfD)) r.frame.sfLen]) := by
    rw [canTp_step, canrx_singleFrame hpci]
    rfl
  refine ⟨⟨?_, ?_⟩, ?_⟩
  · intro r' hr' hff
    rw [List.mem_singleton.mp hr', hpci] at hff
    cases hff
  · refine ⟨⟨r.id, r.idt, some ((List.range sfNumDataBytes).map r.frame.sfD),
      r.frame.sfLen⟩, ?_, hr ▸ carries_sfFrame r.id r.idt hlen⟩
    rw [List.map_singleton, Mealy.outputs_cons, hstep]
    rfl
  · rw [List.map_singleton, Mealy.run_cons, hstep]
    rfl

theorem Incoming.received_idle (h : Incoming msg rs) (hlen : sfNumDataBytes < msg.length)
    (hidle : c.rcvr.state = .idle) (hsn : c.rcvr.sn = 0) :
    ReceivedAsFresh c msg rs ∧
      (canTp.run c (rs.map .canrxCb)).rcvr.state = .txDone := by
  obtain ⟨ff, cfs, rfl, hff, hpci, hacc, hcfs, hframes⟩ := h.segmented hlen
  obtain ⟨hfill, hnone⟩ := (hacc c.rcvr.data).begins hidle hsn hff hlen h.short
  obtain ⟨hcomplete, d, hd, hcarries⟩ := hfill.run
    (numCfs_pos hlen) (fun r hr => (hcfs r hr).id) hframes
  refine ⟨⟨?_, d, ?_, hcarries⟩, hcomplete.state⟩
  · intro r hr hrff
    have hr' : r = ff := by
      rcases List.mem_cons.mp hr with rfl | hcf
      · rfl
      · have hcons := (hcfs r hcf).pci
        rw [hrff] at hcons
        cases hcons
    subst hr'
    obtain ⟨hok, buf, hbuf, -⟩ := hacc c.rcvr.data
    have hffacc : r.FfAccepted c.rcvr.data buf := ⟨hpci, hok, hbuf⟩
    rw [AnsweredWithCts, hffacc.step hidle]
    exact List.mem_append_right _ (List.mem_cons_self ..)
  · rw [List.map_cons, Mealy.outputs_cons, deliveries_append, hnone, List.nil_append, hd]

theorem run_cf_ignored (hst : c.rcvr.state ≠ .fcSent)
    (hrs : ∀ r ∈ rs, r.pci = some .consecFrame) :
    canTp.run c (rs.map .canrxCb) = c ∧
      deliveries (canTp.outputs c (rs.map .canrxCb)) = [] := by
  induction rs with
  | nil => exact ⟨rfl, rfl⟩
  | cons r rs ih =>
      have hr := hrs r (List.mem_cons_self ..)
      obtain ⟨hrun, hnone⟩ := ih fun r' hr' => hrs r' (List.mem_cons_of_mem _ hr')
      rw [List.map_cons, Mealy.run_cons, Mealy.outputs_cons, step_cf_ignored hst hr,
        deliveries_append, hnone]
      exact ⟨hrun, rfl⟩

theorem Incoming.ignored (h : Incoming msg rs) (hlen : sfNumDataBytes < msg.length)
    (hspent : c.rcvr.state.Spent) :
    deliveries (canTp.outputs c (rs.map .canrxCb)) = [] ∧
      canTp.run c (rs.map .canrxCb) = c := by
  obtain ⟨ff, cfs, rfl, hff, hpci, -, hcfs, -⟩ := h.segmented hlen
  have hstep := step_ff_ignored hspent.ne_idle hpci
  obtain ⟨hrun, hnone⟩ := run_cf_ignored hspent.ne_fcSent fun r hr => (hcfs r hr).pci
  rw [List.map_cons, Mealy.run_cons, Mealy.outputs_cons, hstep, deliveries_append, hnone]
  exact ⟨rfl, hrun⟩

end Receive

/-! ### Histories -/

section Histories

variable {p : CantpParams} {c : CantpRxtxStatus} {rs : List RxFrame} {k : ReceptionEnd}
  {hist : List (ReceptionEnd × List RxFrame)}

theorem Ended.refused (h : Ended c rs .refused) :
    (canTp.run c (rs.map .canrxCb)).rcvr.state = .idle ∧
      (canTp.run c (rs.map .canrxCb)).rcvr.sn = c.rcvr.sn := by
  obtain ⟨ff, rfl, hidle, hpci, hans⟩ := h
  rw [List.map_singleton, Mealy.run_cons, canTp_step, canrx_firstFrame hpci, if_pos hidle,
    rxFf_refused (by exact hans)]
  exact ⟨rfl, rfl⟩

theorem Ended.spent (h : Ended c rs k) (hk : k ≠ .refused) :
    (canTp.run c (rs.map .canrxCb)).rcvr.state.Spent := by
  cases k with
  | single =>
      obtain ⟨r, rfl, hpci⟩ := h
      rw [List.map_singleton, Mealy.run_cons, canTp_step, canrx_singleFrame hpci]
      exact Or.inl rfl
  | segmented =>
      obtain ⟨ff, buf, cfs, last, rfl, -, -, -, -, hdone⟩ := h
      exact Or.inr (Or.inl hdone)
  | refused => exact absurd rfl hk
  | abandoned =>
      obtain ⟨ff, rfl, hidle, hpci, hok, hnone⟩ := h
      rw [List.map_singleton, Mealy.run_cons, canTp_step, canrx_firstFrame hpci,
        if_pos hidle, rxFf_abandoned (not_lt.mpr (by exact hok)) (by exact hnone)]
      exact Or.inr (Or.inr rfl)

theorem Ended.of_spent (h : Ended c rs k) (hspent : c.rcvr.state.Spent) : k = .single := by
  cases k with
  | single => rfl
  | segmented =>
      obtain ⟨_, _, _, _, _, hidle, _⟩ := h
      exact absurd hidle hspent.ne_idle
  | refused =>
      obtain ⟨_, _, hidle, _⟩ := h
      exact absurd hidle hspent.ne_idle
  | abandoned =>
      obtain ⟨_, _, hidle, _⟩ := h
      exact absurd hidle hspent.ne_idle

theorem Receptions.spent (h : Receptions c hist) (hspent : c.rcvr.state.Spent) :
    (canTp.run c ((hist.flatMap Prod.snd).map .canrxCb)).rcvr.state.Spent := by
  induction h with
  | nil => exact hspent
  | cons h ht ih =>
      rw [List.flatMap_cons, List.map_append, Mealy.run_append]
      exact ih (h.spent (by rw [h.of_spent hspent]; simp))

/-- After a sequence of receptions the receiver is in `IDLE` if all of them were
refused, and spent otherwise. -/
theorem Receptions.state (h : Receptions c hist) (hidle : c.rcvr.state = .idle)
    (hsn : c.rcvr.sn = 0) :
    let c' := canTp.run c ((hist.flatMap Prod.snd).map .canrxCb)
    ((∀ e ∈ hist, e.1 = .refused) → c'.rcvr.state = .idle ∧ c'.rcvr.sn = 0) ∧
      ((¬ ∀ e ∈ hist, e.1 = .refused) → c'.rcvr.state.Spent) := by
  induction h with
  | nil => exact ⟨fun _ => ⟨hidle, hsn⟩, fun h => absurd (by simp) h⟩
  | @cons c k rs hist h ht ih =>
      intro c'
      have hc' : c' = canTp.run (canTp.run c (rs.map .canrxCb))
          ((hist.flatMap Prod.snd).map .canrxCb) := by
        simp only [c', List.flatMap_cons, List.map_append, Mealy.run_append]
      rw [hc']
      by_cases hk : k = .refused
      · subst hk
        obtain ⟨hidle', hsn'⟩ := h.refused
        obtain ⟨hall, hspent⟩ := ih hidle' (hsn'.trans hsn)
        exact ⟨fun hh => hall fun e he => hh e (List.mem_cons_of_mem _ he),
          fun hh => hspent fun hrest => hh (by
            intro e he
            rcases List.mem_cons.mp he with rfl | he
            · rfl
            · exact hrest e he)⟩
      · exact ⟨fun hh => absurd (hh _ (List.mem_cons_self ..)) hk,
          fun _ => ht.spent (h.spent hk)⟩

/-- The exact condition for one more message. -/
theorem Receptions.receivedAsFresh_iff {msg : List UInt8} (h : Receptions (.fresh p) hist)
    (hrs : Incoming msg rs) :
    ReceivedAsFresh (canTp.run (.fresh p) ((hist.flatMap Prod.snd).map .canrxCb)) msg rs ↔
      msg.length ≤ sfNumDataBytes ∨ ∀ e ∈ hist, e.1 = .refused := by
  obtain ⟨hall, hspent⟩ := h.state rfl rfl
  by_cases hlen : msg.length ≤ sfNumDataBytes
  · exact iff_of_true (hrs.received_single hlen _).1 (Or.inl hlen)
  · by_cases href : ∀ e ∈ hist, e.1 = .refused
    · obtain ⟨hidle, hsn⟩ := hall href
      exact iff_of_true (hrs.received_idle (not_le.mp hlen) hidle hsn).1 (Or.inr href)
    · refine iff_of_false ?_ fun hor => hor.elim hlen href
      intro hrec
      obtain ⟨-, d, hd, -⟩ := hrec
      rw [(hrs.ignored (not_le.mp hlen) (hspent href)).1] at hd
      cases hd

end Histories

/-! ### Lists of messages -/

/-- The messages of a list are delivered, each once and in order. -/
def AllDelivered (c : CantpRxtxStatus) (sent : List (List UInt8 × List RxFrame)) : Prop :=
  List.Forall₂ (fun m d => Delivery.Carries m.1 d) sent
    (deliveries (canTp.outputs c ((sent.flatMap Prod.snd).map .canrxCb)))

section Lists

variable {c : CantpRxtxStatus} {sent : List (List UInt8 × List RxFrame)}

theorem flatMap_outputs (m : List UInt8 × List RxFrame) :
    deliveries (canTp.outputs c (((m :: sent).flatMap Prod.snd).map .canrxCb)) =
      deliveries (canTp.outputs c (m.2.map .canrxCb)) ++
        deliveries (canTp.outputs (canTp.run c (m.2.map .canrxCb))
          ((sent.flatMap Prod.snd).map .canrxCb)) := by
  rw [List.flatMap_cons, List.map_append, Mealy.outputs_append, deliveries_append]

theorem length_deliveries_spent (hsent : ∀ m ∈ sent, Incoming m.1 m.2)
    (hspent : c.rcvr.state.Spent) :
    (deliveries (canTp.outputs c ((sent.flatMap Prod.snd).map .canrxCb))).length =
      sent.countP fun m => m.1.length ≤ sfNumDataBytes := by
  induction sent generalizing c with
  | nil => rfl
  | cons m sent ih =>
      have hm := hsent m (List.mem_cons_self ..)
      have hsent' : ∀ m' ∈ sent, Incoming m'.1 m'.2 :=
        fun m' hm' => hsent m' (List.mem_cons_of_mem _ hm')
      rw [flatMap_outputs, List.length_append, List.countP_cons]
      by_cases hlen : m.1.length ≤ sfNumDataBytes
      · obtain ⟨⟨-, d, hd, -⟩, hst⟩ := hm.received_single hlen c
        rw [hd, ih hsent' (Or.inl hst), if_pos (by simpa using hlen)]
        exact Nat.add_comm _ _
      · obtain ⟨hnone, hrun⟩ := hm.ignored (not_le.mp hlen) hspent
        rw [hnone, hrun, ih hsent' hspent, if_neg (by simpa using hlen)]
        exact Nat.zero_add _

theorem allDelivered_spent (hsent : ∀ m ∈ sent, Incoming m.1 m.2)
    (hspent : c.rcvr.state.Spent) :
    AllDelivered c sent ↔ ∀ m ∈ sent, m.1.length ≤ sfNumDataBytes := by
  constructor
  · intro h
    have hlen := h.length_eq
    rw [length_deliveries_spent hsent hspent] at hlen
    simpa using List.countP_eq_length.mp hlen.symm
  · intro h
    induction sent generalizing c with
    | nil => exact .nil
    | cons m sent ih =>
        obtain ⟨⟨-, d, hd, hcarries⟩, hst⟩ := (hsent m (List.mem_cons_self ..)).received_single
          (h m (List.mem_cons_self ..)) c
        rw [AllDelivered, flatMap_outputs, hd]
        exact .cons hcarries (ih (fun m' hm' => hsent m' (List.mem_cons_of_mem _ hm'))
          (Or.inl hst) fun m' hm' => h m' (List.mem_cons_of_mem _ hm'))

/-- The exact condition for a list of messages. -/
theorem allDelivered_iff (hsent : ∀ m ∈ sent, Incoming m.1 m.2)
    (hidle : c.rcvr.state = .idle) (hsn : c.rcvr.sn = 0) :
    AllDelivered c sent ↔ ∀ m ∈ sent.tail, m.1.length ≤ sfNumDataBytes := by
  cases sent with
  | nil => exact iff_of_true .nil (by simp)
  | cons m sent =>
      have hfirst : (∃ d, deliveries (canTp.outputs c (m.2.map .canrxCb)) = [d] ∧
          d.Carries m.1) ∧ (canTp.run c (m.2.map .canrxCb)).rcvr.state.Spent := by
        by_cases hlen : m.1.length ≤ sfNumDataBytes
        · obtain ⟨⟨-, hd⟩, hst⟩ := (hsent m (List.mem_cons_self ..)).received_single hlen c
          exact ⟨hd, Or.inl hst⟩
        · obtain ⟨⟨-, hd⟩, hst⟩ := (hsent m (List.mem_cons_self ..)).received_idle
            (not_le.mp hlen) hidle hsn
          exact ⟨hd, Or.inr (Or.inl hst)⟩
      obtain ⟨⟨d, hd, hcarries⟩, hspent⟩ := hfirst
      have hrest := allDelivered_spent
        (fun m' hm' => hsent m' (List.mem_cons_of_mem _ hm')) hspent
      rw [List.tail_cons, ← hrest, AllDelivered, flatMap_outputs, hd]
      exact List.forall₂_cons.trans (and_iff_right hcarries)

end Lists

/-- For every sequence of ended receptions of a fresh receiver: the next message is
received as by a fresh receiver exactly if it is a Single Frame or all of the
receptions were refused; and a list of messages is delivered exactly if none but the
first is segmented. -/
theorem received_after_history_iff (p : CantpParams)
    (hist : List (ReceptionEnd × List RxFrame)) (msg : List UInt8) (rs : List RxFrame)
    (sent : List (List UInt8 × List RxFrame)) (hhist : Receptions (.fresh p) hist)
    (hrs : Incoming msg rs) (hsent : ∀ m ∈ sent, Incoming m.1 m.2) :
    (ReceivedAsFresh (canTp.run (.fresh p) ((hist.flatMap Prod.snd).map .canrxCb)) msg rs ↔
        msg.length ≤ sfNumDataBytes ∨ ∀ e ∈ hist, e.1 = .refused) ∧
      (AllDelivered (.fresh p) sent ↔
        ∀ m ∈ sent.tail, m.1.length ≤ sfNumDataBytes) :=
  ⟨hhist.receivedAsFresh_iff hrs, allDelivered_iff hsent rfl rfl⟩

/-- The frames of `msg`, for a session layer that accepts everything. -/
def acceptedFrames (msg : List UInt8) : List RxFrame :=
  (canonicalFrames msg msg.length).map (.ofFrame .accepting 5 0)

theorem incoming_acceptedFrames {msg : List UInt8} (h : msg.length < 4096) :
    Incoming msg (acceptedFrames msg) := by
  refine ⟨?_, ⟨5, ?_⟩, ?_, h⟩
  · rw [acceptedFrames, List.map_map]
    exact (List.map_congr_left fun f _ => frame_ofFrame _ _ _ f).trans (List.map_id _)
  · intro r hr
    obtain ⟨f, -, rfl⟩ := List.mem_map.mp hr
    rfl
  · intro r hr _
    obtain ⟨f, -, rfl⟩ := List.mem_map.mp hr
    exact sessionAccepts_accepting 5 0 f

/-- A first message of twenty bytes, and a second one of two. -/
theorem received_after_history_first :
    let msg := List.replicate 20 7
    AllDelivered (.fresh ⟨0, 0, 0, 0, 0, 0, 0, 0⟩)
      [(msg, acceptedFrames msg), ([1, 2], acceptedFrames [1, 2])] := by
  intro msg
  have hmsg : Incoming msg (acceptedFrames msg) := incoming_acceptedFrames (by decide)
  have htwo : Incoming [1, 2] (acceptedFrames [1, 2]) := incoming_acceptedFrames (by decide)
  refine (received_after_history_iff ⟨0, 0, 0, 0, 0, 0, 0, 0⟩ [] msg (acceptedFrames msg)
    [(msg, acceptedFrames msg), ([1, 2], acceptedFrames [1, 2])] (.nil _) hmsg ?_).2.mpr ?_
  · intro m hm
    rcases List.mem_cons.mp hm with rfl | hm
    · exact hmsg
    · rw [List.mem_singleton.mp hm]
      exact htwo
  · intro m hm
    rw [List.mem_singleton.mp hm]
    exact Nat.le_of_ble_eq_true rfl

/-- After a Single Frame a message of twenty bytes is not received. -/
theorem not_received_after_single :
    ¬ ∀ (p : CantpParams) (hist : List (ReceptionEnd × List RxFrame)) (msg : List UInt8)
      (rs : List RxFrame), Receptions (.fresh p) hist → Incoming msg rs →
      ReceivedAsFresh (canTp.run (.fresh p) ((hist.flatMap Prod.snd).map .canrxCb)) msg rs := by
  intro h
  have hhist : Receptions (.fresh ⟨0, 0, 0, 0, 0, 0, 0, 0⟩)
      [(.single, [.ofFrame .accepting 5 0 (sfFrame [1, 2] 2)])] :=
    .cons ⟨_, rfl, by decide⟩ (.nil _)
  obtain ⟨-, d, hd, -⟩ := h ⟨0, 0, 0, 0, 0, 0, 0, 0⟩
    [(.single, [.ofFrame .accepting 5 0 (sfFrame [1, 2] 2)])] (List.replicate 20 7)
    (acceptedFrames (List.replicate 20 7)) hhist (incoming_acceptedFrames (by decide))
  have hnone : deliveries (canTp.outputs
      (canTp.run (.fresh ⟨0, 0, 0, 0, 0, 0, 0, 0⟩)
        [.canrxCb (.ofFrame .accepting 5 0 (sfFrame [1, 2] 2))])
      ((acceptedFrames (List.replicate 20 7)).map .canrxCb)) = [] := by decide
  exact absurd (hnone.symm.trans hd) (by simp)

end CanTp
