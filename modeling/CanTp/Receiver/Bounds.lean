import CanTp.Receiver.Outcome

/-!
# The bounds of the session buffer

The receiver stores the six bytes of a First Frame whatever length the frame
announces, and the bytes of a Consecutive Frame only as far as the message goes. In
`FC_SENT` the buffer has the length of the message and the index lies inside it
(`BufferFits`); this is kept by every frame, except by an accepted First Frame that
announces less than it carries.
-/

namespace CanTp

open Library

/-- A buffer that the session layer supplies has the length it was asked for. -/
def BufferSupplied (c : CantpRxtxStatus) (r : RxFrame) : Prop :=
  c.rcvr.state = .idle → ∀ buf ∈ (r.ffAnswer c.rcvr.data).2, r.FfAccepted c.rcvr.data buf →
    buf.length = (cantpFfLenGet r.frame).toNat

/-- The stores made while `r` is handled lie inside the message and inside the buffer,
and so does the index of a receiver that is then in `FC_SENT`. -/
def StoresInside (c : CantpRxtxStatus) (r : RxFrame) : Prop :=
  let after := (canTp.step c (.canrxCb r)).1.rcvr
  (∀ store ∈ bufferWrites (canTp.step c (.canrxCb r)).2,
    store.1 < after.len.toNat ∧ ∃ buf ∈ after.data, store.1 < buf.length) ∧
  (after.state = .fcSent → after.index ≤ after.len)

/-- A First Frame that is accepted announces at least the bytes it carries. -/
def AnnouncesItsBytes (c : CantpRxtxStatus) (r : RxFrame) : Prop :=
  c.rcvr.state = .idle → ∀ buf ∈ (r.ffAnswer c.rcvr.data).2, r.FfAccepted c.rcvr.data buf →
    ffNumDataBytes ≤ (cantpFfLenGet r.frame).toNat

instance (c : CantpRxtxStatus) (r : RxFrame) : Decidable (BufferSupplied c r) :=
  inferInstanceAs (Decidable (_ → _))

instance (c : CantpRxtxStatus) (r : RxFrame) : Decidable (StoresInside c r) :=
  inferInstanceAs (Decidable (_ ∧ _))

instance (c : CantpRxtxStatus) (r : RxFrame) : Decidable (AnnouncesItsBytes c r) :=
  inferInstanceAs (Decidable (_ → _))

/-- The buffer holds the whole message and the index lies inside it. -/
structure BufferFits (s : RcvrState) : Prop where
  index_le : s.index.toNat ≤ s.len.toNat
  buffer : ∃ buf, s.data = some buf ∧ buf.length = s.len.toNat

section Stores

theorem bufferWrites_eq_nil {log : List Act} (h : ∀ a ∈ log, a.bufferWrite = none) :
    bufferWrites log = [] := List.filterMap_eq_nil_iff.mpr h

theorem bufferWrites_of_flow {log : List Act} (h : ∀ a ∈ log, a.OfFlow) :
    bufferWrites log = [] :=
  bufferWrites_eq_nil fun a ha => by
    have hflow := h a ha
    cases a <;> first | rfl | exact hflow.elim

theorem bufferWrites_of_await {env : Env} {acts : List Act} (h : ∀ a ∈ acts, a.IsAwait env) :
    bufferWrites acts = [] :=
  bufferWrites_eq_nil fun a ha => by
    have hawait := h a ha
    cases a <;> first | rfl | exact hawait.elim

theorem bufferWrites_ffLog (r : RxFrame) (c : CantpRxtxStatus) {acts : List Act}
    (h : ∀ a ∈ acts, a.IsAwait r.env) :
    bufferWrites (ffLog r ⟨c, [.printCantpFrame r.frame]⟩ ++ acts) =
      (List.range ffNumDataBytes).map fun i => (i, r.frame.ffD i) := by
  rw [bufferWrites_append, bufferWrites_of_await h, List.append_nil]
  rfl

theorem bufferWrites_more {c : CantpRxtxStatus} {r : RxFrame} (h : ContinuedBy c r) :
    bufferWrites (rcvrAwaitNext r.env ⟨{ c with rcvr := c.rcvr.storeCf r.frame },
      .printCantpFrame r.frame :: c.rcvr.cfWrites r.frame⟩).log =
      bufferWrites (c.rcvr.cfWrites r.frame) := by
  obtain ⟨acts, hlog, hacts⟩ := (awaits_rcvrAwaitNext r.env
    (w := ⟨{ c with rcvr := c.rcvr.storeCf r.frame },
      .printCantpFrame r.frame :: c.rcvr.cfWrites r.frame⟩) h.1.2.1).log
  rw [hlog, bufferWrites_append, bufferWrites_of_await hacts, List.append_nil]
  rfl

theorem bufferWrites_last (c : CantpRxtxStatus) (f : CantpFrame) {a : Act}
    (ha : a.bufferWrite = none) :
    bufferWrites (.printCantpFrame f :: (c.rcvr.cfWrites f ++ [a])) =
      bufferWrites (c.rcvr.cfWrites f) := by
  change bufferWrites (c.rcvr.cfWrites f ++ [a]) = _
  rw [bufferWrites_append, bufferWrites_eq_nil fun b hb => List.mem_singleton.mp hb ▸ ha,
    List.append_nil]

end Stores

section Step

variable {c : CantpRxtxStatus} {r : RxFrame} {w : World}

theorem BufferFits.storeCf {s : RcvrState} (h : BufferFits s) (f : CantpFrame)
    (hrem : 0 < s.remaining) : BufferFits (s.storeCf f) := by
  obtain ⟨buf, hbuf, hlen⟩ := h.buffer
  refine ⟨?_, ?_⟩
  · rw [index_storeCf f hrem]
    exact Nat.min_le_left _ _
  · refine ⟨overwrite buf s.index.toNat ((List.range s.storeLen).map f.cfD), ?_, ?_⟩
    · simp [RcvrState.storeCf, hbuf]
    · rw [length_overwrite]
      exact hlen

theorem BufferFits.cfWrites {s : RcvrState} (h : BufferFits s) (f : CantpFrame)
    {store : Nat × UInt8} (hmem : store ∈ bufferWrites (s.cfWrites f)) :
    store.1 < s.len.toNat := by
  rw [bufferWrites_cfWrites] at hmem
  obtain ⟨i, hi, rfl⟩ := List.mem_map.mp hmem
  have hlt := List.mem_range.mp hi
  have hle := h.index_le
  unfold RcvrState.storeLen at hlt
  change s.index.toNat + i < s.len.toNat
  omega

theorem BufferFits.store_lt {s : RcvrState} (h : BufferFits s) {n : Nat}
    (hn : n < s.len.toNat) : ∃ buf ∈ s.data, n < buf.length := by
  obtain ⟨buf, hbuf, hlen⟩ := h.buffer
  exact ⟨buf, hbuf, hlen ▸ hn⟩

theorem BufferFits.stores {s : RcvrState} (h : BufferFits s) (f : CantpFrame)
    (hrem : 0 < s.remaining) :
    ∀ store ∈ bufferWrites (s.cfWrites f), store.1 < (s.storeCf f).len.toNat ∧
      ∃ buf ∈ (s.storeCf f).data, store.1 < buf.length := by
  intro store hstore
  have hlt := h.cfWrites f hstore
  exact ⟨hlt, (h.storeCf f hrem).store_lt hlt⟩

theorem bufferFits_accepted {s : RcvrState} {buf : List UInt8}
    (hbuf : buf.length = (cantpFfLenGet r.frame).toNat)
    (hlen : ffNumDataBytes ≤ (cantpFfLenGet r.frame).toNat) :
    BufferFits (s.accepted r buf) := by
  refine ⟨hlen, ⟨_, rfl, ?_⟩⟩
  rw [length_overwrite]
  exact hbuf

/-- Every way of handling a frame stores inside the message and keeps the fit. -/
theorem RxOutcome.inside (h : RxOutcome c r w)
    (hfits : c.rcvr.state = .fcSent → BufferFits c.rcvr) (hbuf : BufferSupplied c r)
    (hann : AnnouncesItsBytes c r) :
    (∀ store ∈ bufferWrites w.log, store.1 < w.ctx.rcvr.len.toNat ∧
      ∃ buf ∈ w.ctx.rcvr.data, store.1 < buf.length) ∧
    (w.ctx.rcvr.state = .fcSent → BufferFits w.ctx.rcvr) := by
  cases h with
  | unknown | ffIgnored | cfIgnored | cfForeign =>
      exact ⟨by simp [bufferWrites, Act.bufferWrite], hfits⟩
  | flow _ s log _ _ hlog => exact ⟨by simp [bufferWrites_of_flow hlog], hfits⟩
  | single => exact ⟨by simp [bufferWrites, Act.bufferWrite], by simp⟩
  | ffRefused => exact ⟨by simp [bufferWrites, Act.bufferWrite], by simp⟩
  | ffAbandoned =>
      exact ⟨by simp [bufferWrites, Act.bufferWrite], by simp [RcvrState.announced]⟩
  | ffAccepted hst buf h =>
      have hlen := hann hst buf h.buffer h
      have hfit := bufferFits_accepted (s := c.rcvr) (hbuf hst buf h.buffer h) hlen
      refine ⟨fun store hstore => ?_, fun _ => hfit⟩
      rw [bufferWrites_ffLog r c fun _ ha => isAwait_fcActs ha] at hstore
      obtain ⟨i, hi, rfl⟩ := List.mem_map.mp hstore
      have hlt : i < (c.rcvr.accepted r buf).len.toNat :=
        lt_of_lt_of_le (List.mem_range.mp hi) hlen
      exact ⟨hlt, hfit.store_lt hlt⟩
  | cfRejected _ hst =>
      have hfit := hfits hst
      exact ⟨by simp [bufferWrites, Act.bufferWrite], fun _ => ⟨hfit.index_le, hfit.buffer⟩⟩
  | cfLast h =>
      obtain ⟨⟨-, hst, -, -, hrem⟩, -⟩ := h
      refine ⟨?_, by simp⟩
      rw [bufferWrites_last c r.frame rfl]
      exact (hfits hst).stores r.frame hrem
  | cfMore h =>
      obtain ⟨-, hst, -, -, hrem⟩ := h.1
      have hfit := (hfits hst).storeCf r.frame hrem
      obtain ⟨wft, t, hr⟩ := (awaits_rcvrAwaitNext r.env
        (w := ⟨{ c with rcvr := c.rcvr.storeCf r.frame },
          .printCantpFrame r.frame :: c.rcvr.cfWrites r.frame⟩) hst).rcvr
      rw [bufferWrites_more h, hr]
      exact ⟨(hfits hst).stores r.frame hrem, fun _ => ⟨hfit.index_le, hfit.buffer⟩⟩

theorem StoresInside.announces (h : StoresInside c r) : AnnouncesItsBytes c r := by
  intro hst buf _ hff
  have hidx := h.2
  rw [hff.step hst] at hidx
  exact UInt16.le_iff_toNat_le.mp (hidx rfl)

theorem storesInside_iff (hfits : c.rcvr.state = .fcSent → BufferFits c.rcvr)
    (hbuf : BufferSupplied c r) : StoresInside c r ↔ AnnouncesItsBytes c r := by
  refine ⟨StoresInside.announces, fun hann => ?_⟩
  obtain ⟨hstores, hfit⟩ := (rx_outcome c r).inside hfits hbuf hann
  exact ⟨hstores, fun hst => UInt16.le_iff_toNat_le.mpr (hfit hst).index_le⟩

end Step

/-- For every run of a fresh context in which the session layer supplies buffers of the
announced length: no frame is stored outside the message and its buffer exactly if every
First Frame that is accepted announces the bytes it carries. -/
theorem stores_inside_iff (p : CantpParams) (es : List Event)
    (hbuf : canTp.Admits (Event.OnRx BufferSupplied) (.fresh p) es) :
    canTp.Admits (Event.OnRx StoresInside) (.fresh p) es ↔
      canTp.Admits (Event.OnRx AnnouncesItsBytes) (.fresh p) es := by
  refine Mealy.admits_congr (P := fun c => c.rcvr.state = .fcSent → BufferFits c.rcvr)
    (fun c e hfits hbuf => ?_) (fun c e hfits hbuf hin => ?_) (fun h => by cases h) hbuf
  · cases e with
    | canrxCb r => exact storesInside_iff hfits hbuf
    | _ => exact Iff.rfl
  · cases e with
    | canrxCb r => exact ((rx_outcome c r).inside hfits hbuf (StoresInside.announces hin)).2
    | rcvrTimerCb => exact hfits
    | send | cantxConfirmCb | sndrTimerCb | sndrTimerExpiry =>
        rw [(sndr_effect c rfl).rcvr_eq]
        exact hfits

/-- A message of twenty bytes, cut off after its first Consecutive Frame. -/
theorem stores_inside_twenty :
    let rx := RxFrame.ofFrame .accepting 5 0
    canTp.Admits (Event.OnRx StoresInside) (.fresh ⟨0, 0, 0, 0, 0, 0, 0, 0⟩)
      [.canrxCb (rx (ffFrame (List.replicate 20 7) 20)),
        .canrxCb (rx (cfAt (List.replicate 20 7) 20 0))] :=
  (stores_inside_iff ⟨0, 0, 0, 0, 0, 0, 0, 0⟩
    [.canrxCb (.ofFrame .accepting 5 0 (ffFrame (List.replicate 20 7) 20)),
      .canrxCb (.ofFrame .accepting 5 0 (cfAt (List.replicate 20 7) 20 0))]
    (by decide)).mpr (by decide)

/-- A First Frame that announces five bytes is stored past the end of its buffer. -/
theorem stores_outside :
    ¬ ∀ (p : CantpParams) (es : List Event),
      canTp.Admits (Event.OnRx BufferSupplied) (.fresh p) es →
      canTp.Admits (Event.OnRx StoresInside) (.fresh p) es := by
  intro h
  exact absurd (h ⟨0, 0, 0, 0, 0, 0, 0, 0⟩
    [.canrxCb (.ofFrame .accepting 5 0 (ffFrame [1, 2, 3, 4, 5, 6] 5))] (by decide))
    (by decide)

end CanTp
