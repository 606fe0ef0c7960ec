import CanTp.Roles

/-!
# What a received frame does

`RxOutcome c r w` lists the ways in which `cantp_canrx_cb` handles the frame `r` in
the context `c`, each with the world `w` it leaves behind. What is said about every
received frame is proved by its cases.
-/

namespace CanTp

open Library

/-- The calls the sender makes while a Flow Control frame is handled. -/
def Act.OfFlow : Act → Prop
  | .canTxNb .. | .sndrStateSemGive | .sndrStateSemTake _ | .printCantpFrame _
  | .sndrRead _ => True
  | _ => False

/-- The calls that only the sender makes. -/
def Act.onlySndr : Act → Bool
  | .canTxNb .. | .sndrTxDoneCb | .sndrStateSemGive | .sndrStateSemTake _ | .sndrRead _ => true
  | _ => false

/-- The transmission of a frame of the sender. -/
def Act.sendsData : Act → Bool
  | .canTxNb .. => true
  | _ => false

/-- What is asked of every received frame, as a guard on all calls. -/
def Event.OnRx (ok : CantpRxtxStatus → RxFrame → Prop) (c : CantpRxtxStatus) : Event → Prop
  | .canrxCb r => ok c r
  | _ => True

instance (ok : CantpRxtxStatus → RxFrame → Prop) [∀ c r, Decidable (ok c r)]
    (c : CantpRxtxStatus) : ∀ e, Decidable (Event.OnRx ok c e)
  | .canrxCb r => inferInstanceAs (Decidable (ok c r))
  | .send .. | .cantxConfirmCb | .sndrTimerCb | .sndrTimerExpiry | .rcvrTimerCb =>
      isTrue trivial

/-- The ways through `cantp_canrx_cb`. -/
inductive RxOutcome (c : CantpRxtxStatus) (r : RxFrame) : World → Prop
  | unknown (hpci : r.pci = none) : RxOutcome c r ⟨c, []⟩
  | flow (hpci : r.pci = some .flowControll) (s : SndrState) (log : List Act)
      (hdrop : c.sndr.state ≠ .ffFcWait → s = c.sndr) (hbl : s.blIndex = c.sndr.blIndex)
      (hlog : ∀ a ∈ log, a.OfFlow) : RxOutcome c r ⟨{ c with sndr := s }, log⟩
  | single (hpci : r.pci = some .singleFrame) : RxOutcome c r
      ⟨{ c with rcvr.state := .rxDone }, [.printCantpFrame r.frame, .receivedCb r.id r.idt
        (some ((List.range sfNumDataBytes).map r.frame.sfD)) r.frame.sfLen]⟩
  | ffIgnored (hpci : r.pci = some .firstFrame) (hst : c.rcvr.state ≠ .idle) :
      RxOutcome c r ⟨c, [.printCantpFrame r.frame]⟩
  | ffRefused (hpci : r.pci = some .firstFrame) (hst : c.rcvr.state = .idle)
      (h : (r.ffAnswer c.rcvr.data).1 < 0) : RxOutcome c r
      ⟨{ c with rcvr := { c.rcvr.announced r with state := .idle, timer := none } },
        [.printCantpFrame r.frame, .rcvrRxFfCb r.id r.idt (cantpFfLenGet r.frame)]⟩
  | ffAbandoned (hpci : r.pci = some .firstFrame) (hst : c.rcvr.state = .idle)
      (h : 0 ≤ (r.ffAnswer c.rcvr.data).1) (hbuf : (r.ffAnswer c.rcvr.data).2 = none) :
      RxOutcome c r ⟨{ c with rcvr := c.rcvr.announced r },
        [.printCantpFrame r.frame, .rcvrRxFfCb r.id r.idt (cantpFfLenGet r.frame)]⟩
  | ffAccepted (hst : c.rcvr.state = .idle) (buf : List UInt8)
      (h : r.FfAccepted c.rcvr.data buf) : RxOutcome c r
      ⟨{ c with rcvr := c.rcvr.accepted r buf },
        ffLog r ⟨c, [.printCantpFrame r.frame]⟩ ++
          fcActs r.env (ctsFrame c.params CantpFrame.zero)
            ⟨c, ffLog r ⟨c, [.printCantpFrame r.frame]⟩⟩⟩
  | cfIgnored (hpci : r.pci = some .consecFrame) (hst : c.rcvr.state ≠ .fcSent) :
      RxOutcome c r ⟨c, [.printCantpFrame r.frame]⟩
  | cfForeign (hpci : r.pci = some .consecFrame) (hst : c.rcvr.state = .fcSent)
      (hid : c.rcvr.idPair ≠ r.id) : RxOutcome c r ⟨c, [.printCantpFrame r.frame]⟩
  | cfRejected (hpci : r.pci = some .consecFrame) (hst : c.rcvr.state = .fcSent)
      (hid : c.rcvr.idPair = r.id) (h : ¬ c.rcvr.Takes r.id r.frame) : RxOutcome c r
      ⟨{ c with rcvr := c.rcvr.rejectCf }, [.printCantpFrame r.frame]⟩
  | cfLast (h : CompletedBy c r) : RxOutcome c r
      ⟨{ c with rcvr := { c.rcvr.storeCf r.frame with state := .txDone } },
        .printCantpFrame r.frame :: (c.rcvr.cfWrites r.frame ++
          [.receivedCb c.params.id c.params.idt (c.rcvr.storeCf r.frame).data
            c.rcvr.len.toUInt8])⟩
  | cfMore (h : ContinuedBy c r) : RxOutcome c r
      (rcvrAwaitNext r.env ⟨{ c with rcvr := c.rcvr.storeCf r.frame },
        .printCantpFrame r.frame :: c.rcvr.cfWrites r.frame⟩)

section Outcome

variable {c : CantpRxtxStatus} {r : RxFrame}

theorem ofFlow_cfActs {a : Act} (ha : a ∈ c.cfActs) : a.OfFlow := by
  rcases mem_cfActs ha with ⟨i, rfl⟩ | rfl | rfl | rfl <;> trivial

/-- A Flow Control frame is taken in `FF_FC_WAIT` only, and changes the sender state. -/
theorem flow_outcome (hpci : r.pci = some .flowControll) :
    RxOutcome c r (handle (.canrxCb r) ⟨c, []⟩) := by
  rw [canrx_flowControll hpci]
  by_cases hst : c.sndr.state = .ffFcWait
  · rw [canrxFlowControll_take (by exact hst)]
    cases hcts : ctsDelay r.frame with
    | none =>
        obtain ⟨us, name, hother⟩ := flowControl_other c.sndr r.id hcts
        rw [hother _ rfl]
        exact .flow hpci _ _ (absurd hst) rfl (by simp [Act.OfFlow])
    | some us =>
        by_cases hrem : 0 < c.sndr.remaining
        · rw [flowControl_cts hcts (by exact hrem)]
          refine .flow hpci _ _ (absurd hst) rfl fun a ha => ?_
          rcases List.mem_append.mp ha with ha | ha
          · rw [List.mem_singleton.mp ha]
            trivial
          · exact ofFlow_cfActs ha
        · rw [flowControl_cts_none hcts (not_lt.mp (by exact hrem))]
          exact .flow hpci _ _ (absurd hst) rfl (by simp [Act.OfFlow])
  · rw [canrxFlowControll_drop (by exact hst)]
    exact .flow hpci c.sndr _ (fun _ => rfl) rfl (by simp [Act.OfFlow])

theorem first_outcome (hpci : r.pci = some .firstFrame) :
    RxOutcome c r (handle (.canrxCb r) ⟨c, []⟩) := by
  rw [canrx_firstFrame hpci]
  by_cases hst : c.rcvr.state = .idle
  · rw [if_pos (by exact hst)]
    by_cases href : (r.ffAnswer c.rcvr.data).1 < 0
    · rw [rxFf_refused (by exact href)]
      exact .ffRefused hpci hst href
    · cases hbuf : (r.ffAnswer c.rcvr.data).2 with
      | none =>
          rw [rxFf_abandoned (by exact href) (by exact hbuf)]
          exact .ffAbandoned hpci hst (not_lt.mp href) hbuf
      | some buf =>
          rw [rxFf_accepted (by exact href) (by exact hbuf)]
          exact .ffAccepted hst buf ⟨hpci, not_lt.mp href, hbuf⟩
  · rw [if_neg (by exact hst)]
    exact .ffIgnored hpci hst

theorem consec_outcome (hpci : r.pci = some .consecFrame) :
    RxOutcome c r (handle (.canrxCb r) ⟨c, []⟩) := by
  rw [canrx_consecFrame hpci]
  by_cases hst : c.rcvr.state = .fcSent
  · rw [if_pos (by exact hst)]
    by_cases hid : c.rcvr.idPair = r.id
    · by_cases htake : c.rcvr.Takes r.id r.frame
      · by_cases hrem : c.rcvr.remaining ≤ cfNumDataBytes
        · rw [rxCf_last (by exact htake) (by exact hrem)]
          exact .cfLast ⟨⟨hpci, hst, htake⟩, hrem⟩
        · rw [rxCf_more (by exact htake) (by exact hrem)]
          exact .cfMore ⟨⟨hpci, hst, htake⟩, hrem⟩
      · rw [rxCf_reject (by exact hid) (by exact htake)]
        exact .cfRejected hpci hst hid htake
    · rw [rxCf_foreign (by exact hid)]
      exact .cfForeign hpci hst hid
  · rw [if_neg (by exact hst)]
    exact .cfIgnored hpci hst

/-- Every received frame is handled in one of these ways. -/
theorem rx_outcome (c : CantpRxtxStatus) (r : RxFrame) :
    RxOutcome c r (handle (.canrxCb r) ⟨c, []⟩) := by
  rcases hpci : r.pci with _ | pci
  · rw [canrx_unknown hpci]
    exact .unknown hpci
  · cases pci with
    | singleFrame =>
        rw [canrx_singleFrame hpci]
        exact .single hpci
    | firstFrame => exact first_outcome hpci
    | consecFrame => exact consec_outcome hpci
    | flowControll => exact flow_outcome hpci

theorem onlySndr_of_await {env : Env} {a : Act} (ha : a.IsAwait env) : a.onlySndr = false := by
  cases a <;> first | rfl | exact ha.elim

theorem onlySndr_cfWrites {s : RcvrState} {f : CantpFrame} {a : Act} (ha : a ∈ s.cfWrites f) :
    a.onlySndr = false := by
  obtain ⟨i, -, rfl⟩ := List.mem_map.mp ha
  rfl

theorem onlySndr_ffLog {a : Act} (ha : a ∈ ffLog r ⟨c, [.printCantpFrame r.frame]⟩) :
    a.onlySndr = false := by
  rcases mem_ffLog ha with hlog | rfl | ⟨i, b, rfl⟩ | ⟨f, rfl⟩
  · rw [List.mem_singleton.mp hlog]
    rfl
  · rfl
  · rfl
  · rfl

/-- A frame that is no Flow Control frame leaves the sender state as it is, except for
the block counter, and makes no call of the sender. -/
theorem RxOutcome.sndr_alone {w : World} (h : RxOutcome c r w)
    (hpci : r.pci ≠ some .flowControll) :
    (∃ bl, w.ctx.sndr = { c.sndr with blIndex := bl }) ∧ ∀ a ∈ w.log, a.onlySndr = false := by
  cases h with
  | flow h => exact absurd h hpci
  | ffAccepted _ buf h =>
      refine ⟨⟨_, rfl⟩, fun a ha => ?_⟩
      rcases List.mem_append.mp ha with ha | ha
      · exact onlySndr_ffLog ha
      · exact onlySndr_of_await (isAwait_fcActs ha)
  | cfLast h =>
      refine ⟨⟨_, rfl⟩, fun a ha => ?_⟩
      rcases List.mem_cons.mp ha with rfl | ha
      · rfl
      · rcases List.mem_append.mp ha with ha | ha
        · exact onlySndr_cfWrites ha
        · rw [List.mem_singleton.mp ha]
          rfl
  | cfMore h =>
      obtain ⟨⟨acts, hlog, hacts⟩, -, ⟨bl, hsndr⟩, -⟩ :=
        awaits_rcvrAwaitNext r.env (w := ⟨{ c with rcvr := c.rcvr.storeCf r.frame },
          .printCantpFrame r.frame :: c.rcvr.cfWrites r.frame⟩) h.1.2.1
      refine ⟨⟨bl, hsndr⟩, fun a ha => ?_⟩
      rw [hlog] at ha
      rcases List.mem_append.mp ha with ha | ha
      · rcases List.mem_cons.mp ha with rfl | ha
        · rfl
        · exact onlySndr_cfWrites ha
      · exact onlySndr_of_await (hacts a ha)
  | _ => exact ⟨⟨_, rfl⟩, by simp [Act.onlySndr]⟩

end Outcome

end CanTp
