import CanTp.Sender.Timeout

/-!
# The block counter of the sender

`bl_index` counts the confirmed frames of a block. It is set to zero where a block
ends and nowhere else, so a transfer that ends inside a block leaves its count to
the next transfer. `InBlock data len v b n s` describes a sender `n` Consecutive
Frames after an FC.CTS with block size `b` that was accepted with the count `v`.
-/

namespace CanTp

open Library

/-- Requests are made in `IDLE` only. -/
def SndrTurn (c : CantpRxtxStatus) (e : Event) : Prop :=
  SndrInput e ∧ (e.isSend = true → c.sndr.state = .idle)

instance (c : CantpRxtxStatus) (e : Event) : Decidable (SndrTurn c e) :=
  inferInstanceAs (Decidable (_ ∧ _))

/-- The sender has accepted `r`, an FC.CTS with a block size above zero. -/
structure CtsAccepted (c : CantpRxtxStatus) (r : RxFrame) : Prop where
  pci : r.pci = some .flowControll
  state : c.sndr.state = .ffFcWait
  delay : (ctsDelay r.frame).isSome = true
  bs : 0 < r.frame.fcBs

instance (c : CantpRxtxStatus) (r : RxFrame) : Decidable (CtsAccepted c r) :=
  decidable_of_iff (r.pci = some .flowControll ∧ c.sndr.state = .ffFcWait ∧
    (ctsDelay r.frame).isSome = true ∧ 0 < r.frame.fcBs)
    ⟨fun ⟨h₁, h₂, h₃, h₄⟩ => ⟨h₁, h₂, h₃, h₄⟩, fun ⟨h₁, h₂, h₃, h₄⟩ => ⟨h₁, h₂, h₃, h₄⟩⟩

/-- After the FC.CTS `r`, whatever follows in the transfer, the sender goes to
`CF_FC_WAIT` exactly on the confirmation, with data left, of the `BS`-th Consecutive
Frame sent since `r`. -/
def BlockKept (c : CantpRxtxStatus) (r : RxFrame) : Prop :=
  ∀ (es : List Event) (e : Event), (∀ f ∈ es, SndrFollowUp f) → SndrFollowUp e →
    let c' := canTp.run c (.canrxCb r :: es)
    c'.sndr.state ≠ .cfFcWait →
      ((canTp.step c' e).1.sndr.state = .cfFcWait ↔
        e = .cantxConfirmCb ∧ c'.sndr.state = .cfSending ∧ 0 < c'.sndr.remaining ∧
          (cfsSent (canTp.outputs c (.canrxCb r :: es))).length = r.frame.fcBs.toNat)

/-! ### Counting inside a block -/

theorem cfsSent_append (l m : List Act) : cfsSent (l ++ m) = cfsSent l ++ cfsSent m := by
  simp only [cfsSent, framesSent, sndrSignals_append, List.filterMap_append,
    List.filter_append]

theorem cfsSent_of_signals {log : List Act} (h : sndrSignals log = []) :
    cfsSent log = [] := by
  simp [cfsSent, framesSent, h]

theorem cfsSent_cfActs (c : CantpRxtxStatus) : cfsSent c.cfActs = [c.sndr.nextCf] := by
  simp [cfsSent, framesSent, sndrSignals_cfActs, SndrState.nextCf, CantpNPciType.toUInt8]

theorem length_cfsSent_sentCf {w : World} (h : sndrSignals w.log = []) :
    (cfsSent (sentCf w).log).length = 1 := by
  rw [CanTp.sentCf, cfsSent_append, cfsSent_of_signals h, cfsSent_cfActs]
  rfl

/-- The sender in a block of `b` frames that was begun with the count `v`, after `n`
frames; the transfer may have ended, and the block may be complete. -/
def InBlock (data : List UInt8) (len v b n : Nat) (s : SndrState) : Prop :=
  s.state = .idle ∨ s.state = .cfFcWait ∨
    (InPhase data len s (.cf n) ∧ s.bsPair.toNat = b ∧ s.blIndex.toNat + 1 = v + n ∧
      (n = 1 ∨ v + n ≤ b))

section InBlock

variable {data : List UInt8} {len v b n : Nat} {c : CantpRxtxStatus} {e : Event}

/-- Outside of transfers and in `CF_FC_WAIT` an event sends nothing and does not
lead to another state. -/
theorem followUp_waiting (he : SndrFollowUp e)
    (hst : c.sndr.state = .idle ∨ c.sndr.state = .cfFcWait) :
    (canTp.step c e).1.sndr.state = c.sndr.state ∧
      sndrSignals (canTp.step c e).2 = [] := by
  have hsend : ¬ c.sndr.state.Sending := by
    rcases hst with h | h <;> simp [CantpState.Sending, h]
  have hsent : c.sndr.state ≠ .cfSent := by rcases hst with h | h <;> simp [h]
  have hwait : c.sndr.state ≠ .ffFcWait := by rcases hst with h | h <;> simp [h]
  cases e with
  | send => exact absurd he.2 (by simp [Event.isSend])
  | cantxConfirmCb =>
      rw [canTp_step, handle, confirm_other (by exact hsend) (by exact hsent)]
      exact ⟨rfl, rfl⟩
  | sndrTimerCb =>
      rw [canTp_step, handle, timerCb_other (by exact hsend) (by exact hwait)]
      exact ⟨rfl, rfl⟩
  | sndrTimerExpiry =>
      rw [canTp_step, handle, sndrTimerExpiry]
      split
      · rw [timerCb_other (by exact hsend) (by exact hwait)]
        exact ⟨rfl, rfl⟩
      · exact ⟨rfl, rfl⟩
  | rcvrTimerCb => exact absurd he.1 (by simp [Event.isSndr])
  | canrxCb r =>
      rw [canTp_step, canrx_flowControll (by simpa [Event.isSndr] using he.1),
        canrxFlowControll_drop hwait]
      exact ⟨rfl, rfl⟩

/-- In `CF_SENDING` every event but a confirmation ends the transfer or is without
effect. -/
theorem followUp_cfSending (he : SndrFollowUp e) (hne : e ≠ .cantxConfirmCb)
    (hst : c.sndr.state = .cfSending) :
    ((canTp.step c e).1.sndr.state = .idle ∨ (canTp.step c e).1.sndr = c.sndr) ∧
      cfsSent (canTp.step c e).2 = [] := by
  have hsend : c.sndr.state.Sending := Or.inr (Or.inr hst)
  cases e with
  | send => exact absurd he.2 (by simp [Event.isSend])
  | cantxConfirmCb => exact absurd rfl hne
  | sndrTimerCb =>
      rw [canTp_step, handle, timerCb_sending (by exact hsend)]
      exact ⟨Or.inl rfl, rfl⟩
  | sndrTimerExpiry =>
      rw [canTp_step, handle, sndrTimerExpiry]
      split
      · rw [timerCb_sending (by exact hsend)]
        exact ⟨Or.inl rfl, rfl⟩
      · exact ⟨Or.inr rfl, rfl⟩
  | rcvrTimerCb => exact absurd he.1 (by simp [Event.isSndr])
  | canrxCb r =>
      rw [canTp_step, canrx_flowControll (by simpa [Event.isSndr] using he.1),
        canrxFlowControll_drop (by simp [hst])]
      exact ⟨Or.inr rfl, rfl⟩

theorem toNat_blIndex_succ (hv : v < 255) (hb : c.sndr.bsPair.toNat = b)
    (hbl : c.sndr.blIndex.toNat + 1 = v + n) (hn : n = 1 ∨ v + n ≤ b) :
    (c.sndr.blIndex + 1).toNat = v + n := by
  have hlt := c.sndr.bsPair.toNat_lt
  rw [UInt8.toNat_add, UInt8.toNat_one, hbl]
  omega

theorem blockEnds_iff (hv : v < 255) (hbpos : 0 < b) (hb : c.sndr.bsPair.toNat = b)
    (hbl : c.sndr.blIndex.toNat + 1 = v + n) (hn : n = 1 ∨ v + n ≤ b) :
    c.sndr.BlockEnds ↔ b ≤ v + n := by
  have hbs : 0 < c.sndr.bsPair := UInt8.lt_iff_toNat_lt.mpr (by rw [hb]; exact hbpos)
  rw [SndrState.BlockEnds, UInt8.le_iff_toNat_le, hb, toNat_blIndex_succ hv hb hbl hn]
  exact and_iff_right hbs

theorem confirm_continue (hv : v < 255) (hbpos : 0 < b)
    (hph : InPhase data len c.sndr (.cf n)) (hb : c.sndr.bsPair.toNat = b)
    (hbl : c.sndr.blIndex.toNat + 1 = v + n) (hn : n = 1 ∨ v + n ≤ b)
    (hlt : n < numCfs len) (hend : v + n < b) :
    InPhase data len (canTp.step c .cantxConfirmCb).1.sndr (.cf (n + 1)) ∧
      InBlock data len v b (n + 1) (canTp.step c .cantxConfirmCb).1.sndr ∧
      (cfsSent (canTp.step c .cantxConfirmCb).2).length = 1 := by
  obtain ⟨hst, hcur, hpos, hsn⟩ := hph
  have hnot : ¬ c.sndr.BlockEnds := by
    rw [blockEnds_iff hv hbpos hb hbl hn]
    exact not_le.mpr hend
  have hbs : 0 < c.sndr.bsPair := UInt8.lt_iff_toNat_lt.mpr (by rw [hb]; exact hbpos)
  have hnext := toNat_nextSn hsn
  have hcount : c.sndr.counted.toNat + 1 = v + (n + 1) := by
    rw [SndrState.counted, if_pos hbs, toNat_blIndex_succ hv hb hbl hn]
    rfl
  rw [canTp_step, handle,
    confirm_next (w := ⟨c, []⟩) (Or.inl hst) (hcur.remaining_pos hlt) hnot]
  have hphase := Cursor.afterCf (s := { c.sndr with
    state := .cfSent
    sn := c.sndr.nextSn
    blIndex := c.sndr.counted
    timer := some ⟨.nCs, 1000 * nCsTimerMs⟩ }) (hcur.of_eq rfl rfl rfl) hlt hnext
  exact ⟨hphase, Or.inr (Or.inr ⟨hphase, hb, hcount, Or.inr hend⟩),
    length_cfsSent_sentCf (sndrSignals_pause _)⟩

theorem confirm_inBlock (hv : v < 255) (hbpos : 0 < b)
    (hph : InPhase data len c.sndr (.cf n)) (hb : c.sndr.bsPair.toNat = b)
    (hbl : c.sndr.blIndex.toNat + 1 = v + n) (hn : n = 1 ∨ v + n ≤ b) :
    ((canTp.step c .cantxConfirmCb).1.sndr.state = .cfFcWait ↔
        0 < c.sndr.remaining ∧ b ≤ v + n) ∧
      InBlock data len v b (n + (cfsSent (canTp.step c .cantxConfirmCb).2).length)
        (canTp.step c .cantxConfirmCb).1.sndr := by
  obtain ⟨hst, hcur, -⟩ := id hph
  by_cases hk : n = numCfs len
  · subst hk
    have hzero := hcur.remaining_eq_zero
    rw [canTp_step, handle, confirm_last (w := ⟨c, []⟩) (Or.inl hst) hzero]
    exact ⟨iff_of_false (by simp) (by simp [hzero]), Or.inl rfl⟩
  · have hlt : n < numCfs len := lt_of_le_of_ne hcur.le hk
    have hrem := hcur.remaining_pos hlt
    by_cases hend : b ≤ v + n
    · rw [canTp_step, handle,
        confirm_blockEnd (w := ⟨c, []⟩) (Or.inl hst) hrem
          ((blockEnds_iff hv hbpos hb hbl hn).mpr hend)]
      exact ⟨iff_of_true rfl ⟨hrem, hend⟩, Or.inr (Or.inl rfl)⟩
    · obtain ⟨hphase, hblock, hlen⟩ :=
        confirm_continue hv hbpos hph hb hbl hn hlt (not_le.mp hend)
      refine ⟨iff_of_false (fun hwait => ?_) fun h => hend h.2, ?_⟩
      · exact absurd (hphase.state_eq.symm.trans hwait) (by simp [Phase.state])
      · rwa [hlen]

/-- Every event keeps the block invariant. -/
theorem InBlock.step (hv : v < 255) (hbpos : 0 < b) (h : InBlock data len v b n c.sndr)
    (he : SndrFollowUp e) :
    InBlock data len v b (n + (cfsSent (canTp.step c e).2).length)
      (canTp.step c e).1.sndr := by
  rcases h with hidle | hwait | ⟨hph, hb, hbl, hn⟩
  · exact Or.inl ((followUp_waiting he (Or.inl hidle)).1.trans hidle)
  · exact Or.inr (Or.inl ((followUp_waiting he (Or.inr hwait)).1.trans hwait))
  · by_cases hconf : e = .cantxConfirmCb
    · subst hconf
      exact (confirm_inBlock hv hbpos hph hb hbl hn).2
    · obtain ⟨hend | hsame, hnone⟩ := followUp_cfSending he hconf hph.1
      · exact Or.inl hend
      · rw [hsame, hnone]
        exact Or.inr (Or.inr ⟨hph, hb, hbl, hn⟩)

theorem InBlock.enters_iff (hv : v < 255) (hbpos : 0 < b)
    (h : InBlock data len v b n c.sndr) (he : SndrFollowUp e)
    (hne : c.sndr.state ≠ .cfFcWait) :
    (canTp.step c e).1.sndr.state = .cfFcWait ↔
      e = .cantxConfirmCb ∧ c.sndr.state = .cfSending ∧ 0 < c.sndr.remaining ∧
        b ≤ v + n := by
  rcases h with hidle | hwait | ⟨hph, hb, hbl, hn⟩
  · rw [(followUp_waiting he (Or.inl hidle)).1, hidle]
    simp
  · exact absurd hwait hne
  · by_cases hconf : e = .cantxConfirmCb
    · subst hconf
      rw [(confirm_inBlock hv hbpos hph hb hbl hn).1]
      simp [hph.1]
    · refine iff_of_false ?_ fun h => hconf h.1
      intro hwait
      obtain ⟨hend | hsame, -⟩ := followUp_cfSending he hconf hph.1
      · exact absurd (hend.symm.trans hwait) (by simp)
      · rw [hsame] at hwait
        exact hne hwait

end InBlock

/-! ### The start of a block -/

section Start

variable {c : CantpRxtxStatus} {e : Event} {r : RxFrame}

theorem confirm_blIndex {ph : Phase}
    (hph : InPhase c.sndr.data c.sndr.len.toNat c.sndr ph)
    (hbl : c.sndr.blIndex.toNat < 255) :
    (cantpCantxConfirmCb (⟨c, []⟩ : World)).ctx.sndr.blIndex.toNat < 255 := by
  have hconf := hph.confirmed
  generalize cantpCantxConfirmCb ⟨c, []⟩ = w at hconf ⊢
  cases hconf with
  | ignored | single | opening | last => exact hbl
  | blockEnd => exact Nat.zero_lt_succ _
  | next hk hb =>
      change c.sndr.counted.toNat < 255
      rw [SndrState.counted]
      split
      · rename_i hbs
        have hlt := UInt8.lt_iff_toNat_lt.mp (UInt8.not_le.mp fun hle => hb ⟨hbs, hle⟩)
        have hbs' := c.sndr.bsPair.toNat_lt
        omega
      · exact hbl

theorem canrx_blIndex {ph : Phase} (hph : InPhase c.sndr.data c.sndr.len.toNat c.sndr ph)
    (hr : r.pci = some .flowControll) :
    (handle (.canrxCb r) ⟨c, []⟩).ctx.sndr.blIndex = c.sndr.blIndex := by
  have hans := hph.answered hr
  generalize handle (.canrxCb r) ⟨c, []⟩ = w at hans ⊢
  cases hans <;> rfl

theorem timerCb_blIndex (w : World) :
    (cantpSndrTimerCb w).ctx.sndr.blIndex = w.ctx.sndr.blIndex := by
  rw [cantpSndrTimerCb]
  split <;> rfl

theorem blIndex_step (h : SndrSound c.sndr) (hbl : c.sndr.blIndex.toNat < 255)
    (he : SndrInput e) : (canTp.step c e).1.sndr.blIndex.toNat < 255 := by
  obtain ⟨-, ph, hph⟩ := h
  cases e with
  | send id idt data len =>
      rw [canTp_step, handle]
      by_cases hlen : len.toNat ≤ sfNumDataBytes
      · rwa [send_single hlen]
      · rwa [send_segmented (not_le.mp hlen)]
  | cantxConfirmCb => exact confirm_blIndex hph hbl
  | sndrTimerCb => exact absurd he id
  | sndrTimerExpiry =>
      rw [canTp_step, handle, sndrTimerExpiry]
      split
      · rwa [timerCb_blIndex]
      · exact hbl
  | rcvrTimerCb => exact absurd he id
  | canrxCb r =>
      rw [canTp_step, canrx_blIndex hph he]
      exact hbl

theorem CtsAccepted.begins (h : SndrSound c.sndr) (hr : CtsAccepted c r) :
    InPhase c.sndr.data c.sndr.len.toNat (canTp.step c (.canrxCb r)).1.sndr (.cf 1) ∧
      InBlock c.sndr.data c.sndr.len.toNat c.sndr.blIndex.toNat r.frame.fcBs.toNat 1
        (canTp.step c (.canrxCb r)).1.sndr ∧
      (cfsSent (canTp.step c (.canrxCb r)).2).length = 1 := by
  obtain ⟨-, ph, hph⟩ := h
  obtain ⟨us, hus⟩ := Option.isSome_iff_exists.mp hr.delay
  obtain ⟨-, -, hcur, hsn⟩ := hph.ffWait hr.state
  have hpos := numCfs_pos hcur.long
  rw [canTp_step, canrx_flowControll hr.pci, canrxFlowControll_take hr.state,
    flowControl_cts hus (by exact hcur.remaining_pos hpos)]
  have hphase := Cursor.afterCf (s := c.sndr.withFc r.id r.frame us .nCs)
    (hcur.of_eq rfl rfl rfl) hpos hsn
  exact ⟨hphase, Or.inr (Or.inr ⟨hphase, rfl, rfl, Or.inl rfl⟩), length_cfsSent_sentCf rfl⟩

/-- The block invariant holds as long as the transfer goes on. -/
theorem CtsAccepted.inBlock (h : SndrSound c.sndr) (hbl : c.sndr.blIndex.toNat < 255)
    (hr : CtsAccepted c r) {es : List Event} (hes : ∀ e ∈ es, SndrFollowUp e) :
    InBlock c.sndr.data c.sndr.len.toNat c.sndr.blIndex.toNat r.frame.fcBs.toNat
      (cfsSent (canTp.outputs c (.canrxCb r :: es))).length
      (canTp.run c (.canrxCb r :: es)).sndr := by
  obtain ⟨-, hblock, hone⟩ := hr.begins h
  refine Mealy.trace_induction (M := canTp)
    (P := fun out c' => InBlock c.sndr.data c.sndr.len.toNat c.sndr.blIndex.toNat
      r.frame.fcBs.toNat (cfsSent out).length c'.sndr)
    (fun out c' e hin (he : SndrFollowUp e) => ?_) ?_ (Mealy.admits_of_forall hes _)
  · rw [cfsSent_append, List.length_append]
    exact hin.step hbl (UInt8.lt_iff_toNat_lt.mp hr.bs) he
  · rw [hone]
    exact hblock

theorem followUp_replicate (j : Nat) :
    ∀ e ∈ List.replicate j Event.cantxConfirmCb, SndrFollowUp e := by
  intro e he
  rw [List.eq_of_mem_replicate he]
  exact ⟨rfl, rfl⟩

/-- Confirmations that stay inside the block and inside the message send one frame
each. -/
theorem CtsAccepted.continues (h : SndrSound c.sndr) (hbl : c.sndr.blIndex.toNat < 255)
    (hr : CtsAccepted c r) {j : Nat} (hj : j < numCfs c.sndr.len.toNat)
    (hb : j = 0 ∨ c.sndr.blIndex.toNat + j < r.frame.fcBs.toNat) :
    InPhase c.sndr.data c.sndr.len.toNat
        (canTp.run c (.canrxCb r :: List.replicate j .cantxConfirmCb)).sndr (.cf (j + 1)) ∧
      (cfsSent (canTp.outputs c
        (.canrxCb r :: List.replicate j .cantxConfirmCb))).length = j + 1 := by
  induction j with
  | zero =>
      obtain ⟨hphase, -, hone⟩ := hr.begins h
      refine ⟨hphase, ?_⟩
      rw [List.replicate_zero, Mealy.outputs_cons, Mealy.outputs_nil, List.append_nil, hone]
  | succ j ih =>
      obtain ⟨hphase, hlen⟩ := ih (by omega) (by omega)
      have hblock := hr.inBlock h hbl (followUp_replicate j)
      rw [hlen] at hblock
      rcases hblock with hidle | hwait | ⟨-, hbs, hcount, hn⟩
      · exact absurd (hphase.state_eq.symm.trans hidle) (by simp [Phase.state])
      · exact absurd (hphase.state_eq.symm.trans hwait) (by simp [Phase.state])
      · obtain ⟨hnext, -, hone⟩ := confirm_continue hbl (UInt8.lt_iff_toNat_lt.mp hr.bs)
          hphase hbs hcount hn (by omega) (by omega)
        have hsplit : Event.canrxCb r :: List.replicate (j + 1) .cantxConfirmCb =
            (.canrxCb r :: List.replicate j .cantxConfirmCb) ++ [.cantxConfirmCb] := by
          rw [List.replicate_succ', List.cons_append]
        rw [hsplit, Mealy.run_append, Mealy.outputs_append, cfsSent_append,
          List.length_append, hlen]
        refine ⟨hnext, ?_⟩
        rw [Mealy.outputs_cons, Mealy.outputs_nil, List.append_nil, hone]

end Start

/-- The exact condition for a block to be kept, for the count the FC.CTS finds. -/
theorem CtsAccepted.blockKept_iff {c : CantpRxtxStatus} {r : RxFrame}
    (h : SndrSound c.sndr) (hbl : c.sndr.blIndex.toNat < 255) (hr : CtsAccepted c r) :
    BlockKept c r ↔ c.sndr.blIndex.toNat = 0 ∨ r.frame.fcBs.toNat = 1 ∨
      numCfs c.sndr.len.toNat ≤ max 1 (r.frame.fcBs.toNat - c.sndr.blIndex.toNat) := by
  have hbpos : 0 < r.frame.fcBs.toNat := UInt8.lt_iff_toNat_lt.mp hr.bs
  constructor
  · intro hkept
    by_contra hcond
    push Not at hcond
    obtain ⟨hv, hb, hlong⟩ := hcond
    -- The block ends too early, with frame `j + 1`.
    obtain ⟨j, hj⟩ : ∃ j, j + 1 = max 1 (r.frame.fcBs.toNat - c.sndr.blIndex.toNat) :=
      ⟨_, Nat.sub_add_cancel (le_max_left 1 _)⟩
    obtain ⟨hphase, hlen⟩ := hr.continues h hbl (j := j) (by omega) (by omega)
    have hblock := hr.inBlock h hbl (followUp_replicate j)
    have hne : (canTp.run c (.canrxCb r :: List.replicate j .cantxConfirmCb)).sndr.state ≠
        .cfFcWait := by
      rw [hphase.state_eq]
      simp [Phase.state]
    have hrem := hphase.2.1.remaining_pos (by omega)
    have henter := (hblock.enters_iff (e := .cantxConfirmCb) hbl hbpos ⟨rfl, rfl⟩ hne).mpr
      ⟨rfl, hphase.1, hrem, by omega⟩
    have hfull := ((hkept (List.replicate j .cantxConfirmCb) .cantxConfirmCb
      (followUp_replicate j) ⟨rfl, rfl⟩ hne).mp henter).2.2.2
    omega
  · intro hcond es e hes he c' hne
    have hblock := hr.inBlock h hbl hes
    rw [hblock.enters_iff hbl hbpos he hne]
    apply and_congr_right
    intro hconf
    apply and_congr_right
    intro hst
    apply and_congr_right
    intro hrem
    rcases hblock with hidle | hwait | ⟨⟨-, hcur, hpos, -⟩, -, -, hn⟩
    · exact absurd (hst.symm.trans hidle) (by simp)
    · exact absurd hwait hne
    · have hlt : (cfsSent (canTp.outputs c (.canrxCb r :: es))).length <
          numCfs c.sndr.len.toNat := by
        apply lt_of_le_of_ne hcur.le
        intro heq
        rw [heq] at hcur
        exact absurd hcur.remaining_eq_zero hrem.ne'
      omega

theorem sndrSound_run (p : CantpParams) {es : List Event}
    (hes : canTp.Admits SndrTurn (.fresh p) es) :
    SndrSound (canTp.run (.fresh p) es).sndr ∧
      (canTp.run (.fresh p) es).sndr.blIndex.toNat < 255 :=
  Mealy.run_induction (P := fun c : CantpRxtxStatus =>
      SndrSound c.sndr ∧ c.sndr.blIndex.toNat < 255)
    (fun _ _ h he => ⟨h.1.step he.1, blIndex_step h.1 h.2 he.1⟩)
    ⟨sndrSound_fresh p, Nat.zero_lt_succ _⟩ hes

/-- In every run of transfers: the block of an accepted FC.CTS is kept exactly if the
count is zero, the block has one frame, or the message ends before the count is
reached. -/
theorem block_kept_iff (p : CantpParams) (es : List Event) (r : RxFrame)
    (hes : canTp.Admits SndrTurn (.fresh p) es)
    (hr : CtsAccepted (canTp.run (.fresh p) es) r) :
    let s := (canTp.run (.fresh p) es).sndr
    BlockKept (canTp.run (.fresh p) es) r ↔ s.blIndex.toNat = 0 ∨ r.frame.fcBs.toNat = 1 ∨
      numCfs s.len.toNat ≤ max 1 (r.frame.fcBs.toNat - s.blIndex.toNat) := by
  obtain ⟨hsound, hbl⟩ := sndrSound_run p hes
  exact hr.blockKept_iff hsound hbl

/-- The first transfer of a context finds the count zero. -/
theorem block_kept_first :
    BlockKept (canTp.run (.fresh ⟨0, 0, 0, 0, 0, 0, 0, 0⟩)
      [.send 1 0 (List.replicate 40 7) 40, .cantxConfirmCb])
      (.ofFrame .accepting 5 0 (.ofList [0x30, 3, 0])) :=
  (block_kept_iff ⟨0, 0, 0, 0, 0, 0, 0, 0⟩
    [.send 1 0 (List.replicate 40 7) 40, .cantxConfirmCb]
    (.ofFrame .accepting 5 0 (.ofList [0x30, 3, 0])) (by decide) (by decide)).mpr
    (Or.inl (by decide))

/-- Twenty bytes leave the count at one; the next transfer, in blocks of three, waits
after its second Consecutive Frame. -/
theorem block_not_kept :
    ¬ ∀ (p : CantpParams) (es : List Event) (r : RxFrame),
      canTp.Admits SndrTurn (.fresh p) es → CtsAccepted (canTp.run (.fresh p) es) r →
      BlockKept (canTp.run (.fresh p) es) r := by
  intro h
  have hkept := h ⟨0, 0, 0, 0, 0, 0, 0, 0⟩
    [.send 1 0 (List.replicate 20 7) 20, .cantxConfirmCb,
      .canrxCb (.ofFrame .accepting 5 0 (.ofList [0x30, 3, 0])), .cantxConfirmCb,
      .cantxConfirmCb, .send 1 0 (List.replicate 40 7) 40, .cantxConfirmCb]
    (.ofFrame .accepting 5 0 (.ofList [0x30, 3, 0])) (by decide) (by decide)
    [.cantxConfirmCb] .cantxConfirmCb (by decide) (by decide) (by decide)
  exact absurd (hkept.mp (by decide)).2.2.2 (by decide)

end CanTp
