import CanTp.Flow.Kept

/-!
# From STmin to the pace of the sender

The receiver encodes its STmin in the byte of the FC.CTS, the sender decodes it and sleeps
that long between two Consecutive Frames of a block. `cantp_rcvr_params_init` rounds a
value between `900` and `1000` microseconds without encoding it, so that the byte is the
one that was there before.
-/

namespace CanTp

open Library

/-- The steps in which the STmin byte counts: hundreds of microseconds below one
millisecond, else milliseconds. -/
def stepUs (u : Nat) : Nat := if u < 1000 then 100 else 1000

/-- The delay `t` is the STmin `u` cut off to its steps. -/
def Within (u t : Nat) : Prop := t ≤ u ∧ u < t + stepUs u

instance (u t : Nat) : Decidable (Within u t) := inferInstanceAs (Decidable (_ ∧ _))

theorem within_of_lt {u t : Nat} (h : u < 1000) : Within u t ↔ t ≤ u ∧ u < t + 100 := by
  rw [Within, stepUs, if_pos h]

theorem within_of_le {u t : Nat} (h : 1000 ≤ u) : Within u t ↔ t ≤ u ∧ u < t + 1000 := by
  rw [Within, stepUs, if_neg (by omega)]

/-- A confirmation on which the next Consecutive Frame is sent is followed by a pause of
`us` before that frame. -/
def PausesFor (us : Nat) (c : CantpRxtxStatus) : Event → Prop
  | .cantxConfirmCb =>
      let log := (canTp.step c .cantxConfirmCb).2
      (∃ a ∈ log, a.sendsData = true) →
        sleptUs (log.takeWhile fun a => !a.sendsData) = us
  | _ => True

/-- The sender with the context `s` takes the Flow Control frame `f`, from whatever node,
as an STmin of `u`: it sends its next frame, and until it takes another Flow Control frame
its pauses are `u` cut off to the steps of the byte. -/
def PacedBy (u : Nat) (f : CantpFrame) (s : CantpRxtxStatus) : Prop :=
  ∀ env id idt,
    let s' := (canTp.step s (.canrxCb (.ofFrame env id idt f))).1
    s'.sndr.state = .cfSending ∧ Within u s'.sndr.stTimUs.toNat ∧
      ∀ es, canTp.Admits (fun c e => ¬ FcTaken c e) s' es →
        canTp.Admits (PausesFor s'.sndr.stTimUs.toNat) s' es

/-- The STmin survives the way from the parameters `p` of a receiver, through every FC.CTS
it sends, to every sender that waits for one with data left. -/
def StMinSurvives (p : CantpParams) : Prop :=
  ∀ c r, Reached p c → ∀ id idt dlc f toutUs,
    .canTx id idt dlc f toutUs ∈ (canTp.step c (.canrxCb r)).2 →
    CantpFcFlowStatus.ofUInt8 f.fcFs = some .cts →
    ∀ s : CantpRxtxStatus, s.sndr.state = .ffFcWait → 0 < s.sndr.remaining →
      PacedBy p.stMinUs.toNat f s

/-! ### The receiver -/

section Receiver

variable {p : CantpParams} {c : CantpRxtxStatus} {r : RxFrame} {w : World}

theorem cts_eq {id : UInt32} {idt dlc : UInt8} {f : CantpFrame} {toutUs : Nat}
    (hf : .canTx id idt dlc f toutUs ∈ (canTp.step c (.canrxCb r)).2)
    (hcts : CantpFcFlowStatus.ofUInt8 f.fcFs = some .cts) : f = c.params.cts := by
  have hmem : Act.canTx id idt dlc f toutUs ∈ (canTp.step c (.canrxCb r)).2.filter Act.paces :=
    List.mem_filter.mpr ⟨hf, rfl⟩
  have hof : ∀ g, Act.canTx id idt dlc f toutUs = c.params.fcCall g → f = g := fun g hg =>
    (Act.canTx.inj hg).2.2.2.1
  by_cases hcont : ContinuedBy c r
  · rw [hcont.paces, List.mem_append] at hmem
    rcases hmem with hmem | hmem
    · obtain ⟨l, hl, hmem⟩ := List.mem_flatten.mp hmem
      rw [List.eq_of_mem_replicate hl, CantpParams.waitCalls] at hmem
      simp only [List.mem_cons, List.not_mem_nil, or_false, reduceCtorEq, false_or] at hmem
      rw [hof _ hmem] at hcts
      simp at hcts
    · split at hmem
      · exact hof _ (List.mem_singleton.mp hmem)
      · cases hmem
  · rcases (rx_outcome c r).paces hcont with hnone | hone
    · rw [canTp_step, hnone] at hmem
      cases hmem
    · rw [canTp_step, hone] at hmem
      exact hof _ (List.mem_singleton.mp hmem)

end Receiver

/-! ### The sender -/

section Sender

variable {c s : CantpRxtxStatus} {f : CantpFrame} {us : UInt32}

theorem slept_cfActs (c : CantpRxtxStatus) :
    sleptUs (c.cfActs.takeWhile fun a => !a.sendsData) = 0 := by
  have hreads : ∀ l : List Nat,
      sleptUs (l.map fun i => .sndrRead (c.sndr.index.toNat + i)) = 0 := fun l => by
    rw [sleptUs, List.map_map]
    exact List.sum_eq_zero_iff_forall_eq_nat.mpr fun n hn => by
      obtain ⟨i, -, rfl⟩ := List.mem_map.mp hn
      rfl
  rw [CantpRxtxStatus.cfActs, List.takeWhile_append_of_pos fun a ha => ?_, sleptUs_append, hreads]
  · rfl
  · obtain ⟨i, -, rfl⟩ := List.mem_map.mp ha
    rfl

theorem slept_before_cf {l : List Act} (hl : ∀ a ∈ l, a.sendsData = false)
    (c : CantpRxtxStatus) :
    sleptUs ((l ++ c.cfActs).takeWhile fun a => !a.sendsData) = sleptUs l := by
  rw [List.takeWhile_append_of_pos fun a ha => by rw [hl a ha]; rfl, sleptUs_append,
    slept_cfActs]
  rfl

theorem ConfirmOutcome.pauses {w : World} (h : ConfirmOutcome ⟨c, []⟩ w) :
    (∃ a ∈ w.log, a.sendsData = true) →
      sleptUs (w.log.takeWhile fun a => !a.sendsData) = c.sndr.stTimUs.toNat := by
  cases h with
  | next =>
      intro _
      refine (slept_before_cf (fun a ha => ?_) _).trans ?_
      · rcases List.mem_cons.mp ha with rfl | ha
        · rfl
        · split at ha
          · rw [List.mem_singleton.mp ha]
            rfl
          · cases ha
      · dsimp only
        by_cases hus : c.sndr.stTimUs > 0
        · rw [if_pos hus]
          simp [sleptUs, Act.sleptUs]
        · have hzero : c.sndr.stTimUs = 0 := by simpa using hus
          rw [if_neg hus, hzero]
          rfl
  | negative | other => rintro ⟨a, ha, -⟩; cases ha
  | _ => simp [Act.sendsData]

/-- A sender pauses as it was told until it takes another Flow Control frame. -/
theorem pauses_run (c : CantpRxtxStatus) (es : List Event)
    (h : canTp.Admits (fun c e => ¬ FcTaken c e) c es) :
    canTp.Admits (PausesFor c.sndr.stTimUs.toNat) c es := by
  have hall : canTp.Admits (fun _ _ => True) c es :=
    Mealy.admits_of_forall (fun _ _ => trivial) c
  refine (Mealy.admits_congr (P := fun s => s.sndr.stTimUs = c.sndr.stTimUs)
    (fun s e hs _ => iff_of_true ?_ trivial) (fun s e hs hok _ => ?_) rfl h).mpr hall
  · cases e with
    | cantxConfirmCb => exact hs ▸ (confirm_outcome ⟨s, []⟩).pauses
    | _ => trivial
  · exact ((step_kept s e).stTimUs hok).trans hs

theorem step_cts (env : Env) (id : UInt32) (idt : UInt8) (hst : s.sndr.state = .ffFcWait)
    (hrem : 0 < s.sndr.remaining) (hpci : CantpNPciType.ofUInt8 f.nPciT = some .flowControll)
    (hcts : ctsDelay f = some us) :
    (canTp.step s (.canrxCb (.ofFrame env id idt f))).1.sndr.state = .cfSending ∧
      (canTp.step s (.canrxCb (.ofFrame env id idt f))).1.sndr.stTimUs = us := by
  have hr : (RxFrame.ofFrame env id idt f).pci = some .flowControll := by
    rw [RxFrame.pci, frame_ofFrame]
    exact hpci
  rw [canTp_step, canrx_flowControll hr, canrxFlowControll_take (by exact hst), frame_ofFrame,
    flowControl_cts hcts (by exact hrem)]
  exact ⟨rfl, rfl⟩

theorem step_cts_none (env : Env) (id : UInt32) (idt : UInt8)
    (hst : s.sndr.state = .ffFcWait)
    (hpci : CantpNPciType.ofUInt8 f.nPciT = some .flowControll) (hcts : ctsDelay f = none) :
    (canTp.step s (.canrxCb (.ofFrame env id idt f))).1.sndr.state = .ffFcWait := by
  have hr : (RxFrame.ofFrame env id idt f).pci = some .flowControll := by
    rw [RxFrame.pci, frame_ofFrame]
    exact hpci
  obtain ⟨us, name, hother⟩ := flowControl_other s.sndr (RxFrame.ofFrame env id idt f).id hcts
  rw [canTp_step, canrx_flowControll hr, canrxFlowControll_take (by exact hst), frame_ofFrame,
    hother _ rfl]
  exact hst

theorem exists_waiting :
    ∃ s : CantpRxtxStatus, s.sndr.state = .ffFcWait ∧ 0 < s.sndr.remaining :=
  ⟨canTp.run (.fresh ⟨0, 0, 0, 0, 0, 0, 0, 0⟩)
    [.send 5 0 (List.replicate 20 7) 20, .cantxConfirmCb], by decide, by decide⟩

theorem exists_cts (p : CantpParams) : ∃ r, .canTx p.id p.idt 8 p.cts (1000 * nArTimerMs) ∈
    (canTp.step (.fresh p) (.canrxCb r)).2 := by
  let ff : RxFrame := .ofFrame .accepting 5 0 (ffFrame (List.replicate 20 7) 20)
  have hff : ff.FfAccepted none (List.replicate 20 0) := by decide
  refine ⟨ff, ?_⟩
  rw [RxFrame.FfAccepted.step (c := .fresh p) hff rfl]
  exact List.mem_append_right _ (List.mem_cons_self ..)

theorem ctsDelay_cts (p : CantpParams) : ctsDelay p.cts = stTimUsOf p.stMin := by
  simp [ctsDelay, CantpParams.cts]

/-- The way of the STmin as a matter of the byte. -/
theorem stMinSurvives_iff_byte (p : CantpParams) :
    StMinSurvives p ↔
      ∃ us, stTimUsOf p.stMin = some us ∧ Within p.stMinUs.toNat us.toNat := by
  have hpci : CantpNPciType.ofUInt8 p.cts.nPciT = some .flowControll := by
    simp [CantpParams.cts]
  constructor
  · intro h
    obtain ⟨r, hr⟩ := exists_cts p
    obtain ⟨s, hst, hrem⟩ := exists_waiting
    obtain ⟨hstate, hwithin, -⟩ := h (.fresh p) r ⟨[], rfl⟩ _ _ _ _ _ hr
      (by simp [CantpParams.cts]) s hst hrem .accepting 0 0
    cases hus : stTimUsOf p.stMin with
    | none =>
        rw [step_cts_none .accepting 0 0 hst hpci ((ctsDelay_cts p).trans hus)] at hstate
        cases hstate
    | some us =>
        rw [(step_cts .accepting 0 0 hst hrem hpci ((ctsDelay_cts p).trans hus)).2] at hwithin
        exact ⟨us, rfl, hwithin⟩
  · rintro ⟨us, hus, hwithin⟩ c r hc id idt dlc f toutUs hf hcts s hst hrem env id' idt'
    have hcp : c.params.cts = p.cts := by
      rw [hc.params]
      rfl
    obtain rfl := (cts_eq hf hcts).trans hcp
    obtain ⟨hstate, htim⟩ := step_cts env id' idt' hst hrem hpci ((ctsDelay_cts p).trans hus)
    exact ⟨hstate, by rw [htim]; exact hwithin, fun es hes => pauses_run _ es hes⟩

end Sender

/-! ### The byte -/

theorem stTimUsOf_iff (st : UInt8) (P : Nat → Prop) :
    (∃ us, stTimUsOf st = some us ∧ P us.toNat) ↔
      (st.toNat < 128 ∧ P (1000 * st.toNat)) ∨
        (241 ≤ st.toNat ∧ st.toNat ≤ 249 ∧ P (100 * (st.toNat - 240))) := by
  have hbyte := st.toNat_lt
  have hms : (1000 * st.toUInt32).toNat = 1000 * st.toNat := by
    rw [UInt32.toNat_mul, UInt8.toNat_toUInt32]
    exact Nat.mod_eq_of_lt (by simp only [UInt32.reduceToNat]; omega)
  have hhundred : 240 ≤ st.toNat →
      (100 * (st - 0xf0).toUInt32).toNat = 100 * (st.toNat - 240) := fun h => by
    rw [UInt32.toNat_mul, UInt8.toNat_toUInt32, UInt8.toNat_sub_of_le _ _ h]
    exact Nat.mod_eq_of_lt (by simp only [UInt32.reduceToNat, UInt8.reduceToNat]; omega)
  simp only [stTimUsOf, ge_iff_le, UInt8.lt_iff_toNat_lt, UInt8.le_iff_toNat_le,
    UInt8.reduceToNat]
  by_cases hlow : st.toNat < 128
  · rw [if_pos hlow]
    constructor
    · rintro ⟨us, ⟨⟩, hP⟩
      exact .inl ⟨hlow, hms ▸ hP⟩
    · rintro (⟨-, hP⟩ | ⟨hhigh, -⟩)
      · exact ⟨_, rfl, hms.symm ▸ hP⟩
      · omega
  rw [if_neg hlow]
  by_cases hhigh : 241 ≤ st.toNat ∧ st.toNat ≤ 249
  · rw [if_pos (by omega)]
    constructor
    · rintro ⟨us, ⟨⟩, hP⟩
      exact .inr ⟨hhigh.1, hhigh.2, hhundred (by omega) ▸ hP⟩
    · rintro (⟨hlt, -⟩ | ⟨-, -, hP⟩)
      · exact absurd hlt hlow
      · exact ⟨_, rfl, (hhundred (by omega)).symm ▸ hP⟩
  · rw [if_neg (by omega)]
    constructor
    · rintro ⟨us, hus, -⟩
      cases hus
    · rintro (⟨hlt, -⟩ | ⟨hlo, hhi, -⟩)
      · exact absurd hlt hlow
      · exact absurd ⟨hlo, hhi⟩ hhigh

/-- The STmin values that reach the byte: all but those from `901` to `999`, which leave
it as it was. -/
def StMinWritten (par : CantpParams) : Prop :=
  par.stMinUs.toNat ≤ 900 ∨ 1000 ≤ par.stMinUs.toNat ∨
    (par.stMinUs.toNat < 950 ∧ par.stMin = 0xf9) ∨
    (950 ≤ par.stMinUs.toNat ∧ (par.stMin = 1 ∨ (0xf1 ≤ par.stMin ∧ par.stMin ≤ 0xf9)))

section Written

variable {par p : CantpParams}

theorem stMinSurvives_iff_window (p : CantpParams) :
    StMinSurvives p ↔
      (p.stMin.toNat < 128 ∧ Within p.stMinUs.toNat (1000 * p.stMin.toNat)) ∨
        (241 ≤ p.stMin.toNat ∧ p.stMin.toNat ≤ 249 ∧
          Within p.stMinUs.toNat (100 * (p.stMin.toNat - 240))) :=
  (stMinSurvives_iff_byte p).trans (stTimUsOf_iff p.stMin (Within p.stMinUs.toNat))

theorem toNat_hundreds {us : UInt32} (h : us.toNat ≤ 900) :
    ((us / 100).toUInt8 + 0xf0).toNat = us.toNat / 100 + 240 := by
  rw [UInt8.toNat_add, UInt32.toNat_toUInt8, UInt32.toNat_div]
  simp only [UInt32.reduceToNat, UInt8.reduceToNat]
  omega

theorem toNat_milliseconds {us : UInt32} (h : us.toNat ≤ 127000) :
    (us / 1000).toUInt8.toNat = us.toNat / 1000 := by
  rw [UInt32.toNat_toUInt8, UInt32.toNat_div]
  simp only [UInt32.reduceToNat]
  omega

theorem stMinWritten_iff_toNat (par : CantpParams) :
    StMinWritten par ↔
      par.stMinUs.toNat ≤ 900 ∨ 1000 ≤ par.stMinUs.toNat ∨
        (par.stMinUs.toNat < 950 ∧ par.stMin.toNat = 249) ∨
        (950 ≤ par.stMinUs.toNat ∧
          (par.stMin.toNat = 1 ∨ (241 ≤ par.stMin.toNat ∧ par.stMin.toNat ≤ 249))) := by
  simp only [StMinWritten, ← UInt8.toNat_inj, UInt8.le_iff_toNat_le, UInt8.reduceToNat]

end Written

/-- For all parameters with an STmin of at most `127` ms that `cantp_rcvr_params_init`
accepts: the STmin survives its way to the sender exactly if it is written to the byte,
or a byte that fits was there before. -/
theorem stMinSurvives_iff (par p : CantpParams) (hst : par.stMinUs.toNat ≤ 127000)
    (h : cantpRcvrParamsInit par = (0, p)) : StMinSurvives p ↔ StMinWritten par := by
  rw [stMinSurvives_iff_window, stMinWritten_iff_toNat]
  cases paramsInit_accepted h with
  | zero hzero =>
      refine iff_of_true (.inl ⟨?_, ?_⟩) (.inl (by omega))
      · exact (by decide : (0 : UInt8).toNat < 128)
      · simp [Within, stepUs, hzero]
  | hundreds hlo hhi =>
      refine iff_of_true (.inr ?_) (.inl hhi)
      simp only [toNat_hundreds hhi, within_of_lt (show par.stMinUs.toNat < 1000 by omega)]
      omega
  | roundedDown hlo hhi =>
      simp only [UInt32.reduceToNat, within_of_lt (show 900 < 1000 by omega)]
      omega
  | roundedUp hlo hhi =>
      simp only [UInt32.reduceToNat, within_of_le le_rfl]
      omega
  | thousands hlo hhi =>
      refine iff_of_true (.inl ?_) (.inr (.inl hlo))
      simp only [toNat_milliseconds hhi, within_of_le hlo]
      omega
  | waits hlo => omega

/-- Five milliseconds. -/
theorem stMinSurvives_five : StMinSurvives ⟨0, 0, 0, 5000, 5, 0, 0, 0⟩ :=
  (stMinSurvives_iff ⟨0, 0, 0, 5000, 0, 0, 0, 0⟩ ⟨0, 0, 0, 5000, 5, 0, 0, 0⟩ (by decide)
    (by decide)).mpr (Or.inr (Or.inl (by decide)))

/-- `950` microseconds are rounded to a millisecond, and the byte `0` stays. -/
theorem stMin_not_survives :
    ¬ ∀ par p : CantpParams, par.stMinUs.toNat ≤ 127000 → cantpRcvrParamsInit par = (0, p) →
      StMinSurvives p := by
  intro h
  have hsurvives := h ⟨0, 0, 0, 950, 0, 0, 0, 0⟩ ⟨0, 0, 0, 1000, 0, 0, 0, 0⟩ (by decide)
    (by decide)
  rw [stMinSurvives_iff_window] at hsurvives
  exact absurd hsurvives (by decide)

end CanTp
