import CanTp.Flow.Kept

/-!
# Long separation times

An STmin above `127` ms does not fit into the byte of an FC frame. The receiver then takes
blocks of one frame and sleeps before the FC.CTS that ends each of them, `wft_num` times
`wft_tim_us`, sending an FC.WAIT after each sleep. The number of sleeps is the quotient of
the two times cut off at a byte; shorter times leave it at what it was.
-/

namespace CanTp

open Library

/-- The number of FC.WAIT frames sent in a log. -/
def waitsSent (log : List Act) : Nat := log.countP (Act.sendsFc .wait)

/-- The time slept before the first FC.CTS. -/
def sleptBeforeCts (log : List Act) : Nat :=
  sleptUs (log.takeWhile fun a => !a.sendsFc .cts)

/-- A receiver with the parameters `p` waits for an STmin above `127` ms, to within one
sleep, between a stored Consecutive Frame that is not the last one and the FC.CTS it then
sends, with at most `wft_max` FC.WAIT frames; for other STmin it never sends one. -/
def WaitsStMin (p : CantpParams) : Prop :=
  ∀ c r, Reached p c →
    let log := (canTp.step c (.canrxCb r)).2
    if 127000 < p.stMinUs.toNat then
      ContinuedBy c r → (∃ a ∈ log, a.sendsFc .cts = true) ∧
        sleptBeforeCts log ≤ p.stMinUs.toNat ∧
        p.stMinUs.toNat < sleptBeforeCts log + p.wftTimUs.toNat ∧
        waitsSent log ≤ p.wftMax.toNat
    else waitsSent log = 0

/-! ### The calls that take time -/

section Paces

theorem sleptBeforeCts_paces (log : List Act) :
    sleptBeforeCts (log.filter Act.paces) = sleptBeforeCts log := by
  have hpred : (fun a : Act => !a.paces || !a.sendsFc .cts) = fun a => !a.sendsFc .cts := by
    funext a
    by_cases ha : a.sendsFc .cts = true
    · simp [ha, paces_of_sendsFc ha]
    · simp [ha]
  rw [sleptBeforeCts, List.takeWhile_filter, hpred, sleptUs_paces, sleptBeforeCts]

theorem waitsSent_paces (log : List Act) :
    waitsSent (log.filter Act.paces) = waitsSent log := by
  rw [waitsSent, List.countP_filter]
  exact List.countP_congr fun a _ => by
    simpa using fun h => paces_of_sendsFc h

theorem waitsSent_waitCalls (p : CantpParams) (tail : List Act) :
    waitsSent (p.waitCalls ++ tail) = 1 + waitsSent tail := by
  rw [waitsSent, List.countP_append]
  rfl

theorem sleptBeforeCts_waitCalls (p : CantpParams) (tail : List Act) :
    sleptBeforeCts (p.waitCalls ++ tail) = p.wftTimUs.toNat + sleptBeforeCts tail := by
  have htake : (p.waitCalls ++ tail).takeWhile (fun a => !a.sendsFc .cts) =
      p.waitCalls ++ tail.takeWhile fun a => !a.sendsFc .cts := rfl
  rw [sleptBeforeCts, htake, sleptUs_append]
  rfl

/-- The turns of the FC.WAIT loop, and what comes after them. -/
theorem waitCalls_spec (p : CantpParams) (n : Nat) (tail : List Act) :
    waitsSent ((List.replicate n p.waitCalls).flatten ++ tail) = n + waitsSent tail ∧
      sleptBeforeCts ((List.replicate n p.waitCalls).flatten ++ tail) =
        n * p.wftTimUs.toNat + sleptBeforeCts tail := by
  induction n with
  | zero => simp
  | succ n ih =>
      obtain ⟨hwaits, hslept⟩ := ih
      rw [List.replicate_succ, List.flatten_cons, List.append_assoc, waitsSent_waitCalls,
        sleptBeforeCts_waitCalls, hwaits, hslept]
      exact ⟨by omega, by rw [Nat.succ_mul]; omega⟩

end Paces

section Continued

variable {p : CantpParams} {c : CantpRxtxStatus} {r : RxFrame}

theorem ContinuedBy.spec (hp : SameButId p c.params) (h : ContinuedBy c r) :
    let log := (canTp.step c (.canrxCb r)).2
    waitsSent log = p.wftNum.toNat ∧
      sleptBeforeCts log = p.wftNum.toNat * p.wftTimUs.toNat ∧
      (c.BlockDone → ∃ a ∈ log, a.sendsFc .cts = true) := by
  intro log
  have hpaces : log.filter Act.paces = _ := h.paces
  have htail : waitsSent (if c.BlockDone then [c.params.fcCall c.params.cts] else []) = 0 ∧
      sleptBeforeCts (if c.BlockDone then [c.params.fcCall c.params.cts] else []) = 0 := by
    split
    · simp [waitsSent, sleptBeforeCts, CantpParams.cts, sendsFc_fcCall, sleptUs]
    · exact ⟨rfl, rfl⟩
  obtain ⟨hwaits, hslept⟩ := waitCalls_spec c.params c.params.wftNum.toNat
    (if c.BlockDone then [c.params.fcCall c.params.cts] else [])
  rw [← waitsSent_paces, ← sleptBeforeCts_paces, hpaces, hwaits, hslept, htail.1, htail.2]
  have hsame : c.params.wftNum = p.wftNum ∧ c.params.wftTimUs = p.wftTimUs := by
    rw [hp]
    exact ⟨rfl, rfl⟩
  refine ⟨by rw [hsame.1]; rfl, by rw [hsame.1, hsame.2]; rfl, fun hdone => ?_⟩
  rw [if_pos hdone] at hpaces
  refine ⟨c.params.fcCall c.params.cts, ?_, sendsFc_fcCall _ .cts .cts _ _⟩
  have hmem : c.params.fcCall c.params.cts ∈ log.filter Act.paces := by
    rw [hpaces]
    simp
  exact (List.mem_filter.mp hmem).1

theorem RxOutcome.waitsSent_eq_zero {w : World} (h : RxOutcome c r w)
    (hcont : ¬ ContinuedBy c r) : waitsSent w.log = 0 := by
  rw [← waitsSent_paces]
  rcases h.paces hcont with hnone | hcts
  · rw [hnone]
    rfl
  · rw [hcts]
    simp [waitsSent, CantpParams.cts, sendsFc_fcCall]

theorem exists_continued (p : CantpParams) : ∃ c r, Reached p c ∧ ContinuedBy c r := by
  let ff : RxFrame := .ofFrame .accepting 5 0 (ffFrame (List.replicate 20 7) 20)
  let cf : RxFrame := .ofFrame .accepting 5 0 (cfAt (List.replicate 20 7) 20 0)
  have hff : ff.FfAccepted none (List.replicate 20 0) := by decide
  have hstep := RxFrame.FfAccepted.step (c := .fresh p) hff rfl
  have hlen : (cantpFfLenGet ff.frame).toNat = 20 := by decide
  have hrec := reception_accepted (s := (CantpRxtxStatus.fresh p).rcvr) rfl ff
    (List.replicate 20 0)
  have hcf : cf.IsCf ff.id := by decide
  have htake := (hrec.takes_iff hcf).mpr ⟨by decide, by rw [hlen]; decide⟩
  refine ⟨(canTp.step (.fresh p) (.canrxCb ff)).1, cf, ⟨[.canrxCb ff], rfl⟩, ?_⟩
  rw [hstep]
  refine ⟨⟨hcf.pci, rfl, htake⟩, ?_⟩
  rw [RcvrState.remaining, hrec.len_eq, hrec.index_eq, hlen]
  decide

/-- The wait as a matter of the parameters, which end every block that is waited for. -/
theorem waitsStMin_iff_params (hbs : 127000 < p.stMinUs.toNat → p.blockSize = 1) :
    WaitsStMin p ↔
      if 127000 < p.stMinUs.toNat then
        p.wftNum.toNat * p.wftTimUs.toNat ≤ p.stMinUs.toNat ∧
          p.stMinUs.toNat < p.wftNum.toNat * p.wftTimUs.toNat + p.wftTimUs.toNat ∧
          p.wftNum.toNat ≤ p.wftMax.toNat
      else p.wftNum.toNat = 0 := by
  constructor
  · intro h
    obtain ⟨c, r, hc, hr⟩ := exists_continued p
    obtain ⟨hwaits, hslept, -⟩ := hr.spec hc.params
    have hall := h c r hc
    simp only [hwaits, hslept] at hall
    split_ifs at hall ⊢ with hlong
    · exact (hall hr).2
    · exact hall
  · intro h c r hc
    by_cases hr : ContinuedBy c r
    · obtain ⟨hwaits, hslept, hcts⟩ := hr.spec hc.params
      simp only [hwaits, hslept]
      split_ifs at h ⊢ with hlong
      · have hone : c.params.blockSize = 1 := by
          rw [hc.params]
          exact hbs hlong
        have hlt := hc.blIndex_lt
        refine fun _ => ⟨hcts ⟨?_, ?_⟩, h⟩
        · rw [hone]
          decide
        · rw [hone, UInt8.le_iff_toNat_le, UInt8.toNat_add]
          simp only [UInt8.reduceToNat]
          omega
      · exact h
    · have hnone : waitsSent (canTp.step c (.canrxCb r)).2 = 0 :=
        (rx_outcome c r).waitsSent_eq_zero hr
      dsimp only
      split_ifs
      · exact fun h => absurd h hr
      · exact hnone

end Continued

/-! ### The number of sleeps -/

section Quotient

variable {par p : CantpParams}

/-- The parameters whose STmin is waited for: the quotient fits into the byte that it is
stored in, and a number of FC.WAIT frames is given only with a long STmin. -/
def WaitsFit (par : CantpParams) : Prop :=
  (127000 < par.stMinUs.toNat → par.stMinUs.toNat / par.wftTimUs.toNat < 256) ∧
    (par.stMinUs.toNat ≤ 127000 → par.wftNum = 0)

/-- The quotient cut off at a byte is the quotient exactly if its multiple is the last one
below the STmin. -/
theorem quotient_iff {st tim : Nat} (htim : 0 < tim) :
    (st / tim % 256 * tim ≤ st ∧ st < st / tim % 256 * tim + tim) ↔ st / tim < 256 := by
  have hdiv := Nat.div_mul_le_self st tim
  have hlt := Nat.lt_div_mul_add (a := st) htim
  constructor
  · rintro ⟨-, h⟩
    have hle : st / tim ≤ st / tim % 256 := by
      by_contra hgt
      have hmul := Nat.mul_le_mul_right tim (Nat.succ_le_of_lt (not_le.mp hgt))
      rw [Nat.succ_mul] at hmul
      omega
    omega
  · intro h
    rw [Nat.mod_eq_of_lt h]
    exact ⟨hdiv, hlt⟩

end Quotient

theorem waitsStMin_iff_short {par p : CantpParams} (hpar : par.stMinUs.toNat ≤ 127000)
    (hp : p.stMinUs.toNat ≤ 127000) (hwft : p.wftNum = par.wftNum) :
    WaitsStMin p ↔ WaitsFit par := by
  rw [waitsStMin_iff_params fun h => absurd hp (not_le.mpr h), if_neg (not_lt.mpr hp), hwft]
  constructor
  · intro h
    exact ⟨fun hlong => absurd hpar (not_le.mpr hlong), fun _ => UInt8.toNat_inj.mp h⟩
  · intro h
    rw [h.2 hpar]
    rfl

/-- For all parameters that `cantp_rcvr_params_init` accepts: the STmin is waited for
exactly if the number of FC.WAIT frames fits into its byte. -/
theorem waitsStMin_iff (par p : CantpParams) (h : cantpRcvrParamsInit par = (0, p)) :
    WaitsStMin p ↔ WaitsFit par := by
  cases paramsInit_accepted h with
  | zero hzero =>
      have hle : par.stMinUs.toNat ≤ 127000 := hzero.trans_le (Nat.zero_le _)
      exact waitsStMin_iff_short hle hle rfl
  | hundreds _ hhi => exact waitsStMin_iff_short (by omega) (by exact hhi.trans (by omega)) rfl
  | roundedDown _ hhi => exact waitsStMin_iff_short (by omega) (by simp) rfl
  | roundedUp _ hhi => exact waitsStMin_iff_short (by omega) (by simp) rfl
  | thousands _ hhi => exact waitsStMin_iff_short hhi hhi rfl
  | waits hlo htim hmax =>
      have hnum : (par.stMinUs / par.wftTimUs).toUInt8.toNat =
          par.stMinUs.toNat / par.wftTimUs.toNat % 256 := by
        rw [UInt32.toNat_toUInt8, UInt32.toNat_div]
      have hmax' := UInt8.le_iff_toNat_le.mp hmax
      rw [waitsStMin_iff_params fun _ => rfl, if_pos (by exact hlo), ← and_assoc]
      simp only [hnum] at hmax' ⊢
      rw [quotient_iff (by omega)]
      exact ⟨fun h => ⟨fun _ => h.1, fun hle => absurd hle (not_le.mpr hlo)⟩,
        fun h => ⟨h.1 hlo, hmax'⟩⟩

/-- An STmin of a second, in sleeps of `200` ms. -/
theorem waitsStMin_second : WaitsStMin ⟨0, 0, 1, 1000000, 0, 5, 8, 200000⟩ :=
  (waitsStMin_iff ⟨0, 0, 0, 1000000, 0, 0, 8, 200000⟩ ⟨0, 0, 1, 1000000, 0, 5, 8, 200000⟩
    (by decide)).mpr ⟨by decide, by decide⟩

/-- An STmin of 256 sleeps is not waited for at all. -/
theorem stMin_not_waited :
    ¬ ∀ par p : CantpParams, cantpRcvrParamsInit par = (0, p) → WaitsStMin p := by
  intro h
  have hwaits := h ⟨0, 0, 0, 32512000, 0, 0, 255, 127000⟩ ⟨0, 0, 1, 32512000, 0, 0, 255, 127000⟩
    (by decide)
  rw [waitsStMin_iff_params fun _ => rfl] at hwaits
  exact absurd hwaits (by decide)

end CanTp
