import CanTp.Context
import Mathlib.Data.UInt
import Mathlib.Tactic.Linarith

/-!
# The parameters of the receiver

`cantpRcvrParamsInit` is `cantp_rcvr_params_init` of the Linux port. It translates the
STmin given in microseconds into the byte of the FC frame and the number of FC.WAIT
frames; where it fails, the fields written before the check stay written. The context
then points to these parameters. `ParamsAccepted` lists what it leaves behind where it
returns `0`.
-/

namespace CanTp

/-- `cantp_rcvr_params_init`: its result, and the parameters it leaves behind. -/
def cantpRcvrParamsInit (par : CantpParams) : Int × CantpParams :=
  if par.stMinUs = 0 then (0, { par with stMin := 0 })
  else if par.stMinUs < 100 then (-1, par)
  else if par.stMinUs > 127000 then
    let par := { par with blockSize := 1, stMin := 0 }
    if par.wftTimUs < 127000 then (-1, par)
    else
      let par := { par with wftNum := (par.stMinUs / par.wftTimUs).toUInt8 }
      if par.wftNum > par.wftMax then (-1, par) else (0, par)
  else if par.stMinUs > 900 ∧ par.stMinUs < 1000 then
    if par.stMinUs ≥ 950 then (0, { par with stMinUs := 1000 })
    else (0, { par with stMinUs := 900 })
  else if par.stMinUs ≥ 1000 ∧ par.stMinUs ≤ 127000 then
    (0, { par with stMin := (par.stMinUs / 1000).toUInt8 })
  else if par.stMinUs ≤ 900 then
    (0, { par with stMin := (par.stMinUs / 100).toUInt8 + 0xf0 })
  else (0, par)

/-- The parameters that are accepted, with those they become. -/
inductive ParamsAccepted (par : CantpParams) : CantpParams → Prop
  | zero (h : par.stMinUs.toNat = 0) : ParamsAccepted par { par with stMin := 0 }
  | hundreds (hlo : 100 ≤ par.stMinUs.toNat) (hhi : par.stMinUs.toNat ≤ 900) :
      ParamsAccepted par { par with stMin := (par.stMinUs / 100).toUInt8 + 0xf0 }
  | roundedDown (hlo : 900 < par.stMinUs.toNat) (hhi : par.stMinUs.toNat < 950) :
      ParamsAccepted par { par with stMinUs := 900 }
  | roundedUp (hlo : 950 ≤ par.stMinUs.toNat) (hhi : par.stMinUs.toNat < 1000) :
      ParamsAccepted par { par with stMinUs := 1000 }
  | thousands (hlo : 1000 ≤ par.stMinUs.toNat) (hhi : par.stMinUs.toNat ≤ 127000) :
      ParamsAccepted par { par with stMin := (par.stMinUs / 1000).toUInt8 }
  | waits (hlo : 127000 < par.stMinUs.toNat) (htim : 127000 ≤ par.wftTimUs.toNat)
      (hmax : (par.stMinUs / par.wftTimUs).toUInt8 ≤ par.wftMax) :
      ParamsAccepted par { par with
        blockSize := 1
        stMin := 0
        wftNum := (par.stMinUs / par.wftTimUs).toUInt8 }

theorem paramsInit_accepted {par p : CantpParams} (h : cantpRcvrParamsInit par = (0, p)) :
    ParamsAccepted par p := by
  have hfail : ∀ q : CantpParams, ((-1 : Int), q) ≠ (0, p) := fun q hq => by
    cases congrArg Prod.fst hq
  have hdone : ∀ q : CantpParams, ((0 : Int), q) = (0, p) → p = q := fun q hq =>
    (congrArg Prod.snd hq).symm
  simp only [cantpRcvrParamsInit, gt_iff_lt, ge_iff_le, UInt32.lt_iff_toNat_lt,
    UInt32.le_iff_toNat_le, UInt32.reduceToNat] at h
  by_cases hzero : par.stMinUs = 0
  · rw [if_pos hzero] at h
    rw [hdone _ h]
    exact .zero (congrArg UInt32.toNat hzero)
  rw [if_neg hzero] at h
  by_cases hsmall : par.stMinUs.toNat < 100
  · rw [if_pos hsmall] at h
    exact absurd h (hfail _)
  rw [if_neg hsmall] at h
  by_cases hlong : 127000 < par.stMinUs.toNat
  · rw [if_pos hlong] at h
    by_cases htim : par.wftTimUs.toNat < 127000
    · rw [if_pos htim] at h
      exact absurd h (hfail _)
    · rw [if_neg htim] at h
      by_cases hmax : par.wftMax < (par.stMinUs / par.wftTimUs).toUInt8
      · rw [if_pos hmax] at h
        exact absurd h (hfail _)
      · rw [if_neg hmax] at h
        rw [hdone _ h]
        exact .waits hlong (not_lt.mp htim) (UInt8.not_lt.mp hmax)
  rw [if_neg hlong] at h
  by_cases hround : 900 < par.stMinUs.toNat ∧ par.stMinUs.toNat < 1000
  · rw [if_pos hround] at h
    by_cases hup : 950 ≤ par.stMinUs.toNat
    · rw [if_pos hup] at h
      rw [hdone _ h]
      exact .roundedUp hup hround.2
    · rw [if_neg hup] at h
      rw [hdone _ h]
      exact .roundedDown hround.1 (not_le.mp hup)
  rw [if_neg hround] at h
  by_cases hms : 1000 ≤ par.stMinUs.toNat ∧ par.stMinUs.toNat ≤ 127000
  · rw [if_pos hms] at h
    rw [hdone _ h]
    exact .thousands hms.1 hms.2
  rw [if_neg hms, if_pos (by omega)] at h
  rw [hdone _ h]
  exact .hundreds (by omega) (by omega)

end CanTp
