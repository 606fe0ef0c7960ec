import CanTp.Flow.Waits
import CanTp.Link.System

/-!
# The Flow Control frames of a reception

A receiver that gets the frames of one message in order answers the First Frame with an
FC.CTS and every Consecutive Frame but the last with `wft_num` FC.WAIT frames, after
which an FC.CTS follows at the end of a block. Its two counters are bytes; both stay at
the numbers they count.
-/

namespace CanTp

open Library

/-- A Flow Control frame of the node with the parameters `p`. -/
def CantpParams.fc (p : CantpParams) (f : CantpFrame) : CantpCanFrame := ⟨p.id, p.idt, 8, f⟩

/-- Consecutive Frames of the node `id` that carry the numbers of their places, from the
`k`-th on. -/
def InOrder (id : UInt32) : Nat → List RxFrame → Prop
  | _, [] => True
  | k, r :: rs => (r.IsCf id ∧ r.Hits k) ∧ InOrder id (k + 1) rs

instance decidableInOrder (id : UInt32) : ∀ k rs, Decidable (InOrder id k rs)
  | _, [] => isTrue trivial
  | k, r :: rs =>
      have := decidableInOrder id (k + 1) rs
      inferInstanceAs (Decidable ((r.IsCf id ∧ r.Hits k) ∧ InOrder id (k + 1) rs))

/-- The Flow Control frames sent while the frames `rs` are handled, a list for each. -/
def fcAnswers : CantpRxtxStatus → List RxFrame → List (List CantpCanFrame)
  | _, [] => []
  | c, r :: rs =>
      (canTp.step c (.canrxCb r)).2.filterMap Act.fcFrame ::
        fcAnswers (canTp.step c (.canrxCb r)).1 rs

/-- The Flow Control frames after the `k`-th of `n` Consecutive Frames. -/
def fcAfter (p : CantpParams) (n k : Nat) : List CantpCanFrame :=
  if k < n then
    List.replicate p.wftNum.toNat (p.fc (flowFrame .wait 0 0)) ++
      if 0 < p.blockSize.toNat ∧ p.blockSize.toNat ∣ k then
        [p.fc (flowFrame .cts p.blockSize p.stMin)]
      else []
  else []

/-- The Flow Control frames of a message with `n` Consecutive Frames. -/
def fcTrace (p : CantpParams) (n : Nat) : List (List CantpCanFrame) :=
  [p.fc (flowFrame .cts p.blockSize p.stMin)] :: (List.range' 1 n).map (fcAfter p n)

/-- The counters after `k` Consecutive Frames, the last of which was not the end of the
message: the frames of the current block, and the FC.WAIT frames sent in a row. -/
structure CountersAt (p : CantpParams) (k : Nat) (c : CantpRxtxStatus) : Prop where
  params : c.params = p
  blIndex : c.sndr.blIndex.toNat = if p.blockSize = 0 then 0 else k % p.blockSize.toNat
  wftCntr : c.rcvr.wftCntr.toNat = if k = 0 then 0 else p.wftNum.toNat

section Step

variable {p : CantpParams} {k : Nat} {c : CantpRxtxStatus}

theorem fcFrames_eq_paces (log : List Act) :
    log.filterMap Act.fcFrame = (log.filter Act.paces).filterMap Act.fcFrame := by
  rw [List.filterMap_filter]
  refine List.filterMap_congr fun a _ => ?_
  cases a <;> rfl

theorem fcFrames_waitCalls (p : CantpParams) (n : Nat) :
    (List.replicate n p.waitCalls).flatten.filterMap Act.fcFrame =
      List.replicate n (p.fc (flowFrame .wait 0 0)) := by
  induction n with
  | zero => rfl
  | succ n ih =>
      rw [List.replicate_succ, List.flatten_cons, List.filterMap_append, ih,
        List.replicate_succ]
      rfl

theorem mod_succ_of_pos {b : Nat} (hb : 0 < b) :
    (k + 1) % b = if k % b + 1 = b then 0 else k % b + 1 := by
  have hlt := Nat.mod_lt k hb
  rw [← Nat.mod_add_mod]
  by_cases hend : k % b + 1 = b
  · rw [if_pos hend, hend, Nat.mod_self]
  · rw [if_neg hend, Nat.mod_eq_of_lt (by omega)]

theorem CountersAt.blIndex_succ (h : CountersAt p k c) (hbs : 0 < p.blockSize.toNat) :
    (c.sndr.blIndex + 1).toNat = k % p.blockSize.toNat + 1 := by
  have hbl := h.blIndex
  have hlt := Nat.mod_lt k hbs
  have hbyte := p.blockSize.toNat_lt
  have hzero : p.blockSize ≠ 0 := fun h => by simp [h] at hbs
  rw [if_neg hzero] at hbl
  rw [UInt8.toNat_add, hbl]
  exact Nat.mod_eq_of_lt (by simp only [UInt8.reduceToNat]; omega)

/-- The block ends when its length divides the number of frames. -/
theorem CountersAt.blockDone_iff (h : CountersAt p k c) :
    c.BlockDone ↔ 0 < p.blockSize.toNat ∧ p.blockSize.toNat ∣ k + 1 := by
  rw [CantpRxtxStatus.BlockDone, h.params, UInt8.lt_iff_toNat_lt, UInt8.le_iff_toNat_le]
  refine and_congr_right fun hbs => ?_
  have hlt := Nat.mod_lt k hbs
  rw [h.blIndex_succ hbs, Nat.dvd_iff_mod_eq_zero, mod_succ_of_pos hbs]
  by_cases hend : k % p.blockSize.toNat + 1 = p.blockSize.toNat
  · rw [if_pos hend]
    exact iff_of_true hend.ge rfl
  · rw [if_neg hend]
    exact iff_of_false (fun hle => hend (le_antisymm hlt hle)) (Nat.succ_ne_zero _)

theorem CountersAt.countedBlock (h : CountersAt p k c) :
    c.countedBlock.toNat = if p.blockSize = 0 then 0 else (k + 1) % p.blockSize.toNat := by
  have hdone := h.blockDone_iff
  rw [CantpRxtxStatus.countedBlock, h.params]
  by_cases hzero : p.blockSize = 0
  · rw [if_pos hzero, if_pos hzero, h.blIndex, if_pos hzero]
  · have hbs : 0 < p.blockSize.toNat :=
      UInt8.lt_iff_toNat_lt.mp (UInt8.pos_iff_ne_zero.mpr hzero)
    rw [if_neg hzero, if_neg hzero]
    by_cases hend : c.BlockDone
    · rw [if_pos hend, Nat.mod_eq_zero_of_dvd (hdone.mp hend).2]
      rfl
    · have hmod : (k + 1) % p.blockSize.toNat ≠ 0 := fun h =>
        hend (hdone.mpr ⟨hbs, Nat.dvd_of_mod_eq_zero h⟩)
      rw [mod_succ_of_pos hbs] at hmod ⊢
      rw [if_neg hend, h.blIndex_succ hbs, if_neg fun h => hmod (if_pos h)]

end Step

section Run

variable {p : CantpParams} {id : UInt32} {len k : Nat} {c : CantpRxtxStatus} {r : RxFrame}
  {rs : List RxFrame}

theorem CountersAt.step_more (h : CountersAt p k c) (hrec : Reception id len k k c.rcvr)
    (hr : r.IsCf id) (hhit : r.Hits k) (hlt : k + 1 < numCfs len) :
    (canTp.step c (.canrxCb r)).2.filterMap Act.fcFrame = fcAfter p (numCfs len) (k + 1) ∧
      CountersAt p (k + 1) (canTp.step c (.canrxCb r)).1 ∧
      Reception id len (k + 1) (k + 1) (canTp.step c (.canrxCb r)).1.rcvr := by
  have hnext := (hrec.take hr hhit hlt).2
  have hdone := h.blockDone_iff
  have hcount := h.countedBlock
  obtain ⟨hctx, hlog⟩ := rcvrAwaitNext_spec r.env
    (w := ⟨{ c with rcvr := c.rcvr.storeCf r.frame },
      .printCantpFrame r.frame :: c.rcvr.cfWrites r.frame⟩) hrec.state
  rw [canTp_step, hrec.step_more hr hhit hlt] at hnext ⊢
  refine ⟨?_, ⟨?_, ?_, ?_⟩, hnext⟩
  · have hnone : (Act.printCantpFrame r.frame :: c.rcvr.cfWrites r.frame).filter Act.paces =
        [] := paces_cfWrites c.rcvr r.frame
    have hend : (if 0 < p.blockSize.toNat ∧ p.blockSize.toNat ∣ k + 1 then
        [p.fc (flowFrame .cts p.blockSize p.stMin)] else []) =
        (if c.BlockDone then [p.fcCall p.cts] else []).filterMap Act.fcFrame := by
      by_cases hd : c.BlockDone
      · rw [if_pos hd, if_pos (hdone.mp hd)]
        rfl
      · rw [if_neg hd, if_neg (hdone.not.mp hd)]
        rfl
    rw [fcFrames_eq_paces, hlog, hnone, List.nil_append, List.filterMap_append, fcAfter,
      if_pos hlt, hend, ← fcFrames_waitCalls, ← h.params]
    rfl
  · rw [hctx]
    exact h.params
  · rw [hctx]
    exact hcount
  · rw [hctx, if_neg (Nat.succ_ne_zero k)]
    have hcntr := h.wftCntr
    by_cases hwft : c.params.wftNum = 0
    · have hzero : p.wftNum.toNat = 0 := by rw [← h.params, hwft]; rfl
      rw [hzero, ite_self] at hcntr
      exact (congrArg UInt8.toNat (if_pos hwft)).trans (hcntr.trans hzero.symm)
    · exact (congrArg UInt8.toNat (if_neg hwft)).trans (by rw [h.params])

theorem Reception.fcFrames_last (hrec : Reception id len k k c.rcvr) (hr : r.IsCf id)
    (hhit : r.Hits k) (hlast : k + 1 = numCfs len) :
    (canTp.step c (.canrxCb r)).2.filterMap Act.fcFrame = fcAfter p (numCfs len) (k + 1) := by
  rw [fcAfter, if_neg (by omega), hrec.last hr hhit hlast, fcFrames_eq_paces]
  change ((c.rcvr.cfWrites r.frame ++ _).filter Act.paces).filterMap Act.fcFrame = []
  rw [List.filter_append, paces_cfWrites]
  rfl

theorem InOrder.take (h : InOrder id k rs) (n : Nat) : InOrder id k (rs.take n) := by
  induction rs generalizing k n with
  | nil => rw [List.take_nil]; trivial
  | cons r rs ih =>
      cases n with
      | zero => trivial
      | succ n => exact ⟨h.1, ih h.2 n⟩

theorem CountersAt.fcAnswers_eq (h : CountersAt p k c) (hrec : Reception id len k k c.rcvr)
    (hlen : k + rs.length = numCfs len)
    (hrs : InOrder id k rs) :
    fcAnswers c rs = (List.range' (k + 1) rs.length).map (fcAfter p (numCfs len)) := by
  induction rs generalizing c k with
  | nil => rfl
  | cons r rs ih =>
      obtain ⟨⟨hr, hhit⟩, hrs'⟩ := hrs
      rw [List.length_cons] at hlen
      rw [fcAnswers, List.length_cons, List.range'_succ, List.map_cons]
      by_cases hlast : k + 1 = numCfs len
      · have hnil : rs = [] := List.length_eq_zero_iff.mp (by omega)
        rw [hrec.fcFrames_last (p := p) hr hhit hlast, hnil]
        rfl
      · obtain ⟨hout, hcount, hnext⟩ := h.step_more hrec hr hhit (by omega)
        rw [hout, ih hcount hnext (by omega) hrs']

theorem CountersAt.run (h : CountersAt p k c) (hrec : Reception id len k k c.rcvr)
    (hlt : k + rs.length < numCfs len)
    (hrs : InOrder id k rs) :
    CountersAt p (k + rs.length) (canTp.run c (rs.map .canrxCb)) := by
  induction rs generalizing c k with
  | nil => exact h
  | cons r rs ih =>
      obtain ⟨⟨hr, hhit⟩, hrs'⟩ := hrs
      rw [List.length_cons] at hlt
      obtain ⟨-, hcount, hnext⟩ := h.step_more hrec hr hhit (by omega)
      have hrun := ih hcount hnext (by omega) hrs'
      rwa [Nat.add_right_comm, Nat.add_assoc] at hrun

end Run

theorem countersAt_accepted (p : CantpParams) {ff : RxFrame} {buf : List UInt8}
    (hff : ff.FfAccepted none buf) :
    (canTp.step (.fresh p) (.canrxCb ff)).2.filterMap Act.fcFrame = [p.fc p.cts] ∧
      CountersAt p 0 (canTp.step (.fresh p) (.canrxCb ff)).1 ∧
      Reception ff.id (cantpFfLenGet ff.frame).toNat 0 0
        (canTp.step (.fresh p) (.canrxCb ff)).1.rcvr := by
  rw [RxFrame.FfAccepted.step (c := .fresh p) hff rfl]
  refine ⟨?_, ⟨rfl, by simp [CantpRxtxStatus.fresh], rfl⟩, reception_accepted rfl ff buf⟩
  rw [fcFrames_eq_paces, List.filter_append, paces_ffLog, paces_fcActs]
  rfl

/-- For all parameters and every message whose frames arrive in order at a fresh receiver:
the Flow Control frames are those of the trace, and after every Consecutive Frame but the
last the counters hold the numbers they count. -/
theorem fcAnswers_eq_fcTrace (p : CantpParams) (ff : RxFrame) (buf : List UInt8)
    (rs : List RxFrame) (hff : ff.FfAccepted none buf)
    (hlen : rs.length = numCfs (cantpFfLenGet ff.frame).toNat)
    (hrs : InOrder ff.id 0 rs) :
    fcAnswers (.fresh p) (ff :: rs) = fcTrace p rs.length ∧
      ∀ k < rs.length,
        CountersAt p k (canTp.run (.fresh p) ((ff :: rs.take k).map .canrxCb)) := by
  obtain ⟨hout, hcount, hrec⟩ := countersAt_accepted p hff
  constructor
  · rw [fcAnswers, hout, hcount.fcAnswers_eq hrec (by omega) hrs, ← hlen]
    rfl
  · intro k hk
    have htake : (rs.take k).length = k := List.length_take_of_le hk.le
    have hrun := hcount.run hrec (by omega) (hrs.take k)
    rwa [htake, Nat.zero_add] at hrun

/-- Twenty-seven bytes in blocks of two, with one FC.WAIT. -/
theorem fcAnswers_eq_fcTrace_three :
    let p : CantpParams := ⟨9, 0, 2, 0, 0, 1, 0, 0⟩
    let rx := RxFrame.ofFrame .accepting 5 0
    let msg := List.replicate 27 7
    let rs := [rx (cfAt msg 27 0), rx (cfAt msg 27 1), rx (cfAt msg 27 2)]
    fcAnswers (.fresh p) (rx (ffFrame msg 27) :: rs) = fcTrace p 3 ∧
      ∀ k < 3, CountersAt p k
        (canTp.run (.fresh p) ((rx (ffFrame msg 27) :: rs.take k).map .canrxCb)) := by
  intro p rx msg rs
  exact fcAnswers_eq_fcTrace p (rx (ffFrame msg 27)) (List.replicate 27 0) rs (by decide)
    (by decide) (by decide)

end CanTp
