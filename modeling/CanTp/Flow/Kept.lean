import CanTp.Flow.Waits
import CanTp.Flow.Params

/-!
# What every call keeps

The configured parameters stay as they are, but for the CAN id that `cantp_send` writes.
The delay between two Consecutive Frames changes only when the sender takes a Flow
Control frame. The block counter, which both roles use, is only ever increased below the
length of a block, which is a byte, so it stays below `255`.
-/

namespace CanTp

open Library

/-- The sender takes a Flow Control frame. -/
def FcTaken (c : CantpRxtxStatus) : Event → Prop
  | .canrxCb r => r.pci = some .flowControll ∧ c.sndr.state = .ffFcWait
  | _ => False

/-- A block counter `b` that stays, starts again, or goes on inside a block of `n`. -/
def BlockCounts (b b' : UInt8) : Prop := b' = b ∨ b' = 0 ∨ ∃ n, b + 1 < n ∧ b' = b + 1

/-- What the call `e` keeps. -/
structure Kept (c : CantpRxtxStatus) (e : Event) : Prop where
  params : SameButId c.params (canTp.step c e).1.params
  stTimUs : ¬ FcTaken c e → (canTp.step c e).1.sndr.stTimUs = c.sndr.stTimUs
  blIndex : BlockCounts c.sndr.blIndex (canTp.step c e).1.sndr.blIndex

section Step

variable {c : CantpRxtxStatus} {e : Event} {r : RxFrame} {w : World}

theorem Kept.of_eq (h : handle e ⟨c, []⟩ = w) (hp : SameButId c.params w.ctx.params)
    (hst : ¬ FcTaken c e → w.ctx.sndr.stTimUs = c.sndr.stTimUs)
    (hbl : BlockCounts c.sndr.blIndex w.ctx.sndr.blIndex) : Kept c e := by
  subst h
  exact ⟨hp, hst, hbl⟩

theorem countedBlock_counts (c : CantpRxtxStatus) :
    BlockCounts c.sndr.blIndex c.countedBlock := by
  rw [CantpRxtxStatus.countedBlock]
  by_cases hzero : c.params.blockSize = 0
  · rw [if_pos hzero]
    exact Or.inl rfl
  · rw [if_neg hzero]
    by_cases hdone : c.BlockDone
    · rw [if_pos hdone]
      exact Or.inr (Or.inl rfl)
    · rw [if_neg hdone]
      refine Or.inr (Or.inr ⟨c.params.blockSize, UInt8.not_le.mp fun hle => ?_, rfl⟩)
      exact hdone ⟨UInt8.pos_iff_ne_zero.mpr hzero, hle⟩

theorem counted_counts {s : SndrState} (hb : ¬ s.BlockEnds) :
    BlockCounts s.blIndex s.counted := by
  rw [SndrState.counted]
  by_cases hbs : 0 < s.bsPair
  · rw [if_pos hbs]
    exact Or.inr (Or.inr ⟨s.bsPair, UInt8.not_le.mp fun hle => hb ⟨hbs, hle⟩, rfl⟩)
  · rw [if_neg hbs]
    exact Or.inl rfl

theorem ConfirmOutcome.kept (h : ConfirmOutcome ⟨c, []⟩ w)
    (hw : handle .cantxConfirmCb ⟨c, []⟩ = w) : Kept c .cantxConfirmCb := by
  cases h with
  | blockEnd => exact .of_eq hw (.refl _) (fun _ => rfl) (Or.inr (Or.inl rfl))
  | next _ _ hb => exact .of_eq hw (.refl _) (fun _ => rfl) (counted_counts hb)
  | _ => exact .of_eq hw (.refl _) (fun _ => rfl) (Or.inl rfl)

theorem timerCb_kept (c : CantpRxtxStatus) : Kept c .sndrTimerCb := by
  by_cases hsend : c.sndr.state.Sending
  · exact .of_eq (timerCb_sending (w := ⟨c, []⟩) hsend) (.refl _) (fun _ => rfl) (Or.inl rfl)
  · by_cases hwait : c.sndr.state = .ffFcWait
    · exact .of_eq (timerCb_ffFcWait (w := ⟨c, []⟩) hwait) (.refl _) (fun _ => rfl)
        (Or.inl rfl)
    · exact .of_eq (timerCb_other (w := ⟨c, []⟩) hsend hwait) (.refl _) (fun _ => rfl)
        (Or.inl rfl)

theorem expiry_kept (c : CantpRxtxStatus) : Kept c .sndrTimerExpiry := by
  by_cases ht : c.sndr.timer.isSome = true
  · have hkept := timerCb_kept { c with sndr.timer := none }
    have heq : handle .sndrTimerExpiry ⟨c, []⟩ =
        handle .sndrTimerCb ⟨{ c with sndr.timer := none }, []⟩ := if_pos ht
    exact .of_eq heq hkept.params (fun _ => hkept.stTimUs id) hkept.blIndex
  · have heq : handle .sndrTimerExpiry ⟨c, []⟩ = ⟨c, []⟩ := if_neg ht
    exact .of_eq heq (.refl _) (fun _ => rfl) (Or.inl rfl)

theorem send_kept (c : CantpRxtxStatus) (id : UInt32) (idt : UInt8) (data : List UInt8)
    (len : UInt16) : Kept c (.send id idt data len) := by
  by_cases hlen : len.toNat ≤ sfNumDataBytes
  · exact .of_eq (send_single (w := ⟨c, []⟩) hlen) (.refl _) (fun _ => rfl) (Or.inl rfl)
  · exact .of_eq (send_segmented (w := ⟨c, []⟩) (not_le.mp hlen)) rfl (fun _ => rfl)
      (Or.inl rfl)

theorem RxOutcome.kept (h : RxOutcome c r w) (hw : handle (.canrxCb r) ⟨c, []⟩ = w) :
    Kept c (.canrxCb r) := by
  cases h with
  | flow hpci s log hdrop hbl =>
      refine .of_eq hw (.refl _) (fun htaken => ?_) (Or.inl hbl)
      rw [hdrop fun hst => htaken ⟨hpci, hst⟩]
  | cfMore h =>
      obtain ⟨⟨-, hst, -⟩, -⟩ := h
      obtain ⟨hctx, -⟩ := rcvrAwaitNext_spec r.env
        (w := ⟨{ c with rcvr := c.rcvr.storeCf r.frame },
          .printCantpFrame r.frame :: c.rcvr.cfWrites r.frame⟩) hst
      refine .of_eq hw ?_ (fun _ => ?_) ?_
      · rw [hctx]
        exact .refl _
      · rw [hctx]
        rfl
      · rw [hctx]
        exact countedBlock_counts c
  | _ => exact .of_eq hw (.refl _) (fun _ => rfl) (Or.inl rfl)

theorem step_kept (c : CantpRxtxStatus) (e : Event) : Kept c e := by
  cases e with
  | send id idt data len => exact send_kept c id idt data len
  | cantxConfirmCb => exact (confirm_outcome ⟨c, []⟩).kept rfl
  | sndrTimerCb => exact timerCb_kept c
  | sndrTimerExpiry => exact expiry_kept c
  | rcvrTimerCb => exact .of_eq rfl (.refl _) (fun _ => rfl) (Or.inl rfl)
  | canrxCb r => exact (rx_outcome c r).kept rfl

end Step

/-! ### Over the runs of a context -/

/-- A context with the parameters `p` can get to `c`. -/
def Reached (p : CantpParams) (c : CantpRxtxStatus) : Prop :=
  ∃ es, canTp.run (.fresh p) es = c

section Run

variable {p : CantpParams} {c : CantpRxtxStatus}

theorem Reached.induction {P : CantpRxtxStatus → Prop} (h : Reached p c) (hfresh : P (.fresh p))
    (hstep : ∀ c e, P c → P (canTp.step c e).1) : P c := by
  obtain ⟨es, rfl⟩ := h
  exact Mealy.run_induction (fun s e hs _ => hstep s e hs) hfresh
    (Mealy.admits_of_forall (fun _ _ => trivial) _)

theorem Reached.params (h : Reached p c) : SameButId p c.params :=
  h.induction (P := fun c => SameButId p c.params) (.refl p)
    fun c e hp => hp.trans (step_kept c e).params

theorem BlockCounts.lt {b b' : UInt8} (h : BlockCounts b b') (hb : b.toNat < 255) :
    b'.toNat < 255 := by
  rcases h with rfl | rfl | ⟨n, hlt, rfl⟩
  · exact hb
  · exact Nat.zero_lt_succ _
  · have hn := n.toNat_lt
    rw [UInt8.lt_iff_toNat_lt] at hlt
    omega

/-- The block counter stays below `255`, so the next frame can always be counted. -/
theorem Reached.blIndex_lt (h : Reached p c) : c.sndr.blIndex.toNat < 255 :=
  h.induction (P := fun c => c.sndr.blIndex.toNat < 255) (Nat.zero_lt_succ _)
    fun c e hb => (step_kept c e).blIndex.lt hb

end Run

end CanTp
