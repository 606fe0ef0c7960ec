import CanTp.FakeCan.Delivery
import CanTp.Flow.Waits

/-!
# FC.WAIT frames over the pipes

A receiver that is to keep its sender waiting for more than 127 ms asks for blocks of one
frame and sends FC.WAIT frames behind each frame that is not the last one. `withWaits` gives
the number of these to the receiver of an exchange without them. Up to the first of them the
two processes do what they do without.
-/

namespace CanTp

open Library

/-- The context of a receiver that sends `n` FC.WAIT frames at a time. -/
def CantpRxtxStatus.withWaits (c : CantpRxtxStatus) (n : UInt8) : CantpRxtxStatus :=
  { c with params.wftNum := n }

def FakeCanNode.withWaits (s : FakeCanNode) (n : UInt8) : FakeCanNode :=
  { s with ctx := s.ctx.withWaits n }

/-- The two processes, the receiver with `n` FC.WAIT frames at a time. -/
def FakeLink.withWaits (s : FakeLink) (n : UInt8) : FakeLink :=
  { s with right := s.right.withWaits n }

/-! ### Where the FC.WAIT frames do not matter -/

section Receiver

variable {c : CantpRxtxStatus} {r : RxFrame}

/-- Only a Consecutive Frame that is stored and is not the last one brings FC.WAIT frames. -/
theorem step_withWaits (hpci : r.pci ≠ some .flowControll) (hcont : ¬ ContinuedBy c r)
    (n : UInt8) : canTp.step (c.withWaits n) (.canrxCb r) =
      ((canTp.step c (.canrxCb r)).1.withWaits n, (canTp.step c (.canrxCb r)).2) := by
  simp only [canTp_step]
  rcases hp : r.pci with _ | pci
  · rw [canrx_unknown hp, canrx_unknown hp]
  · cases pci with
    | flowControll => exact absurd hp hpci
    | singleFrame =>
        rw [canrx_singleFrame hp, canrx_singleFrame hp]
        rfl
    | firstFrame =>
        rw [canrx_firstFrame hp, canrx_firstFrame hp]
        by_cases hst : c.rcvr.state = .idle
        · rw [if_pos (by exact hst), if_pos (by exact hst)]
          by_cases href : (r.ffAnswer c.rcvr.data).1 < 0
          · rw [rxFf_refused (by exact href), rxFf_refused (by exact href)]
            rfl
          · cases hbuf : (r.ffAnswer c.rcvr.data).2 with
            | none =>
                rw [rxFf_abandoned (by exact href) (by exact hbuf),
                  rxFf_abandoned (by exact href) (by exact hbuf)]
                rfl
            | some buf =>
                rw [rxFf_accepted (by exact href) (by exact hbuf),
                  rxFf_accepted (by exact href) (by exact hbuf)]
                rfl
        · rw [if_neg (by exact hst), if_neg (by exact hst)]
          rfl
    | consecFrame =>
        rw [canrx_consecFrame hp, canrx_consecFrame hp]
        by_cases hst : c.rcvr.state = .fcSent
        · rw [if_pos (by exact hst), if_pos (by exact hst)]
          by_cases hid : c.rcvr.idPair = r.id
          · by_cases htake : c.rcvr.Takes r.id r.frame
            · have hrem : c.rcvr.remaining ≤ cfNumDataBytes :=
                not_not.mp fun hrem => hcont ⟨⟨hp, hst, htake⟩, hrem⟩
              rw [rxCf_last (by exact htake) (by exact hrem),
                rxCf_last (by exact htake) (by exact hrem)]
              rfl
            · rw [rxCf_reject (by exact hid) (by exact htake),
                rxCf_reject (by exact hid) (by exact htake)]
              rfl
          · rw [rxCf_foreign (by exact hid), rxCf_foreign (by exact hid)]
            rfl
        · rw [if_neg (by exact hst), if_neg (by exact hst)]
          rfl

theorem ContinuedBy.fakeCanTx (h : ContinuedBy c r) (hblock : c.BlockDone) :
    (canTp.step c (.canrxCb r)).2.filterMap Act.fakeCanTx =
      List.replicate c.params.wftNum.toNat
          ⟨false, c.params.id, c.params.idt, 8, flowFrame .wait 0 0⟩ ++
        [⟨false, c.params.id, c.params.idt, 8, c.params.cts⟩] := by
  have hpci : r.pci ≠ some .flowControll := by
    rw [h.1.1]
    simp
  have hpaces := congrArg (List.filterMap Act.fakeCanTx) h.paces
  have hrole := ((rx_outcome c r).sndr_alone hpci).2
  rw [List.filterMap_filter, if_pos hblock] at hpaces
  have hfilter : (canTp.step c (.canrxCb r)).2.filterMap Act.fakeCanTx =
      (canTp.step c (.canrxCb r)).2.filterMap fun a =>
        if a.paces = true then a.fakeCanTx else none := by
    refine List.filterMap_congr fun a ha => ?_
    have honly := hrole a ha
    cases a <;> first | rfl | cases honly
  rw [hfilter, hpaces, List.filterMap_append]
  congr 1
  induction c.params.wftNum.toNat with
  | zero => rfl
  | succ k ih =>
      rw [List.replicate_succ, List.flatten_cons, List.filterMap_append, ih, List.replicate_succ]
      rfl

end Receiver

namespace FakeCanNode

theorem transmit_cons (n : FakeCanNode) (t : FakeCanTx) (rest : List FakeCanTx) :
    n.transmit (t :: rest) =
      ({ n with canFrame := n.canFrame.put t.frame, stage := .waiting t.nb rest },
        t.frame.wire) := by
  rw [transmit, t.frame.wire_eq]

theorem indicate_cons {n : FakeCanNode} {env : Env} {f : CantpCanFrame} {t : FakeCanTx}
    {rest : List FakeCanTx}
    (h : (canTp.step n.ctx (.canrxCb (f.rx env))).2.filterMap Act.fakeCanTx = t :: rest) :
    n.indicate env f =
      (⟨(canTp.step n.ctx (.canrxCb (f.rx env))).1,
        n.out ++ (canTp.step n.ctx (.canrxCb (f.rx env))).2, n.frames + 1,
        n.canFrame.put t.frame, .waiting t.nb rest⟩, t.frame.wire) := by
  rw [indicate, handles, h, transmit_cons]

theorem indicate_withWaits {m : FakeCanNode} {env : Env} {f : CantpCanFrame} {n : UInt8}
    (h : canTp.step (m.ctx.withWaits n) (.canrxCb (f.rx env)) =
      ((canTp.step m.ctx (.canrxCb (f.rx env))).1.withWaits n,
        (canTp.step m.ctx (.canrxCb (f.rx env))).2)) :
    (m.withWaits n).indicate env f =
      ((m.indicate env f).1.withWaits n, (m.indicate env f).2) := by
  rw [indicate, indicate, handles, handles, withWaits]
  dsimp only
  rw [h]
  cases (canTp.step m.ctx (.canrxCb (f.rx env))).2.filterMap Act.fakeCanTx with
  | nil => rfl
  | cons t rest => simp only [transmit_cons, withWaits]

end FakeCanNode

namespace Exchange

variable {x : Exchange} {r k : Nat} {c : CantpRxtxStatus} {out : List Act}
  {fcs : List (Nat × CantpCanFrame)} {f : CantpCanFrame}

theorem RcvrAt.not_continued (h : x.RcvrAt r c out fcs) (hget : x.frames[r]? = some f)
    (hr : r = 0 ∨ r = x.total) (env : Env) : ¬ ContinuedBy c (f.rx env) := by
  have hframe : ∀ g, f = ⟨x.id, x.idt, 8, g⟩ → (f.rx env).frame = g := by
    rintro g rfl
    exact rxFrame_eight g
  rintro ⟨⟨hpci, -, -⟩, hrem⟩
  by_cases hlong : sfNumDataBytes < x.msg.length
  · cases r with
    | zero =>
        rw [frames_eq hlong, List.getElem?_cons_zero] at hget
        rw [pci_of_ffFrame (hframe _ (Option.some.inj hget).symm)] at hpci
        cases hpci
    | succ k =>
        have htotal : k + 1 = x.total := hr.resolve_left (Nat.succ_ne_zero k)
        have hfill : Filling x.id x.msg k c.rcvr := by
          have hstage := h.stage hlong
          rwa [if_pos (htotal ▸ Nat.lt_succ_self k)] at hstage
        have hend : x.msg.length ≤ cfStart x.total := le_cfStart_numCfs x.msg.length
        rw [← htotal, cfStart_succ] at hend
        rw [RcvrState.remaining, hfill.len_eq, hfill.index_eq] at hrem
        omega
  · have hshort := not_lt.mp hlong
    rw [frames, canonicalFrames, if_pos hshort, List.map_singleton] at hget
    have hf := List.mem_singleton.mp (List.mem_of_getElem? hget)
    rw [pci_of_sfFrame (hframe _ hf) hshort] at hpci
    cases hpci

theorem continued_of_rcvrAt (h : x.RcvrAt (k + 1) c out fcs)
    (hlong : sfNumDataBytes < x.msg.length) (hlt : k + 1 < x.total)
    (hget : x.frames[k + 1]? = some f) (n : UInt8) (env : Env) :
    ContinuedBy (c.withWaits n) (f.rx env) ∧
      deliveries (canTp.step (c.withWaits n) (.canrxCb (f.rx env))).2 = [] := by
  rw [getElem?_frames_succ hlong (by omega)] at hget
  obtain rfl := Option.some.inj hget
  have hf : (CantpCanFrame.rx ⟨x.id, x.idt, 8, cfAt x.msg x.msg.length k⟩ env).frame =
      cfAt x.msg x.msg.length k := rxFrame_eight _
  have hcf : (CantpCanFrame.rx ⟨x.id, x.idt, 8, cfAt x.msg x.msg.length k⟩ env).IsCf x.id :=
    isCf_of_cfAt rfl hf
  have hfill : Filling x.id x.msg k (c.withWaits n).rcvr := by
    have hstage := h.stage hlong
    rwa [if_pos (by omega)] at hstage
  have hnext := (lt_numCfs_iff x.msg.length (k + 1)).mp hlt
  rw [cfStart_succ] at hnext
  have hrem : ¬ (c.withWaits n).rcvr.remaining ≤ cfNumDataBytes := by
    rw [RcvrState.remaining, hfill.len_eq, hfill.index_eq]
    omega
  exact ⟨⟨⟨hcf.pci, hfill.state, (hfill.toReception.takes_iff hcf).mpr
    ⟨(hits_cfAt hf k).mpr rfl, Nat.lt_of_succ_lt hlt⟩⟩, hrem⟩, (hfill.next hcf hf hlt).2⟩

end Exchange

/-! ### Steps of the receiving process -/

section ActRight

variable {s : FakeLink} (env : Nat → Env)

theorem actRight_indicating {f : CantpCanFrame} (hst : s.right.stage = .indicating f) :
    s.actRight (fakeCan env) =
      ⟨s.left, (s.right.indicate (env s.right.frames).acked f).1, s.down,
        s.up ++ (s.right.indicate (env s.right.frames).acked f).2⟩ := by
  obtain ⟨left, ⟨ctx, out, frames, canFrame, stage⟩, down, up⟩ := s
  dsimp only at hst
  subst hst
  rfl

/-- A step of the receiver that has nothing to do with FC.WAIT frames. -/
theorem withWaits_actRight (n : UInt8) (hwait : ∀ rest, s.right.stage ≠ .waiting true rest)
    (hind : ∀ f, s.right.stage = .indicating f →
      let r := f.rx (env s.right.frames).acked
      r.pci ≠ some .flowControll ∧ ¬ ContinuedBy s.right.ctx r) :
    (s.withWaits n).actRight (fakeCan env) =
      FakeLink.withWaits (s.actRight (fakeCan env)) n := by
  obtain ⟨left, ⟨ctx, out, frames, canFrame, stage⟩, down, up⟩ := s
  cases stage with
  | receiving => rfl
  | indicating f =>
      obtain ⟨hpci, hcont⟩ := hind f rfl
      have hact := FakeCanNode.indicate_withWaits
        (m := ⟨ctx, out, frames, canFrame, .indicating f⟩) (step_withWaits hpci hcont n)
      rw [actRight_indicating env (f := f) rfl, actRight_indicating env (f := f) rfl]
      dsimp only [FakeLink.withWaits, FakeCanNode.withWaits] at hact ⊢
      rw [hact]
  | waiting nb rest =>
      cases nb with
      | true => exact absurd rfl (hwait rest)
      | false => cases rest <;> rfl

end ActRight

end CanTp
