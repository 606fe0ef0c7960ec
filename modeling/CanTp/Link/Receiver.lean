import CanTp.Link.Sender

/-!
# The receiving node of an exchange

The state of the receiver is a function of the number of frames received. It answers
the First Frame with FC.CTS, and the last frame of a block with another one, unless the
message ends there.
-/

namespace CanTp

open Library

namespace Exchange

variable (x : Exchange)

/-- The receiver after `r` frames. -/
def Stage : Nat → RcvrState → Prop
  | 0, s => s.state = .idle ∧ s.sn = 0 ∧ s.data = none
  | k + 1, s => sfNumDataBytes < x.msg.length →
      if k < x.total then Filling x.id x.msg k s else Complete x.msg s

/-- The receiver with the calls `out` and the Flow Control frames `fcs` is where `r`
frames have led it. -/
structure RcvrAt (r : Nat) (ctx : CantpRxtxStatus) (out : List Act)
    (fcs : List (Nat × CantpCanFrame)) : Prop where
  stage : x.Stage r ctx.rcvr
  params : ctx.params = x.rcvrParams
  blIndex : r ≤ x.limit → ctx.sndr.blIndex.toNat = if x.blockSize = 0 then 0 else r - 1
  fcs_eq : fcs = (x.dialogue.answers r).map fun k => (k, x.fc)
  deliveries : if r < x.frames.length then deliveries out = []
    else ∃ d, deliveries out = [d] ∧ d.Carries x.msg

/-- The calls `acts` move the receiver from `r` to `r + 1` frames. -/
structure RcvrMoves (r : Nat) (ctx' : CantpRxtxStatus) (acts : List Act) : Prop where
  stage : x.Stage (r + 1) ctx'.rcvr
  blIndex : r + 1 ≤ x.limit →
    ctx'.sndr.blIndex.toNat = if x.blockSize = 0 then 0 else r
  fcs : x.dialogue.answers (r + 1) =
    x.dialogue.answers r ++ (acts.filterMap Act.fcFrame).map fun _ => r + 1
  fc : ∀ f ∈ acts.filterMap Act.fcFrame, f = x.fc
  deliveries : if r + 1 < x.frames.length then deliveries acts = []
    else ∃ d, deliveries acts = [d] ∧ d.Carries x.msg

variable {x}

section Deliver

variable {r : Nat} {ctx ctx' : CantpRxtxStatus} {out acts : List Act}
  {fcs : List (Nat × CantpCanFrame)} {rx : RxFrame} {k : Nat}

theorem RcvrAt.moves (h : x.RcvrAt r ctx out fcs) (hm : x.RcvrMoves r ctx' acts)
    (hp : ctx'.params = ctx.params) (hlt : r < x.frames.length) :
    x.RcvrAt (r + 1) ctx' (out ++ acts)
      (fcs ++ (acts.filterMap Act.fcFrame).map fun f => (r + 1, f)) where
  stage := hm.stage
  params := hp.trans h.params
  blIndex := hm.blIndex
  fcs_eq := by
    rw [h.fcs_eq, hm.fcs, List.map_append, List.map_map]
    congr 1
    exact List.map_congr_left fun f hf => by rw [hm.fc f hf]; rfl
  deliveries := by
    have hd := h.deliveries
    rw [if_pos hlt] at hd
    rw [deliveries_append, hd]
    exact hm.deliveries

theorem fcFrames_cfWrites (s : RcvrState) (f : CantpFrame) :
    (s.cfWrites f).filterMap Act.fcFrame = [] := by
  rw [RcvrState.cfWrites, List.filterMap_map]
  exact List.filterMap_eq_nil_iff.mpr fun _ _ => rfl

theorem fcFrames_fcActs (env : Env) (f : CantpFrame) (w : World) :
    (fcActs env f w).filterMap Act.fcFrame =
      [⟨w.ctx.params.id, w.ctx.params.idt, 8, f⟩] := by
  unfold fcActs
  dsimp only
  split <;> rfl

theorem fcFrames_ffLog (r : RxFrame) (c : CantpRxtxStatus) :
    (ffLog r ⟨c, [.printCantpFrame r.frame]⟩).filterMap Act.fcFrame = [] := by
  apply List.filterMap_eq_nil_iff.mpr
  intro a ha
  rcases mem_ffLog ha with hlog | rfl | ⟨i, b, rfl⟩ | ⟨f, rfl⟩
  · rw [List.mem_singleton.mp hlog]
    rfl
  · rfl
  · rfl
  · rfl

/-- The block counter of the receiver, at the frame that is the `r`-th stored one. -/
theorem RcvrAt.blockEnds_iff (h : x.RcvrAt r ctx out fcs) (hr : 0 < r) (hle : r ≤ x.limit)
    (hlt : r < x.total) (hbs : 0 < x.blockSize) :
    ctx.params.blockSize ≤ ctx.sndr.blIndex + 1 ↔ r = x.limit := by
  have hbl := h.blIndex hle
  have hmax := limit_le_blockSize hbs
  have hlim := limit_eq_blockSize (x := x)
  have hbyte : x.blockSize < 256 := x.rcvrParams.blockSize.toNat_lt
  have hb : ctx.params.blockSize.toNat = x.blockSize := by rw [h.params]; rfl
  rw [if_neg hbs.ne'] at hbl
  rw [UInt8.le_iff_toNat_le, UInt8.toNat_add, hb, hbl]
  simp only [UInt8.reduceToNat]
  omega

theorem RcvrAt.awaitNext (h : x.RcvrAt r ctx out fcs) (hr : 0 < r) (hle : r ≤ x.limit)
    (hlt : r < x.total) (env : Env) (s : RcvrState) (log : List Act)
    (hlog : log.filterMap Act.fcFrame = []) :
    let w := rcvrAwaitNext env ⟨{ ctx with rcvr := s }, log⟩
    w.ctx.params = ctx.params ∧
      (r + 1 ≤ x.limit → w.ctx.sndr.blIndex.toNat = if x.blockSize = 0 then 0 else r) ∧
      w.log.filterMap Act.fcFrame = if x.limit < x.total ∧ r = x.limit then [x.fc] else [] := by
  have hwft : ctx.params.wftNum = 0 := by rw [h.params, x.noWaits]
  have hbl := h.blIndex hle
  have hends := h.blockEnds_iff hr hle hlt
  have hlim := limit_eq_blockSize (x := x)
  have hb : ctx.params.blockSize.toNat = x.blockSize := by rw [h.params]; rfl
  by_cases hzero : x.blockSize = 0
  · have hbs : ctx.params.blockSize = 0 := UInt8.toNat_inj.mp (hb.trans hzero)
    rw [rcvrAwaitNext_eq env (by exact hwft) (by exact hbs)]
    refine ⟨rfl, ?_, ?_⟩
    · intro _
      rw [if_pos hzero] at hbl ⊢
      exact hbl
    · rw [if_neg (by omega)]
      exact hlog
  · have hpos : 0 < x.blockSize := Nat.pos_of_ne_zero hzero
    have hbs : 0 < ctx.params.blockSize := by
      rw [UInt8.lt_iff_toNat_lt, hb]
      exact hpos
    by_cases hend : r = x.limit
    · rw [rcvrAwaitNext_blockEnd env (by exact hwft) (by exact hbs)
        (by exact (hends hpos).mpr hend)]
      refine ⟨rfl, fun hle' => by omega, ?_⟩
      rw [List.filterMap_append, hlog, List.filterMap_cons_none rfl, fcFrames_fcActs,
        if_pos ⟨by omega, hend⟩, h.params]
      rfl
    · rw [rcvrAwaitNext_count env (by exact hwft) (by exact hbs)
        (by exact fun hb => hend ((hends hpos).mp hb))]
      refine ⟨rfl, ?_, ?_⟩
      · intro hle'
        have hbyte : x.blockSize < 256 := x.rcvrParams.blockSize.toNat_lt
        have hmax := limit_le_blockSize hpos
        rw [if_neg hzero] at hbl ⊢
        rw [UInt8.toNat_add, hbl]
        simp only [UInt8.reduceToNat]
        omega
      · rw [if_neg fun h => hend h.2]
        exact hlog

section Segmented

variable (hlong : sfNumDataBytes < x.msg.length)
include hlong

theorem length_frames : x.frames.length = x.total + 1 := by
  rw [frames_eq hlong, List.length_cons, List.length_map, List.length_range]

theorem answers_eq (r : Nat) : x.dialogue.answers r = Dialogue.flowAnswers x.total x.limit r := by
  rw [dialogue_eq hlong]
  rfl

theorem RcvrAt.deliver_first (h : x.RcvrAt 0 ctx out fcs) (hid : rx.id = x.id)
    (hf : rx.frame = ffFrame x.msg x.msg.length) (haccepts : rx.SessionAccepts none) :
    x.RcvrMoves 0 (canTp.step ctx (.canrxCb rx)).1 (canTp.step ctx (.canrxCb rx)).2 ∧
      (canTp.step ctx (.canrxCb rx)).1.params = ctx.params := by
  obtain ⟨hidle, hsn, hdata⟩ := h.stage
  rw [← hdata] at haccepts
  obtain ⟨hfill, hnone⟩ := haccepts.begins hidle hsn hf hlong x.short
  obtain ⟨hok, buf, hbuf, -⟩ := haccepts
  have hacc : rx.FfAccepted ctx.rcvr.data buf := ⟨pci_of_ffFrame hf, hok, hbuf⟩
  have hstep := hacc.step hidle
  have htotal := total_pos hlong
  have hfcs : (canTp.step ctx (.canrxCb rx)).2.filterMap Act.fcFrame = [x.fc] := by
    rw [hstep, List.filterMap_append, fcFrames_ffLog, fcFrames_fcActs, h.params]
    rfl
  refine ⟨⟨?_, ?_, ?_, ?_, ?_⟩, by rw [hstep]⟩
  · intro _
    rw [if_pos htotal, ← hid]
    exact hfill
  · intro _
    rw [hstep]
    simpa using h.blIndex (Nat.zero_le _)
  · rw [hfcs, answers_eq hlong, answers_eq hlong,
      Dialogue.flowAnswers_one x.total (limit_pos hlong)]
    rfl
  · rw [hfcs]
    simp
  · rw [length_frames hlong, if_pos (by omega)]
    exact hnone

theorem RcvrAt.deliver_more (h : x.RcvrAt (k + 1) ctx out fcs) (hle : k + 1 ≤ x.limit)
    (hlt : k + 1 < x.total) (hcf : rx.IsCf x.id)
    (hf : rx.frame = cfAt x.msg x.msg.length k) :
    x.RcvrMoves (k + 1) (canTp.step ctx (.canrxCb rx)).1 (canTp.step ctx (.canrxCb rx)).2 ∧
      (canTp.step ctx (.canrxCb rx)).1.params = ctx.params := by
  have hfill : Filling x.id x.msg k ctx.rcvr := by
    have hstage := h.stage hlong
    rwa [if_pos (by omega)] at hstage
  obtain ⟨hnext, hnone⟩ := hfill.next hcf hf hlt
  have hstep := hfill.toReception.step_more hcf ((hits_cfAt hf k).mpr rfl) hlt
  have hlog : (Act.printCantpFrame rx.frame ::
      ctx.rcvr.cfWrites rx.frame).filterMap Act.fcFrame = [] := by
    rw [List.filterMap_cons_none rfl, fcFrames_cfWrites]
  obtain ⟨hp, hbl, hfcs⟩ := h.awaitNext (Nat.succ_pos k) hle hlt rx.env
    (ctx.rcvr.storeCf rx.frame) _ hlog
  rw [← hstep] at hp hbl hfcs
  refine ⟨⟨fun _ => by rw [if_pos hlt]; exact hnext, hbl, ?_, ?_, ?_⟩, hp⟩
  · rw [canTp_step, hfcs, answers_eq hlong, answers_eq hlong,
      Dialogue.flowAnswers_succ (Nat.succ_pos k) hle]
    split <;> rfl
  · rw [canTp_step, hfcs]
    split <;> simp
  · rw [length_frames hlong, if_pos (by omega)]
    exact hnone

theorem RcvrAt.deliver_last (h : x.RcvrAt (k + 1) ctx out fcs) (hle : k + 1 ≤ x.limit)
    (hlast : k + 1 = x.total) (hcf : rx.IsCf x.id)
    (hf : rx.frame = cfAt x.msg x.msg.length k) :
    x.RcvrMoves (k + 1) (canTp.step ctx (.canrxCb rx)).1 (canTp.step ctx (.canrxCb rx)).2 ∧
      (canTp.step ctx (.canrxCb rx)).1.params = ctx.params := by
  have hlim := limit_le_total (x := x)
  have hfill : Filling x.id x.msg k ctx.rcvr := by
    have hstage := h.stage hlong
    rwa [if_pos (by omega)] at hstage
  obtain ⟨hcomplete, hdeliver⟩ := hfill.last hcf hf hlast
  have hstep := hfill.toReception.last hcf ((hits_cfAt hf k).mpr rfl) hlast
  have hfcs : (canTp.step ctx (.canrxCb rx)).2.filterMap Act.fcFrame = [] := by
    rw [hstep, List.filterMap_cons_none rfl, List.filterMap_append, fcFrames_cfWrites]
    rfl
  refine ⟨⟨fun _ => by rw [if_neg (by omega)]; exact hcomplete, fun hle' => by omega, ?_, ?_,
    ?_⟩, by rw [hstep]⟩
  · rw [hfcs, answers_eq hlong, answers_eq hlong,
      Dialogue.flowAnswers_succ (Nat.succ_pos k) hle, if_neg (by omega)]
    rfl
  · rw [hfcs]
    simp
  · rw [length_frames hlong, if_neg (by omega)]
    exact ⟨_, hdeliver, hcomplete.carries _ _⟩

end Segmented

theorem RcvrAt.deliver_single (h : x.RcvrAt 0 ctx out fcs)
    (hshort : x.msg.length ≤ sfNumDataBytes)
    (hf : rx.frame = sfFrame x.msg x.msg.length) :
    x.RcvrMoves 0 (canTp.step ctx (.canrxCb rx)).1 (canTp.step ctx (.canrxCb rx)).2 ∧
      (canTp.step ctx (.canrxCb rx)).1.params = ctx.params := by
  have hlen : x.frames.length = 1 := by
    rw [frames, canonicalFrames, if_pos hshort]
    rfl
  have hbl := h.blIndex (Nat.zero_le _)
  rw [canTp_step, canrx_singleFrame (pci_of_sfFrame hf hshort)]
  refine ⟨⟨fun hlong => absurd hlong (not_lt.mpr hshort), fun _ => by simpa using hbl, ?_,
    by simp [Act.fcFrame], ?_⟩, rfl⟩
  · rw [dialogue, if_pos hshort]
    rfl
  · rw [hlen, if_neg (by omega)]
    exact ⟨_, rfl, hf ▸ carries_sfFrame _ _ hshort⟩

theorem RcvrAt.deliver {c a : Nat} {f : CantpCanFrame} (h : x.RcvrAt r ctx out fcs)
    (hlt : r < x.dialogue.sent c a) (hget : x.frames[r]? = some f) :
    let p := canTp.step ctx (.canrxCb (f.rx (x.rcvrEnv r)))
    x.RcvrAt (r + 1) p.1 (out ++ p.2)
      (fcs ++ (p.2.filterMap Act.fcFrame).map fun g => (r + 1, g)) := by
  intro p
  suffices hmoves : x.RcvrMoves r p.1 p.2 ∧ p.1.params = ctx.params from
    h.moves hmoves.1 hmoves.2 (List.getElem?_eq_some_iff.mp hget).1
  have hframe : ∀ g, f = ⟨x.id, x.idt, 8, g⟩ → (f.rx (x.rcvrEnv r)).frame = g := by
    rintro g rfl
    exact rxFrame_eight g
  by_cases hlong : sfNumDataBytes < x.msg.length
  · have hle : r ≤ x.limit := by
      rw [dialogue_eq hlong] at hlt
      exact Nat.lt_succ_iff.mp (hlt.trans_le ((Dialogue.flow x.total x.limit).sent_le c a))
    cases r with
    | zero =>
        rw [frames_eq hlong, List.getElem?_cons_zero] at hget
        obtain rfl := Option.some.inj hget
        have hf := hframe _ rfl
        have hlen := cantpFfLenGet_ffFrame x.msg x.short
        have hofNat : cantpFfLenGet (ffFrame x.msg x.msg.length) =
            UInt16.ofNat x.msg.length :=
          UInt16.ofNat_toNat.symm.trans (congrArg UInt16.ofNat hlen)
        refine h.deliver_first hlong rfl hf ?_
        rw [RxFrame.SessionAccepts, RxFrame.ffAnswer, hf, hlen, hofNat]
        exact x.accepts hlong
    | succ k =>
        have htotal : k < x.total := Nat.lt_of_lt_of_le hle limit_le_total
        rw [getElem?_frames_succ hlong htotal] at hget
        obtain rfl := Option.some.inj hget
        have hf := hframe _ rfl
        have hcf : RxFrame.IsCf (CantpCanFrame.rx ⟨x.id, x.idt, 8, cfAt x.msg x.msg.length k⟩
            (x.rcvrEnv (k + 1))) x.id := isCf_of_cfAt rfl hf
        by_cases hlast : k + 1 = x.total
        · exact h.deliver_last hlong hle hlast hcf hf
        · exact h.deliver_more hlong hle (by omega) hcf hf
  · have hshort := not_lt.mp hlong
    rw [dialogue, if_pos hshort] at hlt
    obtain rfl := Nat.lt_one_iff.mp hlt
    rw [frames, canonicalFrames, if_pos hshort] at hget
    obtain rfl := Option.some.inj hget
    exact h.deliver_single hshort (hframe _ rfl)

end Deliver

theorem rcvrAt_start (x : Exchange) : x.RcvrAt 0 x.start.rcvr [] [] where
  stage := ⟨rfl, rfl, rfl⟩
  params := rfl
  blIndex _ := by simp [start, CantpRxtxStatus.fresh]
  fcs_eq := by
    rw [dialogue]
    split <;> rfl
  deliveries := by
    have hpos : 0 < x.frames.length := by
      rw [frames, List.length_map, canonicalFrames]
      split <;> simp
    rw [if_pos hpos]
    rfl

end Exchange

end CanTp
