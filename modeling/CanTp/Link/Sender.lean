import CanTp.Link.System

/-!
# The sending node of an exchange

The state of the sender is a function of two numbers, that of the confirmations and
that of the Flow Control frames that came in: `phase` reads it off, `SndrAt` says what
it means. The first Flow Control frame finds the sender in `FF_FC_WAIT` and is
accepted; a second one, at the end of the first block, finds it in `CF_FC_WAIT` and is
dropped.
-/

namespace CanTp

open Library

/-! ### The FC.CTS frame -/

section CtsFrame

variable (p : CantpParams)

theorem nPciT_ctsFrame : (ctsFrame p CantpFrame.zero).nPciT = 3 := by
  simp [ctsFrame, CantpFrame.setFcFs, CantpFrame.setFcBs, CantpFrame.setFcSt,
    CantpNPciType.toUInt8]

theorem fcFs_ctsFrame : (ctsFrame p CantpFrame.zero).fcFs = 0 := by
  simp [ctsFrame, CantpFrame.fcFs, CantpFrame.setFcFs, CantpFrame.setFcBs,
    CantpFrame.setFcSt, CantpFcFlowStatus.toUInt8]

theorem fcBs_ctsFrame : (ctsFrame p CantpFrame.zero).fcBs = p.blockSize := by
  simp [ctsFrame, CantpFrame.fcBs, CantpFrame.setFcBs, CantpFrame.setFcSt,
    CantpFrame.byte_setByte]

theorem fcSt_ctsFrame : (ctsFrame p CantpFrame.zero).fcSt = p.stMin := by
  simp [ctsFrame, CantpFrame.fcSt, CantpFrame.setFcSt, CantpFrame.byte_setByte]

theorem ctsDelay_ctsFrame : ctsDelay (ctsFrame p CantpFrame.zero) = stTimUsOf p.stMin := by
  rw [ctsDelay, fcFs_ctsFrame, fcSt_ctsFrame]
  rfl

end CtsFrame

namespace Exchange

variable (x : Exchange)

/-- The number of Consecutive Frames of the message. -/
def total : Nat := numCfs x.msg.length

/-- The block size of the receiver. -/
def blockSize : Nat := x.rcvrParams.blockSize.toNat

/-- The number of Consecutive Frames the sender sends before it waits for a second
Flow Control frame, or has sent all. -/
def limit : Nat := if 0 < x.blockSize ∧ x.blockSize < x.total then x.blockSize else x.total

/-- How many frames the two nodes send each other. -/
def dialogue : Dialogue :=
  if x.msg.length ≤ sfNumDataBytes then .single else .flow x.total x.limit

/-- The frames of the message on the bus. -/
def frames : List CantpCanFrame :=
  (canonicalFrames x.msg x.msg.length).map fun f => ⟨x.id, x.idt, 8, f⟩

/-- The FC.CTS frame of the receiver on the bus. -/
def fc : CantpCanFrame :=
  ⟨x.rcvrParams.id, x.rcvrParams.idt, 8, ctsFrame x.rcvrParams CantpFrame.zero⟩

/-- The phase of the sender after `c` confirmations and `a` Flow Control frames. -/
def phase (c a : Nat) : Phase :=
  if x.msg.length ≤ sfNumDataBytes then if c = 0 then .sf else .idle
  else if c = 0 then .ff
  else if a = 0 then .ffWait
  else if c ≤ x.limit then .cf c
  else if x.limit = x.total then .idle
  else .cfWait x.limit

/-- The report of a successful transmission. -/
def success : SndrReport :=
  if x.msg.length ≤ sfNumDataBytes then .result .nOk else .txDone

/-- The confirmations on which the sender has entered `CF_FC_WAIT` in a phase. -/
def waitsIn : Phase → List Nat
  | .cfWait k => [k + 1]
  | _ => []

/-- The sender with the calls `out` is where `c` confirmations and `a` Flow Control
frames have led it. -/
structure SndrAt (c a : Nat) (ctx : CantpRxtxStatus) (out : List Act) (waits : List Nat) :
    Prop where
  phase : InPhase x.msg x.msg.length ctx.sndr (x.phase c a)
  params : sfNumDataBytes < x.msg.length → ctx.params.id = x.id ∧ ctx.params.idt = x.idt
  bsPair : 0 < a → ctx.sndr.bsPair = x.rcvrParams.blockSize
  blIndex : c ≤ x.limit → ctx.sndr.blIndex.toNat = if x.blockSize = 0 then 0 else c - 1
  sent : out.filterMap Act.dataFrame = x.frames.take (x.dialogue.sent c a)
  reports : reportsMade out = if x.phase c a = .idle then [x.success] else []
  waits_eq : waits = waitsIn (x.phase c a)

variable {x}

section Segmented

variable {c a : Nat} (hlong : sfNumDataBytes < x.msg.length)
include hlong

theorem total_pos : 0 < x.total := numCfs_pos hlong

theorem limit_pos : 0 < x.limit := by
  have h := total_pos hlong
  rw [limit]
  split <;> omega

theorem phase_opening : x.phase 0 a = .ff := by
  simp [phase, not_le.mpr hlong]

theorem phase_waiting (hc : 0 < c) : x.phase c 0 = .ffWait := by
  simp [phase, not_le.mpr hlong, hc.ne']

theorem phase_sending (hc : 0 < c) (ha : 0 < a) (hle : c ≤ x.limit) :
    x.phase c a = .cf c := by
  simp [phase, not_le.mpr hlong, hc.ne', ha.ne', hle]

theorem phase_end (ha : 0 < a) (hlt : x.limit < c) :
    x.phase c a = if x.limit = x.total then .idle else .cfWait x.limit := by
  simp [phase, not_le.mpr hlong, Nat.ne_of_gt (Nat.zero_lt_of_lt hlt), ha.ne',
    not_le.mpr hlt]

theorem dialogue_eq : x.dialogue = .flow x.total x.limit := if_neg (not_le.mpr hlong)

theorem sent_eq (c a : Nat) :
    x.dialogue.sent c a = if a = 0 then 1 else min (c + 1) (x.limit + 1) := by
  rw [dialogue_eq hlong]
  rfl

theorem frames_eq : x.frames = ⟨x.id, x.idt, 8, ffFrame x.msg x.msg.length⟩ ::
    (List.range x.total).map fun k => ⟨x.id, x.idt, 8, cfAt x.msg x.msg.length k⟩ := by
  rw [frames, canonicalFrames, if_neg (not_le.mpr hlong), canonicalCfs, List.map_cons,
    List.map_map]
  rfl

theorem getElem?_frames_succ {k : Nat} (hk : k < x.total) :
    x.frames[k + 1]? = some ⟨x.id, x.idt, 8, cfAt x.msg x.msg.length k⟩ := by
  rw [frames_eq hlong, List.getElem?_cons_succ, List.getElem?_map, List.getElem?_range hk]
  rfl

theorem take_succ_frames {k : Nat} (hk : k < x.total) :
    x.frames.take (k + 1 + 1) =
      x.frames.take (k + 1) ++ [⟨x.id, x.idt, 8, cfAt x.msg x.msg.length k⟩] := by
  rw [List.take_add_one, getElem?_frames_succ hlong hk]
  rfl

end Segmented

/-! ### What one call of the sender does -/

theorem reportsMade_append (l m : List Act) :
    reportsMade (l ++ m) = reportsMade l ++ reportsMade m := by
  rw [reportsMade, sndrSignals_append, List.filterMap_append]
  rfl

/-- The calls `acts` move the sender from `c` and `a` to `c'` and `a'`: it hands over
the frames in between and makes a report when it becomes idle. -/
structure SndrMoves (x : Exchange) (c a c' a' : Nat) (ctx' : CantpRxtxStatus)
    (acts : List Act) : Prop where
  phase : InPhase x.msg x.msg.length ctx'.sndr (x.phase c' a')
  sent : x.frames.take (x.dialogue.sent c' a') =
    x.frames.take (x.dialogue.sent c a) ++ acts.filterMap Act.dataFrame
  reports : (if x.phase c' a' = .idle then [x.success] else []) =
    (if x.phase c a = .idle then [x.success] else []) ++ reportsMade acts
  bsPair : 0 < a' → ctx'.sndr.bsPair = x.rcvrParams.blockSize
  blIndex : c' ≤ x.limit → ctx'.sndr.blIndex.toNat = if x.blockSize = 0 then 0 else c' - 1

theorem SndrAt.moves {c a c' a' : Nat} {ctx ctx' : CantpRxtxStatus} {out acts : List Act}
    {waits waits' : List Nat} (h : x.SndrAt c a ctx out waits)
    (hm : SndrMoves x c a c' a' ctx' acts) (hp : ctx'.params = ctx.params)
    (hw : waits' = waitsIn (x.phase c' a')) :
    x.SndrAt c' a' ctx' (out ++ acts) waits' where
  phase := hm.phase
  params hlong := by rw [hp]; exact h.params hlong
  bsPair := hm.bsPair
  blIndex := hm.blIndex
  sent := by rw [List.filterMap_append, h.sent, hm.sent]
  reports := by rw [reportsMade_append, h.reports, hm.reports]
  waits_eq := hw

section Confirm

variable {c a : Nat} {ctx : CantpRxtxStatus} {out : List Act} {waits : List Nat}

theorem limit_le_blockSize (h : 0 < x.blockSize) : x.limit ≤ x.blockSize := by
  rw [limit]
  split <;> omega

theorem limit_le_total : x.limit ≤ x.total := by
  rw [limit]
  split <;> omega

theorem limit_eq_blockSize (h : x.limit < x.total) : x.limit = x.blockSize ∧ 0 < x.blockSize := by
  simp only [limit] at *
  split at h
  · rename_i hb
    exact ⟨if_pos hb, hb.1⟩
  · exact absurd h (Nat.lt_irrefl _)

/-- The Consecutive Frame `c` ends a block when it is the last one the sender sends. -/
theorem SndrAt.blockEnds_iff (h : x.SndrAt c a ctx out waits) (hc : 0 < c) (ha : 0 < a)
    (hle : c ≤ x.limit) (hlt : c < x.total) : ctx.sndr.BlockEnds ↔ c = x.limit := by
  have hbs := congrArg UInt8.toNat (h.bsPair ha)
  have hbl := h.blIndex hle
  rw [show x.rcvrParams.blockSize.toNat = x.blockSize from rfl] at hbs
  rw [SndrState.BlockEnds]
  rw [UInt8.lt_iff_toNat_lt, UInt8.le_iff_toNat_le, UInt8.toNat_add, hbs, hbl]
  by_cases hzero : x.blockSize = 0
  · have hlim : x.limit = x.total := by
      rw [limit, hzero]
      rfl
    simp only [hzero, UInt8.reduceToNat]
    omega
  · have hmax := limit_le_blockSize (Nat.pos_of_ne_zero hzero)
    have hbyte := x.rcvrParams.blockSize.toNat_lt
    have hlim := limit_eq_blockSize (x := x)
    rw [show x.rcvrParams.blockSize.toNat = x.blockSize from rfl] at hbyte
    rw [if_neg hzero]
    simp only [UInt8.reduceToNat]
    omega

theorem SndrAt.toNat_counted (h : x.SndrAt c a ctx out waits) (hc : 0 < c) (ha : 0 < a)
    (hle : c ≤ x.limit) :
    ctx.sndr.counted.toNat = if x.blockSize = 0 then 0 else c + 1 - 1 := by
  have hbs := h.bsPair ha
  have hbl := h.blIndex hle
  have hpos : 0 < x.rcvrParams.blockSize ↔ ¬ x.blockSize = 0 := by
    rw [UInt8.lt_iff_toNat_lt]
    exact Nat.pos_iff_ne_zero
  rw [SndrState.counted, hbs]
  by_cases hzero : x.blockSize = 0
  · rw [if_neg fun h => hpos.mp h hzero, hbl, if_pos hzero, if_pos hzero]
  · have hmax := limit_le_blockSize (Nat.pos_of_ne_zero hzero)
    have hbyte : x.blockSize < 256 := x.rcvrParams.blockSize.toNat_lt
    rw [if_neg hzero] at hbl
    rw [if_pos (hpos.mpr hzero), if_neg hzero, UInt8.toNat_add, hbl]
    simp only [UInt8.reduceToNat]
    omega

theorem SndrAt.confirm_opening (h : x.SndrAt 0 0 ctx out waits)
    (hlong : sfNumDataBytes < x.msg.length) :
    SndrMoves x 0 0 1 0 (canTp.step ctx .cantxConfirmCb).1
      (canTp.step ctx .cantxConfirmCb).2 ∧
      (canTp.step ctx .cantxConfirmCb).1.params = ctx.params := by
  have hph : InPhase x.msg x.msg.length ctx.sndr .ff := phase_opening hlong ▸ h.phase
  have hbl := h.blIndex (Nat.zero_le _)
  rw [canTp_step, handle, confirm_ffSending (by exact hph.1)]
  refine ⟨⟨?_, ?_, ?_, fun h => absurd h (Nat.lt_irrefl 0), fun _ => by simpa using hbl⟩, rfl⟩
  · rw [phase_waiting hlong Nat.one_pos]
    exact hph.opened _
  · rw [sent_eq hlong, sent_eq hlong]
    exact (List.append_nil _).symm
  · rw [phase_opening hlong, phase_waiting hlong Nat.one_pos]
    rfl

theorem dataFrames_sentCf {w : World} (h : w.log.filterMap Act.dataFrame = []) :
    (sentCf w).log.filterMap Act.dataFrame =
      [⟨w.ctx.params.id, w.ctx.params.idt, 8, w.ctx.sndr.nextCf⟩] := by
  rw [sentCf, List.filterMap_append, h, filterMap_cfActs fun _ => rfl]
  rfl

theorem reportsMade_sentCf {w : World} (h : sndrSignals w.log = []) :
    reportsMade (sentCf w).log = [] := by
  rw [reportsMade, sentCf, sndrSignals_append, h, sndrSignals_cfActs]
  rfl

theorem SndrMoves.sentCf {w : World} {k c' a' : Nat} (hlong : sfNumDataBytes < x.msg.length)
    (hcur : Cursor x.msg x.msg.length w.ctx.sndr k) (hk : k < x.limit)
    (hsn : w.ctx.sndr.sn.toNat = (k + 1) % 16)
    (hid : w.ctx.params.id = x.id ∧ w.ctx.params.idt = x.idt)
    (hdata : w.log.filterMap Act.dataFrame = []) (hsig : sndrSignals w.log = [])
    (hbefore : x.dialogue.sent c a = k + 1) (hnot : x.phase c a ≠ .idle)
    (hafter : x.dialogue.sent c' a' = k + 1 + 1) (hphase : x.phase c' a' = .cf (k + 1))
    (hbs : w.ctx.sndr.bsPair = x.rcvrParams.blockSize)
    (hbl : w.ctx.sndr.blIndex.toNat = if x.blockSize = 0 then 0 else c' - 1) :
    SndrMoves x c a c' a' (CanTp.sentCf w).ctx (CanTp.sentCf w).log := by
  have htotal : k < x.total := hk.trans_le limit_le_total
  refine ⟨?_, ?_, ?_, fun _ => hbs, fun _ => hbl⟩
  · rw [hphase]
    exact hcur.afterCf htotal hsn
  · rw [hbefore, hafter, dataFrames_sentCf hdata, hcur.nextCf_eq htotal hsn, hid.1, hid.2,
      take_succ_frames hlong htotal]
  · rw [hphase, if_neg hnot, reportsMade_sentCf hsig]
    rfl

theorem SndrAt.confirm_sending (h : x.SndrAt c a ctx out waits)
    (hlong : sfNumDataBytes < x.msg.length) (hc : 0 < c) (ha : 0 < a) (hle : c ≤ x.limit) :
    SndrMoves x c a (c + 1) a (canTp.step ctx .cantxConfirmCb).1
      (canTp.step ctx .cantxConfirmCb).2 ∧
      (canTp.step ctx .cantxConfirmCb).1.params = ctx.params := by
  have hphase := phase_sending hlong hc ha hle
  have hends := h.blockEnds_iff hc ha hle
  have hbs := h.bsPair ha
  have hbl := h.blIndex hle
  have hlim := limit_le_total (x := x)
  have hph : InPhase x.msg x.msg.length ctx.sndr (.cf c) := hphase ▸ h.phase
  obtain ⟨hcur, -, hsn⟩ := hph.2
  have hnotIdle : x.phase c a ≠ .idle := by
    rw [hphase]
    exact Phase.noConfusion
  have hsent := sent_eq hlong c a
  have hsent' := sent_eq hlong (c + 1) a
  rw [if_neg ha.ne'] at hsent hsent'
  -- At the limit no further frame is handed over.
  have hstop : c = x.limit → x.dialogue.sent (c + 1) a = x.dialogue.sent c a := by
    intro heq
    rw [hsent, hsent', heq]
    omega
  have hconf := hph.confirmed
  rw [canTp_step, handle]
  generalize cantpCantxConfirmCb ⟨ctx, []⟩ = w at hconf ⊢
  cases hconf with
  | ignored hnot => exact absurd (Or.inr (Or.inr rfl)) hnot
  | last hlast =>
      obtain rfl : c = x.total := hlast
      have hend : x.phase (x.total + 1) a = .idle := by
        rw [phase_end hlong ha (by omega), if_pos (by omega)]
      refine ⟨⟨by rw [hend]; rfl, ?_, ?_, fun _ => hbs, fun hle' => by omega⟩, rfl⟩
      · rw [hstop (hle.antisymm hlim)]
        exact (List.append_nil _).symm
      · rw [hend, if_pos rfl, if_neg hnotIdle, success, if_neg (not_le.mpr hlong)]
        rfl
  | blockEnd hlt hb =>
      have htotal : c < x.total := hlt
      have hblock := (hends htotal).mp hb
      have hend : x.phase (c + 1) a = .cfWait c := by
        rw [phase_end hlong ha (by omega), if_neg (by omega), ← hblock]
      refine ⟨⟨?_, ?_, ?_, fun _ => hbs, fun hle' => by omega⟩, rfl⟩
      · rw [hend]
        exact hph.blockEnded hlt _
      · rw [hstop hblock]
        exact (List.append_nil _).symm
      · rw [hend, if_neg hnotIdle]
        rfl
  | next hlt hb =>
      have hmore : c < x.limit := lt_of_le_of_ne hle fun heq => hb ((hends hlt).mpr heq)
      refine ⟨.sentCf hlong (hcur.of_eq rfl rfl rfl) hmore (toNat_nextSn hsn)
        (h.params hlong) ?_ ?_ (by omega) hnotIdle (by omega)
        (phase_sending hlong (Nat.succ_pos c) ha hmore) hbs ?_, rfl⟩
      · by_cases hus : ctx.sndr.stTimUs > 0 <;> simp [hus, Act.dataFrame]
      · exact sndrSignals_pause _
      · exact h.toNat_counted hc ha hle

theorem SndrAt.confirm_single (h : x.SndrAt 0 a ctx out waits)
    (hshort : x.msg.length ≤ sfNumDataBytes) :
    SndrMoves x 0 a 1 a (canTp.step ctx .cantxConfirmCb).1
      (canTp.step ctx .cantxConfirmCb).2 ∧
      (canTp.step ctx .cantxConfirmCb).1.params = ctx.params := by
  have hbefore : x.phase 0 a = .sf := by simp [Exchange.phase, hshort]
  have hafter : x.phase 1 a = .idle := by simp [Exchange.phase, hshort]
  have hin := h.phase
  rw [hbefore] at hin
  have hbl := h.blIndex (Nat.zero_le _)
  rw [canTp_step, handle, confirm_sfSending (by exact hin)]
  refine ⟨⟨by rw [hafter]; rfl, ?_, ?_, h.bsPair, fun _ => by simpa using hbl⟩, rfl⟩
  · rw [dialogue, if_pos hshort]
    exact (List.append_nil _).symm
  · rw [hbefore, hafter, if_pos rfl, success, if_pos hshort]
    rfl

theorem confirm_cases (hlt : c < x.dialogue.sent c a) (hopen : 0 < a → 0 < c) :
    x.msg.length ≤ sfNumDataBytes ∧ c = 0 ∨
      sfNumDataBytes < x.msg.length ∧ (c = 0 ∧ a = 0 ∨ 0 < c ∧ 0 < a ∧ c ≤ x.limit) := by
  by_cases hlong : sfNumDataBytes < x.msg.length
  · rw [sent_eq hlong] at hlt
    by_cases ha : a = 0
    · rw [if_pos ha] at hlt
      exact Or.inr ⟨hlong, Or.inl ⟨by omega, ha⟩⟩
    · rw [if_neg ha] at hlt
      exact Or.inr ⟨hlong, Or.inr ⟨hopen (Nat.pos_of_ne_zero ha), Nat.pos_of_ne_zero ha,
        by omega⟩⟩
  · rw [dialogue, if_pos (not_lt.mp hlong)] at hlt
    exact Or.inl ⟨not_lt.mp hlong, Nat.lt_one_iff.mp hlt⟩

theorem SndrAt.confirm (h : x.SndrAt c a ctx out waits)
    (hlt : c < x.dialogue.sent c a) (hopen : 0 < a → 0 < c) :
    SndrMoves x c a (c + 1) a (canTp.step ctx .cantxConfirmCb).1
      (canTp.step ctx .cantxConfirmCb).2 ∧
      (canTp.step ctx .cantxConfirmCb).1.params = ctx.params := by
  obtain ⟨hshort, rfl⟩ | ⟨hlong, ⟨rfl, rfl⟩ | ⟨hc, ha, hle⟩⟩ := confirm_cases hlt hopen
  · exact h.confirm_single hshort
  · exact h.confirm_opening hlong
  · exact h.confirm_sending hlong hc ha hle

/-- The sender does not wait in `CF_FC_WAIT` for a confirmation, and enters that state on
the confirmation of the last frame of its block. -/
theorem waitsIn_confirm (hlt : c < x.dialogue.sent c a) (hopen : 0 < a → 0 < c) :
    (x.phase c a).state ≠ .cfFcWait ∧ waitsIn (x.phase c a) = [] ∧
      waitsIn (x.phase (c + 1) a) =
        if (x.phase (c + 1) a).state = .cfFcWait then [c + 1] else [] := by
  obtain ⟨hshort, rfl⟩ | ⟨hlong, ⟨rfl, rfl⟩ | ⟨hc, ha, hle⟩⟩ := confirm_cases hlt hopen
  · simp [Exchange.phase, hshort, Phase.state, waitsIn]
  · rw [phase_opening hlong, phase_waiting hlong Nat.one_pos]
    simp [Phase.state, waitsIn]
  · rw [phase_sending hlong hc ha hle]
    refine ⟨by simp [Phase.state], rfl, ?_⟩
    by_cases hmore : c < x.limit
    · rw [phase_sending hlong (Nat.succ_pos c) ha hmore]
      simp [Phase.state, waitsIn]
    · obtain rfl : c = x.limit := by omega
      rw [phase_end hlong ha (Nat.lt_succ_self _)]
      split <;> simp [Phase.state, waitsIn]

end Confirm

/-! ### Flow Control -/

section Answer

variable {c a k : Nat} {ctx : CantpRxtxStatus} {out : List Act} {waits : List Nat}
  (env : Env)

theorem frame_rx_fc : (x.fc.rx env).frame = ctsFrame x.rcvrParams CantpFrame.zero :=
  rxFrame_eight _

theorem pci_rx_fc : (x.fc.rx env).pci = some .flowControll := by
  rw [RxFrame.pci, frame_rx_fc, nPciT_ctsFrame]
  rfl

theorem SndrAt.answer_first (h : x.SndrAt c 0 ctx out waits)
    (hlong : sfNumDataBytes < x.msg.length) (hc : c = 1) :
    SndrMoves x c 0 c 1 (canTp.step ctx (.canrxCb (x.fc.rx env))).1
      (canTp.step ctx (.canrxCb (x.fc.rx env))).2 ∧
      (canTp.step ctx (.canrxCb (x.fc.rx env))).1.params = ctx.params := by
  subst hc
  have hlim := limit_pos hlong
  have hbl := h.blIndex hlim
  have hwait := phase_waiting hlong Nat.one_pos
  have hin := h.phase
  rw [hwait] at hin
  obtain ⟨hst, hcur, hsn⟩ := hin
  obtain ⟨us, hus⟩ := Option.isSome_iff_exists.mp x.stMin
  have hcts : ctsDelay (x.fc.rx env).frame = some us := by
    rw [frame_rx_fc, ctsDelay_ctsFrame, hus]
  have hbs : (x.fc.rx env).frame.fcBs = x.rcvrParams.blockSize := by
    rw [frame_rx_fc, fcBs_ctsFrame]
  have hstep : handle (.canrxCb (x.fc.rx env)) ⟨ctx, []⟩ =
      CanTp.sentCf ⟨{ ctx with
        sndr := ctx.sndr.withFc (x.fc.rx env).id (x.fc.rx env).frame us .nCs },
        [.printCantpFrame (x.fc.rx env).frame]⟩ := by
    rw [canrx_flowControll (pci_rx_fc env), canrxFlowControll_take (by exact hst),
      flowControl_cts hcts (by exact hcur.remaining_pos (numCfs_pos hlong))]
    rfl
  rw [canTp_step, hstep]
  generalize (x.fc.rx env).frame = f at hbs
  refine ⟨.sentCf hlong (hcur.of_eq rfl rfl rfl) hlim hsn (h.params hlong) rfl rfl ?_ ?_ ?_
    (phase_sending hlong Nat.one_pos Nat.one_pos hlim) hbs hbl, rfl⟩
  · rw [sent_eq hlong, if_pos rfl]
  · rw [hwait]
    exact Phase.noConfusion
  · rw [sent_eq hlong, if_neg Nat.one_ne_zero]
    omega

/-- A second Flow Control frame is dropped: the sender is in `CF_FC_WAIT`. -/
theorem SndrAt.answer_second (h : x.SndrAt c a ctx out waits)
    (hlong : sfNumDataBytes < x.msg.length) (ha : 0 < a) (hblock : x.limit < x.total)
    (hlt : x.limit < c) :
    canTp.step ctx (.canrxCb (x.fc.rx env)) =
      (ctx, [.sndrStateSemTake (1000 * nBsTimerMs)]) := by
  have hin := h.phase
  rw [phase_end hlong ha hlt, if_neg hblock.ne] at hin
  have hst : ctx.sndr.state ≠ .ffFcWait := by
    rw [hin.1]
    exact CantpState.noConfusion
  rw [canTp_step, canrx_flowControll (pci_rx_fc env), canrxFlowControll_drop (by exact hst)]
  rfl

theorem SndrAt.answer {r : Nat} (h : x.SndrAt c a ctx out waits)
    (hget : (x.dialogue.answers r)[a]? = some k) (hk : k ≤ c)
    (hc : c ≤ x.dialogue.sent c a) :
    x.SndrAt c (a + 1) (canTp.step ctx (.canrxCb (x.fc.rx env))).1
      (out ++ (canTp.step ctx (.canrxCb (x.fc.rx env))).2) waits := by
  by_cases hlong : sfNumDataBytes < x.msg.length
  · rw [dialogue_eq hlong] at hget
    rw [sent_eq hlong] at hc
    cases a with
    | zero =>
        have hlen := (List.getElem?_eq_some_iff.mp hget).1
        have hr : 0 < r := Nat.pos_of_ne_zero fun hr => by
          rw [hr] at hlen
          exact absurd hlen (Nat.lt_irrefl 0)
        rw [if_pos rfl] at hc
        obtain rfl := Option.some.inj
          ((Dialogue.getElem?_flowAnswers_zero x.total x.limit hr).symm.trans hget)
        have hone : c = 1 := by omega
        obtain ⟨hmoves, hp⟩ := h.answer_first env hlong hone
        refine h.moves hmoves hp ?_
        rw [h.waits_eq, hone, phase_waiting hlong Nat.one_pos,
          phase_sending hlong Nat.one_pos Nat.one_pos (limit_pos hlong)]
        rfl
    | succ a =>
        obtain ⟨hblock, rfl⟩ := Dialogue.getElem?_flowAnswers_succ hget
        rw [h.answer_second env hlong (Nat.succ_pos a) hblock hk]
        have hphase : x.phase c (a + 1 + 1) = x.phase c (a + 1) := by
          rw [phase_end hlong (Nat.succ_pos _) hk, phase_end hlong (Nat.succ_pos _) hk]
        refine ⟨hphase ▸ h.phase, h.params, fun _ => h.bsPair (Nat.succ_pos a), h.blIndex,
          ?_, ?_, hphase ▸ h.waits_eq⟩
        · rw [List.filterMap_append, h.sent, sent_eq hlong, sent_eq hlong,
            if_neg (Nat.succ_ne_zero _), if_neg (Nat.succ_ne_zero _)]
          exact List.append_nil _
        · rw [reportsMade_append, h.reports, hphase]
          exact List.append_nil _
  · rw [dialogue, if_pos (not_lt.mp hlong)] at hget
    cases hget

end Answer

/-! ### The start -/

theorem sndrAt_start (x : Exchange) : x.SndrAt 0 0 x.start.sndr x.start.sndrOut [] := by
  have hlen : (UInt16.ofNat x.msg.length).toNat = x.msg.length := by
    rw [UInt16.toNat_ofNat']
    have hshort := x.short
    omega
  by_cases hlong : sfNumDataBytes < x.msg.length
  · rw [start, canTp_step, handle, send_segmented (by rwa [hlen])]
    refine ⟨?_, fun _ => ⟨rfl, rfl⟩, fun h => absurd h (Nat.lt_irrefl 0),
      fun _ => by simp [CantpRxtxStatus.fresh], ?_, ?_, ?_⟩
    · rw [phase_opening hlong]
      exact ⟨rfl, rfl, hlen, hlong⟩
    · rw [sent_eq hlong, frames_eq hlong, hlen]
      rfl
    · rw [phase_opening hlong]
      rfl
    · rw [phase_opening hlong]
      rfl
  · have hshort := not_lt.mp hlong
    have hphase : x.phase 0 0 = .sf := by simp [Exchange.phase, hshort]
    rw [start, canTp_step, handle, send_single (by rwa [hlen])]
    refine ⟨?_, fun h => absurd h hlong, fun h => absurd h (Nat.lt_irrefl 0),
      fun _ => by simp [CantpRxtxStatus.fresh], ?_, ?_, ?_⟩
    · rw [hphase]
      rfl
    · rw [dialogue, if_pos hshort, frames, canonicalFrames, if_pos hshort, hlen]
      rfl
    · rw [hphase]
      rfl
    · rw [hphase]
      rfl

end Exchange

end CanTp
