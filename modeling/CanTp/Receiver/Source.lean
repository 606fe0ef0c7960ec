import CanTp.Receiver.Wire
import CanTp.Library.Ghost

/-!
# The source of a message

The session layer is told where a message comes from: with the First Frame, and with the
message itself. A Single Frame is delivered under the CAN id of the frame; the last
Consecutive Frame delivers under the id in the parameters, which is the id the node itself
sends with. To say what the right answer is, the context is run with the frames that carry
the message in reception.
-/

namespace CanTp

open Library

/-- The CAN id and type under which the session layer is told of a message. -/
def Act.source : Act → Option (UInt32 × UInt8)
  | .receivedCb id idt _ _ | .rcvrRxFfCb id idt _ => some (id, idt)
  | _ => none

/-- The sources named in a log. -/
def sources (log : List Act) : List (UInt32 × UInt8) := log.filterMap Act.source

/-- The CAN id and type of a frame. -/
def RxFrame.source (r : RxFrame) : UInt32 × UInt8 := (r.id, r.idt)

/-- The frame `r` begins a message: a Single Frame, or a First Frame in `IDLE`. -/
def BeginsMessage (c : CantpRxtxStatus) (r : RxFrame) : Prop :=
  r.pci = some .singleFrame ∨ (r.pci = some .firstFrame ∧ c.rcvr.state = .idle)

instance (c : CantpRxtxStatus) (r : RxFrame) : Decidable (BeginsMessage c r) :=
  inferInstanceAs (Decidable (_ ∨ _))

instance (c : CantpRxtxStatus) (r : RxFrame) : Decidable (CompletedBy c r) :=
  inferInstanceAs (Decidable (_ ∧ _))

/-- The frames that carry the message in reception, after the call `e`: the frame that
began it and every Consecutive Frame whose data is stored. -/
def carriersAfter (c : CantpRxtxStatus) (fs : List RxFrame) : Event → List RxFrame
  | .canrxCb r =>
      if BeginsMessage c r then [r]
      else if TakesCf c r then fs ++ [r]
      else fs
  | _ => fs

/-- The machine of one context, with the frames of the message in reception. -/
def canTpCarried : Mealy (CantpRxtxStatus × List RxFrame) Event Act :=
  canTp.withGhost carriersAfter

/-- What the call `e` tells the session layer names the source of every frame that carried
the message. -/
def NamesSource (s : CantpRxtxStatus × List RxFrame) (e : Event) : Prop :=
  ∀ src ∈ sources (canTp.step s.1 e).2, ∀ f ∈ carriersAfter s.1 s.2 e, f.source = src

/-- A frame that completes a segmented message comes from the id that is in the parameters,
and all frames of the message have the type that is in the parameters. -/
def SourceFits (s : CantpRxtxStatus × List RxFrame) : Event → Prop
  | .canrxCb r => CompletedBy s.1 r →
      s.1.params.id = r.id ∧ ∀ f ∈ s.2 ++ [r], f.idt = s.1.params.idt
  | _ => True

/-- The frames of a reception come from the paired node. -/
def CarriersPaired (s : CantpRxtxStatus × List RxFrame) : Prop :=
  s.1.rcvr.state = .fcSent → ∀ f ∈ s.2, f.id = s.1.rcvr.idPair

/-! ### What a call names -/

section Sources

variable {c : CantpRxtxStatus} {r : RxFrame} {w : World} {log : List Act}
  {src : UInt32 × UInt8}

theorem sources_eq_nil (h : ∀ a ∈ log, a.source = none) : sources log = [] :=
  List.filterMap_eq_nil_iff.mpr h

theorem sources_append (l m : List Act) : sources (l ++ m) = sources l ++ sources m :=
  List.filterMap_append

theorem source_of_await {env : Env} {a : Act} (ha : a.IsAwait env) : a.source = none := by
  cases a <;> first | rfl | exact ha.elim

theorem source_of_cfWrites {s : RcvrState} {f : CantpFrame} {a : Act}
    (ha : a ∈ s.cfWrites f) : a.source = none := by
  obtain ⟨i, -, rfl⟩ := List.mem_map.mp ha
  rfl

theorem source_of_ofFlow {a : Act} (ha : a.OfFlow) : a.source = none := by
  cases a <;> first | rfl | exact ha.elim

theorem mem_sources_ffLog {f : CantpFrame} {v : World}
    (hsrc : src ∈ sources (ffLog r ⟨c, [.printCantpFrame r.frame]⟩ ++ fcActs r.env f v)) :
    src = r.source := by
  obtain ⟨a, ha, hsome⟩ := List.mem_filterMap.mp hsrc
  rcases List.mem_append.mp ha with ha | ha
  · rcases mem_ffLog ha with hlog | rfl | ⟨i, b, rfl⟩ | ⟨f, rfl⟩
    · rw [List.mem_singleton.mp hlog] at hsome
      cases hsome
    · exact (Option.some.inj hsome).symm
    · cases hsome
    · cases hsome
  · rw [source_of_await (isAwait_fcActs ha)] at hsome
    cases hsome

theorem sources_cfLast {d : Option (List UInt8)} {l : UInt8} (f : CantpFrame) (s : RcvrState) :
    sources (.printCantpFrame f :: (s.cfWrites f ++
      [.receivedCb c.params.id c.params.idt d l])) = [(c.params.id, c.params.idt)] := by
  have hwrites := sources_eq_nil fun a (ha : a ∈ s.cfWrites f) => source_of_cfWrites ha
  change sources (s.cfWrites f ++ _) = _
  rw [sources_append, hwrites]
  rfl

theorem not_completedBy_of_pci (h : r.pci ≠ some .consecFrame) : ¬ CompletedBy c r :=
  fun hdone => h hdone.1.1

/-- A frame that completes a segmented message names the parameters; any other frame that
names a source begins a message and names its own. -/
theorem RxOutcome.sources (h : RxOutcome c r w) :
    (CompletedBy c r ∧ sources w.log = [(c.params.id, c.params.idt)]) ∨
      (¬ CompletedBy c r ∧
        ∀ src ∈ sources w.log, BeginsMessage c r ∧ src = r.source) := by
  cases h with
  | unknown hpci =>
      exact Or.inr ⟨not_completedBy_of_pci (by simp [hpci]), fun _ hsrc => by cases hsrc⟩
  | flow hpci s log _ _ hlog =>
      refine Or.inr ⟨not_completedBy_of_pci (by simp [hpci]), fun src hsrc => ?_⟩
      rw [sources_eq_nil fun a ha => source_of_ofFlow (hlog a ha)] at hsrc
      cases hsrc
  | single hpci =>
      exact Or.inr ⟨not_completedBy_of_pci (by simp [hpci]),
        fun src hsrc => ⟨Or.inl hpci, List.mem_singleton.mp hsrc⟩⟩
  | ffIgnored hpci =>
      exact Or.inr ⟨not_completedBy_of_pci (by simp [hpci]), fun _ hsrc => by cases hsrc⟩
  | ffRefused hpci hst | ffAbandoned hpci hst =>
      exact Or.inr ⟨not_completedBy_of_pci (by simp [hpci]),
        fun src hsrc => ⟨Or.inr ⟨hpci, hst⟩, List.mem_singleton.mp hsrc⟩⟩
  | ffAccepted hst buf h =>
      exact Or.inr ⟨not_completedBy_of_pci (by simp [h.pci]),
        fun src hsrc => ⟨Or.inr ⟨h.pci, hst⟩, mem_sources_ffLog hsrc⟩⟩
  | cfIgnored _ hst =>
      exact Or.inr ⟨fun hdone => hst hdone.1.2.1, fun _ hsrc => by cases hsrc⟩
  | cfForeign _ _ hid =>
      exact Or.inr ⟨fun hdone => hid hdone.1.2.2.1, fun _ hsrc => by cases hsrc⟩
  | cfRejected _ _ _ htake =>
      exact Or.inr ⟨fun hdone => htake hdone.1.2.2, fun _ hsrc => by cases hsrc⟩
  | cfLast h => exact Or.inl ⟨h, sources_cfLast _ _⟩
  | cfMore h =>
      obtain ⟨⟨acts, hlog, hacts⟩, -⟩ :=
        awaits_rcvrAwaitNext r.env (w := ⟨{ c with rcvr := c.rcvr.storeCf r.frame },
          .printCantpFrame r.frame :: c.rcvr.cfWrites r.frame⟩) h.1.2.1
      have hnil : CanTp.sources (rcvrAwaitNext r.env
          ⟨{ c with rcvr := c.rcvr.storeCf r.frame },
            .printCantpFrame r.frame :: c.rcvr.cfWrites r.frame⟩).log = [] := by
        refine sources_eq_nil fun a ha => ?_
        rw [hlog] at ha
        rcases List.mem_append.mp ha with ha | ha
        · rcases List.mem_cons.mp ha with rfl | ha
          · rfl
          · exact source_of_cfWrites ha
        · exact source_of_await (hacts a ha)
      exact Or.inr ⟨fun hdone => h.2 hdone.2, fun src hsrc => by rw [hnil] at hsrc; cases hsrc⟩

theorem BeginsMessage.not_takesCf (h : BeginsMessage c r) : ¬ TakesCf c r := by
  rintro ⟨hcf, -⟩
  rcases h with hpci | ⟨hpci, -⟩ <;> simp [hpci] at hcf

theorem carriersAfter_begins {fs : List RxFrame} (h : BeginsMessage c r) :
    carriersAfter c fs (.canrxCb r) = [r] := if_pos h

theorem carriersAfter_takes {fs : List RxFrame} (h : TakesCf c r) :
    carriersAfter c fs (.canrxCb r) = fs ++ [r] :=
  (if_neg fun hb => hb.not_takesCf h).trans (if_pos h)

theorem carriersAfter_other {fs : List RxFrame} (hb : ¬ BeginsMessage c r)
    (ht : ¬ TakesCf c r) : carriersAfter c fs (.canrxCb r) = fs :=
  (if_neg hb).trans (if_neg ht)

end Sources

/-! ### One call -/

section Step

variable {c : CantpRxtxStatus} {fs : List RxFrame} {r : RxFrame} {e : Event} {w : World}

/-- A frame names the source of its message exactly if the last frame of it fits. -/
theorem canrx_namesSource_iff (hs : CarriersPaired (c, fs)) :
    NamesSource (c, fs) (.canrxCb r) ↔ SourceFits (c, fs) (.canrxCb r) := by
  rcases (rx_outcome c r).sources with ⟨hdone, hnames⟩ | ⟨hdone, hnames⟩
  · obtain ⟨⟨-, hst, hid, -⟩, -⟩ := id hdone
    have hall : ∀ f ∈ fs ++ [r], f.id = r.id := fun f hf =>
      (List.mem_append.mp hf).elim (fun hf => (hs hst f hf).trans hid) fun hf => by
        rw [List.mem_singleton.mp hf]
    rw [NamesSource, SourceFits, canTp_step, hnames, carriersAfter_takes hdone.1]
    constructor
    · intro h _
      have hsame := h _ (List.mem_singleton_self _)
      refine ⟨?_, fun f hf => congrArg Prod.snd (hsame f hf)⟩
      exact (congrArg Prod.fst (hsame r (List.mem_append_right fs (by simp)))).symm
    · intro h src hsrc f hf
      obtain ⟨hparams, hidt⟩ := h hdone
      rw [List.mem_singleton.mp hsrc, RxFrame.source, hall f hf, hidt f hf, hparams]
  · refine iff_of_true (fun src hsrc f hf => ?_) fun h => absurd h hdone
    obtain ⟨hbegins, rfl⟩ := hnames src hsrc
    rw [carriersAfter_begins hbegins] at hf
    rw [List.mem_singleton.mp hf]

/-- The frames of a reception go on coming from the paired node. -/
theorem RxOutcome.carriersPaired (h : RxOutcome c r w) (hs : CarriersPaired (c, fs)) :
    CarriersPaired (w.ctx, carriersAfter c fs (.canrxCb r)) := by
  have hother : ∀ {d : CantpRxtxStatus}, d.rcvr.state = c.rcvr.state →
      d.rcvr.idPair = c.rcvr.idPair → ¬ BeginsMessage c r → ¬ TakesCf c r →
      CarriersPaired (d, carriersAfter c fs (.canrxCb r)) := by
    intro d hst hid hb ht hfc f hf
    rw [carriersAfter_other hb ht] at hf
    exact (hs (hst.symm.trans hfc) f hf).trans hid.symm
  cases h with
  | unknown hpci =>
      exact hother rfl rfl (by simp [BeginsMessage, hpci]) (by simp [TakesCf, hpci])
  | flow hpci =>
      exact hother rfl rfl (by simp [BeginsMessage, hpci]) (by simp [TakesCf, hpci])
  | single | ffRefused | ffAbandoned | cfLast => exact fun hfc => by cases hfc
  | ffIgnored hpci hst =>
      exact hother rfl rfl (by simp [BeginsMessage, hpci, hst]) (by simp [TakesCf, hpci])
  | ffAccepted hst buf h =>
      intro _ f hf
      rw [carriersAfter_begins (Or.inr ⟨h.pci, hst⟩)] at hf
      rw [List.mem_singleton.mp hf]
      rfl
  | cfIgnored hpci hst =>
      exact hother rfl rfl (by simp [BeginsMessage, hpci]) (by simp [TakesCf, hst])
  | cfForeign hpci hst hid =>
      exact hother rfl rfl (by simp [BeginsMessage, hpci]) fun ht => hid ht.2.2.1
  | cfRejected hpci hst hid htake =>
      exact hother rfl rfl (by simp [BeginsMessage, hpci]) fun ht => htake ht.2.2
  | cfMore h =>
      obtain ⟨-, ⟨wft, t, hrcvr⟩, -⟩ :=
        awaits_rcvrAwaitNext r.env (w := ⟨{ c with rcvr := c.rcvr.storeCf r.frame },
          .printCantpFrame r.frame :: c.rcvr.cfWrites r.frame⟩) h.1.2.1
      intro _ f hf
      rw [carriersAfter_takes h.1] at hf
      rw [hrcvr]
      rcases List.mem_append.mp hf with hf | hf
      · exact hs h.1.2.1 f hf
      · rw [List.mem_singleton.mp hf]
        exact h.1.2.2.1.symm

theorem step_carriersPaired (hs : CarriersPaired (c, fs)) (e : Event) :
    CarriersPaired ((canTp.step c e).1, carriersAfter c fs e) := by
  cases e with
  | canrxCb r => exact (rx_outcome c r).carriersPaired hs
  | rcvrTimerCb => exact hs
  | send | cantxConfirmCb | sndrTimerCb | sndrTimerExpiry =>
      intro hfc f hf
      rw [(sndr_effect c rfl).rcvr_eq] at hfc ⊢
      exact hs hfc f hf

theorem sources_sndr (he : e.isSndr = true) : sources (canTp.step c e).2 = [] := by
  refine sources_eq_nil fun a ha => ?_
  have hrole := (sndr_effect c he).acts a ha
  cases a <;> first | rfl | cases hrole

theorem step_namesSource_iff (hs : CarriersPaired (c, fs)) (e : Event) :
    NamesSource (c, fs) e ↔ SourceFits (c, fs) e := by
  cases e with
  | canrxCb r => exact canrx_namesSource_iff hs
  | rcvrTimerCb => exact iff_of_true (fun src hsrc => by cases hsrc) trivial
  | send | cantxConfirmCb | sndrTimerCb | sndrTimerExpiry =>
      refine iff_of_true (fun src hsrc => ?_) trivial
      rw [sources_sndr rfl] at hsrc
      cases hsrc

end Step

/-- The frames that are remembered change nothing of what a context does. -/
theorem canTpCarried_outputs (c : CantpRxtxStatus) (fs : List RxFrame) (es : List Event) :
    canTpCarried.outputs (c, fs) es = canTp.outputs c es ∧
      (canTpCarried.run (c, fs) es).1 = canTp.run c es :=
  ⟨Mealy.outputs_withGhost (c, fs) es, Mealy.run_withGhost (c, fs) es⟩

/-- In every run of a context: what the session layer is told names the frames that carried
the message exactly if every segmented message is completed by a node whose id and type are
those in the parameters. -/
theorem namesSource_iff (p : CantpParams) (es : List Event) :
    canTpCarried.Admits NamesSource (.fresh p, []) es ↔
      canTpCarried.Admits SourceFits (.fresh p, []) es :=
  Mealy.admits_congr_of (P := CarriersPaired) (fun _ e hs => step_namesSource_iff hs e)
    (fun _ e hs _ => step_carriersPaired hs e) (fun hfc => by cases hfc)

/-- Twenty bytes from the node `5` are delivered as the bytes of the node `0`. -/
theorem not_namesSource :
    ¬ ∀ (p : CantpParams) (es : List Event),
      canTpCarried.Admits NamesSource (.fresh p, []) es := by
  intro h
  obtain ⟨-, -, hlast, -⟩ := h ⟨0, 0, 0, 0, 0, 0, 0, 0⟩
    [.canrxCb (.ofFrame .accepting 5 0 (.ofList [0x10, 20, 1, 2, 3, 4, 5, 6])),
      .canrxCb (.ofFrame .accepting 5 0 (.ofList [0x21, 7, 8, 9, 10, 11, 12, 13])),
      .canrxCb (.ofFrame .accepting 5 0 (.ofList [0x22, 14, 15, 16, 17, 18, 19, 20]))]
  have hsource := hlast (0, 0) (by decide)
    (.ofFrame .accepting 5 0 (.ofList [0x22, 14, 15, 16, 17, 18, 19, 20]))
    (by rw [carriersAfter_takes (by decide)]; exact List.mem_append_right _ (by simp))
  exact absurd hsource (by decide)

end CanTp
