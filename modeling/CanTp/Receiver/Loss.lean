import CanTp.Receiver.Delivery
import CanTp.Library.Perturbed

/-!
# Losses and repetitions on the way to the receiver

The receiver expects arrival `j` to carry the number of Consecutive Frame `j`. In a
stream with fewer than sixteen losses and fewer than sixteen repetitions a frame that
carries this number is frame `j`, so a frame that was not in its place is rejected
and the arrivals stay ahead of the frames taken for the rest of the reception. The
message is completed only if no frame has been rejected.
-/

namespace CanTp

open Library

/-- A message that is delivered is `msg`, whole and in order. -/
def DeliversOnly (msg : List UInt8) (c : CantpRxtxStatus) (e : Event) : Prop :=
  let s := (canTp.step c e).1.rcvr
  deliveries (canTp.step c e).2 ≠ [] →
    s.len.toNat = msg.length ∧ ∃ d, s.data = some d ∧ d.take s.len.toNat = msg

/-- From `c` on, `msg` is delivered at most once and nothing else. -/
def DeliversAtMost (msg : List UInt8) (c : CantpRxtxStatus) (rs : List RxFrame) : Prop :=
  (deliveries (canTp.outputs c (rs.map .canrxCb))).length ≤ 1 ∧
    canTp.Admits (DeliversOnly msg) c (rs.map .canrxCb)

section Stream

variable {id : UInt32} {msg : List UInt8} {c : CantpRxtxStatus} {r : RxFrame}
  {rs : List RxFrame}

theorem DeliversAtMost.cons (hnone : deliveries (canTp.step c (.canrxCb r)).2 = [])
    (h : DeliversAtMost msg (canTp.step c (.canrxCb r)).1 rs) :
    DeliversAtMost msg c (r :: rs) := by
  obtain ⟨hlen, hadm⟩ := h
  refine ⟨?_, fun hne => absurd hnone hne, hadm⟩
  rwa [List.map_cons, Mealy.outputs_cons, deliveries_append, hnone, List.nil_append]

theorem deliversAtMost_done (msg : List UInt8) (hst : c.rcvr.state ≠ .fcSent)
    (hrs : ∀ r ∈ rs, r.IsCf id) :
    deliveries (canTp.outputs c (rs.map .canrxCb)) = [] ∧
      canTp.Admits (DeliversOnly msg) c (rs.map .canrxCb) := by
  induction rs with
  | nil => exact ⟨rfl, trivial⟩
  | cons r rs ih =>
      have hstep := step_cf_ignored hst (hrs r (List.mem_cons_self ..)).pci
      obtain ⟨hnone, hadm⟩ := ih fun r' hr' => hrs r' (List.mem_cons_of_mem _ hr')
      refine ⟨?_, fun hne => absurd (by rw [hstep]; rfl) hne, ?_⟩
      · rw [List.map_cons, Mealy.outputs_cons, hstep, deliveries_append, hnone]
        rfl
      · rw [hstep]
        exact hadm

/-- A reception in which every arrival is less than sixteen places away from its
place in the message. -/
theorem Reception.deliversAtMost {arrivals taken : Nat}
    (h : Reception id msg.length arrivals taken c.rcvr) (hle : taken ≤ arrivals)
    (hfill : taken = arrivals → Filling id msg taken c.rcvr) (hrs : ∀ r ∈ rs, r.IsCf id)
    (hnear : ∀ j r, rs[j]? = some r → ∃ i, i < numCfs msg.length ∧
      r.frame = cfAt msg msg.length i ∧ i < arrivals + j + 16 ∧ arrivals + j < i + 16) :
    DeliversAtMost msg c rs := by
  induction rs generalizing c arrivals taken with
  | nil => exact ⟨Nat.zero_le _, trivial⟩
  | cons r rs ih =>
      have hr := hrs r (List.mem_cons_self ..)
      have hrs' : ∀ r' ∈ rs, r'.IsCf id := fun r' hr' => hrs r' (List.mem_cons_of_mem _ hr')
      have hnear' : ∀ j r', rs[j]? = some r' → ∃ i, i < numCfs msg.length ∧
          r'.frame = cfAt msg msg.length i ∧ i < arrivals + 1 + j + 16 ∧
          arrivals + 1 + j < i + 16 := fun j r' hj => by
        obtain ⟨i, hi, hf, hlo, hhi⟩ := hnear (j + 1) r' (by simpa using hj)
        exact ⟨i, hi, hf, by omega, by omega⟩
      obtain ⟨i, hi, hf, hlo, hhi⟩ := hnear 0 r rfl
      cases h.arrives hle hfill hr hf hi ⟨hlo, hhi⟩ with
      | complete _ _ _ hall hout =>
          obtain ⟨hnone, hadm⟩ := deliversAtMost_done msg (by rw [hall.state]; simp) hrs'
          refine ⟨?_, fun _ => ⟨hall.len_eq, ?_⟩, hadm⟩
          · rw [List.map_cons, Mealy.outputs_cons, deliveries_append, hout, hnone]
            exact Nat.le_refl 1
          · obtain ⟨d, hd, -, htake⟩ := hall.holds
            exact ⟨d, hd, by rw [hall.len_eq, htake, List.take_length]⟩
      | fills _ _ hnext hout =>
          exact .cons hout (ih hnext.toReception (Nat.le_refl _) (fun _ => hnext) hrs' hnear')
      | apart _ hnext hlt hout =>
          exact .cons hout (ih hnext hlt.le (fun heq => absurd heq hlt.ne) hrs' hnear')

theorem DeliversAtMost.repeatedFf (hst : c.rcvr.state = .fcSent) {ffs : List RxFrame}
    (hffs : ∀ r ∈ ffs, r.pci = some .firstFrame) (h : DeliversAtMost msg c rs) :
    DeliversAtMost msg c (ffs ++ rs) := by
  induction ffs with
  | nil => exact h
  | cons ff ffs ih =>
      have hidle : c.rcvr.state ≠ .idle := by simp [hst]
      have hstep := step_ff_ignored hidle (hffs ff (List.mem_cons_self ..))
      refine .cons (by rw [hstep]; rfl) ?_
      rw [hstep]
      exact ih fun r' hr' => hffs r' (List.mem_cons_of_mem _ hr')

end Stream

theorem getElem?_canonicalCfs {msg : List UInt8} {i : Nat} {f : CantpFrame}
    (h : (canonicalCfs msg msg.length)[i]? = some f) :
    i < numCfs msg.length ∧ f = cfAt msg msg.length i := by
  obtain ⟨hi, hf⟩ := List.getElem?_eq_some_iff.mp h
  rw [length_canonicalCfs] at hi
  exact ⟨hi, by rw [← hf]; simp [canonicalCfs]⟩

theorem isCf_of_mem {msg : List UInt8} {id : UInt32} {r : RxFrame} (hid : r.id = id)
    (h : r.frame ∈ canonicalCfs msg msg.length) : r.IsCf id := by
  obtain ⟨i, hi⟩ := List.mem_iff_getElem?.mp h
  exact isCf_of_cfAt hid (getElem?_canonicalCfs hi).2

/-- For every message, every receiver and every stream of its frames with fewer than
sixteen losses and fewer than sixteen immediate repetitions: the message is delivered
at most once, and only whole and unchanged. -/
theorem delivers_under_loss (p : CantpParams) (msg : List UInt8) (id : UInt32)
    (d n : Nat) (rs : List RxFrame) (hlong : sfNumDataBytes < msg.length)
    (hshort : msg.length < 4096) (hd : d < 16) (hn : n < 16)
    (hrs : Perturbed d n (canonicalFrames msg msg.length) (rs.map RxFrame.frame))
    (hid : ∀ r ∈ rs, r.id = id)
    (hacc : ∀ r ∈ rs, r.pci = some .firstFrame → r.SessionAccepts none) :
    (deliveries (canTp.outputs (.fresh p) (rs.map .canrxCb))).length ≤ 1 ∧
      canTp.Admits (DeliversOnly msg) (.fresh p) (rs.map .canrxCb) := by
  rw [canonicalFrames, if_neg (not_le.mpr hlong)] at hrs
  generalize hys : rs.map RxFrame.frame = ys at hrs
  cases hrs with
  | drop ff h =>
      have hcfs : ∀ r ∈ rs, r.IsCf id := fun r hr =>
        isCf_of_mem (hid r hr) (h.subset (hys ▸ List.mem_map_of_mem hr))
      obtain ⟨hnone, hadm⟩ := deliversAtMost_done msg (c := .fresh p)
        (by simp [CantpRxtxStatus.fresh]) hcfs
      exact ⟨by rw [hnone]; exact Nat.zero_le 1, hadm⟩
  | keep ff k h =>
      rw [List.replicate_succ, List.cons_append] at hys
      obtain ⟨r, rs, rfl, hr, htail⟩ := List.map_eq_cons_iff.mp hys
      obtain ⟨ffs, cfs, rfl, hffs, hcfs⟩ := List.map_eq_append_iff.mp htail
      obtain ⟨hfill, hnone⟩ := (hacc r (List.mem_cons_self ..) (pci_of_ffFrame hr)).begins
        (c := .fresh p) rfl rfl hr hlong hshort
      have hffs' : ∀ ff ∈ ffs, ff.pci = some .firstFrame := fun ff hff => by
        have hmem := List.mem_map_of_mem (f := RxFrame.frame) hff
        rw [hffs] at hmem
        exact pci_of_ffFrame (List.eq_of_mem_replicate hmem)
      have hcfs' : ∀ cf ∈ cfs, cf.IsCf r.id := fun cf hcf => by
        have hmem : cf ∈ r :: (ffs ++ cfs) := by simp [hcf]
        refine isCf_of_mem ?_ (h.subset (hcfs ▸ List.mem_map_of_mem hcf))
        rw [hid cf hmem, hid r (List.mem_cons_self ..)]
      refine DeliversAtMost.cons hnone (.repeatedFf hfill.state hffs' ?_)
      refine hfill.toReception.deliversAtMost (Nat.le_refl 0) (fun _ => hfill) hcfs'
        fun j cf hj => ?_
      have hj' : (cfs.map RxFrame.frame)[j]? = some cf.frame := by
        rw [List.getElem?_map, hj]
        rfl
      rw [hcfs] at hj'
      obtain ⟨i, hi, hlo, hhi⟩ := h.exists_place hj'
      obtain ⟨hlt, hf⟩ := getElem?_canonicalCfs hi
      exact ⟨i, hlt, hf, by omega, by omega⟩

/-- Twenty bytes, whose first Consecutive Frame arrives twice. -/
theorem delivers_under_loss_repeated :
    let rx := RxFrame.ofFrame .accepting 5 0
    let msg := List.replicate 20 7
    let rs := [rx (ffFrame msg 20), rx (cfAt msg 20 0), rx (cfAt msg 20 0), rx (cfAt msg 20 1)]
    (deliveries (canTp.outputs (.fresh ⟨0, 0, 0, 0, 0, 0, 0, 0⟩)
      (rs.map .canrxCb))).length ≤ 1 := by
  intro rx msg rs
  have hframes : canonicalFrames msg msg.length =
      [ffFrame msg 20, cfAt msg 20 0, cfAt msg 20 1] := by decide
  have hrs : rs.map RxFrame.frame =
      [ffFrame msg 20, cfAt msg 20 0, cfAt msg 20 0, cfAt msg 20 1] := by
    simp only [rs, rx, List.map_cons, frame_ofFrame, List.map_nil]
  exact (delivers_under_loss ⟨0, 0, 0, 0, 0, 0, 0, 0⟩ msg 5 0 1 rs (by decide) (by decide)
    (by decide) (by decide)
    (by rw [hframes, hrs]; exact .keep _ 0 (.keep _ 1 (.keep _ 0 .nil)))
    (by simp [rs, rx, RxFrame.ofFrame])
    (by simp [rs, rx, sessionAccepts_accepting])).1

end CanTp
