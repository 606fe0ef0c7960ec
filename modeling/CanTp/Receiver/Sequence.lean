import CanTp.Receiver.Reception

/-!
# The numbers of the stored frames

The receiver compares arrival `j` with the number `j mod 16`, whether or not the
frames before it were taken, since the counter moves on before the comparison and is
not set back by a rejection. The stored frames are therefore numbered without gap
exactly when, at each of them, a multiple of sixteen frames has been rejected.
-/

namespace CanTp

open Library

/-- A store into the session buffer. -/
def Act.bufferWrite : Act → Option (Nat × UInt8)
  | .rcvrWrite i b => some (i, b)
  | _ => none

/-- The stores of a log, in order. -/
def bufferWrites (log : List Act) : List (Nat × UInt8) := log.filterMap Act.bufferWrite

/-- Where the data of a frame is stored, `none` if it is not copied. -/
def storedAt (log : List Act) : Option Nat := (bufferWrites log).head?.map Prod.fst

/-- The sequence number and the offset of every frame whose data is copied. -/
def storedFrames (c : CantpRxtxStatus) : List RxFrame → List (UInt8 × Nat)
  | [] => []
  | r :: rs =>
      ((storedAt (canTp.step c (.canrxCb r)).2).map (r.frame.cfSn, ·)).toList ++
        storedFrames (canTp.step c (.canrxCb r)).1 rs

/-- The stored frames carry the numbers from `k + 1` on, modulo `16`, and each is
stored behind the one before it. -/
def NumberedFrom (k : Nat) (stored : List (UInt8 × Nat)) : Prop :=
  ∀ (i : Nat) (sn : UInt8) (off : Nat), stored[i]? = some (sn, off) →
    sn.toNat = (k + i + 1) % 16 ∧ off = cfStart (k + i)

/-- Whenever an incomplete message gets a frame with the number of its arrival, the
number `arrivals - taken` of frames that carried another number is a multiple of
sixteen. -/
def GapFree (len : Nat) : (arrivals taken : Nat) → List RxFrame → Prop
  | _, _, [] => True
  | arrivals, taken, r :: rs =>
      if r.Hits arrivals ∧ taken < numCfs len then
        (arrivals - taken) % 16 = 0 ∧ GapFree len (arrivals + 1) (taken + 1) rs
      else GapFree len (arrivals + 1) taken rs

instance decidableGapFree (len : Nat) : ∀ arrivals taken rs,
    Decidable (GapFree len arrivals taken rs)
  | _, _, [] => isTrue trivial
  | arrivals, taken, r :: rs =>
      have := decidableGapFree len (arrivals + 1) (taken + 1) rs
      have := decidableGapFree len (arrivals + 1) taken rs
      inferInstanceAs (Decidable (if r.Hits arrivals ∧ taken < numCfs len then
        (arrivals - taken) % 16 = 0 ∧ GapFree len (arrivals + 1) (taken + 1) rs
      else GapFree len (arrivals + 1) taken rs))

theorem numberedFrom_nil (k : Nat) : NumberedFrom k [] := by
  intro i sn off h
  simp at h

theorem numberedFrom_cons {k : Nat} {sn : UInt8} {off : Nat} {stored : List (UInt8 × Nat)} :
    NumberedFrom k ((sn, off) :: stored) ↔
      (sn.toNat = (k + 1) % 16 ∧ off = cfStart k) ∧ NumberedFrom (k + 1) stored := by
  constructor
  · intro h
    refine ⟨h 0 sn off rfl, ?_⟩
    intro i sn' off' hi
    have hi' := h (i + 1) sn' off' (by simpa using hi)
    rwa [← Nat.add_assoc, Nat.add_right_comm k i 1] at hi'
  · rintro ⟨hhead, htail⟩ i sn' off' hi
    cases i with
    | zero =>
        rw [List.getElem?_cons_zero, Option.some.injEq, Prod.mk.injEq] at hi
        obtain ⟨rfl, rfl⟩ := hi
        exact hhead
    | succ i =>
        have hi' := htail i sn' off' (by simpa using hi)
        rwa [← Nat.add_assoc, Nat.add_right_comm k i 1]

/-! ### The stores of one arrival -/

theorem bufferWrites_append (l m : List Act) :
    bufferWrites (l ++ m) = bufferWrites l ++ bufferWrites m := List.filterMap_append

theorem bufferWrites_cfWrites (s : RcvrState) (f : CantpFrame) :
    bufferWrites (s.cfWrites f) =
      (List.range s.storeLen).map fun i => (s.index.toNat + i, f.cfD i) := by
  rw [bufferWrites, RcvrState.cfWrites, List.filterMap_map]
  exact congrFun (List.filterMap_eq_map (f := fun i => (s.index.toNat + i, f.cfD i))) _

theorem storedAt_take {s : RcvrState} (f : CantpFrame) {acts : List Act} (h : 0 < s.remaining) :
    storedAt (.printCantpFrame f :: (s.cfWrites f ++ acts)) = some s.index.toNat := by
  obtain ⟨n, hn⟩ : ∃ n, s.storeLen = n + 1 := by
    refine ⟨s.storeLen - 1, ?_⟩
    unfold RcvrState.remaining at h
    rw [RcvrState.storeLen, cfNumDataBytes]
    omega
  have hprint : bufferWrites (.printCantpFrame f :: (s.cfWrites f ++ acts)) =
      bufferWrites (s.cfWrites f) ++ bufferWrites acts := bufferWrites_append _ _
  rw [storedAt, hprint, bufferWrites_cfWrites, hn, List.range_succ_eq_map]
  rfl

theorem storedFrames_done {id : UInt32} {c : CantpRxtxStatus} {rs : List RxFrame}
    (hst : c.rcvr.state ≠ .fcSent) (hrs : ∀ r ∈ rs, r.IsCf id) : storedFrames c rs = [] := by
  induction rs with
  | nil => rfl
  | cons r rs ih =>
      rw [storedFrames, step_cf_ignored hst (hrs r (List.mem_cons_self ..)).pci]
      exact ih fun r' hr' => hrs r' (List.mem_cons_of_mem _ hr')

theorem gapFree_done {len arrivals taken : Nat} (h : numCfs len ≤ taken)
    (rs : List RxFrame) : GapFree len arrivals taken rs := by
  induction rs generalizing arrivals with
  | nil => trivial
  | cons r rs ih =>
      rw [GapFree, if_neg (by omega)]
      exact ih

/-- In the middle of a reception the stored frames continue the numbering exactly
if the arrivals to come are free of gaps. -/
theorem Reception.numbered_iff {id : UInt32} {len arrivals taken : Nat}
    {c : CantpRxtxStatus} {rs : List RxFrame} (h : Reception id len arrivals taken c.rcvr)
    (hle : taken ≤ arrivals) (hrs : ∀ r ∈ rs, r.IsCf id) :
    NumberedFrom taken (storedFrames c rs) ↔ GapFree len arrivals taken rs := by
  induction rs generalizing c arrivals taken with
  | nil => exact iff_of_true (numberedFrom_nil _) trivial
  | cons r rs ih =>
      have hr := hrs r (List.mem_cons_self ..)
      have hrs' : ∀ r' ∈ rs, r'.IsCf id := fun r' hr' => hrs r' (List.mem_cons_of_mem _ hr')
      rw [storedFrames, GapFree]
      by_cases htake : r.Hits arrivals ∧ taken < numCfs len
      · have hsn : r.frame.cfSn.toNat = (taken + 1) % 16 ↔ (arrivals - taken) % 16 = 0 := by
          rw [htake.1]
          omega
        have hrem := h.remaining_pos_iff.mpr htake.2
        rw [if_pos htake]
        by_cases hlast : taken + 1 = numCfs len
        · have hdone : storedFrames
              { c with rcvr := { c.rcvr.storeCf r.frame with state := .txDone } } rs = [] :=
            storedFrames_done (by simp) hrs'
          rw [h.last hr htake.1 hlast, storedAt_take r.frame hrem, hdone]
          refine numberedFrom_cons.trans (and_congr ?_ ?_)
          · rw [h.index_eq]
            exact (and_iff_left rfl).trans hsn
          · exact iff_of_true (numberedFrom_nil _) (gapFree_done hlast.ge rs)
        · obtain ⟨hawait, hnext⟩ := h.take hr htake.1 (by omega)
          obtain ⟨acts, hlog, -⟩ := hawait.log
          have hstored : storedAt (canTp.step c (.canrxCb r)).2 = some (cfStart taken) := by
            rw [canTp_step, hlog, List.cons_append, storedAt_take r.frame hrem, h.index_eq]
          rw [hstored]
          refine numberedFrom_cons.trans (and_congr ?_ (ih hnext (by omega) hrs'))
          exact (and_iff_left rfl).trans hsn
      · obtain ⟨hstep, hnext⟩ := h.reject hr htake
        rw [if_neg htake, hstep]
        exact ih (c := { c with rcvr := c.rcvr.rejectCf }) hnext (by omega) hrs'

/-- For every accepted First Frame on a fresh receiver and every stream of
Consecutive Frames after it: the `k`-th stored frame has the number `k mod 16` and
its place in the message, for every `k`, exactly if the stream is free of gaps. -/
theorem storedFrames_numbered_iff (p : CantpParams) (ff : RxFrame) (buf : List UInt8)
    (rs : List RxFrame) (hff : ff.FfAccepted none buf) (hrs : ∀ r ∈ rs, r.IsCf ff.id) :
    NumberedFrom 0 (storedFrames (canTp.step (.fresh p) (.canrxCb ff)).1 rs) ↔
      GapFree (cantpFfLenGet ff.frame).toNat 0 0 rs := by
  have hstart : Reception ff.id (cantpFfLenGet ff.frame).toNat 0 0
      (canTp.step (.fresh p) (.canrxCb ff)).1.rcvr := by
    rw [RxFrame.FfAccepted.step (c := .fresh p) hff rfl]
    exact reception_accepted rfl ff buf
  exact hstart.numbered_iff (Nat.le_refl 0) hrs

/-- Twenty bytes, whose first Consecutive Frame arrives twice. -/
theorem storedFrames_numbered_repeated :
    let rx := RxFrame.ofFrame .accepting 5 0
    let data := List.replicate 20 7
    NumberedFrom 0 (storedFrames
      (canTp.step (.fresh ⟨0, 0, 0, 0, 0, 0, 0, 0⟩) (.canrxCb (rx (ffFrame data 20)))).1
      [rx (cfAt data 20 0), rx (cfAt data 20 0)]) :=
  (storedFrames_numbered_iff ⟨0, 0, 0, 0, 0, 0, 0, 0⟩
    (.ofFrame .accepting 5 0 (ffFrame (List.replicate 20 7) 20)) (List.replicate 20 0)
    [.ofFrame .accepting 5 0 (cfAt (List.replicate 20 7) 20 0),
      .ofFrame .accepting 5 0 (cfAt (List.replicate 20 7) 20 0)]
    (by decide) (by decide)).mpr (by decide)

/-- Twenty bytes, whose first Consecutive Frame is lost and whose second arrives twice:
the repetition is stored in the place of the lost frame. -/
theorem storedFrames_gap :
    ¬ ∀ (p : CantpParams) (ff : RxFrame) (buf : List UInt8) (rs : List RxFrame),
      ff.FfAccepted none buf → (∀ r ∈ rs, r.IsCf ff.id) →
      NumberedFrom 0 (storedFrames (canTp.step (.fresh p) (.canrxCb ff)).1 rs) := by
  intro h
  have hnum := h ⟨0, 0, 0, 0, 0, 0, 0, 0⟩
    (.ofFrame .accepting 5 0 (ffFrame (List.replicate 20 7) 20)) (List.replicate 20 0)
    [.ofFrame .accepting 5 0 (cfAt (List.replicate 20 7) 20 1),
      .ofFrame .accepting 5 0 (cfAt (List.replicate 20 7) 20 1)]
    (by decide) (by decide)
  exact absurd (hnum 0 2 6 (by decide)).1 (by decide)

end CanTp
