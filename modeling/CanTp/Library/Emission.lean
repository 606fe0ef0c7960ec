import Mathlib.Data.List.Basic

/-!
# Emitting a list in order, with one report

The abstract sender: it has a list `xs` to emit and may emit the next item, pause,
report that the list is complete, or give up with another report at any point.
Nothing follows a report. `Emission.Step` is one such step with its signals, items
on the left and reports on the right, and `Emission.Shape` says what the signals of
a run from the start look like: a prefix of `xs`, followed by at most one report,
which is `fin` only after the whole list.
-/

namespace Library

namespace Emission

variable {α ρ : Type*}

/-- How far an emission is: `k` items are out, or it has reported. -/
inductive Progress
  | sending (k : Nat)
  | ended
deriving DecidableEq, Repr

/-- One step of an emission, with its signals. -/
inductive Step (xs : List α) (fin : ρ) : Progress → List (α ⊕ ρ) → Progress → Prop
  | stay (p : Progress) : Step xs fin p [] p
  | item {k : Nat} (h : k < xs.length) :
      Step xs fin (.sending k) [.inl xs[k]] (.sending (k + 1))
  | finish : Step xs fin (.sending xs.length) [.inr fin] .ended
  | abort (k : Nat) {r : ρ} (h : r ≠ fin) : Step xs fin (.sending k) [.inr r] .ended

/-- What the signals look like when the emission has come to a progress. -/
def Shape (xs : List α) (fin : ρ) : Progress → List (α ⊕ ρ) → Prop
  | .sending k, out => k ≤ xs.length ∧ out = (xs.take k).map Sum.inl
  | .ended, out => ∃ k r, out = (xs.take k).map Sum.inl ++ [.inr r] ∧
      (r = fin → xs.length ≤ k)

theorem shape_start (xs : List α) (fin : ρ) : Shape xs fin (.sending 0) [] :=
  ⟨Nat.zero_le _, by simp⟩

theorem Shape.step {xs : List α} {fin : ρ} {p q : Progress} {out sig : List (α ⊕ ρ)}
    (hs : Shape xs fin p out) (h : Step xs fin p sig q) : Shape xs fin q (out ++ sig) := by
  cases h with
  | stay => simpa using hs
  | item hk =>
      obtain ⟨_, rfl⟩ := hs
      refine ⟨hk, ?_⟩
      rw [List.take_succ_eq_append_getElem hk, List.map_append, List.map_singleton]
  | finish =>
      obtain ⟨_, rfl⟩ := hs
      exact ⟨xs.length, fin, rfl, fun _ => Nat.le_refl _⟩
  | abort k hr =>
      obtain ⟨_, rfl⟩ := hs
      exact ⟨k, _, rfl, fun h => absurd h hr⟩

/-- A step makes a report where the emission ends, and there only. -/
theorem Step.reports {xs : List α} {fin : ρ} {p q : Progress} {sig : List (α ⊕ ρ)}
    (h : Step xs fin p sig q) : (if p = .ended then 0 else 1) =
      (sig.filterMap Sum.getRight?).length + if q = .ended then 0 else 1 := by
  cases h <;> simp

section Read

variable {xs : List α} {fin : ρ} {p : Progress} {out : List (α ⊕ ρ)}

theorem filterMap_getLeft?_inl (ys : List α) :
    (ys.map (Sum.inl : α → α ⊕ ρ)).filterMap Sum.getLeft? = ys := by
  rw [List.filterMap_map]
  exact List.filterMap_some

theorem filterMap_getRight?_inl (ys : List α) :
    (ys.map (Sum.inl : α → α ⊕ ρ)).filterMap Sum.getRight? = [] := by
  rw [List.filterMap_map]
  exact List.filterMap_eq_nil_iff.mpr fun _ _ => rfl

theorem inr_notMem_map_inl (ys : List α) (r : ρ) :
    (.inr r : α ⊕ ρ) ∉ ys.map Sum.inl := by
  intro h
  obtain ⟨y, _, hy⟩ := List.mem_map.mp h
  cases hy

theorem Shape.items (h : Shape xs fin p out) : out.filterMap Sum.getLeft? <+: xs := by
  cases p with
  | sending k =>
      obtain ⟨_, rfl⟩ := h
      rw [filterMap_getLeft?_inl]
      exact List.take_prefix k xs
  | ended =>
      obtain ⟨k, r, rfl, _⟩ := h
      have hr : [(.inr r : α ⊕ ρ)].filterMap Sum.getLeft? = [] := rfl
      rw [List.filterMap_append, filterMap_getLeft?_inl, hr, List.append_nil]
      exact List.take_prefix k xs

theorem Shape.length_reports (h : Shape xs fin p out) :
    (out.filterMap Sum.getRight?).length ≤ 1 := by
  cases p with
  | sending k =>
      obtain ⟨_, rfl⟩ := h
      rw [filterMap_getRight?_inl]
      exact Nat.zero_le 1
  | ended =>
      obtain ⟨k, r, rfl, _⟩ := h
      rw [List.filterMap_append, filterMap_getRight?_inl]
      exact Nat.le_refl 1

/-- Where a run reports, nothing follows, and the report `fin` follows the whole
list. -/
theorem Shape.report_last (h : Shape xs fin p out) {pre post : List (α ⊕ ρ)} {r : ρ}
    (hout : out = pre ++ .inr r :: post) :
    post = [] ∧ (r = fin → pre = xs.map Sum.inl) := by
  cases p with
  | sending k =>
      obtain ⟨_, hk⟩ := h
      refine absurd ?_ (inr_notMem_map_inl (xs.take k) r)
      rw [← hk, hout]
      exact List.mem_append_right _ (List.mem_cons_self ..)
  | ended =>
      obtain ⟨k, r', hk, hfin⟩ := h
      have heq : pre ++ .inr r :: post = (xs.take k).map Sum.inl ++ [.inr r'] := by
        rw [← hout, hk]
      have hpost : post = [] := by
        rcases List.eq_nil_or_concat post with hnil | ⟨post', x, rfl⟩
        · exact hnil
        · have hsplit : (pre ++ .inr r :: post') ++ [x] =
              (xs.take k).map Sum.inl ++ [.inr r'] := by
            rw [← heq, List.concat_eq_append, List.append_assoc, List.cons_append]
          have hcut := (List.append_inj' hsplit rfl).1
          refine absurd ?_ (inr_notMem_map_inl (xs.take k) r)
          rw [← hcut]
          exact List.mem_append_right _ (List.mem_cons_self ..)
      subst hpost
      obtain ⟨hpre, hr⟩ := List.append_inj' heq rfl
      refine ⟨rfl, ?_⟩
      intro hrf
      have hrr : r = r' := by simpa using hr
      rw [hpre, List.take_of_length_le (hfin (hrr ▸ hrf))]

end Read

end Emission

end Library
