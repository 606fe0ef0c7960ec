import Mathlib.Logic.Relation
import Mathlib.Order.Basic
import Mathlib.Tactic.ByContra

/-!
# Runs of a transition relation

A step relation `R : σ → σ → Prop` stands for a system whose next step is chosen by
the outside. `Ends R s P` says that every run from `s` comes to an end, and that the
property `P` holds wherever one ends. A bounded count of the steps gives both the end
of all runs and the existence of one that ends.
-/

namespace Library

open Relation

variable {σ : Type*} {R : σ → σ → Prop} {s t : σ}

/-- No step leads out of `s`. -/
def Final (R : σ → σ → Prop) (s : σ) : Prop := ∀ t, ¬ R s t

/-- Every run from `s` ends, in a state with the property `P`. -/
structure Ends (R : σ → σ → Prop) (s : σ) (P : σ → Prop) : Prop where
  finite : ¬ ∃ f : Nat → σ, f 0 = s ∧ ∀ n, R (f n) (f (n + 1))
  final : ∀ t, ReflTransGen R s t → Final R t → P t

theorem invariant {Inv : σ → Prop} (hstep : ∀ s t, Inv s → R s t → Inv t) (hs : Inv s)
    (h : ReflTransGen R s t) : Inv t := by
  induction h with
  | refl => exact hs
  | tail _ hst ih => exact hstep _ _ ih hst

/-- A count of the steps that stays bounded as long as the invariant holds. -/
structure Counts (R : σ → σ → Prop) (Inv : σ → Prop) (m : σ → Nat) (bound : Nat) : Prop where
  step : ∀ s t, Inv s → R s t → Inv t ∧ m s < m t
  le : ∀ s, Inv s → m s ≤ bound

section Counts

variable {Inv : σ → Prop} {m : σ → Nat} {bound : Nat}

theorem Counts.le_of_run (h : Counts R Inv m bound) {f : Nat → σ} (h0 : Inv (f 0))
    (hf : ∀ n, R (f n) (f (n + 1))) (n : Nat) : Inv (f n) ∧ n ≤ m (f n) := by
  induction n with
  | zero => exact ⟨h0, Nat.zero_le _⟩
  | succ n ih =>
      obtain ⟨hinv, hlt⟩ := h.step _ _ ih.1 (hf n)
      exact ⟨hinv, Nat.lt_of_le_of_lt ih.2 hlt⟩

theorem Counts.finite (h : Counts R Inv m bound) (hs : Inv s) :
    ¬ ∃ f : Nat → σ, f 0 = s ∧ ∀ n, R (f n) (f (n + 1)) := by
  rintro ⟨f, rfl, hf⟩
  obtain ⟨hinv, hle⟩ := h.le_of_run hs hf (bound + 1)
  have hbound := h.le _ hinv
  omega

/-- Some run comes to an end, by induction on what the count has left. -/
theorem Counts.exists_final (h : Counts R Inv m bound) (hs : Inv s) :
    ∃ t, ReflTransGen R s t ∧ Final R t := by
  induction hn : bound - m s using Nat.strongRecOn generalizing s with
  | ind n ih =>
      by_cases hfin : Final R s
      · exact ⟨s, .refl, hfin⟩
      · obtain ⟨t, hst⟩ := not_forall_not.mp hfin
        obtain ⟨hinv, hlt⟩ := h.step _ _ hs hst
        have hle := h.le _ hinv
        obtain ⟨u, htu, hu⟩ := ih (bound - m t) (by omega) hinv rfl
        exact ⟨u, .head hst htu, hu⟩

/-- All runs end, with the property of the final states that satisfy the invariant. -/
theorem Counts.ends (h : Counts R Inv m bound) (hs : Inv s) {P : σ → Prop}
    (hP : ∀ t, Inv t → Final R t → P t) : Ends R s P :=
  ⟨h.finite hs, fun _ ht hfin => hP _ (invariant (fun _ _ hi hr => (h.step _ _ hi hr).1) hs ht)
    hfin⟩

end Counts

/-! ### Refinement -/

/-- `R` refines `A` along `f`, under an invariant: each of its steps is a step of `A`,
and it ends only where `A` does. -/
structure Refines {τ : Type*} (R : σ → σ → Prop) (A : τ → τ → Prop) (f : σ → τ)
    (Inv : σ → Prop) : Prop where
  step : ∀ s t, Inv s → R s t → Inv t ∧ A (f s) (f t)
  final : ∀ s, Inv s → Final R s → Final A (f s)

theorem Refines.counts {τ : Type*} {A : τ → τ → Prop} {f : σ → τ} {Inv : σ → Prop}
    {InvA : τ → Prop} {m : τ → Nat} {bound : Nat} (h : Refines R A f Inv)
    (hA : Counts A InvA m bound) :
    Counts R (fun s => Inv s ∧ InvA (f s)) (fun s => m (f s)) bound where
  step s t hs hst := by
    obtain ⟨hinv, hA'⟩ := h.step s t hs.1 hst
    obtain ⟨hinvA, hlt⟩ := hA.step _ _ hs.2 hA'
    exact ⟨⟨hinv, hinvA⟩, hlt⟩
  le s hs := hA.le _ hs.2

end Library
