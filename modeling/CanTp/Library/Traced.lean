import CanTp.Library.Buffer

/-!
# Values with a trace

`Traced σ α` is a value together with a trace of marks that the computation of it has left.
What a function over traced values adds to the trace is described by `Adds`, which goes
through sequences and loops.
-/

namespace Library

/-- A value and the marks left on the way to it. -/
structure Traced (σ α : Type*) where
  val : σ
  trace : List α

namespace Traced

variable {σ α : Type*}

/-- A step that leaves no mark. -/
def on (t : Traced σ α) (f : σ → σ) : Traced σ α := { t with val := f t.val }

/-- Leaves the marks `as`. -/
def mark (t : Traced σ α) (as : List α) : Traced σ α := { t with trace := t.trace ++ as }

@[simp] theorem on_val (t : Traced σ α) (f : σ → σ) : (t.on f).val = f t.val := rfl

@[simp] theorem on_trace (t : Traced σ α) (f : σ → σ) : (t.on f).trace = t.trace := rfl

@[simp] theorem mark_val (t : Traced σ α) (as : List α) : (t.mark as).val = t.val := rfl

@[simp] theorem mark_trace (t : Traced σ α) (as : List α) :
    (t.mark as).trace = t.trace ++ as := rfl

/-- Between `t` and `u` only marks with `P` are left. -/
def Adds (P : α → Prop) (t u : Traced σ α) : Prop :=
  ∃ as, u.trace = t.trace ++ as ∧ ∀ a ∈ as, P a

namespace Adds

variable {P : α → Prop} {t u v : Traced σ α}

theorem refl (t : Traced σ α) : Adds P t t := ⟨[], by simp, by simp⟩

theorem trans (h : Adds P t u) (h' : Adds P u v) : Adds P t v := by
  obtain ⟨as, htrace, has⟩ := h
  obtain ⟨bs, htrace', hbs⟩ := h'
  refine ⟨as ++ bs, by rw [htrace', htrace, List.append_assoc], fun a ha => ?_⟩
  exact (List.mem_append.mp ha).elim (has a) (hbs a)

theorem on (h : Adds P t u) (f : σ → σ) : Adds P t (u.on f) := h

theorem mark (h : Adds P t u) {as : List α} (has : ∀ a ∈ as, P a) : Adds P t (u.mark as) :=
  h.trans ⟨as, rfl, has⟩

theorem forall_iff (h : Adds P t u) : (∀ a ∈ u.trace, P a) ↔ ∀ a ∈ t.trace, P a := by
  obtain ⟨as, htrace, has⟩ := h
  rw [htrace]
  simp only [List.mem_append]
  exact ⟨fun hall a ha => hall a (Or.inl ha), fun hall a ha => ha.elim (hall a) (has a)⟩

theorem forUpTo {g : Nat → Traced σ α → Traced σ α} {n : Nat}
    (hg : ∀ i < n, ∀ u, Adds P u (g i u)) (t : Traced σ α) :
    Adds P t (forUpTo n g t) := by
  induction n with
  | zero => exact refl t
  | succ n ih =>
      rw [forUpTo_succ]
      exact (ih fun i hi => hg i (Nat.lt_succ_of_lt hi)).trans (hg n (Nat.lt_succ_self n) _)

end Adds

end Traced

end Library
