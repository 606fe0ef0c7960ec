import CanTp.Library.Mealy

/-!
# Machines that drive other machines

A component of a machine is a machine of its own, and one input of the whole may be several
inputs of the component, which ones depending on the state. `Drives M N rel seen` says that
`M` drives the component `N` in this way: `seen` lists the inputs that `N` reads, and `rel`
says where in `M` its state is found. What is known about the runs of `N` is then known
about the runs of `M`.
-/

namespace Library

namespace Mealy

variable {σ ε ω τ δ ξ : Type*} {M : Mealy σ ε ω} {N : Mealy τ δ ξ}

/-- The inputs that are passed on while `M` reads the inputs `es` from the state `s`. -/
def passed (M : Mealy σ ε ω) (seen : σ → ε → List δ) : σ → List ε → List δ
  | _, [] => []
  | s, e :: es => seen s e ++ M.passed seen (M.step s e).1 es

section Passed

variable (M) (seen : σ → ε → List δ)

@[simp] theorem passed_nil (s : σ) : M.passed seen s [] = [] := rfl

@[simp] theorem passed_cons (s : σ) (e : ε) (es : List ε) :
    M.passed seen s (e :: es) = seen s e ++ M.passed seen (M.step s e).1 es := rfl

theorem passed_append (s : σ) (es fs : List ε) :
    M.passed seen s (es ++ fs) = M.passed seen s es ++ M.passed seen (M.run s es) fs := by
  induction es generalizing s with
  | nil => rfl
  | cons e es ih => rw [List.cons_append, passed_cons, ih, passed_cons, List.append_assoc,
      run_cons]

end Passed

/-- The state of `N` found in `M` moves on by the inputs passed on. -/
structure Drives (M : Mealy σ ε ω) (N : Mealy τ δ ξ) (rel : σ → τ → Prop)
    (seen : σ → ε → List δ) : Prop where
  step : ∀ {s t} (e : ε), rel s t → rel (M.step s e).1 (N.run t (seen s e))

namespace Drives

variable {rel : σ → τ → Prop} {seen : σ → ε → List δ} {s : σ} {t : τ}

theorem run (h : Drives M N rel seen) (hst : rel s t) (es : List ε) :
    rel (M.run s es) (N.run t (M.passed seen s es)) := by
  induction es generalizing s t with
  | nil => exact hst
  | cons e es ih =>
      rw [run_cons, passed_cons, run_append]
      exact ih (h.step e hst)

theorem outputs {N : Mealy τ δ ω} (h : Drives M N rel seen)
    (hout : ∀ {s t} (e : ε), rel s t → (M.step s e).2 = N.outputs t (seen s e)) (hst : rel s t)
    (es : List ε) : M.outputs s es = N.outputs t (M.passed seen s es) := by
  induction es generalizing s t with
  | nil => rfl
  | cons e es ih =>
      rw [outputs_cons, passed_cons, outputs_append, hout e hst, ih (h.step e hst)]

/-- A guard of `N` that follows from a guard of `M` for the inputs passed on by one step. -/
theorem admits (h : Drives M N rel seen) {ok : σ → ε → Prop} {ok' : τ → δ → Prop}
    (himp : ∀ {s t} (e : ε), rel s t → ok s e → N.Admits ok' t (seen s e)) (hst : rel s t)
    {es : List ε} (hok : M.Admits ok s es) : N.Admits ok' t (M.passed seen s es) := by
  induction es generalizing s t with
  | nil => trivial
  | cons e es ih =>
      exact admits_append.mpr ⟨himp e hst hok.1, ih (h.step e hst) hok.2⟩

end Drives

end Mealy

end Library
