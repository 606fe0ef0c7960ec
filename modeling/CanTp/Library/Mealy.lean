import Mathlib.Data.List.Basic

/-!
# Machines that answer every input with a list of outputs

`Mealy σ ε ω` is a deterministic machine: in a state `s : σ` it reads an input
`e : ε`, moves to a new state and emits a finite list of outputs. `run` and
`outputs` fold it over a list of inputs.

`Admits M ok s es` says that the guard `ok s e` holds at every input `e` of the run, in
the state `s` in which it is read. The library has four induction rules over such
runs. `run_induction` keeps an invariant of the state, `trace_induction` an invariant
that also sees the outputs made so far, `admits_congr` exchanges one guard for
another, and `erase` compares a run with the run in which some inputs are removed.
-/

namespace Library

/-- A deterministic machine with a list of outputs per input. -/
structure Mealy (σ ε ω : Type*) where
  step : σ → ε → σ × List ω

namespace Mealy

variable {σ ε ω : Type*} (M : Mealy σ ε ω)

/-- The state after reading the inputs `es` from the state `s`. -/
def run : σ → List ε → σ
  | s, [] => s
  | s, e :: es => run (M.step s e).1 es

/-- The outputs of the inputs `es` from the state `s`, in order. -/
def outputs : σ → List ε → List ω
  | _, [] => []
  | s, e :: es => (M.step s e).2 ++ outputs (M.step s e).1 es

/-- Every input of `es` meets the guard in the state in which it is read. -/
def Admits (ok : σ → ε → Prop) : σ → List ε → Prop
  | _, [] => True
  | s, e :: es => ok s e ∧ Admits ok (M.step s e).1 es

instance decidableAdmits (ok : σ → ε → Prop) [∀ s e, Decidable (ok s e)] :
    ∀ s es, Decidable (M.Admits ok s es)
  | _, [] => isTrue trivial
  | s, e :: es =>
      have := decidableAdmits ok (M.step s e).1 es
      inferInstanceAs (Decidable (ok s e ∧ M.Admits ok (M.step s e).1 es))

@[simp] theorem run_nil (s : σ) : M.run s [] = s := rfl

@[simp] theorem run_cons (s : σ) (e : ε) (es : List ε) :
    M.run s (e :: es) = M.run (M.step s e).1 es := rfl

@[simp] theorem outputs_nil (s : σ) : M.outputs s [] = [] := rfl

@[simp] theorem outputs_cons (s : σ) (e : ε) (es : List ε) :
    M.outputs s (e :: es) = (M.step s e).2 ++ M.outputs (M.step s e).1 es := rfl

theorem run_append (s : σ) (es fs : List ε) :
    M.run s (es ++ fs) = M.run (M.run s es) fs := by
  induction es generalizing s with
  | nil => rfl
  | cons e es ih => rw [List.cons_append, run_cons, ih, run_cons]

theorem outputs_append (s : σ) (es fs : List ε) :
    M.outputs s (es ++ fs) = M.outputs s es ++ M.outputs (M.run s es) fs := by
  induction es generalizing s with
  | nil => rfl
  | cons e es ih =>
      rw [List.cons_append, outputs_cons, ih, outputs_cons, run_cons,
        List.append_assoc]

variable {M}

theorem admits_append {ok : σ → ε → Prop} {s : σ} {es fs : List ε} :
    M.Admits ok s (es ++ fs) ↔ M.Admits ok s es ∧ M.Admits ok (M.run s es) fs := by
  induction es generalizing s with
  | nil => simp [Admits]
  | cons e es ih => simp only [List.cons_append, Admits, run_cons, ih, and_assoc]

theorem admits_and {ok ok' : σ → ε → Prop} {s : σ} {es : List ε} :
    M.Admits (fun s e => ok s e ∧ ok' s e) s es ↔ M.Admits ok s es ∧ M.Admits ok' s es := by
  induction es generalizing s with
  | nil => simp [Admits]
  | cons e es ih => simp only [Admits, ih, and_and_and_comm]

theorem admits_of_forall {ok : ε → Prop} {es : List ε} (h : ∀ e ∈ es, ok e) (s : σ) :
    M.Admits (fun _ e => ok e) s es := by
  induction es generalizing s with
  | nil => trivial
  | cons e es ih =>
      exact ⟨h e (List.mem_cons_self ..),
        ih (fun f hf => h f (List.mem_cons_of_mem _ hf)) _⟩

theorem admits_true (s : σ) (es : List ε) : M.Admits (fun _ _ => True) s es :=
  admits_of_forall (fun _ _ => trivial) s

/-- What holds after every prefix of the inputs holds at the start and after every step. -/
theorem forall_prefix_iff {P : σ → Prop} {s : σ} {es : List ε} :
    (∀ pre, pre <+: es → P (M.run s pre)) ↔
      P s ∧ M.Admits (fun s e => P (M.step s e).1) s es := by
  induction es generalizing s with
  | nil => simp [Admits]
  | cons e es ih =>
      simp only [Admits, ← ih, List.prefix_cons_iff]
      constructor
      · intro h
        exact ⟨h [] (Or.inl rfl), fun pre hpre => h (e :: pre) (Or.inr ⟨pre, rfl, hpre⟩)⟩
      · rintro ⟨hs, hrest⟩ pre (rfl | ⟨pre, rfl, hpre⟩)
        · exact hs
        · exact hrest pre hpre

theorem admits_iff_forall_prefix {ok : σ → ε → Prop} {s : σ} {es : List ε} :
    M.Admits ok s es ↔ ∀ pre e, pre ++ [e] <+: es → ok (M.run s pre) e := by
  constructor
  · rintro h pre e ⟨post, rfl⟩
    exact (admits_append.mp (admits_append.mp h).1).2.1
  · intro h
    induction es generalizing s with
    | nil => trivial
    | cons e es ih =>
        refine ⟨h [] e ⟨es, rfl⟩, ih fun pre f hpre => ?_⟩
        exact h (e :: pre) f (List.cons_prefix_cons.mpr ⟨rfl, hpre⟩)

theorem forall_outputs_iff {P : ω → Prop} {s : σ} {es : List ε} :
    (∀ a ∈ M.outputs s es, P a) ↔ M.Admits (fun s e => ∀ a ∈ (M.step s e).2, P a) s es := by
  induction es generalizing s with
  | nil => simp [Admits]
  | cons e es ih => simp only [outputs_cons, List.forall_mem_append, Admits, ih]

/-- An invariant kept by every admitted step holds after every admitted run. -/
theorem run_induction {ok : σ → ε → Prop} {P : σ → Prop}
    (hstep : ∀ s e, P s → ok s e → P (M.step s e).1)
    {s : σ} {es : List ε} (hs : P s) (hok : M.Admits ok s es) : P (M.run s es) := by
  induction es generalizing s with
  | nil => exact hs
  | cons e es ih => exact ih (hstep s e hs hok.1) hok.2

theorem Admits.imp {ok ok' : σ → ε → Prop} {P : σ → Prop}
    (himp : ∀ s e, P s → ok s e → ok' s e) (hstep : ∀ s e, P s → ok s e → P (M.step s e).1)
    {s : σ} {es : List ε} (hok : M.Admits ok s es) (hs : P s) : M.Admits ok' s es := by
  induction es generalizing s with
  | nil => trivial
  | cons e es ih => exact ⟨himp s e hs hok.1, ih hok.2 (hstep s e hs hok.1)⟩

/-- Two guards that agree in every state of an invariant admit the same runs, if a step
that one of them admits keeps the invariant. The guard `pre` holds at every step. -/
theorem admits_congr {pre ok ok' : σ → ε → Prop} {P : σ → Prop}
    (hiff : ∀ s e, P s → pre s e → (ok s e ↔ ok' s e))
    (hstep : ∀ s e, P s → pre s e → ok s e → P (M.step s e).1)
    {s : σ} {es : List ε} (hs : P s) (hpre : M.Admits pre s es) :
    M.Admits ok s es ↔ M.Admits ok' s es := by
  induction es generalizing s with
  | nil => exact Iff.rfl
  | cons e es ih =>
      have hhead := hiff s e hs hpre.1
      constructor
      · intro h
        exact ⟨hhead.mp h.1, (ih (hstep s e hs hpre.1 h.1) hpre.2).mp h.2⟩
      · intro h
        have hok := hhead.mpr h.1
        exact ⟨hok, (ih (hstep s e hs hpre.1 hok) hpre.2).mpr h.2⟩

theorem admits_congr_of {ok ok' : σ → ε → Prop} {P : σ → Prop}
    (hiff : ∀ s e, P s → (ok s e ↔ ok' s e))
    (hstep : ∀ s e, P s → ok s e → P (M.step s e).1) {s : σ} {es : List ε} (hs : P s) :
    M.Admits ok s es ↔ M.Admits ok' s es :=
  admits_congr (fun s e hP _ => hiff s e hP) (fun s e hP _ => hstep s e hP) hs
    (admits_of_forall (fun _ _ => trivial) s)

/-- An invariant that relates the state to the outputs made so far. -/
theorem trace_induction {ok : σ → ε → Prop} {P : List ω → σ → Prop}
    (hstep : ∀ out s e, P out s → ok s e → P (out ++ (M.step s e).2) (M.step s e).1)
    {out : List ω} {s : σ} {es : List ε} (hs : P out s) (hok : M.Admits ok s es) :
    P (out ++ M.outputs s es) (M.run s es) := by
  induction es generalizing out s with
  | nil => simpa using hs
  | cons e es ih =>
      have h := ih (hstep out s e hs hok.1) hok.2
      rwa [List.append_assoc] at h

/-- The erasure rule. `R` relates a state of the full run to one of the run from
which the inputs with `keep e = false` are removed. If a kept input moves related
states to related states with the same visible outputs, and a removed one has no
visible output and leaves its state related, the two runs have the same visible
outputs and end in related states. -/
theorem erase {ok : σ → ε → Prop} {R : σ → σ → Prop} (keep : ε → Bool) (vis : ω → Bool)
    (hkeep : ∀ s t e, R s t → ok s e → keep e = true →
      R (M.step s e).1 (M.step t e).1 ∧
        (M.step s e).2.filter vis = (M.step t e).2.filter vis)
    (hdrop : ∀ s t e, R s t → ok s e → keep e = false →
      R (M.step s e).1 t ∧ (M.step s e).2.filter vis = [])
    {s t : σ} {es : List ε} (hR : R s t) (hok : M.Admits ok s es) :
    R (M.run s es) (M.run t (es.filter keep)) ∧
      (M.outputs s es).filter vis = (M.outputs t (es.filter keep)).filter vis := by
  induction es generalizing s t with
  | nil => exact ⟨hR, rfl⟩
  | cons e es ih =>
      cases hk : keep e with
      | true =>
          obtain ⟨hR', hout⟩ := hkeep s t e hR hok.1 hk
          obtain ⟨hrun, houts⟩ := ih hR' hok.2
          rw [List.filter_cons_of_pos hk]
          exact ⟨hrun, by rw [outputs_cons, outputs_cons, List.filter_append,
            List.filter_append, hout, houts]⟩
      | false =>
          obtain ⟨hR', hout⟩ := hdrop s t e hR hok.1 hk
          obtain ⟨hrun, houts⟩ := ih hR' hok.2
          rw [List.filter_cons_of_neg (by simp [hk])]
          exact ⟨hrun, by rw [outputs_cons, List.filter_append, hout, houts,
            List.nil_append]⟩

end Mealy

end Library
