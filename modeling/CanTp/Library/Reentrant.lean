import Mathlib.Logic.Basic

/-!
# Calls that are answered inside or afterwards

A component makes calls `x : χ` of an outside, and the outside answers each call by a
callback. `reenter` answers inside of the call, so that the component runs into itself,
as deep as the fuel allows; `settle` lets every call return at once and answers
afterwards, one call at a time, until no answer is missing. Where a callback makes at
most one call, makes it last and comes closer to making none, both end, in the same
state.
-/

namespace Library

variable {σ χ : Type*}

/-- What a call of the outside comes to, for the state it is made in. -/
abbrev Port (σ χ : Type*) := χ → σ → Option σ

/-- A call that returns at once is only noted. -/
def Port.later (emit : χ → σ → σ) : Port σ χ := fun x s => some (emit x s)

/-- A call that is answered by `answer` before it returns, with calls of the same kind. -/
def reenter (emit : χ → σ → σ) (answer : Port σ χ → σ → Option σ) : Nat → Port σ χ
  | 0, _, _ => none
  | n + 1, x, s => answer (reenter emit answer n) (emit x s)

/-- Answers the calls noted in `s`, of which `k` are answered. -/
def settle (calls : σ → Nat) (late : σ → σ) : Nat → Nat → σ → Option σ
  | 0, k, s => if calls s ≤ k then some s else none
  | n + 1, k, s => if calls s ≤ k then some s else settle calls late n (k + 1) (late s)

/-- Started in `s`, `f` makes no call, or one call that is the last thing it does, in a
state that is `ok`. -/
inductive CallsLast (calls : σ → Nat) (ok : σ → Prop) (s : σ) (f : Port σ χ → Option σ) : Prop
  | quiet (t : σ) (hcalls : calls t = calls s) (h : ∀ port, f port = some t)
  | call (x : χ) (t : σ) (hcalls : calls t = calls s) (hok : ok t) (h : ∀ port, f port = port x t)

section Reentrant

variable {emit : χ → σ → σ} {answer : Port σ χ → σ → Option σ} {calls : σ → Nat} {late : σ → σ}
  {s t : σ} {n k : Nat}

theorem settle_of_le (h : calls s ≤ k) : settle calls late n k s = some s := by
  cases n with
  | zero => exact if_pos h
  | succ n => exact if_pos h

theorem settle_succ (h : k < calls s) :
    settle calls late (n + 1) k s = settle calls late n (k + 1) (late s) :=
  if_neg (Nat.not_le.mpr h)

theorem CallsLast.of_eq {ok ok' : σ → Prop} {f : Port σ χ → Option σ}
    (h : CallsLast calls ok' t f) (hcalls : calls t = calls s) (hok : ∀ u, ok' u → ok u) :
    CallsLast calls ok s f := by
  cases h with
  | quiet u hu hport => exact .quiet u (hu.trans hcalls) hport
  | call x u hu hu' hport => exact .call x u (hu.trans hcalls) (hok u hu') hport

theorem CallsLast.ret {ok : σ → Prop} (t : σ) (hcalls : calls t = calls s) :
    CallsLast calls ok s fun _ : Port σ χ => some t :=
  .quiet t hcalls fun _ => rfl

theorem CallsLast.ite {ok : σ → Prop} {f g : Port σ χ → Option σ} {p : Prop} [Decidable p]
    (hf : p → CallsLast calls ok s f) (hg : ¬ p → CallsLast calls ok s g) :
    CallsLast calls ok s fun port => if p then f port else g port := by
  by_cases hp : p
  · simpa only [if_pos hp] using hf hp
  · simpa only [if_neg hp] using hg hp

/-- What is answered by the outside, and a measure of how many calls are still to come. -/
structure Answers (emit : χ → σ → σ) (answer : Port σ χ → σ → Option σ) (calls : σ → Nat)
    (late : σ → σ) (μ : σ → Nat) : Prop where
  calls_emit : ∀ x s, calls (emit x s) = calls s + 1
  measure_emit : ∀ x s, μ (emit x s) = μ s
  late_eq : ∀ s, answer (Port.later emit) s = some (late s)
  last : ∀ s, CallsLast calls (fun t => μ t < μ s) s fun port => answer port s

variable {μ : σ → Nat}

/-- A call that is answered inside ends as it does when it is answered afterwards, by
induction on how deep it runs. -/
theorem Answers.call (h : Answers emit answer calls late μ) (x : χ) (hn : μ s < n) :
    ∃ t, reenter emit answer n x s = some t ∧
      settle calls late n (calls s) (emit x s) = some t := by
  induction n generalizing s x with
  | zero => exact absurd hn (Nat.not_lt_zero _)
  | succ n ih =>
      have hcalls := h.calls_emit x s
      have hlate := h.late_eq (emit x s)
      rw [settle_succ (by omega), reenter]
      cases h.last (emit x s) with
      | quiet t hquiet hport =>
          rw [hport] at hlate ⊢
          obtain rfl := Option.some.inj hlate
          exact ⟨_, rfl, settle_of_le (by omega)⟩
      | call y t hquiet hlt hport =>
          rw [hport] at hlate ⊢
          obtain hemit : emit y t = late (emit x s) := Option.some.inj hlate
          rw [← hemit, ← hcalls, ← hquiet]
          exact ih y (by have := h.measure_emit x s; omega)

/-- The same for a piece of the component that makes at most one call, as the last thing. -/
theorem Answers.run (h : Answers emit answer calls late μ) {f : Port σ χ → Option σ}
    (hf : CallsLast calls (fun t => μ t < n) s f) (hs : f (Port.later emit) = some t) :
    ∃ u, f (reenter emit answer n) = some u ∧ settle calls late n (calls s) t = some u := by
  cases hf with
  | quiet t' hcalls hport =>
      rw [hport] at hs ⊢
      obtain rfl := Option.some.inj hs
      exact ⟨_, rfl, settle_of_le (Nat.le_of_eq hcalls)⟩
  | call x t' hcalls hlt hport =>
      rw [hport] at hs ⊢
      obtain rfl : emit x t' = t := Option.some.inj hs
      rw [← hcalls]
      exact h.call x hlt

end Reentrant

end Library
