import CanTp.Library.Mealy
import Mathlib.Algebra.Order.Group.Nat

/-!
# Sums over the steps of a run

`M.tally f s es` adds up `f` over the inputs `es`, each in the state in which it is read.
An account that every step balances (what the state holds, and what comes in and goes out)
is balanced over every run.
-/

namespace Library

namespace Mealy

variable {σ ε ω : Type*} {M : Mealy σ ε ω}

/-- The sum of `f` over the steps of a run. -/
def tally (M : Mealy σ ε ω) (f : σ → ε → Nat) : σ → List ε → Nat
  | _, [] => 0
  | s, e :: es => f s e + M.tally f (M.step s e).1 es

@[simp] theorem tally_nil (f : σ → ε → Nat) (s : σ) : M.tally f s [] = 0 := rfl

@[simp] theorem tally_cons (f : σ → ε → Nat) (s : σ) (e : ε) (es : List ε) :
    M.tally f s (e :: es) = f s e + M.tally f (M.step s e).1 es := rfl

theorem tally_countP (p : ε → Bool) (s : σ) (es : List ε) :
    M.tally (fun _ e => if p e then 1 else 0) s es = es.countP p := by
  induction es generalizing s with
  | nil => rfl
  | cons e es ih => rw [tally_cons, ih, List.countP_cons, Nat.add_comm]

theorem tally_add (f g : σ → ε → Nat) (s : σ) (es : List ε) :
    M.tally (fun s e => f s e + g s e) s es = M.tally f s es + M.tally g s es := by
  induction es generalizing s with
  | nil => rfl
  | cons e es ih =>
      rw [tally_cons, tally_cons, tally_cons, ih]
      exact Nat.add_add_add_comm _ _ _ _

/-- A step balances the account: what was held and what comes in is what goes out and what
is held then. -/
structure Balances (M : Mealy σ ε ω) (P : σ → Prop) (held : σ → Nat)
    (came went : σ → ε → Nat) : Prop where
  keeps : ∀ s e, P s → P (M.step s e).1
  step : ∀ s e, P s → held s + came s e = went s e + held (M.step s e).1

/-- By induction on the run, with the sums of both sides carried along. -/
theorem Balances.run {P : σ → Prop} {held : σ → Nat} {came went : σ → ε → Nat}
    (h : M.Balances P held came went) {s : σ} (hs : P s) (es : List ε) :
    held s + M.tally came s es = M.tally went s es + held (M.run s es) := by
  induction es generalizing s with
  | nil => exact Nat.add_comm _ _
  | cons e es ih =>
      have hstep := h.step s e hs
      have hrest := ih (h.keeps s e hs)
      rw [tally_cons, tally_cons, run_cons]
      omega

end Mealy

end Library
