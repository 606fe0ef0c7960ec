import CanTp.Library.Mealy

/-!
# Machines with an auxiliary variable

A machine with an auxiliary variable carries a value that every step may update and none
reads, such as a record of the inputs so far. Its runs are those of the machine, so what is
said with the variable is said about the machine.
-/

namespace Library

namespace Mealy

variable {σ ε ω γ : Type*} {M : Mealy σ ε ω} {record : σ → γ → ε → γ}

/-- The machine `M` with a variable that `record` updates. -/
def withGhost (M : Mealy σ ε ω) (record : σ → γ → ε → γ) : Mealy (σ × γ) ε ω where
  step s e := (((M.step s.1 e).1, record s.1 s.2 e), (M.step s.1 e).2)

theorem run_withGhost (s : σ × γ) (es : List ε) :
    ((M.withGhost record).run s es).1 = M.run s.1 es := by
  induction es generalizing s with
  | nil => rfl
  | cons e es ih => exact ih _

theorem outputs_withGhost (s : σ × γ) (es : List ε) :
    (M.withGhost record).outputs s es = M.outputs s.1 es := by
  induction es generalizing s with
  | nil => rfl
  | cons e es ih =>
      rw [outputs_cons, outputs_cons, ih]
      rfl

end Mealy

end Library
