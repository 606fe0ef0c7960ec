import Mathlib.Data.List.Basic

/-!
# Streams with losses and repetitions

`Perturbed d r xs ys` says that the stream `ys` comes from the list `xs` by dropping
`d` elements and inserting `r` immediate repetitions, with the order kept. An element
of `ys` is then at most `r` places behind and at most `d` places before its place in
`xs`.
-/

namespace Library

variable {α : Type*}

/-- `ys` is `xs` without `d` of its elements and with `r` immediate repetitions. -/
inductive Perturbed : (d r : Nat) → (xs ys : List α) → Prop
  | nil : Perturbed 0 0 [] []
  | drop {d r : Nat} {xs ys : List α} (x : α) (h : Perturbed d r xs ys) :
      Perturbed (d + 1) r (x :: xs) ys
  | keep {d r : Nat} {xs ys : List α} (x : α) (n : Nat) (h : Perturbed d r xs ys) :
      Perturbed d (r + n) (x :: xs) (List.replicate (n + 1) x ++ ys)

namespace Perturbed

variable {d r : Nat} {xs ys : List α}

theorem refl (xs : List α) : Perturbed 0 0 xs xs := by
  induction xs with
  | nil => exact .nil
  | cons x xs ih => exact .keep x 0 ih

/-- An element of the stream is close to its place in the list. -/
theorem exists_place (h : Perturbed d r xs ys) {j : Nat} {y : α} (hj : ys[j]? = some y) :
    ∃ i, xs[i]? = some y ∧ i ≤ j + d ∧ j ≤ i + r := by
  induction h generalizing j with
  | nil => simp at hj
  | drop x h ih =>
      obtain ⟨i, hi, hid, hir⟩ := ih hj
      exact ⟨i + 1, by simpa using hi, by omega, by omega⟩
  | keep x n h ih =>
      rw [List.getElem?_append, List.length_replicate] at hj
      split at hj
      · rename_i hlt
        rw [List.getElem?_replicate_of_lt hlt, Option.some.injEq] at hj
        exact ⟨0, by simpa using hj, by omega, by omega⟩
      · obtain ⟨i, hi, hid, hir⟩ := ih hj
        exact ⟨i + 1, by simpa using hi, by omega, by omega⟩

theorem subset (h : Perturbed d r xs ys) : ys ⊆ xs := by
  intro y hy
  obtain ⟨j, hj⟩ := List.mem_iff_getElem?.mp hy
  obtain ⟨i, hi, -⟩ := h.exists_place hj
  exact List.mem_of_getElem? hi

end Perturbed

end Library
