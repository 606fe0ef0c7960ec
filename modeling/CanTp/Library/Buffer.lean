import Mathlib.Data.List.Basic

/-!
# Counting loops and byte buffers

`forUpTo n body s` is the loop `for (i = 0; i < n; i++)` whose body changes the
state `s`. `slice xs i n` reads the `n` elements of `xs` from position `i` on,
`overwrite xs i ys` stores the elements of `ys` there one after the other. The
lemmas say how a slice and a store meet: a buffer that is filled from the front,
one slice of `xs` after the other, holds a prefix of `xs` at every moment.
-/

namespace Library

variable {σ α : Type*}

/-- `for (i = 0; i < n; i++) body(i)` -/
def forUpTo : Nat → (Nat → σ → σ) → σ → σ
  | 0, _, s => s
  | n + 1, body, s => body n (forUpTo n body s)

@[simp] theorem forUpTo_zero (body : Nat → σ → σ) (s : σ) : forUpTo 0 body s = s := rfl

theorem forUpTo_succ (n : Nat) (body : Nat → σ → σ) (s : σ) :
    forUpTo (n + 1) body s = body n (forUpTo n body s) := rfl

/-- The `n` elements of `xs` from position `i` on, fewer where `xs` ends. -/
def slice (xs : List α) (i n : Nat) : List α := (xs.drop i).take n

@[simp] theorem length_slice (xs : List α) (i n : Nat) :
    (slice xs i n).length = min n (xs.length - i) := by
  simp [slice]

theorem getElem?_slice (xs : List α) (i n j : Nat) :
    (slice xs i n)[j]? = if j < n then xs[i + j]? else none := by
  simp [slice, List.getElem?_take]

theorem getD_slice (xs : List α) (i n j : Nat) (d : α) :
    (slice xs i n).getD j d = if j < n then xs.getD (i + j) d else d := by
  simp only [List.getD_eq_getElem?_getD, getElem?_slice]
  split <;> rfl

theorem take_append_slice (xs : List α) (i n : Nat) :
    xs.take i ++ slice xs i n = xs.take (i + n) := by
  rw [slice, List.take_add]

/-- Stores `ys` into `xs` from position `i` on. A store past the end of `xs` is
lost, as `List.set` loses it. -/
def overwrite : List α → Nat → List α → List α
  | xs, _, [] => xs
  | xs, i, y :: ys => overwrite (xs.set i y) (i + 1) ys

@[simp] theorem overwrite_nil (xs : List α) (i : Nat) : overwrite xs i [] = xs := rfl

@[simp] theorem length_overwrite (xs : List α) (i : Nat) (ys : List α) :
    (overwrite xs i ys).length = xs.length := by
  induction ys generalizing xs i with
  | nil => rfl
  | cons y ys ih => rw [overwrite, ih, List.length_set]

theorem overwrite_concat (xs : List α) (i : Nat) (ys : List α) (y : α) :
    overwrite xs i (ys ++ [y]) = (overwrite xs i ys).set (i + ys.length) y := by
  induction ys generalizing xs i with
  | nil => rfl
  | cons z ys ih =>
      rw [List.cons_append, overwrite, ih, overwrite, List.length_cons,
        Nat.add_right_comm, Nat.add_assoc]

theorem overwrite_eq (xs : List α) (i : Nat) (ys : List α) (h : i + ys.length ≤ xs.length) :
    overwrite xs i ys = xs.take i ++ ys ++ xs.drop (i + ys.length) := by
  induction ys generalizing xs i with
  | nil => simp
  | cons y ys ih =>
      rw [List.length_cons] at h
      have hset : xs.set i y = xs.take i ++ y :: xs.drop (i + 1) :=
        List.set_eq_take_append_cons_drop.trans (if_pos (by omega))
      have hlen : (xs.take i).length = i := by rw [List.length_take]; omega
      rw [overwrite, ih _ _ (by rw [List.length_set]; omega), hset, List.take_append,
        List.drop_append, hlen]
      have htake : (xs.take i).take (i + 1) = xs.take i :=
        List.take_of_length_le (by omega)
      have hdrop : (xs.take i).drop (i + 1 + ys.length) = [] :=
        List.drop_of_length_le (by omega)
      have hshift : i + 1 + ys.length - i = ys.length + 1 := by omega
      rw [htake, hdrop, Nat.add_sub_cancel_left, hshift]
      simp only [List.take_succ_cons, List.take_zero, List.drop_succ_cons, List.drop_drop,
        List.append_assoc, List.cons_append, List.nil_append, List.length_cons]
      rw [show i + 1 + ys.length = i + (ys.length + 1) by omega]

/-- A buffer whose first `i` elements are those of `xs` holds a longer prefix of
`xs` once the next slice of `xs` is stored at `i`. -/
theorem take_overwrite_slice {buf xs : List α} {i n : Nat}
    (hbuf : buf.take i = xs.take i) (hlen : xs.length ≤ buf.length) (hi : i ≤ xs.length) :
    (overwrite buf i (slice xs i n)).take (min (i + n) xs.length) = xs.take (i + n) := by
  have hs : i + (slice xs i n).length = min (i + n) xs.length := by
    rw [length_slice]
    omega
  rw [overwrite_eq _ _ _ (by omega), hbuf, take_append_slice]
  have hpre : (xs.take (i + n)).length = min (i + n) xs.length := List.length_take
  rw [List.take_append_of_le_length (by omega), List.take_of_length_le (by omega)]

/-! ### Buffers of fixed length -/

theorem getD_toList_setIfInBounds {n : Nat} (v : Vector α n) (i j : Nat) (x d : α) :
    (v.setIfInBounds i x).toList.getD j d = if i = j ∧ j < n then x else v.toList.getD j d := by
  simp only [List.getD_eq_getElem?_getD, Vector.getElem?_toList, Vector.getElem?_setIfInBounds]
  by_cases hij : i = j
  · subst hij
    by_cases hi : i < n <;> simp [hi]
  · simp [hij]

theorem ext_getD_toList {n : Nat} {u v : Vector α n} (d : α)
    (h : ∀ i < n, u.toList.getD i d = v.toList.getD i d) : u = v := by
  apply Vector.ext
  intro i hi
  simpa [List.getD_eq_getElem?_getD, hi] using h i hi

end Library
