import CanTp.Library.Simulation
import Mathlib.Data.List.Basic

/-!
# Two processes and two pipes

A `Process` reads a fixed number of elements, which depends on its state, goes on to its
next state and writes some elements; it waits for nothing else. Two processes are joined
by a pipe in each direction. Neither can see what is still in a pipe beyond the elements
it reads, so the steps of the two commute, and the order in which they are made does not
show in the result.
-/

namespace Library

variable {P Q β : Type*}

/-- What a process reads before its next action, and that action: the state it goes on
to and the elements it writes. -/
structure Process (P β : Type*) where
  needs : P → Nat
  act : P → List β → P × List β

/-- Two processes with the pipe from the left one to the right one and the one back. -/
structure Piped (P Q β : Type*) where
  left : P
  right : Q
  down : List β
  up : List β
deriving DecidableEq

namespace Piped

/-- The process that acts next. -/
inductive Turn
  | left
  | right
deriving DecidableEq, Repr

/-- The left process acts. -/
def actLeft (A : Process P β) (s : Piped P Q β) : Piped P Q β :=
  let n := A.needs s.left
  let p := A.act s.left (s.up.take n)
  ⟨p.1, s.right, s.down ++ p.2, s.up.drop n⟩

/-- The right process acts. -/
def actRight (B : Process Q β) (s : Piped P Q β) : Piped P Q β :=
  let n := B.needs s.right
  let q := B.act s.right (s.down.take n)
  ⟨s.left, q.1, s.down.drop n, s.up ++ q.2⟩

/-- One of the processes acts, if what it reads is there. -/
def turn (A : Process P β) (B : Process Q β) : Turn → Piped P Q β → Option (Piped P Q β)
  | .left, s => if A.needs s.left ≤ s.up.length then some (s.actLeft A) else none
  | .right, s => if B.needs s.right ≤ s.down.length then some (s.actRight B) else none

/-- Some process acts. -/
def Step (A : Process P β) (B : Process Q β) (s t : Piped P Q β) : Prop :=
  ∃ side, turn A B side s = some t

variable {A : Process P β} {B : Process Q β} {s t : Piped P Q β}

theorem step_iff : Step A B s t ↔
    A.needs s.left ≤ s.up.length ∧ s.actLeft A = t ∨
      B.needs s.right ≤ s.down.length ∧ s.actRight B = t := by
  have hleft : turn A B .left s = some t ↔
      A.needs s.left ≤ s.up.length ∧ s.actLeft A = t := by
    rw [turn, Option.ite_none_right_eq_some, Option.some.injEq]
  have hright : turn A B .right s = some t ↔
      B.needs s.right ≤ s.down.length ∧ s.actRight B = t := by
    rw [turn, Option.ite_none_right_eq_some, Option.some.injEq]
  rw [← hleft, ← hright]
  constructor
  · rintro ⟨_ | _, h⟩
    · exact .inl h
    · exact .inr h
  · rintro (h | h)
    · exact ⟨.left, h⟩
    · exact ⟨.right, h⟩

theorem actRight_actLeft (hl : A.needs s.left ≤ s.up.length)
    (hr : B.needs s.right ≤ s.down.length) :
    (s.actLeft A).actRight B = (s.actRight B).actLeft A := by
  simp only [actLeft, actRight]
  rw [List.take_append_of_le_length hr, List.take_append_of_le_length hl,
    List.drop_append_of_le_length hr, List.drop_append_of_le_length hl]

/-- Both processes find in their pipes what they read, one before and one after the
other. -/
theorem step_actLeft_actRight (hl : A.needs s.left ≤ s.up.length)
    (hr : B.needs s.right ≤ s.down.length) :
    Step A B (s.actLeft A) ((s.actRight B).actLeft A) ∧
      Step A B (s.actRight B) ((s.actRight B).actLeft A) := by
  constructor
  · refine step_iff.mpr (.inr ⟨hr.trans ?_, actRight_actLeft hl hr⟩)
    rw [actLeft, List.length_append]
    exact Nat.le_add_right _ _
  · refine step_iff.mpr (.inl ⟨hl.trans ?_, rfl⟩)
    rw [actRight, List.length_append]
    exact Nat.le_add_right _ _

theorem commutes (A : Process P β) (B : Process Q β) :
    Commutes (Step A B) fun _ : Piped P Q β => True where
  keeps _ _ := trivial
  diamond {s t u} _ ht hu := by
    obtain ⟨hl, rfl⟩ | ⟨hr, rfl⟩ := step_iff.mp ht <;>
      obtain ⟨hl', rfl⟩ | ⟨hr', rfl⟩ := step_iff.mp hu
    · exact .inl rfl
    · exact .inr ⟨_, step_actLeft_actRight hl hr'⟩
    · exact .inr ⟨_, (step_actLeft_actRight hl' hr).symm⟩
    · exact .inl rfl

/-- Where the two processes stop, each of them waits for more than its pipe holds. -/
theorem final_iff : Final (Step A B) s ↔
    s.up.length < A.needs s.left ∧ s.down.length < B.needs s.right := by
  constructor
  · intro h
    exact ⟨not_le.mp fun hl => h _ (step_iff.mpr (.inl ⟨hl, rfl⟩)),
      not_le.mp fun hr => h _ (step_iff.mpr (.inr ⟨hr, rfl⟩))⟩
  · rintro ⟨hl, hr⟩ t hst
    obtain ⟨h, -⟩ | ⟨h, -⟩ := step_iff.mp hst
    · exact absurd hl (not_lt.mpr h)
    · exact absurd hr (not_lt.mpr h)

end Piped

end Library
