import CanTp.Library.Transition
import Mathlib.Order.WellFounded

/-!
# Simulation and commuting steps

`Simulates R A rel μ` relates two systems of which the first has steps that the second
does not see. Such a step lowers the measure `μ`, so whatever holds where the runs of
the second system end holds, seen through `rel`, where those of the first end.

`Leaves` relates a system to one that it follows step by step until it may leave it for
good; the steps that it makes then are counted.

In a system whose steps commute a run that comes to an end decides all others: they
have the same end and the same length (`Commutes.unique`, `Commutes.ends`).
-/

namespace Library

open Relation

variable {σ τ : Type*} {R : σ → σ → Prop} {A : τ → τ → Prop} {s t u z : σ} {a : τ}

theorem acc_iff_finite :
    Acc (flip R) s ↔ ¬ ∃ f : Nat → σ, f 0 = s ∧ ∀ n, R (f n) (f (n + 1)) :=
  not_iff_comm.mp not_acc_iff_exists_descending_chain |>.symm

theorem exists_final_of_acc (h : Acc (flip R) s) : ∃ t, ReflTransGen R s t ∧ Final R t := by
  induction h with
  | intro s _ ih =>
      by_cases hfin : Final R s
      · exact ⟨s, .refl, hfin⟩
      · obtain ⟨t, hst⟩ := not_forall_not.mp hfin
        obtain ⟨u, htu, hu⟩ := ih t hst
        exact ⟨u, .head hst htu, hu⟩

theorem Ends.exists_final {P : σ → Prop} (h : Ends R s P) :
    ∃ t, ReflTransGen R s t ∧ Final R t :=
  exists_final_of_acc (acc_iff_finite.mpr h.finite)

/-! ### Simulation -/

/-- A step of `R` is a step of `A`, or one that `A` does not see and that lowers `μ`. -/
structure Stutters (R : σ → σ → Prop) (A : τ → τ → Prop) (rel : σ → τ → Prop)
    (μ : σ → Nat) : Prop where
  step : ∀ {s a t}, rel s a → R s t → (∃ b, A a b ∧ rel t b) ∨ rel t a ∧ μ t < μ s

/-- In addition, `R` stops only where `A` does. -/
structure Simulates (R : σ → σ → Prop) (A : τ → τ → Prop) (rel : σ → τ → Prop)
    (μ : σ → Nat) : Prop extends Stutters R A rel μ where
  final : ∀ {s a}, rel s a → Final R s → Final A a

section Simulates

variable {rel : σ → τ → Prop} {μ : σ → Nat}

/-- Every state reached is related to one that the simulating system reaches. -/
theorem Stutters.reached (h : Stutters R A rel μ) (hs : rel s a) (hst : ReflTransGen R s t) :
    ∃ b, ReflTransGen A a b ∧ rel t b := by
  induction hst with
  | refl => exact ⟨a, .refl, hs⟩
  | tail _ htu ih =>
      obtain ⟨b, hab, hb⟩ := ih
      obtain ⟨c, hbc, hc⟩ | ⟨hb', -⟩ := h.step hb htu
      · exact ⟨c, hab.tail hbc, hc⟩
      · exact ⟨b, hab, hb'⟩

/-- By induction on the run of `A`, and on the measure between two of its steps. -/
theorem Stutters.acc (h : Stutters R A rel μ) (ha : Acc (flip A) a) (hs : rel s a) :
    Acc (flip R) s := by
  induction ha generalizing s with
  | intro a _ iha =>
      induction hn : μ s using Nat.strongRecOn generalizing s with
      | ind n ihn =>
          refine .intro s fun t hst => ?_
          obtain ⟨b, hab, hb⟩ | ⟨hta, hlt⟩ := h.step hs hst
          · exact iha b hab hb
          · exact ihn (μ t) (hn ▸ hlt) hta rfl

/-- What holds where the runs of `A` end is carried over to the ends of those of `R`. -/
theorem Simulates.ends (h : Simulates R A rel μ) {Q : τ → Prop} {P : σ → Prop}
    (hA : Ends A a Q) (hs : rel s a) (hP : ∀ {t b}, rel t b → Q b → P t) : Ends R s P where
  finite := acc_iff_finite.mp (h.acc (acc_iff_finite.mpr hA.finite) hs)
  final t hst hfin := by
    obtain ⟨b, hab, hb⟩ := h.reached hs hst
    exact hP hb (hA.final b hab (h.final hb hfin))

end Simulates

/-! ### Leaving the other system -/

/-- A step of `R` is a step of `A`, or leads to where `R` is off the way of `A`. There it
stays, and each further step lowers the work that is left. -/
structure Leaves (R : σ → σ → Prop) (A : τ → τ → Prop) (rel : σ → τ → Prop)
    (Off : σ → Prop) (work : σ → Nat) : Prop where
  step : ∀ {s a t}, rel s a → R s t → (∃ b, A a b ∧ rel t b) ∨ Off t
  off : ∀ {s t}, Off s → R s t → Off t ∧ work t < work s

section Leaves

variable {rel : σ → τ → Prop} {Off : σ → Prop} {work : σ → Nat}

theorem Leaves.reached (h : Leaves R A rel Off work) (hs : rel s a) (hst : ReflTransGen R s t) :
    (∃ b, ReflTransGen A a b ∧ rel t b) ∨ Off t := by
  induction hst with
  | refl => exact .inl ⟨a, .refl, hs⟩
  | tail _ htu ih =>
      obtain ⟨b, hab, hb⟩ | hoff := ih
      · exact (h.step hb htu).imp_left fun ⟨c, hbc, hc⟩ => ⟨c, hab.tail hbc, hc⟩
      · exact .inr (h.off hoff htu).1

theorem Leaves.acc_off (h : Leaves R A rel Off work) (hs : Off s) : Acc (flip R) s := by
  induction hn : work s using Nat.strongRecOn generalizing s with
  | ind n ih =>
      refine .intro s fun t hst => ?_
      obtain ⟨hoff, hlt⟩ := h.off hs hst
      exact ih (work t) (hn ▸ hlt) hoff rfl

/-- By induction on the run of `A`, for as long as it is followed. -/
theorem Leaves.acc (h : Leaves R A rel Off work) (ha : Acc (flip A) a) (hs : rel s a) :
    Acc (flip R) s := by
  induction ha generalizing s with
  | intro a _ ih =>
      refine .intro s fun t hst => ?_
      obtain ⟨b, hab, hb⟩ | hoff := h.step hs hst
      · exact ih b hab hb
      · exact h.acc_off hoff

theorem Leaves.ends (h : Leaves R A rel Off work) (ha : Acc (flip A) a) (hs : rel s a)
    {P : σ → Prop} (hP : ∀ {t b}, ReflTransGen A a b → rel t b → Final R t → P t)
    (hoff : ∀ {t}, Off t → Final R t → P t) : Ends R s P where
  finite := acc_iff_finite.mp (h.acc ha hs)
  final t hst hfin := by
    obtain ⟨b, hab, hb⟩ | ht := h.reached hs hst
    · exact hP hab hb hfin
    · exact hoff ht hfin

end Leaves

/-! ### Steps that commute -/

/-- Where the invariant holds, two steps that are possible in one state can be made one
after the other, in both orders, with the same result. -/
structure Commutes (R : σ → σ → Prop) (Inv : σ → Prop) : Prop where
  keeps : ∀ {s t}, Inv s → R s t → Inv t
  diamond : ∀ {s t u}, Inv s → R s t → R s u → t = u ∨ ∃ v, R t v ∧ R u v

/-- A run of `n` steps. -/
def Steps (R : σ → σ → Prop) : Nat → σ → σ → Prop
  | 0, s, t => s = t
  | n + 1, s, t => ∃ u, R s u ∧ Steps R n u t

theorem exists_steps (h : ReflTransGen R s t) : ∃ n, Steps R n s t := by
  induction h using ReflTransGen.head_induction_on with
  | refl => exact ⟨0, rfl⟩
  | head hsu _ ih =>
      obtain ⟨n, hn⟩ := ih
      exact ⟨n + 1, _, hsu, hn⟩

section Commutes

variable {Inv : σ → Prop} (h : Commutes R Inv)
include h

/-- A step made at the start leaves a run to the same end that is one step shorter. -/
theorem Commutes.step {n : Nat} (hs : Inv s) (hrun : Steps R n s z) (hz : Final R z)
    (hsu : R s u) : ∃ m, n = m + 1 ∧ Steps R m u z := by
  induction n generalizing s u with
  | zero =>
      obtain rfl := hrun
      exact absurd hsu (hz u)
  | succ n ih =>
      refine ⟨n, rfl, ?_⟩
      obtain ⟨t, hst, htz⟩ := hrun
      obtain rfl | ⟨v, htv, huv⟩ := h.diamond hs hst hsu
      · exact htz
      · obtain ⟨m, rfl, hvz⟩ := ih (h.keeps hs hst) htz htv
        exact ⟨v, huv, hvz⟩

/-- Every run can be continued to the end of a given one, in the steps that this one has
more. -/
theorem Commutes.run {n k : Nat} (hs : Inv s) (hrun : Steps R n s z) (hz : Final R z)
    (hst : Steps R k s t) : ∃ m, n = k + m ∧ Steps R m t z := by
  induction k generalizing s n with
  | zero =>
      obtain rfl := hst
      exact ⟨n, (Nat.zero_add n).symm, hrun⟩
  | succ k ih =>
      obtain ⟨u, hsu, hut⟩ := hst
      obtain ⟨n, rfl, huz⟩ := h.step hs hrun hz hsu
      obtain ⟨m, rfl, htz⟩ := ih (h.keeps hs hsu) huz hut
      exact ⟨m, Nat.add_right_comm k m 1, htz⟩

/-- All runs that end have the same end and the same length. -/
theorem Commutes.unique {n k : Nat} (hs : Inv s) (hrun : Steps R n s z) (hz : Final R z)
    (hst : Steps R k s t) (ht : Final R t) : t = z ∧ k = n := by
  obtain ⟨m, rfl, htz⟩ := h.run hs hrun hz hst
  cases m with
  | zero => exact ⟨htz, rfl⟩
  | succ m =>
      obtain ⟨u, htu, -⟩ := htz
      exact absurd htu (ht u)

theorem Commutes.acc {n : Nat} (hs : Inv s) (hrun : Steps R n s z) (hz : Final R z) :
    Acc (flip R) s := by
  induction n generalizing s with
  | zero =>
      obtain rfl := hrun
      exact .intro s fun t hst => absurd hst (hz t)
  | succ n ih =>
      refine .intro s fun u hsu => ?_
      obtain ⟨m, hm, huz⟩ := h.step hs hrun hz hsu
      exact ih (h.keeps hs hsu) (Nat.succ.inj hm ▸ huz)

/-- If one run ends, all do, and in the same state. -/
theorem Commutes.ends (hs : Inv s) (hsz : ReflTransGen R s z) (hz : Final R z) :
    Ends R s (· = z) := by
  obtain ⟨n, hrun⟩ := exists_steps hsz
  refine ⟨acc_iff_finite.mp (h.acc hs hrun hz), fun t hst ht => ?_⟩
  obtain ⟨k, hk⟩ := exists_steps hst
  exact (h.unique hs hrun hz hk ht).1

end Commutes

end Library
