import CanTp.Library.Reentrant
import CanTp.Library.Traced

/-!
# What carries a state

The functions of a component change a state `σ`, access elements `α` and make calls `χ` of
the outside. Written over anything that carries the state, they are one definition that
runs in several ways: over the bare state, over a state with a trace of its accesses, and
over a state whose calls are answered by a port before they return. A `Hom` between two
carriers goes through the operations, and so through every function that is made of them;
a `CallHom` goes through the calls too.
-/

namespace Library

/-- `τ` carries a state `σ`. Accesses are marked and leave the state alone; what a call does
to it is up to the carrier. -/
class Carrier (τ : Type*) (σ α χ : outParam Type*) where
  val : τ → σ
  on : τ → (σ → σ) → τ
  mark : τ → List α → τ
  call : τ → χ → τ
  val_on : ∀ t f, val (on t f) = f (val t)
  val_mark : ∀ t as, val (mark t as) = val t

namespace Carrier

variable {σ α χ τ τ' : Type*} [Carrier τ σ α χ] [Carrier τ' σ α χ]

attribute [simp] val_on val_mark

/-- A way from one carrier to another, which may answer calls in its own way. -/
structure Hom (τ τ' : Type*) {σ α χ : Type*} [Carrier τ σ α χ] [Carrier τ' σ α χ] where
  map : τ → τ'
  val_map : ∀ t, val (map t) = val t
  on_map : ∀ t f, on (map t) f = map (on t f)
  mark_map : ∀ t as, mark (map t) as = map (mark t as)

/-- A way from one carrier to another that goes through the calls. -/
structure CallHom (τ τ' : Type*) {σ α χ : Type*} [Carrier τ σ α χ] [Carrier τ' σ α χ]
    extends Hom τ τ' where
  call_map : ∀ t x, call (map t) x = map (call t x)

attribute [simp] Hom.val_map Hom.on_map Hom.mark_map CallHom.call_map

theorem Hom.forUpTo_map (φ : Hom τ τ') {f : Nat → τ → τ} {g : Nat → τ' → τ'}
    (h : ∀ i t, g i (φ.map t) = φ.map (f i t)) (n : Nat) (t : τ) :
    forUpTo n g (φ.map t) = φ.map (forUpTo n f t) := by
  induction n with
  | zero => rfl
  | succ n ih => rw [forUpTo_succ, forUpTo_succ, ih, h]

end Carrier

/-! ### A trace -/

namespace Traced

variable {σ α χ : Type*} [Carrier σ σ α χ]

instance : Carrier (Traced σ α) σ α χ where
  val := val
  on := on
  mark := mark
  call t x := t.on (Carrier.call · x)
  val_on _ _ := rfl
  val_mark _ _ := rfl

theorem val_eq (t : Traced σ α) : Carrier.val t = t.val := rfl

theorem on_eq (t : Traced σ α) (f : σ → σ) : Carrier.on t f = t.on f := rfl

theorem mark_eq (t : Traced σ α) (as : List α) : Carrier.mark t as = t.mark as := rfl

theorem call_eq (t : Traced σ α) (x : χ) : Carrier.call t x = t.on (Carrier.call · x) := rfl

end Traced

/-! ### A port -/

/-- A state, and whether all calls came back so far. -/
structure Via {σ χ : Type*} (port : Port σ χ) where
  val : σ
  back : Bool

namespace Via

variable {σ χ : Type*} {port : Port σ χ}

/-- Before the first call. -/
abbrev start (port : Port σ χ) (s : σ) : Via port := ⟨s, true⟩

/-- What is left if all calls came back. -/
def result (v : Via port) : Option σ := if v.back then some v.val else none

/-- A call, as the port answers it. -/
def call (v : Via port) (x : χ) : Via port :=
  match port x v.val with
  | some s => ⟨s, v.back⟩
  | none => ⟨v.val, false⟩

/-- It carries the state; accesses leave no trace. -/
abbrev carrier (α : Type*) : Carrier (Via port) σ α χ where
  val := val
  on v f := { v with val := f v.val }
  mark v _ := v
  call := call
  val_on _ _ := rfl
  val_mark _ _ := rfl

theorem result_call (s : σ) (x : χ) : (call (start port s) x).result = port x s := by
  unfold call
  cases port x s with
  | none => rfl
  | some s' => rfl

end Via

section CallsLast

variable {σ χ : Type*} {calls : σ → Nat} {ok : σ → Prop} {s : σ}

theorem CallsLast.via_call (x : χ) (t : σ) (hcalls : calls t = calls s) (hok : ok t) :
    CallsLast calls ok s fun port : Port σ χ => ((Via.start port t).call x).result :=
  .call x t hcalls hok fun _ => Via.result_call t x

theorem CallsLast.via_ite {f g : ∀ port : Port σ χ, Via port} {p : Prop} [Decidable p]
    (hf : p → CallsLast calls ok s fun port => (f port).result)
    (hg : ¬ p → CallsLast calls ok s fun port => (g port).result) :
    CallsLast calls ok s fun port => (if p then f port else g port).result := by
  simpa only [apply_ite Via.result] using CallsLast.ite hf hg

end CallsLast

end Library
