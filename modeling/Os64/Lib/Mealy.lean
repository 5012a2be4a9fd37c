/-
  Machines that answer each input with an output.

  `outputs m s xs` are the answers to the inputs `xs` from the state `s`, `final m s xs` is the state
  after them, and `Along m P s xs` says that `P` holds of the state and the input of every step.

  * `outputs_eq_iff`: two machines whose states stay related give the same answers exactly when
    they do so at every step.
-/
import Mathlib.Data.List.Basic

namespace Os64.Lib

variable {σ τ ι ο : Type}

/-- The output and the next state, for a state and an input. -/
abbrev Mealy (σ ι ο : Type) := σ → ι → ο × σ

namespace Mealy

def outputs (m : Mealy σ ι ο) (s : σ) : List ι → List ο
  | [] => []
  | x :: xs => (m s x).1 :: outputs m (m s x).2 xs

/-- `P` holds of every step from `s`. -/
def Along (m : Mealy σ ι ο) (P : σ → ι → Prop) (s : σ) : List ι → Prop
  | [] => True
  | x :: xs => P s x ∧ Along m P (m s x).2 xs

instance decAlong (m : Mealy σ ι ο) (P : σ → ι → Prop) [∀ s x, Decidable (P s x)] (s : σ) :
    (xs : List ι) → Decidable (Along m P s xs)
  | [] => isTrue trivial
  | x :: xs => @instDecidableAnd _ _ _ (decAlong m P (m s x).2 xs)

/-- The machines answer alike exactly when the steps of the second one all meet `P`. -/
theorem outputs_eq_iff {m : Mealy σ ι ο} {m' : Mealy τ ι ο} {R : σ → τ → Prop}
    {P : τ → ι → Prop} (hnext : ∀ s t x, R s t → R (m s x).2 (m' t x).2)
    (hout : ∀ s t x, R s t → ((m s x).1 = (m' t x).1 ↔ P t x)) {s : σ} {t : τ} (h : R s t)
    (xs : List ι) : m.outputs s xs = m'.outputs t xs ↔ m'.Along P t xs := by
  induction xs generalizing s t with
  | nil => exact ⟨fun _ => trivial, fun _ => rfl⟩
  | cons x xs ih =>
      change _ :: _ = _ :: _ ↔ _ ∧ _
      rw [List.cons.injEq, hout s t x h, ih (hnext s t x h)]

end Mealy

end Os64.Lib
