/-
  Programs whose runs stay within a preorder of states.

  `Within R x`: where `x` ends well, its last state is `R`-above its first. The rules follow the
  program, so that a relation needs its own argument for the writing primitives only.
-/
import Os64.Lib.Exec
import Mathlib.Order.Defs.Unbundled

namespace Os64.Lib

variable {ε σ α β : Type} {R : σ → σ → Prop}

structure Within (R : σ → σ → Prop) (x : EStateM ε σ α) : Prop where
  ends : ∀ s, Ends x s (fun _ s' => R s s') fun _ _ => True

theorem Within.ok {x : EStateM ε σ α} (h : Within R x) {s s' : σ} {v : α} (hrun : x s = .ok v s') :
    R s s' := (h.ends s).ok hrun

theorem within_throw (e : ε) : Within R (throw e : EStateM ε σ α) := ⟨fun _ => ends_throw.mpr trivial⟩

theorem within_modify {f : σ → σ} (h : ∀ s, R s (f s)) : Within R (modify f : EStateM ε σ PUnit) :=
  ⟨fun s => ends_modify.mpr (h s)⟩

theorem within_ite {c : Prop} [Decidable c] {x y : EStateM ε σ α} (hx : Within R x)
    (hy : Within R y) : Within R (if c then x else y) := by
  split
  · exact hx
  · exact hy

section Preorder

variable [IsPreorder σ R]

theorem within_pure (v : α) : Within R (pure v : EStateM ε σ α) :=
  ⟨fun s => ends_pure.mpr (refl_of R s)⟩

theorem within_get : Within R (get : EStateM ε σ σ) := ⟨fun s => ends_get.mpr (refl_of R s)⟩

theorem Within.bind {x : EStateM ε σ α} {f : α → EStateM ε σ β} (hx : Within R x)
    (hf : ∀ v, Within R (f v)) : Within R (x >>= f) :=
  ⟨fun s => (hx.ends s).bind
    (fun v s₁ h₁ => ((hf v).ends s₁).mono (fun _ _ h => trans_of R h₁ h) fun _ _ h => h)
    fun _ _ h => h⟩

theorem within_ensure (c : Prop) [Decidable c] (e : ε) :
    Within R (ensure c e : EStateM ε σ Unit) :=
  within_ite (within_pure _) (within_throw _)

theorem within_forM {l : List β} {f : β → EStateM ε σ PUnit} (hf : ∀ x, Within R (f x)) :
    Within R (forM l f) := by
  induction l with
  | nil => exact within_pure _
  | cons x l ih =>
      rw [List.forM_cons]
      exact (hf x).bind fun _ => ih

end Preorder

end Os64.Lib
