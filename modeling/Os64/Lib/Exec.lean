/-
  Running programs in `EStateM`: the state survives an error, so a run ends in
  `.ok a s` or in `.error e s`.

  * `bind_ok`, `bind_error`: what a run of `x >>= f` consists of.
  * `ensure`: a checked condition that ends the run with an error.
  * `onPart`: a program over one component of a larger state, run on that
    component; the rest of the state is untouched by definition.
  * `Ends x s Q E`: the run of `x` from `s` ends well in `Q` or with an error in `E`,
    a specification of both outcomes; `ends_bind` and its companions compute it
    along a program, and `ends_forM` is the invariant rule for a loop over a list.
  * `Reads x`: the program changes nothing, whatever it returns.
-/
import Mathlib.Tactic.Common
import Mathlib.Data.List.Basic

namespace Os64.Lib

variable {ε ε' σ τ α β : Type}

/-! ## Inverting a run -/

theorem bind_ok {x : EStateM ε σ α} {f : α → EStateM ε σ β} {s s' : σ} {b : β} :
    (x >>= f) s = .ok b s' ↔ ∃ a s₁, x s = .ok a s₁ ∧ f a s₁ = .ok b s' := by
  change EStateM.bind x f s = _ ↔ _
  unfold EStateM.bind
  cases x s <;> simp

theorem bind_error {x : EStateM ε σ α} {f : α → EStateM ε σ β} {s s' : σ} {e : ε} :
    (x >>= f) s = .error e s' ↔
      x s = .error e s' ∨ ∃ a s₁, x s = .ok a s₁ ∧ f a s₁ = .error e s' := by
  change EStateM.bind x f s = _ ↔ _
  unfold EStateM.bind
  cases x s <;> simp

/-- Forward reading of `bind_ok`: a step that succeeds hands over to the rest. -/
theorem bind_run {x : EStateM ε σ α} {f : α → EStateM ε σ β} {s s₁ : σ} {a : α}
    (h : x s = .ok a s₁) : (x >>= f) s = f a s₁ := by
  change EStateM.bind x f s = _
  unfold EStateM.bind
  rw [h]

/-- A bind, run: for evaluating straight-line programs with `simp`. -/
theorem bind_apply (x : EStateM ε σ α) (f : α → EStateM ε σ β) (s : σ) :
    (x >>= f) s = match x s with
      | .ok a s₁ => f a s₁
      | .error e s₁ => .error e s₁ := rfl

@[simp] theorem pure_run (a : α) (s : σ) : (pure a : EStateM ε σ α) s = .ok a s := rfl

@[simp] theorem get_run (s : σ) : (get : EStateM ε σ σ) s = .ok s s := rfl

@[simp] theorem set_run (t s : σ) : (set t : EStateM ε σ PUnit) s = .ok ⟨⟩ t := rfl

@[simp] theorem modify_run (f : σ → σ) (s : σ) :
    (modify f : EStateM ε σ PUnit) s = .ok ⟨⟩ (f s) := rfl

@[simp] theorem throw_run (e : ε) (s : σ) : (throw e : EStateM ε σ α) s = .error e s := rfl

/-- A condition that ends the run with `e` when it fails. -/
def ensure (c : Prop) [Decidable c] (e : ε) : EStateM ε σ Unit :=
  if c then pure () else throw e

theorem ensure_ok {c : Prop} [Decidable c] {e : ε} {s s' : σ} {u : Unit} :
    ensure c e s = .ok u s' ↔ c ∧ s' = s := by
  unfold ensure
  by_cases h : c <;> simp [h, eq_comm]

theorem ensure_error {c : Prop} [Decidable c] {e e' : ε} {s s' : σ} :
    ensure (σ := σ) c e s = .error e' s' ↔ ¬ c ∧ e' = e ∧ s' = s := by
  unfold ensure
  by_cases h : c <;> simp [h, eq_comm]

theorem ensure_run {c : Prop} [Decidable c] (h : c) (e : ε) (s : σ) :
    ensure c e s = .ok () s := by
  unfold ensure
  rw [if_pos h]
  rfl

/-! ## A program over one component of the state -/

/-- Run `x` on the component `look s`; `put` stores the component back and `err`
    embeds its errors. -/
def onPart (look : σ → τ) (put : τ → σ → σ) (err : ε → ε') (x : EStateM ε τ α) :
    EStateM ε' σ α := fun s =>
  match x (look s) with
  | .ok a t => .ok a (put t s)
  | .error e t => .error (err e) (put t s)

theorem onPart_ok {look : σ → τ} {put : τ → σ → σ} {err : ε → ε'} {x : EStateM ε τ α}
    {s s' : σ} {a : α} :
    onPart look put err x s = .ok a s' ↔ ∃ t, x (look s) = .ok a t ∧ s' = put t s := by
  unfold onPart
  cases x (look s) <;> simp [eq_comm]

theorem onPart_error {look : σ → τ} {put : τ → σ → σ} {err : ε → ε'} {x : EStateM ε τ α}
    {s s' : σ} {e' : ε'} :
    onPart look put err x s = .error e' s' ↔
      ∃ e t, x (look s) = .error e t ∧ e' = err e ∧ s' = put t s := by
  unfold onPart
  cases x (look s) <;> simp [eq_comm]

theorem onPart_run {look : σ → τ} {put : τ → σ → σ} {err : ε → ε'} {x : EStateM ε τ α}
    {s : σ} {t : τ} {a : α} (h : x (look s) = .ok a t) :
    onPart look put err x s = .ok a (put t s) :=
  onPart_ok.mpr ⟨t, h, rfl⟩

/-! ## Specifications of both outcomes -/

/-- The run of `x` from `s` ends in `.ok a s'` with `Q a s'` or in `.error e s'` with
    `E e s'`. -/
structure Ends (x : EStateM ε σ α) (s : σ) (Q : α → σ → Prop) (E : ε → σ → Prop) : Prop where
  ok : ∀ {a s'}, x s = .ok a s' → Q a s'
  error : ∀ {e s'}, x s = .error e s' → E e s'

section Ends

variable {x : EStateM ε σ α} {s s' : σ} {Q Q' : α → σ → Prop} {E E' : ε → σ → Prop}

theorem ends_of_run {a : α} (hx : x s = .ok a s') (h : Q a s') : Ends x s Q E := by
  constructor
  · intro b t ht
    rw [hx] at ht
    cases ht
    exact h
  · intro e t ht
    rw [hx] at ht
    cases ht

theorem ends_of_error {e : ε} {t : σ} (hx : x s = .error e t) (h : E e t) : Ends x s Q E := by
  constructor
  · intro b t ht
    rw [hx] at ht
    cases ht
  · intro e t ht
    rw [hx] at ht
    cases ht
    exact h

/-- Programs that run alike from `s`. -/
theorem ends_congr {y : EStateM ε σ α} (h : x s = y s) : Ends x s Q E ↔ Ends y s Q E :=
  ⟨fun hx => ⟨fun hy => hx.ok (h.trans hy), fun hy => hx.error (h.trans hy)⟩,
    fun hy => ⟨fun hx => hy.ok (h.symm.trans hx), fun hx => hy.error (h.symm.trans hx)⟩⟩

theorem ends_ok_iff {a : α} (hx : x s = .ok a s') : Ends x s Q E ↔ Q a s' :=
  ⟨fun h => h.ok hx, ends_of_run hx⟩

theorem ends_error_iff {e : ε} (hx : x s = .error e s') : Ends x s Q E ↔ E e s' :=
  ⟨fun h => h.error hx, ends_of_error hx⟩

/-- A run that cannot fail succeeds. -/
theorem Ends.run (h : Ends x s Q fun _ _ => False) : ∃ a s', x s = .ok a s' ∧ Q a s' := by
  cases hx : x s with
  | ok a s' => exact ⟨a, s', rfl, h.ok hx⟩
  | error e s' => exact (h.error hx).elim

theorem Ends.mono (h : Ends x s Q E) (hQ : ∀ a s', Q a s' → Q' a s')
    (hE : ∀ e s', E e s' → E' e s') : Ends x s Q' E' :=
  ⟨fun hx => hQ _ _ (h.ok hx), fun hx => hE _ _ (h.error hx)⟩

/-- Two specifications of one run. -/
theorem Ends.and (h : Ends x s Q E) (h' : Ends x s Q' E') :
    Ends x s (fun a s' => Q a s' ∧ Q' a s') fun e s' => E e s' ∧ E' e s' :=
  ⟨fun hx => ⟨h.ok hx, h'.ok hx⟩, fun hx => ⟨h.error hx, h'.error hx⟩⟩

@[simp] theorem ends_pure {a : α} : Ends (pure a : EStateM ε σ α) s Q E ↔ Q a s :=
  ends_ok_iff rfl

@[simp] theorem ends_get {Q : σ → σ → Prop} : Ends (get : EStateM ε σ σ) s Q E ↔ Q s s :=
  ends_ok_iff rfl

@[simp] theorem ends_set {t : σ} {Q : PUnit → σ → Prop} :
    Ends (set t : EStateM ε σ PUnit) s Q E ↔ Q ⟨⟩ t := ends_ok_iff rfl

@[simp] theorem ends_modify {f : σ → σ} {Q : PUnit → σ → Prop} :
    Ends (modify f : EStateM ε σ PUnit) s Q E ↔ Q ⟨⟩ (f s) := ends_ok_iff rfl

@[simp] theorem ends_throw {e : ε} : Ends (throw e : EStateM ε σ α) s Q E ↔ E e s :=
  ends_error_iff rfl

theorem ends_bind {f : α → EStateM ε σ β} {Q : β → σ → Prop} :
    Ends (x >>= f) s Q E ↔ Ends x s (fun a s₁ => Ends (f a) s₁ Q E) E := by
  cases hx : x s with
  | ok a s₁ =>
      rw [ends_ok_iff hx]
      have hb : (x >>= f) s = f a s₁ := bind_run hx
      exact ⟨fun h => ⟨fun hf => h.ok (hb.trans hf), fun hf => h.error (hb.trans hf)⟩,
        fun h => ⟨fun hf => h.ok (hb.symm.trans hf), fun hf => h.error (hb.symm.trans hf)⟩⟩
  | error e s₁ =>
      rw [ends_error_iff hx]
      exact ends_error_iff (bind_error.mpr (Or.inl hx))

/-- A first step with a specification of its own. -/
theorem Ends.bind {f : α → EStateM ε σ β} {R : α → σ → Prop} {F : ε → σ → Prop}
    {Q : β → σ → Prop} (h : Ends x s R F) (hf : ∀ a s₁, R a s₁ → Ends (f a) s₁ Q E)
    (hE : ∀ e s₁, F e s₁ → E e s₁) : Ends (x >>= f) s Q E :=
  ends_bind.mpr (h.mono hf hE)

theorem ends_ensure {c : Prop} [Decidable c] {e : ε} {Q : Unit → σ → Prop} :
    Ends (ensure c e) s Q E ↔ (c → Q () s) ∧ (¬ c → E e s) := by
  unfold ensure
  by_cases h : c <;> simp [h]

theorem ends_onPart {look : σ → τ} {put : τ → σ → σ} {err : ε → ε'} {x : EStateM ε τ α}
    {s : σ} {Q : α → σ → Prop} {E : ε' → σ → Prop} :
    Ends (onPart look put err x) s Q E ↔
      Ends x (look s) (fun a t => Q a (put t s)) (fun e t => E (err e) (put t s)) := by
  cases hx : x (look s) with
  | ok a t =>
      rw [ends_ok_iff hx]
      exact ends_ok_iff (onPart_run hx)
  | error e t =>
      rw [ends_error_iff hx]
      exact ends_error_iff (onPart_error.mpr ⟨e, t, hx, rfl, rfl⟩)

theorem ends_ite {c : Prop} [Decidable c] {y : EStateM ε σ α} :
    Ends (if c then x else y) s Q E ↔ (c → Ends x s Q E) ∧ (¬ c → Ends y s Q E) := by
  by_cases h : c <;> simp [h]

end Ends

/-! ## Loops over a list -/

theorem forM_nil_run (f : α → EStateM ε σ PUnit) (s : σ) :
    (forM [] f : EStateM ε σ PUnit) s = .ok ⟨⟩ s := rfl

/-- A loop over a range, with the state before each round. -/
theorem forM_range_run {f : Nat → EStateM ε σ PUnit} {S : Nat → σ} {n : Nat}
    (h : ∀ k < n, f k (S k) = .ok ⟨⟩ (S (k + 1))) :
    (forM (List.range n) f : EStateM ε σ PUnit) (S 0) = .ok ⟨⟩ (S n) := by
  have hfrom : ∀ l k, k + l ≤ n →
      (forM (List.range' k l) f : EStateM ε σ PUnit) (S k) = .ok ⟨⟩ (S (k + l)) := by
    intro l
    induction l with
    | zero => exact fun k _ => forM_nil_run f (S k)
    | succ l ih =>
        intro k hk
        rw [List.range'_succ, List.forM_cons, bind_run (h k (by omega)), ih (k + 1) (by omega)]
        congr 2
        omega
  rw [List.range_eq_range', hfrom n 0 (by omega), Nat.zero_add]

/-- A loop whose rounds do nothing. -/
theorem forM_skip_run {f : α → EStateM ε σ PUnit} {l : List α} {s : σ}
    (h : ∀ y ∈ l, f y s = .ok ⟨⟩ s) : (forM l f : EStateM ε σ PUnit) s = .ok ⟨⟩ s := by
  induction l with
  | nil => exact forM_nil_run f s
  | cons y l ih =>
      rw [List.forM_cons, bind_run (h y List.mem_cons_self)]
      exact ih fun z hz => h z (List.mem_cons_of_mem y hz)

/-- A loop of which only the round for `x` does something. -/
theorem forM_single_run {f : α → EStateM ε σ PUnit} {l : List α} {x : α} {s s' : σ}
    (hl : l.Nodup) (hx : x ∈ l) (hskip : ∀ y, y ≠ x → ∀ t, f y t = .ok ⟨⟩ t)
    (h : f x s = .ok ⟨⟩ s') : (forM l f : EStateM ε σ PUnit) s = .ok ⟨⟩ s' := by
  obtain ⟨l₁, l₂, rfl⟩ := List.append_of_mem hx
  obtain ⟨-, hnd, hdisj⟩ := List.nodup_append.mp hl
  have h₁ : ∀ y ∈ l₁, y ≠ x := fun y hy he => hdisj y hy x List.mem_cons_self he
  have h₂ : ∀ y ∈ l₂, y ≠ x := fun y hy he => (List.nodup_cons.mp hnd).1 (he ▸ hy)
  rw [List.forM_append, bind_run (forM_skip_run fun y hy => hskip y (h₁ y hy) s), List.forM_cons,
    bind_run h]
  exact forM_skip_run fun y hy => hskip y (h₂ y hy) s'

/-- A loop carries an invariant indexed by what is still to do; the error condition
    may depend on where the loop stopped only through the state. -/
theorem ends_forM {f : α → EStateM ε σ PUnit} {E : ε → σ → Prop} (I : List α → σ → Prop)
    (step : ∀ a l s, I (a :: l) s → Ends (f a) s (fun _ s₁ => I l s₁) E) :
    ∀ (l : List α) (s : σ), I l s →
      Ends (forM l f : EStateM ε σ PUnit) s (fun _ s' => I [] s') E := by
  intro l
  induction l with
  | nil => intro s hI; exact ends_of_run (forM_nil_run f s) hI
  | cons a l ih =>
      intro s hI
      rw [List.forM_cons]
      exact (step a l s hI).bind (fun _ s₁ h₁ => ih s₁ h₁) fun _ _ he => he

/-! ## Programs that only read -/

/-- However it ends, the program leaves the state as it was. -/
structure Reads (x : EStateM ε σ α) : Prop where
  ends : ∀ s, Ends x s (fun _ s' => s' = s) fun _ s' => s' = s

section Reads

variable {x y : EStateM ε σ α}

theorem Reads.ok (h : Reads x) {s s' : σ} {a : α} (hx : x s = .ok a s') : s' = s :=
  (h.ends s).ok hx

theorem reads_pure (a : α) : Reads (pure a : EStateM ε σ α) := ⟨fun _ => ends_pure.mpr rfl⟩

theorem reads_throw (e : ε) : Reads (throw e : EStateM ε σ α) := ⟨fun _ => ends_throw.mpr rfl⟩

theorem reads_get : Reads (get : EStateM ε σ σ) := ⟨fun _ => ends_get.mpr rfl⟩

theorem reads_ensure (c : Prop) [Decidable c] (e : ε) : Reads (ensure (σ := σ) c e) :=
  ⟨fun _ => ends_ensure.mpr ⟨fun _ => rfl, fun _ => rfl⟩⟩

theorem Reads.bind {f : α → EStateM ε σ β} (hx : Reads x) (hf : ∀ a, Reads (f a)) :
    Reads (x >>= f) :=
  ⟨fun s => (hx.ends s).bind (fun a s₁ h₁ => h₁ ▸ (hf a).ends s₁) fun _ _ h => h⟩

theorem reads_ite {c : Prop} [Decidable c] (hx : Reads x) (hy : Reads y) :
    Reads (if c then x else y) := by
  split
  · exact hx
  · exact hy

theorem reads_onPart {look : σ → τ} {put : τ → σ → σ} {err : ε → ε'} {x : EStateM ε τ α}
    (hput : ∀ s, put (look s) s = s) (hx : Reads x) : Reads (onPart look put err x) := by
  refine ⟨fun s => ends_onPart.mpr ((hx.ends (look s)).mono ?_ ?_)⟩
  · intro a t ht
    rw [ht, hput]
  · intro e t ht
    rw [ht, hput]

theorem reads_forM {f : α → EStateM ε σ PUnit} (hf : ∀ a, Reads (f a)) (l : List α) :
    Reads (forM l f : EStateM ε σ PUnit) := by
  induction l with
  | nil => exact ⟨fun s => ends_of_run (forM_nil_run f s) rfl⟩
  | cons a l ih =>
      rw [List.forM_cons]
      exact (hf a).bind fun _ => ih

/-- A first step that only reads. -/
theorem Reads.then {f : α → EStateM ε σ β} {s : σ} {Q : β → σ → Prop} {E : ε → σ → Prop}
    (hx : Reads x) (hf : ∀ a, x s = .ok a s → Ends (f a) s Q E)
    (hE : ∀ e, x s = .error e s → E e s) : Ends (x >>= f) s Q E := by
  rw [ends_bind]
  constructor
  · intro a s' hr
    obtain rfl := hx.ok hr
    exact hf a hr
  · intro e s' hr
    obtain rfl := (hx.ends s).error hr
    exact hE e hr

end Reads

end Os64.Lib
