/-
  Programs that keep a log of the memory they read and of the blocks they free.

  * `Erases x y`: leaving out its log, `x` is the program `y`; it passes through the
    constructs of a program.
  * `Clean size log`: no access reads a block of `size` bytes that was freed before.
  * `Touches size log ts ps`: the log reads the blocks `ts` and frees the blocks `ps`, in this
    order. `Touches.clean` and `Clean.append`: a log is clean when no phase reads a block that
    it or an earlier phase frees.
  * `Logged size x s a s' ts ps`: the run of `x` from `s`, with what it touches; `CleanRun` when
    what it adds to the log is clean as well.
-/
import Os64.Lib.Exec

namespace Os64.Lib

/-! ## Leaving out the log -/

section Erase

variable {M : Type → Type} [Monad M] {σ α β : Type}

/-- Whatever the log holds, `x` does what `y` does. -/
def Erases (x : StateT σ M α) (y : M α) : Prop := ∀ s, Prod.fst <$> x.run s = y

theorem Erases.ite {c : Prop} [Decidable c] {x x' : StateT σ M α} {y y' : M α} (h : Erases x y)
    (h' : Erases x' y') : Erases (if c then x else x') (if c then y else y') := by
  by_cases hc : c
  · rw [if_pos hc, if_pos hc]
    exact h
  · rw [if_neg hc, if_neg hc]
    exact h'

variable [LawfulMonad M]

theorem Erases.pure (a : α) : Erases (Pure.pure a : StateT σ M α) (Pure.pure a) := by
  intro s
  rw [StateT.run_pure, map_pure]

theorem Erases.bind {x : StateT σ M α} {y : M α} {f : α → StateT σ M β} {g : α → M β}
    (hx : Erases x y) (hf : ∀ a, Erases (f a) (g a)) : Erases (x >>= f) (y >>= g) := by
  intro s
  rw [StateT.run_bind, map_bind, ← hx s, bind_map_left]
  refine bind_congr fun p => ?_
  exact hf p.1 p.2

theorem Erases.lift (y : M α) : Erases (monadLift y : StateT σ M α) y := by
  intro s
  rw [StateT.run_monadLift, map_bind]
  simp

theorem Erases.modify (f : σ → σ) : Erases (modify f) (Pure.pure () : M Unit) := by
  intro s
  simp

theorem Erases.forM {f : α → StateT σ M PUnit} {g : α → M PUnit} (h : ∀ a, Erases (f a) (g a))
    (l : List α) : Erases (forM l f) (forM l g) := by
  induction l with
  | nil => exact .pure _
  | cons a l ih =>
      rw [List.forM_cons, List.forM_cons]
      exact (h a).bind fun _ => ih

end Erase

/-! ## Reading and freeing -/

inductive Access where
  | read (a n : Nat)
  | free (p : Nat)
  deriving DecidableEq

def Access.freed? : Access → Option Nat
  | read _ _ => none
  | free p => some p

/-- The blocks that are freed, in the order of the log. -/
def frees (log : List Access) : List Nat := log.filterMap Access.freed?

/-- `b` does not read the block that `a` frees. -/
def Fresh (size : Nat) (a b : Access) : Prop :=
  ∀ p x n, a = .free p → b = .read x n → x + n ≤ p ∨ p + size ≤ x

def Clean (size : Nat) (log : List Access) : Prop := log.Pairwise (Fresh size)

/-- Blocks of `ts` and `ps` do not overlap. -/
def Apart (size : Nat) (ps ts : List Nat) : Prop :=
  ∀ p ∈ ps, ∀ t ∈ ts, t + size ≤ p ∨ p + size ≤ t

structure Touches (size : Nat) (log : List Access) (ts ps : List Nat) : Prop where
  read : ∀ a n, Access.read a n ∈ log → ∃ t ∈ ts, t ≤ a ∧ a + n ≤ t + size
  frees : frees log = ps

section Touches

variable {size : Nat} {log log' : List Access} {ts ts' ps ps' : List Nat}

theorem Touches.nil : Touches size [] ts [] := ⟨nofun, rfl⟩

theorem Touches.readOne {a n t : Nat} (ht : t ∈ ts) (h : t ≤ a) (h' : a + n ≤ t + size) :
    Touches size [.read a n] ts [] := by
  refine ⟨fun b m hm => ?_, rfl⟩
  rw [List.mem_singleton, Access.read.injEq] at hm
  exact ⟨t, ht, by omega, by omega⟩

theorem Touches.freeOne {p : Nat} : Touches size [.free p] ts [p] := by
  refine ⟨fun a n hm => ?_, rfl⟩
  rw [List.mem_singleton] at hm
  cases hm

theorem Touches.append (h : Touches size log ts ps) (h' : Touches size log' ts' ps') :
    Touches size (log ++ log') (ts ++ ts') (ps ++ ps') := by
  refine ⟨fun a n hm => ?_, ?_⟩
  · rcases List.mem_append.mp hm with hm | hm
    · obtain ⟨t, ht, hle⟩ := h.read a n hm
      exact ⟨t, List.mem_append_left _ ht, hle⟩
    · obtain ⟨t, ht, hle⟩ := h'.read a n hm
      exact ⟨t, List.mem_append_right _ ht, hle⟩
  · unfold Lib.frees at *
    rw [List.filterMap_append]
    exact congrArg₂ _ h.frees h'.frees

theorem Touches.mono (h : Touches size log ts ps) (hts : ∀ t ∈ ts, t ∈ ts') :
    Touches size log ts' ps := by
  refine ⟨fun a n hm => ?_, h.frees⟩
  obtain ⟨t, ht, hle⟩ := h.read a n hm
  exact ⟨t, hts t ht, hle⟩

/-- A later phase reads nothing that an earlier one freed. -/
theorem Touches.fresh (h : Touches size log ts ps) (h' : Touches size log' ts' ps')
    (hap : Apart size ps ts') : ∀ a ∈ log, ∀ b ∈ log', Fresh size a b := by
  rintro a ha b hb p x n rfl rfl
  have hp : p ∈ ps := by
    rw [← h.frees]
    exact List.mem_filterMap.mpr ⟨_, ha, rfl⟩
  obtain ⟨t, ht, hlo, hhi⟩ := h'.read x n hb
  have := hap p hp t ht
  omega

theorem Touches.clean (h : Touches size log ts ps) (hap : Apart size ps ts) : Clean size log :=
  List.pairwise_of_forall_mem_list (h.fresh h hap)

theorem Clean.append (h : Clean size log) (h' : Clean size log')
    (hf : ∀ a ∈ log, ∀ b ∈ log', Fresh size a b) : Clean size (log ++ log') :=
  List.pairwise_append.mpr ⟨h, h', hf⟩

end Touches

/-! ## Logged runs -/

section Logged

variable {ε σ α β : Type} {size : Nat} {x : StateT (List Access) (EStateM ε σ) α}
  {s s₁ s' : σ} {a : α} {b : β} {ts ts' ps ps' : List Nat}

/-- From `s`, `x` ends in `s'` with `a`, and what it adds to the log touches `ts` and `ps`. -/
def Logged (size : Nat) (x : StateT (List Access) (EStateM ε σ) α) (s : σ) (a : α) (s' : σ)
    (ts ps : List Nat) : Prop :=
  ∃ seg, Touches size seg ts ps ∧ ∀ log, x log s = .ok (a, log ++ seg) s'

theorem Logged.bind {f : α → StateT (List Access) (EStateM ε σ) β}
    (hx : Logged size x s a s₁ ts ps) (hf : Logged size (f a) s₁ b s' ts ps') :
    Logged size (x >>= f) s b s' ts (ps ++ ps') := by
  obtain ⟨seg, ht, hrun⟩ := hx
  obtain ⟨seg', ht', hrun'⟩ := hf
  refine ⟨seg ++ seg', (ht.append ht').mono fun t ht => (List.mem_append.mp ht).elim id id, ?_⟩
  intro log
  change (StateT.bind x f log) s = _
  unfold StateT.bind
  rw [bind_run (hrun log), ← List.append_assoc]
  exact hrun' _

theorem Logged.pure (a : α) (s : σ) (ts : List Nat) :
    Logged size (Pure.pure a : StateT (List Access) (EStateM ε σ) α) s a s ts [] := by
  refine ⟨[], .nil, fun log => ?_⟩
  rw [List.append_nil]
  rfl

theorem Logged.lift {y : EStateM ε σ α} (h : y s = .ok a s') (ts : List Nat) :
    Logged size (monadLift y : StateT (List Access) (EStateM ε σ) α) s a s' ts [] := by
  refine ⟨[], .nil, fun log => ?_⟩
  rw [List.append_nil]
  exact bind_run h

theorem Logged.note {c : Access} (h : Touches size [c] ts ps) (s : σ) :
    Logged size (modify (· ++ [c]) : StateT (List Access) (EStateM ε σ) Unit) s () s ts ps :=
  ⟨[c], h, fun _ => rfl⟩

theorem Logged.mono (h : Logged size x s a s' ts ps) (hts : ∀ t ∈ ts, t ∈ ts') :
    Logged size x s a s' ts' ps := by
  obtain ⟨seg, ht, hrun⟩ := h
  exact ⟨seg, ht.mono hts, hrun⟩

theorem Logged.erase {y : EStateM ε σ α} (h : Logged size x s a s' ts ps) (he : Erases x y) :
    y s = .ok a s' := by
  obtain ⟨seg, -, hrun⟩ := h
  rw [← he []]
  exact bind_run (hrun [])

/-- A logged run that reads no block after it is freed. -/
def CleanRun (size : Nat) (x : StateT (List Access) (EStateM ε σ) α) (s : σ) (a : α) (s' : σ)
    (ts ps : List Nat) : Prop :=
  ∃ seg, Touches size seg ts ps ∧ Clean size seg ∧ ∀ log, x log s = .ok (a, log ++ seg) s'

theorem Logged.cleanRun (h : Logged size x s a s' ts ps) (hap : Apart size ps ts) :
    CleanRun size x s a s' ts ps := by
  obtain ⟨seg, ht, hrun⟩ := h
  exact ⟨seg, ht, ht.clean hap, hrun⟩

/-- Two phases, the second of which reads nothing that the first one frees. -/
theorem CleanRun.bind {f : α → StateT (List Access) (EStateM ε σ) β}
    (hx : CleanRun size x s a s₁ ts ps) (hf : CleanRun size (f a) s₁ b s' ts' ps')
    (hap : Apart size ps ts') : CleanRun size (x >>= f) s b s' (ts ++ ts') (ps ++ ps') := by
  obtain ⟨seg, ht, hc, hrun⟩ := hx
  obtain ⟨seg', ht', hc', hrun'⟩ := hf
  refine ⟨seg ++ seg', ht.append ht', hc.append hc' (ht.fresh ht' hap), fun log => ?_⟩
  change (StateT.bind x f log) s = _
  unfold StateT.bind
  rw [bind_run (hrun log), ← List.append_assoc]
  exact hrun' _

end Logged

end Os64.Lib
