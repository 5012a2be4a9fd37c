/-
  Singly linked lists threaded through a `next` map, with head and tail pointers.

  `Chain next h xs`: following `next` from `h` visits exactly `xs`, in order, and
  ends at `none`. `Queue next h t xs` adds the tail pointer. Several chains may
  share one `next` map; an update at a node outside `xs` leaves `Chain next h xs`
  alone (`Chain.update`), which is all that keeps such chains apart.

  `Queue.append`, `Queue.dropHead` and `Queue.unlink` say what the pointer updates
  of a queue do to the sequence it stands for.
-/
import Mathlib.Data.List.Basic
import Mathlib.Data.List.Nodup
import Mathlib.Logic.Function.Basic

namespace Os64.Lib

variable {α : Type}

/-- Following `next` from `h` visits exactly the nodes of the list. -/
def Chain (next : α → Option α) : Option α → List α → Prop
  | h, [] => h = none
  | h, x :: xs => h = some x ∧ Chain next (next x) xs

/-- A chain with its tail pointer: the last node, `none` for the empty chain. -/
structure Queue (next : α → Option α) (head tail : Option α) (xs : List α) : Prop where
  chain : Chain next head xs
  last : tail = xs.getLast?

namespace Chain

variable {next next' : α → Option α} {h : Option α} {xs ys : List α}

theorem head_eq (hc : Chain next h xs) : h = xs.head? := by
  cases xs with
  | nil => exact hc
  | cons x xs => exact hc.1

/-- The pointers say which nodes there are. -/
theorem unique (hc : Chain next h xs) (hc' : Chain next h ys) : xs = ys := by
  induction xs generalizing h ys with
  | nil =>
      cases ys with
      | nil => rfl
      | cons y ys => exact absurd (hc.symm.trans hc'.1) nofun
  | cons x xs ih =>
      cases ys with
      | nil => exact absurd (hc.1.symm.trans hc') nofun
      | cons y ys =>
          have hxy : x = y := Option.some.inj (hc.1.symm.trans hc'.1)
          subst hxy
          rw [ih hc.2 hc'.2]

theorem congr (hc : Chain next h xs) (hn : ∀ x ∈ xs, next' x = next x) : Chain next' h xs := by
  induction xs generalizing h with
  | nil => exact hc
  | cons x xs ih =>
      refine ⟨hc.1, ?_⟩
      rw [hn x List.mem_cons_self]
      exact ih hc.2 fun y hy => hn y (List.mem_cons_of_mem x hy)

theorem update [DecidableEq α] (hc : Chain next h xs) {y : α} (hy : y ∉ xs) (v : Option α) :
    Chain (Function.update next y v) h xs := by
  apply hc.congr
  intro x hx
  rw [Function.update_of_ne]
  rintro rfl
  exact hy hx

/-- Reading past a prefix: the node before `ys` points at its head. -/
theorem drop_prefix (hc : Chain next h (xs ++ ys)) :
    Chain next (match xs.getLast? with | none => h | some p => next p) ys := by
  induction xs generalizing h with
  | nil => exact hc
  | cons x xs ih =>
      have := ih hc.2
      cases xs with
      | nil => exact this
      | cons y zs =>
          rw [List.getLast?_eq_some_getLast (List.cons_ne_nil y zs)] at this
          rw [List.getLast?_eq_some_getLast (List.cons_ne_nil x (y :: zs)),
            List.getLast_cons (List.cons_ne_nil y zs)]
          exact this

/-- Redirecting the last node of `xs` at `h'` continues the chain there. -/
theorem splice [DecidableEq α] {h' : Option α} {p : α} (hc : Chain next h (xs ++ p :: ys))
    (hnd : (xs ++ [p]).Nodup) {zs : List α} (hp : p ∉ zs) (hz : Chain next h' zs) :
    Chain (Function.update next p h') h (xs ++ p :: zs) := by
  induction xs generalizing h with
  | nil =>
      refine ⟨hc.1, ?_⟩
      rw [Function.update_self]
      exact hz.update hp h'
  | cons x xs ih =>
      have hx : x ≠ p := by
        intro he
        simp [he] at hnd
      refine ⟨hc.1, ?_⟩
      rw [Function.update_of_ne hx]
      exact ih hc.2 (List.nodup_cons.mp hnd).2

end Chain

namespace Queue

variable [DecidableEq α] {next : α → Option α} {head tail : Option α} {xs ys : List α}

omit [DecidableEq α] in
theorem empty_iff (hq : Queue next head tail xs) : head = none ↔ xs = [] := by
  rw [hq.chain.head_eq]
  exact List.head?_eq_none_iff

theorem update (hq : Queue next head tail xs) {y : α} (hy : y ∉ xs) (v : Option α) :
    Queue (Function.update next y v) head tail xs :=
  ⟨hq.chain.update hy v, hq.last⟩

/-- A node with a cleared link, alone. -/
theorem single (x : α) : Queue (Function.update next x none) (some x) (some x) [x] := by
  refine ⟨⟨rfl, ?_⟩, rfl⟩
  rw [Function.update_self]
  rfl

/-- Clear the new node's link, then point the tail at it. -/
theorem append (hq : Queue next head tail (xs ++ [p])) {x : α} (hx : x ∉ xs ++ [p])
    (hnd : (xs ++ [p]).Nodup) :
    Queue (Function.update (Function.update next x none) p (some x)) head (some x)
      (xs ++ [p] ++ [x]) := by
  refine ⟨?_, by simp⟩
  have hxp : p ≠ x := fun he => hx (by simp [he])
  have hc := (hq.chain.update hx none)
  rw [List.append_assoc]
  refine hc.splice hnd (by simpa using hxp) ?_
  refine ⟨rfl, ?_⟩
  rw [Function.update_self]
  rfl

omit [DecidableEq α] in
/-- Take the first node off. -/
theorem dropHead {x : α} (hq : Queue next head tail (x :: xs)) :
    Queue next (next x) (if (next x).isNone then none else tail) xs := by
  have hc : Chain next (next x) xs := hq.chain.2
  refine ⟨hc, ?_⟩
  cases xs with
  | nil =>
      have hn : next x = none := hc
      rw [hn]
      rfl
  | cons y ys =>
      rw [if_neg (by simp [hc.1]), hq.last]
      simp

/-- Unlink a node that has a predecessor. -/
theorem unlink {p x : α} (hq : Queue next head tail (xs ++ p :: x :: ys))
    (hnd : (xs ++ p :: x :: ys).Nodup) :
    Queue (Function.update next p (next x)) head (if (next x).isNone then some p else tail)
      (xs ++ p :: ys) := by
  have hx : Chain next (next x) ys := by
    have hc : Chain next head ((xs ++ [p]) ++ x :: ys) := by simpa using hq.chain
    have := hc.drop_prefix
    simp only [List.getLast?_append, List.getLast?_singleton, Option.some_or] at this
    exact this.2
  have hnd' : (xs ++ [p]).Nodup ∧ p ∉ ys := by
    simp only [List.nodup_append, List.nodup_cons, List.mem_cons, not_or] at hnd ⊢
    refine ⟨⟨hnd.1, by simp, ?_⟩, hnd.2.1.1.2⟩
    intro a ha b hb
    have hbp : b = p := by simpa using hb
    exact hbp ▸ hnd.2.2 a ha p (Or.inl rfl)
  refine ⟨hq.chain.splice hnd'.1 hnd'.2 hx, ?_⟩
  cases ys with
  | nil =>
      have hn : next x = none := hx
      simp [hn]
  | cons y zs =>
      rw [if_neg (by simp [hx.1]), hq.last]
      simp

end Queue

end Os64.Lib
