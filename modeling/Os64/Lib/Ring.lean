/-
  A first-in first-out queue in a ring of cells.

  `Ring cell size front stop xs`: the cells from `front` up to and without `stop`, going round
  at `size`, hold `xs`. One cell stays free, so that `front = stop` means an empty queue.

  * `Ring.empty_iff`, `Ring.full_iff`: what the comparisons of the two indices decide.
  * `Ring.push`, `Ring.pop`: what an insertion and a removal do to the sequence.
-/
import Mathlib.Data.List.Basic
import Mathlib.Logic.Function.Basic

namespace Os64.Lib

variable {α : Type} {cell : Nat → α} {size front stop : Nat} {xs : List α} {x : α}

/-- The ring holds `xs`, oldest first. -/
structure Ring (cell : Nat → α) (size front stop : Nat) (xs : List α) : Prop where
  front_lt : front < size
  length_lt : xs.length < size
  stop_eq : stop = (front + xs.length) % size
  cells : ∀ k (hk : k < xs.length), cell ((front + k) % size) = xs[k]

/-- Going round a ring: an index below twice its size. -/
theorem ring_mod {size n : Nat} (hn : n < 2 * size) : n % size = if n < size then n else n - size := by
  split
  · exact Nat.mod_eq_of_lt ‹_›
  · rw [Nat.mod_eq_sub_mod (by omega), Nat.mod_eq_of_lt (by omega)]

namespace Ring

theorem nil (cell : Nat → α) (h : front < size) : Ring cell size front front [] :=
  ⟨h, by simp only [List.length_nil]; omega, (Nat.mod_eq_of_lt h).symm, fun k hk => by cases hk⟩

theorem empty_iff (h : Ring cell size front stop xs) : front = stop ↔ xs = [] := by
  have h1 := h.front_lt
  have h2 := h.length_lt
  rw [h.stop_eq, ring_mod (by omega), ← List.length_eq_zero_iff]
  split <;> omega

theorem full_iff (h : Ring cell size front stop xs) :
    (stop + 1) % size = front ↔ xs.length + 1 = size := by
  have h1 := h.front_lt
  have h2 := h.length_lt
  have hs := h.stop_eq
  rw [ring_mod (by omega)] at hs
  have hlt : stop < size := by
    rw [hs]
    split <;> omega
  rw [ring_mod (by omega)]
  split <;> split at hs <;> omega

theorem push (h : Ring cell size front stop xs) (hne : (stop + 1) % size ≠ front) (x : α) :
    Ring (Function.update cell stop x) size front ((stop + 1) % size) (xs ++ [x]) := by
  have h1 := h.front_lt
  have h2 := h.length_lt
  have hfull : xs.length + 1 < size := by
    have := mt h.full_iff.mpr hne
    omega
  have hlen : (xs ++ [x]).length = xs.length + 1 := List.length_append
  refine ⟨h1, by omega, ?_, fun k hk => ?_⟩
  · rw [hlen, h.stop_eq, Nat.mod_add_mod, Nat.add_assoc]
  · rw [hlen] at hk
    by_cases hlast : k = xs.length
    · subst hlast
      rw [← h.stop_eq, Function.update_self, List.getElem_concat_length rfl]
    · have hk' : k < xs.length := by omega
      rw [List.getElem_append_left hk', ← h.cells k hk', Function.update_of_ne]
      -- two of at most `size` consecutive cells
      rw [h.stop_eq, ring_mod (by omega), ring_mod (by omega)]
      split <;> split <;> omega

theorem pop (h : Ring cell size front stop (x :: xs)) :
    cell front = x ∧ Ring cell size ((front + 1) % size) stop xs := by
  have h1 := h.front_lt
  have h2 := h.length_lt
  rw [List.length_cons] at h2
  constructor
  · have := h.cells 0 (Nat.succ_pos _)
    rwa [Nat.add_zero, Nat.mod_eq_of_lt h1] at this
  · refine ⟨Nat.mod_lt _ (by omega), by omega, ?_, fun k hk => ?_⟩
    · rw [h.stop_eq, List.length_cons, Nat.mod_add_mod]
      congr 1
      omega
    · have := h.cells (k + 1) (Nat.succ_lt_succ hk)
      rw [List.getElem_cons_succ] at this
      rw [Nat.mod_add_mod, ← this]
      congr 2
      omega

end Ring

end Os64.Lib
