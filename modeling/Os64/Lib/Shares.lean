/-
  A pool of resources divided among owners.

  `Divides all share pool`: the lists `share o`, for the owners `o` in `all`, contain
  every element of `pool` once in total. An element then has one owner
  (`Divides.existsUnique`), different owners have nothing in common (`Divides.apart`), and
  elements may pass from one owner to another (`Divides.transfer`).
-/
import Mathlib.Data.List.Nodup
import Mathlib.Data.List.Perm.Basic
import Mathlib.Data.List.Flatten
import Mathlib.Data.List.Pairwise
import Mathlib.Tactic.Common

namespace Os64.Lib

variable {ω ρ : Type}

structure Divides (all : List ω) (share : ω → List ρ) (pool : List ρ) : Prop where
  perm : (all.flatMap share).Perm pool
  nodup : pool.Nodup

namespace Divides

variable {all : List ω} {share share' : ω → List ρ} {pool : List ρ} {o o' : ω} {p : ρ}

theorem flat_nodup (h : Divides all share pool) : (all.flatMap share).Nodup :=
  h.perm.nodup_iff.mpr h.nodup

theorem mem_iff (h : Divides all share pool) : p ∈ pool ↔ ∃ o ∈ all, p ∈ share o := by
  rw [← h.perm.mem_iff, List.mem_flatMap]

theorem share_nodup (h : Divides all share pool) (ho : o ∈ all) : (share o).Nodup :=
  (List.nodup_flatMap.mp h.flat_nodup).1 o ho

theorem mem_pool (h : Divides all share pool) (ho : o ∈ all) (hp : p ∈ share o) : p ∈ pool :=
  h.mem_iff.mpr ⟨o, ho, hp⟩

theorem apart (h : Divides all share pool) (ho : o ∈ all) (ho' : o' ∈ all) (hne : o ≠ o')
    (hp : p ∈ share o) : p ∉ share o' := by
  have hd := (List.nodup_flatMap.mp h.flat_nodup).2
  have hsym : Std.Symm (Function.onFun List.Disjoint share) :=
    ⟨fun _ _ hab _ hx hx' => hab hx' hx⟩
  exact fun hp' => (hd.forall ho ho' hne) hp hp'

/-- Every element of the pool has exactly one owner. -/
theorem existsUnique (h : Divides all share pool) (hp : p ∈ pool) :
    ∃ o ∈ all, p ∈ share o ∧ ∀ o' ∈ all, p ∈ share o' → o' = o := by
  obtain ⟨o, ho, hpo⟩ := h.mem_iff.mp hp
  refine ⟨o, ho, hpo, fun o' ho' hpo' => ?_⟩
  by_contra hne
  exact h.apart ho' ho hne hpo' hpo

theorem congr (h : Divides all share pool) (hs : ∀ o ∈ all, share' o = share o) :
    Divides all share' pool := by
  refine ⟨?_, h.nodup⟩
  rw [List.flatMap_congr hs]
  exact h.perm

/-- The shares of two owners and those of the rest. -/
theorem flatMap_split [DecidableEq ω] (ho : o ∈ all) (hu : u ∈ all) (hne : o ≠ u)
    (s : ω → List ρ) :
    (all.flatMap s).Perm ((s o ++ s u) ++ ((all.erase o).erase u).flatMap s) := by
  have hmem : u ∈ all.erase o := (List.mem_erase_of_ne (Ne.symm hne)).mpr hu
  have h1 := ((List.perm_cons_erase ho).flatMap_right s)
  have h2 := ((List.perm_cons_erase hmem).flatMap_right s)
  rw [List.flatMap_cons] at h1 h2
  rw [List.append_assoc]
  exact h1.trans (h2.append_left (s o))

theorem rest_congr [DecidableEq ω] (hall : all.Nodup)
    (hs : ∀ x ∈ all, x ≠ o → x ≠ u → share' x = share x) :
    ((all.erase o).erase u).flatMap share' = ((all.erase o).erase u).flatMap share := by
  refine List.flatMap_congr fun x hx => ?_
  have hx1 := List.mem_of_mem_erase hx
  have hxu : x ≠ u := fun he => (hall.erase o).not_mem_erase (he ▸ hx)
  have hxo : x ≠ o := fun he => hall.not_mem_erase (he ▸ hx1)
  exact hs x (List.mem_of_mem_erase hx1) hxo hxu

/-- Resources pass between the owners `o` and `u`; nobody else is affected. -/
theorem transfer [DecidableEq ω] (h : Divides all share pool) (ho : o ∈ all) (hu : u ∈ all)
    (hne : o ≠ u) (hall : all.Nodup) (hp : (share' o ++ share' u).Perm (share o ++ share u))
    (hs : ∀ x ∈ all, x ≠ o → x ≠ u → share' x = share x) : Divides all share' pool := by
  refine ⟨(flatMap_split ho hu hne share').trans ?_, h.nodup⟩
  rw [rest_congr hall hs]
  exact (hp.append_right _).trans ((flatMap_split ho hu hne share).symm.trans h.perm)

/-- What two owners have together stays the same while the others keep theirs. -/
theorem balance [DecidableEq ω] (h : Divides all share pool) (h' : Divides all share' pool)
    (ho : o ∈ all) (hu : u ∈ all) (hne : o ≠ u) (hall : all.Nodup)
    (hs : ∀ x ∈ all, x ≠ o → x ≠ u → share' x = share x) :
    (share' o ++ share' u).Perm (share o ++ share u) := by
  have h1 := (flatMap_split ho hu hne share').symm.trans h'.perm
  have h2 := (flatMap_split ho hu hne share).symm.trans h.perm
  rw [rest_congr hall hs] at h1
  exact (List.perm_append_right_iff _).mp (h1.trans h2.symm)

/-- Two owners have no more than the pool. -/
theorem length_le [DecidableEq ω] (h : Divides all share pool) (ho : o ∈ all) (hu : u ∈ all)
    (hne : o ≠ u) : (share o).length + (share u).length ≤ pool.length := by
  have hlen := ((flatMap_split ho hu hne share).symm.trans h.perm).length_eq
  rw [List.length_append, List.length_append] at hlen
  omega

end Divides

end Os64.Lib
