/-
  The entries that map 2 MB pages, read off the tables.

  `leafEntry E root va` is the page directory entry behind `va`. Unlike the hardware's walk it
  looks at the present bits only, which is how a system finds the entries it made, whatever
  other bits it gave them.

  * `Hang.leafEntry_link4`, `Hang.leafEntry_link3`: hanging an empty table maps nothing.
  * `SetEntry.leafEntry_same`, `SetEntry.leafEntry_other`: setting a directory entry maps one
    page.
  * `missing E root v n`: how many tables `n` pages from `v` lack; `missing_succ` takes the
    pages one by one, with the tables of each page opened (`Opens`) before the next.
-/
import Mathlib.Data.Finset.Card
import Mathlib.Data.Finset.Image
import Os64.Lib.Paging

namespace Os64.Lib

variable {E E' : Entries} {root t i c v va : Nat}

def leafEntry (E : Entries) (root va : Nat) : Option Nat :=
  (upper E root va).bind fun p =>
    if present (E p.1 (idx2 va)) then some (E p.1 (idx2 va)) else none

theorem leafEntry_congr (hu : upper E' root va = upper E root va)
    (he : ∀ pd ∈ pds E root, E' pd (idx2 va) = E pd (idx2 va)) :
    leafEntry E' root va = leafEntry E root va := by
  unfold leafEntry
  rw [hu]
  cases hup : upper E root va with
  | none => rfl
  | some p =>
      obtain ⟨pd, w, u⟩ := p
      simp only [Option.bind_some]
      rw [he pd (upper_mem_pds hup)]

theorem leafEntry_untouched (h : ∀ t ∈ tables E root, ∀ i < 512, E' t i = E t i) (va : Nat) :
    leafEntry E' root va = leafEntry E root va :=
  leafEntry_congr (upper_congr h va) fun pd hpd => h pd (pds_subset_tables hpd) _ (idx2_lt va)

theorem leafEntry_eq_of_idx {a b : Nat} (h : idx4 a = idx4 b ∧ idx3 a = idx3 b ∧ idx2 a = idx2 b) :
    leafEntry E root a = leafEntry E root b := by
  unfold leafEntry upper
  rw [h.1, h.2.1, h.2.2]

theorem leafEntry_empty (h : ∀ i < 512, E root i = 0) (va : Nat) : leafEntry E root va = none := by
  have : ¬ present (E root (idx4 va)) := by
    rw [h _ (idx4_lt va)]
    decide
  simp [leafEntry, upper, this]

/-! ## Hanging a table -/

namespace Hang

theorem leafEntry_link4 (hw : Unshared E root) (h : Hang E E' root root i c) (va : Nat) :
    leafEntry E' root va = leafEntry E root va := by
  refine leafEntry_congr (h.upper_link4 hw va) fun pd hpd => ?_
  exact h.others pd (pds_subset_tables hpd) _ (idx2_lt va) (Or.inl (hw.pd_ne_root hpd))

/-- The directory hung below the kid of `v` opens the gigabyte of `v` and nothing else. -/
theorem upper_link3 (hw : Unshared E root) (h : Hang E E' root t i c) (ht : t ∈ kids E root)
    (h4 : present (E root (idx4 v))) (hf : frame (E root (idx4 v)) = t) (hi : idx3 v = i)
    (va : Nat) :
    (idx4 va = idx4 v ∧ idx3 va = idx3 v → ∃ w u, upper E' root va = some (c, w, u)) ∧
      (¬ (idx4 va = idx4 v ∧ idx3 va = idx3 v) → upper E' root va = upper E root va) := by
  have hroot : ∀ j < 512, E' root j = E root j := fun j hj =>
    h.others root root_mem_tables j hj (Or.inl (hw.kid_ne_root ht).symm)
  constructor
  · rintro ⟨e4, e3⟩
    unfold upper
    dsimp only
    rw [e4, e3, hroot _ (idx4_lt v), hf, hi, h.hung.2, if_pos ⟨h4, h.hung.1⟩]
    exact ⟨_, _, rfl⟩
  · intro hne
    unfold upper
    dsimp only
    rw [hroot _ (idx4_lt va)]
    by_cases hp : present (E root (idx4 va))
    swap
    · rw [if_neg fun hc => hp hc.1, if_neg fun hc => hp hc.1]
    have hk := frame_mem_kids (idx4_lt va) hp
    rw [h.others _ (kids_subset_tables hk) _ (idx3_lt va)]
    by_contra hcon
    rw [not_or, not_not, not_not] at hcon
    refine hne ⟨?_, hcon.2.trans hi.symm⟩
    exact kids_index_inj hw.kids_nodup (idx4_lt va) (idx4_lt v) hp h4 (hcon.1.trans hf.symm)

theorem leafEntry_link3 (hw : Unshared E root) (h : Hang E E' root t i c) (ht : t ∈ kids E root)
    (h4 : present (E root (idx4 v))) (hf : frame (E root (idx4 v)) = t) (hi : idx3 v = i)
    (va : Nat) : leafEntry E' root va = leafEntry E root va := by
  obtain ⟨hnew, hold⟩ := h.upper_link3 hw ht h4 hf hi va
  by_cases heq : idx4 va = idx4 v ∧ idx3 va = idx3 v
  · -- behind the new directory, which is empty
    obtain ⟨w, u, hup⟩ := hnew heq
    have h3 : ¬ present (E t (idx3 v)) := by
      rw [hi]
      exact h.absent
    have hup' : upper E root va = none := by
      unfold upper
      dsimp only
      rw [heq.1, heq.2, hf, if_neg fun hc => h3 hc.2]
    unfold leafEntry
    rw [hup, hup', Option.bind_some, h.empty _ (idx2_lt va)]
    rfl
  · refine leafEntry_congr (hold heq) fun pd hpd => ?_
    exact h.others pd (pds_subset_tables hpd) _ (idx2_lt va) (Or.inl (hw.pd_ne_kid hpd ht))

end Hang

/-! ## Setting a directory entry -/

namespace SetEntry

variable {w u : Bool}

theorem leafEntry_same (h : SetEntry E E' root t i) (hw : Unshared E root)
    (hup : upper E root v = some (t, w, u)) (hi : idx2 v = i)
    (heq : idx4 va = idx4 v ∧ idx3 va = idx3 v ∧ idx2 va = idx2 v) :
    leafEntry E' root va = if present (E' t i) then some (E' t i) else none := by
  have hva : upper E root va = some (t, w, u) := by
    rw [← hup]
    unfold upper
    rw [heq.1, heq.2.1]
  unfold leafEntry
  rw [h.upper_eq hw va, hva, Option.bind_some, heq.2.2, hi]

theorem leafEntry_other (h : SetEntry E E' root t i) (hw : Unshared E root)
    (hup : upper E root v = some (t, w, u)) (hi : idx2 v = i)
    (hne : ¬ (idx4 va = idx4 v ∧ idx3 va = idx3 v ∧ idx2 va = idx2 v)) :
    leafEntry E' root va = leafEntry E root va := by
  unfold leafEntry
  rw [h.upper_eq hw va]
  cases hva : upper E root va with
  | none => rfl
  | some p =>
      obtain ⟨pd, w', u'⟩ := p
      simp only [Option.bind_some]
      rw [h.others pd (pds_subset_tables (upper_mem_pds hva)) _ (idx2_lt va)]
      by_contra hcon
      rw [not_or, not_not, not_not] at hcon
      rw [hcon.1] at hva
      obtain ⟨h4, h3⟩ := hw.upper_inj hva hup
      exact hne ⟨h4, h3, hcon.2.trans hi.symm⟩

end SetEntry

/-! ## Missing tables -/

/-- The entries of the root that `n` pages from `v` need and that are absent. -/
def missing4 (E : Entries) (root v n : Nat) : Finset Nat :=
  ((Finset.range n).image fun j => idx4 (v + j * 2 ^ 21)).filter fun i => ¬ present (E root i)

/-- The gigabytes of `n` pages from `v` without a page directory. -/
def missing3 (E : Entries) (root v n : Nat) : Finset (Nat × Nat) :=
  ((Finset.range n).filter fun j => upper E root (v + j * 2 ^ 21) = none).image fun j =>
    (idx4 (v + j * 2 ^ 21), idx3 (v + j * 2 ^ 21))

/-- How many tables `n` pages from `v` lack. -/
def missing (E : Entries) (root v n : Nat) : Nat :=
  (missing4 E root v n).card + (missing3 E root v n).card

theorem missing_mono (E : Entries) (root v : Nat) {n k : Nat} (h : n ≤ k) :
    missing E root v n ≤ missing E root v k := by
  have hsub : Finset.range n ⊆ Finset.range k := Finset.range_mono h
  refine Nat.add_le_add (Finset.card_le_card ?_) (Finset.card_le_card ?_)
  · exact Finset.filter_subset_filter _ (Finset.image_subset_image hsub)
  · exact Finset.image_subset_image (Finset.filter_subset_filter _ hsub)

/-- `E'` is `E` with the tables of `v`. -/
structure Opens (E E' : Entries) (root v : Nat) : Prop where
  entry : ∀ va, present (E' root (idx4 va)) ↔ present (E root (idx4 va)) ∨ idx4 va = idx4 v
  closed : ∀ va, upper E' root va = none ↔
    upper E root va = none ∧ ¬ (idx4 va = idx4 v ∧ idx3 va = idx3 v)

/-- Setting an entry opens nothing. -/
theorem Opens.setEntry {F : Entries} (h : Opens E F root v) (hs : SetEntry F E' root t i)
    (hw : Unshared F root) : Opens E E' root v := by
  refine ⟨fun va => ?_, fun va => ?_⟩
  · rw [hs.others root root_mem_tables _ (idx4_lt va) (Or.inl (hw.pd_ne_root hs.dir).symm)]
    exact h.entry va
  · rw [hs.upper_eq hw va]
    exact h.closed va

theorem card_split {α : Type} [DecidableEq α] {S T U : Finset α} {a : α} (hT : T = S ∩ {a})
    (hU : U = S.erase a) : S.card = T.card + U.card := by
  rw [hT, hU, Finset.erase_eq, Finset.card_inter_add_card_sdiff]

theorem mem_missing4 {n x : Nat} :
    x ∈ missing4 E root v n ↔ (∃ j < n, idx4 (v + j * 2 ^ 21) = x) ∧ ¬ present (E root x) := by
  simp [missing4]

theorem mem_missing3 {n : Nat} {x : Nat × Nat} :
    x ∈ missing3 E root v n ↔ ∃ j < n, upper E root (v + j * 2 ^ 21) = none ∧
      (idx4 (v + j * 2 ^ 21), idx3 (v + j * 2 ^ 21)) = x := by
  simp [missing3, and_assoc]

/-- The tables that one page lacks. -/
theorem missing_one (E : Entries) (root v : Nat) :
    missing E root v 1 = (if present (E root (idx4 v)) then 0 else 1) +
      if upper E root v = none then 1 else 0 := by
  unfold missing missing4 missing3
  rw [Finset.range_one, Finset.image_singleton, Finset.filter_singleton, Finset.filter_singleton,
    Nat.zero_mul, Nat.add_zero]
  by_cases h4 : present (E root (idx4 v))
  · by_cases h3 : upper E root v = none
    · simp [h4, h3]
    · simp [h4, h3]
  · by_cases h3 : upper E root v = none
    · simp [h4, h3]
    · simp [h4, h3]

theorem missing4_succ (h : Opens E E' root v) (n : Nat) :
    missing4 E root v 1 = missing4 E root v (n + 1) ∩ {idx4 v} ∧
      missing4 E' root (v + 2 ^ 21) n = (missing4 E root v (n + 1)).erase (idx4 v) := by
  constructor
  · ext x
    rw [Finset.mem_inter, Finset.mem_singleton, mem_missing4, mem_missing4]
    constructor
    · rintro ⟨⟨j, hj, rfl⟩, hp⟩
      obtain rfl : j = 0 := by omega
      exact ⟨⟨⟨0, by omega, rfl⟩, hp⟩, by rw [Nat.zero_mul, Nat.add_zero]⟩
    · rintro ⟨⟨-, hp⟩, rfl⟩
      exact ⟨⟨0, by omega, by rw [Nat.zero_mul, Nat.add_zero]⟩, hp⟩
  · ext x
    rw [Finset.mem_erase, mem_missing4, mem_missing4]
    constructor
    · rintro ⟨⟨j, hj, rfl⟩, hp⟩
      have hr := mt (h.entry (v + 2 ^ 21 + j * 2 ^ 21)).mpr hp
      rw [not_or] at hr
      exact ⟨hr.2, ⟨j + 1, by omega, by congr 1; omega⟩, hr.1⟩
    · rintro ⟨hne, ⟨j, hj, rfl⟩, hp⟩
      cases j with
      | zero => exact absurd (by rw [Nat.zero_mul, Nat.add_zero]) hne
      | succ j =>
          have hr := mt (h.entry (v + (j + 1) * 2 ^ 21)).mp (not_or.mpr ⟨hp, hne⟩)
          exact ⟨⟨j, by omega, by congr 1; omega⟩, hr⟩

theorem missing3_succ (h : Opens E E' root v) (n : Nat) :
    missing3 E root v 1 = missing3 E root v (n + 1) ∩ {(idx4 v, idx3 v)} ∧
      missing3 E' root (v + 2 ^ 21) n = (missing3 E root v (n + 1)).erase (idx4 v, idx3 v) := by
  have hshift : ∀ j, v + 2 ^ 21 + j * 2 ^ 21 = v + (j + 1) * 2 ^ 21 := fun j => by omega
  constructor
  · ext x
    rw [Finset.mem_inter, Finset.mem_singleton, mem_missing3, mem_missing3]
    constructor
    · rintro ⟨j, hj, hp, rfl⟩
      obtain rfl : j = 0 := by omega
      exact ⟨⟨0, by omega, hp, rfl⟩, by rw [Nat.zero_mul, Nat.add_zero]⟩
    · rintro ⟨⟨j, hj, hp, hx⟩, rfl⟩
      obtain ⟨h4, h3⟩ := Prod.mk.inj hx
      refine ⟨0, by omega, ?_, by rw [Nat.zero_mul, Nat.add_zero]⟩
      rw [← hp, Nat.zero_mul, Nat.add_zero]
      unfold upper
      rw [h4, h3]
  · ext x
    rw [Finset.mem_erase, mem_missing3, mem_missing3]
    constructor
    · rintro ⟨j, hj, hp, rfl⟩
      rw [hshift] at hp ⊢
      obtain ⟨hp, hne⟩ := (h.closed _).mp hp
      exact ⟨fun he => hne (Prod.mk.inj he), j + 1, by omega, hp, rfl⟩
    · rintro ⟨hne, j, hj, hp, rfl⟩
      cases j with
      | zero => exact absurd (by rw [Nat.zero_mul, Nat.add_zero]) hne
      | succ j =>
          refine ⟨j, by omega, ?_, by rw [hshift]⟩
          rw [hshift]
          exact (h.closed _).mpr ⟨hp, fun he => hne (Prod.ext he.1 he.2)⟩

/-- The tables of the first page, then those that the rest still lacks. -/
theorem missing_succ (h : Opens E E' root v) (n : Nat) :
    missing E root v (n + 1) = missing E root v 1 + missing E' root (v + 2 ^ 21) n := by
  obtain ⟨h4, h4'⟩ := missing4_succ h n
  obtain ⟨h3, h3'⟩ := missing3_succ h n
  have hc4 := card_split h4 h4'
  have hc3 := card_split h3 h3'
  unfold missing
  omega

end Os64.Lib
