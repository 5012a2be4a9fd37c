/-
  map_pages: a stretch of 2 MB pages inside one gigabyte.

  * `mapDir_run`: with the page directory in place, the loop fills its entries and
    allocates nothing.
  * `mapPages_run`: the whole function opens the directory with at most two new tables;
    afterwards the stretch translates as asked, and every other address as before.
-/
import Os64.Mem.Tables

namespace Os64

open Os64.Lib

variable {K : Image}

/-! ## One leaf -/

/-- What `map_pages` stores for the physical page `pa`. -/
theorem leaf_entry {pa attr : Nat} (hpa : pa % pageSize = 0) (hb : pa + pageSize ≤ 2 ^ 30)
    (ha : attr < 8) (hp : attr % 2 = 1) :
    pa ||| attr ||| pteEntry = pa + attr + 128 ∧ present (pa + attr + 128) ∧
      huge (pa + attr + 128) ∧ (pa + attr + 128) / 2 ^ 21 % 2 ^ 31 * 2 ^ 21 = pa ∧
      pa + attr + 128 < 2 ^ 52 ∧ writable (pa + attr + 128) = writable attr ∧
      userBit (pa + attr + 128) = userBit attr := by
  have hor : attr ||| pteEntry = attr + 128 := by
    have : attr ||| (1 <<< 7) = attr + 1 <<< 7 := by
      rw [Nat.or_comm, Nat.add_comm, Nat.shiftLeft_add_eq_or_of_lt (by omega)]
    exact this
  have hpa' := hpa
  rw [Nat.or_assoc, hor, or_attr hpa (by omega)]
  unfold present huge writable userBit
  rw [pageSize_eq] at *
  refine ⟨by omega, by omega, by omega, by omega, by omega, ?_, ?_⟩
  · congr 1
    rw [show (pa + attr + 128) / 2 % 2 = attr / 2 % 2 by omega]
  · congr 1
    rw [show (pa + attr + 128) / 4 % 2 = attr / 4 % 2 by omega]

/-- The addresses of one gigabyte share a directory. -/
theorem upper_region {E : Entries} {root v va : Nat} (h : va / 2 ^ 30 = v / 2 ^ 30) :
    upper E root va = upper E root v := by
  have h4 : idx4 va = idx4 v := by
    unfold idx4
    omega
  have h3 : idx3 va = idx3 v := by
    unfold idx3
    omega
  unfold upper
  rw [h4, h3]

theorem canonical_region {v va : Nat} (hc : canonical v) (h : va / 2 ^ 30 = v / 2 ^ 30) :
    canonical va := by
  unfold canonical at *
  omega

/-- In an unmapped page the directory entry is free. -/
theorem WfMap.absent {E : Entries} {root va t : Nat} {w u : Bool} (h : WfMap E root)
    (hc : canonical va) (hup : upper E root va = some (t, w, u)) (hn : walk E root va = none) :
    ¬ present (E t (idx2 va)) := by
  intro hp
  rw [h.walk_eq hc, hup, Option.bind_some, if_pos hp] at hn
  cases hn

/-- Filling entries of directory `t`. -/
structure Filled (K : Image) (r r' : Ram) (free : List Nat) (root t : Nat) : Prop where
  ok : MapOk K r' free root
  tables : tables (entries r'.mem) root = tables (entries r.mem) root
  upper : ∀ va, upper (entries r'.mem) root va = upper (entries r.mem) root va
  mem : AgreeOff [t] r.mem r'.mem
  region : r'.freeMemRegion = r.freeMemRegion ∧ r'.totalMem = r.totalMem

theorem Filled.trans {r r' r'' : Ram} {free : List Nat} {root t : Nat}
    (h : Filled K r r' free root t) (h' : Filled K r' r'' free root t) :
    Filled K r r'' free root t :=
  ⟨h'.ok, h'.tables.trans h.tables, fun va => (h'.upper va).trans (h.upper va), h.mem.trans h'.mem,
    h'.region.1.trans h.region.1, h'.region.2.trans h.region.2⟩

section Leaf

variable {r : Ram} {free : List Nat} {root t : Nat} {w u : Bool}

/-- Storing an entry of a page directory. -/
theorem MapTree.setEntry {i x : Nat} (h : MapTree K r free root)
    (ht : t ∈ pds (entries r.mem) root) (hi : i < 512) (hx : x < 2 ^ 64) :
    SetEntry (entries r.mem) (entries (store r.mem (t + 8 * i) 8 x)) root t i ∧
      entries (store r.mem (t + 8 * i) 8 x) t i = x ∧
      AgreeOff [t] r.mem (store r.mem (t + 8 * i) 8 x) ∧
      Grown K r { r with mem := store r.mem (t + 8 * i) 8 x } free free root := by
  have htv := h.pd_valid ht
  have hs : SetEntry (entries r.mem) (entries (store r.mem (t + 8 * i) 8 x)) root t i :=
    ⟨ht, hi, fun p hp j hj hne =>
      entries_store_ne r.mem x htv.aligned (h.valid p hp).aligned hi hj hne⟩
  have hm : AgreeOff [t] r.mem (store r.mem (t + 8 * i) 8 x) :=
    agreeOff_store r.mem x (by omega) (by rw [pageSize_eq]; omega)
  have htab := hs.tables_eq h.unshared
  refine ⟨hs, entries_store_self r.mem t i x hx, hm, ⟨⟨⟨?_, ?_, ?_⟩, ?_, ?_⟩, ⟨[], rfl, ?_, ?_⟩,
    .refl _⟩⟩
  · unfold Unshared
    rw [htab]
    exact h.unshared
  · rw [htab]
    exact h.valid
  · intro p hp j hj hpr
    rw [hs.kids_root h.unshared] at hp
    have hpt : p ≠ t ∧ p ∈ tables (entries r.mem) root := by
      rcases List.mem_cons.mp hp with rfl | hk
      · exact ⟨(h.unshared.pd_ne_root ht).symm, root_mem_tables⟩
      · exact ⟨(h.unshared.pd_ne_kid ht hk).symm, kids_subset_tables hk⟩
    rw [hs.others p hpt.2 j hj (Or.inl hpt.1)] at hpr ⊢
    exact h.small p hp j hj hpr
  · refine h.freeList.congr rfl hm fun p hp => ?_
    rw [List.mem_singleton.mp hp]
    exact ⟨htv.aligned, h.used t (pds_subset_tables ht)⟩
  · rw [htab]
    exact h.used
  · rw [htab]
    exact List.Perm.refl _
  · refine hm.mono fun p hp => ?_
    rw [List.mem_singleton.mp hp]
    exact pds_subset_tables ht

/-- Storing a leaf. -/
theorem setLeaf {i x : Nat} (h : MapOk K r free root) (ht : t ∈ pds (entries r.mem) root)
    (hi : i < 512) (hx : x < 2 ^ 52) (hh : present x → huge x) :
    SetEntry (entries r.mem) (entries (store r.mem (t + 8 * i) 8 x)) root t i ∧
      entries (store r.mem (t + 8 * i) 8 x) t i = x ∧
      Filled K r { r with mem := store r.mem (t + 8 * i) 8 x } free root t := by
  obtain ⟨hs, hself, hm, hg⟩ := h.tree.setEntry ht hi (Nat.lt_of_lt_of_le hx (by decide))
  have htab := hs.tables_eq h.wf.unshared
  refine ⟨hs, hself, ⟨⟨⟨hs.wf h.wf (by rw [hself]; exact hh), hg.tree.valid, ?_⟩, hg.tree.freeList,
    hg.tree.used⟩, htab, hs.upper_eq h.wf.unshared, hm, rfl, rfl⟩⟩
  rw [htab]
  intro p hp j hj hpr
  by_cases hpt : p = t ∧ j = i
  · obtain ⟨rfl, rfl⟩ := hpt
    rw [hself]
    exact hx
  · rw [hs.others p hp j hj (not_and_or.mp hpt)] at hpr ⊢
    exact h.small p hp j hj hpr

/-- One round of the loop of `map_pages`, with the directory in place. -/
theorem mapPagesLoop_round {attr vend fuel v pa : Nat} (h : MapOk K r free root)
    (hup : upper (entries r.mem) root v = some (t, w, u)) (ha : attr < 8) (hp : attr % 2 = 1)
    (hpa : pa % pageSize = 0) (hb : pa + pageSize ≤ 2 ^ 30)
    (habs : ¬ present (entries r.mem t (idx2 v))) :
    mapPagesLoop K (p2v root) vend attr (fuel + 1) v pa r =
      if u64 (u64 (v + pageSize) + pageSize) ≤ vend then
        mapPagesLoop K (p2v root) vend attr fuel (u64 (v + pageSize)) (u64 (pa + pageSize))
          { r with mem := store r.mem (t + 8 * idx2 v) 8 (pa + attr + 128) }
      else .ok true { r with mem := store r.mem (t + 8 * idx2 v) 8 (pa + attr + 128) } := by
  have htv := h.toTreeOk.pd_valid (upper_mem_pds hup)
  have hzero : entries r.mem t (idx2 v) &&& pteP = 0 := by
    by_contra hne
    exact habs ((present_iff _).mp hne)
  conv => lhs; unfold mapPagesLoop
  rw [bind_run (findPdptEntry_found h.toTreeOk.tree hup), if_neg htv.p2v_ne_zero, index2_eq,
    (leaf_entry hpa hb ha hp).1]
  rw [bind_run (kload_entry htv (idx2_lt v) r), bind_run (assertMem_run hzero 215 r),
    bind_run (kstore_entry htv (idx2_lt v) r _)]
  split
  · rfl
  · rfl

/-- What one round maps. -/
theorem leaf_walk {attr v pa : Nat} (h : MapOk K r free root)
    (hup : upper (entries r.mem) root v = some (t, w, u)) (hc : canonical v)
    (hv : v % pageSize = 0) (ha : attr < 8) (hp : attr % 2 = 1) (hpa : pa % pageSize = 0)
    (hb : pa + pageSize ≤ 2 ^ 30) (va : Nat) :
    walk (entries (store r.mem (t + 8 * idx2 v) 8 (pa + attr + 128))) root va =
      if v ≤ va ∧ va < v + pageSize then
        some ⟨pa + (va - v), w && writable attr, u && userBit attr⟩
      else walk (entries r.mem) root va := by
  obtain ⟨-, hpr, hhu, hfr, hlt, hwr, hus⟩ := leaf_entry hpa hb ha hp
  obtain ⟨hs, hself, -⟩ := setLeaf h (upper_mem_pds hup) (idx2_lt v) hlt fun _ => hhu
  have hin : (v ≤ va ∧ va < v + pageSize) ↔ va / 2 ^ 21 = v / 2 ^ 21 := by
    rw [pageSize_eq] at *
    omega
  by_cases hsame : va / 2 ^ 21 = v / 2 ^ 21
  · have hva : va / 2 ^ 30 = v / 2 ^ 30 := by omega
    have hoff : va % 2 ^ 21 = va - v := by
      rw [pageSize_eq] at *
      omega
    rw [if_pos (hin.mpr hsame), hs.walk_same h.wf (by rw [hself]; exact hpr)
      (by rw [hself]; exact hhu) hc hup rfl (canonical_region hc hva) hsame, hself, hfr, hwr, hus,
      hoff]
  · rw [if_neg fun hcon => hsame (hin.mp hcon)]
    exact hs.walk_other h.wf (fun _ => by rw [hself]; exact hhu) hc hup rfl hsame

/-- The loop of `map_pages` in one directory: `n + 1` pages from `v`. -/
theorem mapDir_run {attr : Nat} (ha : attr < 8) (hp : attr % 2 = 1) :
    ∀ (n v pa fuel : Nat) (r : Ram), MapOk K r free root →
      upper (entries r.mem) root v = some (t, w, u) → canonical v → v % pageSize = 0 →
      (v + n * pageSize) / 2 ^ 30 = v / 2 ^ 30 →
      pa % pageSize = 0 → pa + (n + 1) * pageSize ≤ 2 ^ 30 →
      v + (n + 2) * pageSize < 2 ^ 64 → n < fuel →
      (∀ va, v ≤ va → va < v + (n + 1) * pageSize → ¬ present (entries r.mem t (idx2 va))) →
      ∃ r', mapPagesLoop K (p2v root) (v + (n + 1) * pageSize) attr fuel v pa r = .ok true r' ∧
        Filled K r r' free root t ∧
        ∀ va, walk (entries r'.mem) root va =
          if v ≤ va ∧ va < v + (n + 1) * pageSize then
            some ⟨pa + (va - v), w && writable attr, u && userBit attr⟩
          else walk (entries r.mem) root va := by
  intro n
  induction n with
  | zero =>
      intro v pa fuel r h hup hc hv hreg hpa hpb hend hfuel habs
      obtain ⟨fuel, rfl⟩ : ∃ k, fuel = k + 1 := ⟨fuel - 1, by omega⟩
      rw [Nat.zero_add, Nat.one_mul] at *
      obtain ⟨-, hpr, hhu, -, hlt, -, -⟩ := leaf_entry hpa hpb ha hp
      obtain ⟨-, -, hfill⟩ := setLeaf h (upper_mem_pds hup) (idx2_lt v) hlt fun _ => hhu
      refine ⟨_, ?_, hfill, leaf_walk h hup hc hv ha hp hpa hpb⟩
      rw [mapPagesLoop_round h hup ha hp hpa hpb
        (habs v (Nat.le_refl v) (by rw [pageSize_eq]; omega)), if_neg]
      unfold u64
      rw [pageSize_eq] at *
      omega
  | succ n ih =>
      intro v pa fuel r h hup hc hv hreg hpa hpb hend hfuel habs
      obtain ⟨fuel, rfl⟩ : ∃ k, fuel = k + 1 := ⟨fuel - 1, by omega⟩
      have hpos : 0 < pageSize := by rw [pageSize_eq]; omega
      have hmul : (n + 1 + 1) * pageSize = pageSize + (n + 1) * pageSize := by ring
      have hmul1 : (n + 1) * pageSize = pageSize + n * pageSize := by ring
      have hmul2 : (n + 1 + 2) * pageSize = pageSize + (n + 2) * pageSize := by ring
      have hmul3 : (n + 2) * pageSize = pageSize + (n + 1) * pageSize := by ring
      have hpb1 : pa + pageSize ≤ 2 ^ 30 := by omega
      obtain ⟨-, hpr, hhu, -, hlt, -, -⟩ := leaf_entry hpa hpb1 ha hp
      obtain ⟨hs, -, hfill⟩ := setLeaf h (upper_mem_pds hup) (idx2_lt v) hlt fun _ => hhu
      have hv1 : u64 (v + pageSize) = v + pageSize := Nat.mod_eq_of_lt (by omega)
      have hpa1 : u64 (pa + pageSize) = pa + pageSize := Nat.mod_eq_of_lt (by omega)
      have hreg1 : (v + pageSize) / 2 ^ 30 = v / 2 ^ 30 := by omega
      have hend' : v + (n + 1 + 1) * pageSize = v + pageSize + (n + 1) * pageSize := by omega
      have hgo : u64 (u64 (v + pageSize) + pageSize) ≤ v + (n + 1 + 1) * pageSize := by
        rw [hv1]
        exact (Nat.mod_le _ _).trans (by omega)
      have habs' : ∀ va, v + pageSize ≤ va → va < v + pageSize + (n + 1) * pageSize →
          ¬ present (entries (store r.mem (t + 8 * idx2 v) 8 (pa + attr + 128)) t (idx2 va)) := by
        intro va h1 h2 hpr'
        have hne : idx2 va ≠ idx2 v := by
          unfold idx2
          rw [pageSize_eq] at *
          omega
        rw [hs.others t (pds_subset_tables (upper_mem_pds hup)) _ (idx2_lt va) (Or.inr hne)] at hpr'
        exact habs va (by omega) (by omega) hpr'
      obtain ⟨r', hrun, hfill', hwalk⟩ := ih (v + pageSize) (pa + pageSize) fuel _ hfill.ok
        ((hfill.upper _).trans ((upper_region hreg1).trans hup)) (canonical_region hc hreg1)
        (by rw [Nat.add_mod_right]; exact hv) (by omega) (by rw [Nat.add_mod_right]; exact hpa)
        (by omega) (by omega) (by omega) habs'
      refine ⟨r', ?_, hfill.trans hfill', fun va => ?_⟩
      · rw [mapPagesLoop_round h hup ha hp hpa hpb1
          (habs v (Nat.le_refl v) (by omega)), if_pos hgo, hv1, hpa1, hend']
        exact hrun
      · rw [hwalk va, hend', leaf_walk h hup hc hv ha hp hpa hpb1 va]
        by_cases hin : v + pageSize ≤ va ∧ va < v + pageSize + (n + 1) * pageSize
        · rw [if_pos hin, if_pos ⟨by omega, by omega⟩,
            show pa + pageSize + (va - (v + pageSize)) = pa + (va - v) by omega]
        · rw [if_neg hin]
          by_cases hin' : v ≤ va ∧ va < v + pageSize
          · rw [if_pos hin', if_pos ⟨by omega, by omega⟩]
          · rw [if_neg hin', if_neg (by omega)]

end Leaf

/-! ## The whole function -/

theorem paDown_aligned {v : Nat} (hv : v % pageSize = 0) : paDown v = v := by
  unfold paDown
  rw [Nat.shiftRight_eq_div_pow, Nat.shiftLeft_eq]
  rw [pageSize_eq] at hv
  omega

theorem paUp_aligned {v : Nat} (hv : v % pageSize = 0) (hb : v + pageSize < 2 ^ 64) :
    paUp v = v := by
  unfold paUp u64
  rw [Nat.shiftRight_eq_div_pow, Nat.shiftLeft_eq]
  rw [pageSize_eq] at *
  omega

/-- Opening the directory first makes no difference to the loop. -/
theorem mapPagesLoop_open {map vend attr fuel v pa pd : Nat} {r r₁ : Ram}
    (h : findPdptEntry K map v 1 attr r = .ok pd r₁)
    (h₁ : findPdptEntry K map v 1 attr r₁ = .ok pd r₁) :
    mapPagesLoop K map vend attr (fuel + 1) v pa r =
      mapPagesLoop K map vend attr (fuel + 1) v pa r₁ := by
  conv => lhs; unfold mapPagesLoop
  conv => rhs; unfold mapPagesLoop
  rw [bind_run h, bind_run h₁]

theorem mapPagesLoop_full {map vend attr fuel v pa : Nat} {r r₁ : Ram}
    (h : findPdptEntry K map v 1 attr r = .ok 0 r₁) :
    mapPagesLoop K map vend attr (fuel + 1) v pa r = .ok false r₁ := by
  unfold mapPagesLoop
  rw [bind_run h, if_pos rfl]
  rfl

theorem mapPages_eq {map v n pa attr : Nat} (hv : v % pageSize = 0)
    (hpa : pa % pageSize = 0) (hpb : pa + (n + 1) * pageSize ≤ 2 ^ 30)
    (hend : v + (n + 2) * pageSize < 2 ^ 64) (r : Ram) :
    mapPages K map v (v + (n + 1) * pageSize) pa attr r =
      mapPagesLoop K map (v + (n + 1) * pageSize) attr rounds v pa r := by
  have hmul : (n + 2) * pageSize = pageSize + (n + 1) * pageSize := by ring
  have hmul1 : (n + 1) * pageSize = pageSize + n * pageSize := by ring
  have hpos : 0 < pageSize := by rw [pageSize_eq]; omega
  have hup : paUp (v + (n + 1) * pageSize) = v + (n + 1) * pageSize := by
    refine paUp_aligned ?_ (by omega)
    rw [Nat.add_mul_mod_self_right]
    exact hv
  have hsize : u64 (pa + (v + (n + 1) * pageSize) + (2 ^ 64 - v)) ≤ 1024 * 1024 * 1024 := by
    unfold u64
    omega
  unfold mapPages
  rw [paDown_aligned hv, hup]
  rw [bind_run (assertMem_run (by omega) 196 r), bind_run (assertMem_run hpa 198 r),
    bind_run (assertMem_run hsize 200 r)]

/-- What a successful `map_pages` did. -/
structure Mapped (K : Image) (r r' : Ram) (free free' : List Nat) (root v pa len attr : Nat) :
    Prop where
  built : Built K r r' free free' root
  rest : ∀ j < 512, j ≠ idx4 v → entries r'.mem root j = entries r.mem root j
  walk : ∀ va, walk (entries r'.mem) root va =
    if v ≤ va ∧ va < v + len then some ⟨pa + (va - v), writable attr, userBit attr⟩
    else walk (entries r.mem) root va

/-- `map_pages` on an unmapped stretch of `n + 1` pages inside one gigabyte. -/
theorem mapPages_run {r : Ram} {free : List Nat} {root v n q attr : Nat}
    (h : MapOk K r free root) (ha : attr < 8) (hp : attr % 2 = 1)
    (hg : Grants (entries r.mem) root attr v) (hc : canonical v) (hv : v % pageSize = 0)
    (hreg : (v + n * pageSize) / 2 ^ 30 = v / 2 ^ 30) (hpa : q % pageSize = 0)
    (hpb : q + (n + 1) * pageSize ≤ 2 ^ 30) (hend : v + (n + 2) * pageSize < 2 ^ 64)
    (hfree : ∀ va, v ≤ va → va < v + (n + 1) * pageSize → walk (entries r.mem) root va = none) :
    (free.length < 2 ∧ ∃ r' free', mapPages K (p2v root) v (v + (n + 1) * pageSize) q attr r =
        .ok false r' ∧ Opened K r r' free free' root v) ∨
      ∃ r' free', mapPages K (p2v root) v (v + (n + 1) * pageSize) q attr r = .ok true r' ∧
        Mapped K r r' free free' root v q ((n + 1) * pageSize) attr ∧
        free.length ≤ free'.length + 2 := by
  have hrounds : rounds = 2 ^ 43 - 1 + 1 := by unfold rounds; omega
  have hmul1 : (n + 1) * pageSize = pageSize + n * pageSize := by ring
  rw [mapPages_eq hv hpa hpb hend]
  rcases findPdptEntry_alloc h ha hp hg with ⟨hlen, r₁, free₁, hrun, ho⟩ |
    ⟨t, r₁, free₁, hrun, ho, hlen, hup⟩
  · refine Or.inl ⟨hlen, r₁, free₁, ?_, ho⟩
    rw [hrounds]
    exact mapPagesLoop_full hrun
  · have hok := ho.built.ok
    have habs : ∀ va, v ≤ va → va < v + (n + 1) * pageSize →
        ¬ present (entries r₁.mem t (idx2 va)) := by
      intro va h1 h2
      have hva : va / 2 ^ 30 = v / 2 ^ 30 := by
        rw [pageSize_eq] at *
        omega
      refine WfMap.absent hok.wf (canonical_region hc hva) ((upper_region hva).trans hup) ?_
      rw [ho.walk va]
      exact hfree va h1 h2
    obtain ⟨r', hrun', hfill, hwalk⟩ := mapDir_run ha hp n v q rounds r₁ hok hup hc hv hreg hpa hpb
      hend (by unfold rounds; rw [pageSize_eq] at *; omega) habs
    refine Or.inr ⟨r', free₁, ?_, ⟨ho.built.trans ⟨hfill.ok, ⟨[], rfl, ?_, ?_⟩, hfill.region⟩, ?_, ?_⟩,
      hlen⟩
    · rw [hrounds, mapPagesLoop_open hrun (findPdptEntry_found hok.toTreeOk.tree hup), ← hrounds]
      exact hrun'
    · rw [hfill.tables]
      exact List.Perm.refl _
    · refine hfill.mem.mono fun p hpm => ?_
      rw [List.mem_singleton.mp hpm]
      exact pds_subset_tables (upper_mem_pds hup)
    · intro j hj hne
      have hroot : entries r'.mem root j = entries r₁.mem root j := by
        refine hfill.mem.entries_eq hok.toTreeOk.root_valid.aligned ?_ ?_ hj
        · rw [List.mem_singleton]
          exact (hok.wf.unshared.pd_ne_root (upper_mem_pds hup)).symm
        · intro p hpm
          rw [List.mem_singleton.mp hpm]
          exact (hok.toTreeOk.pd_valid (upper_mem_pds hup)).aligned
      rw [hroot, ho.rest j hj hne]
    · intro va
      rw [hwalk va, Bool.and_self, Bool.and_self, ho.walk va]

end Os64
