/-
  Page tables in pages of the allocator, and the two functions that walk down to a
  page directory.

  `TreeOk K m root`: below `root` hangs a well-formed map whose tables are valid pages;
  with `MapOk` none of them is free. `Built r r' free free' root` is what building does: it
  takes pages off the free list, adds them to the map's tables, and leaves every other
  page alone. `findPdptEntry_alloc` does that without changing any translation.
-/
import Os64.Mem.Pages

namespace Os64

open Os64.Lib

variable {K : Image}

/-! ## Words and entries -/

theorem index4_eq (v : Nat) : (v >>> 39) &&& 0x1FF = idx4 v := by
  rw [Nat.shiftRight_eq_div_pow, show (0x1FF : Nat) = 2 ^ 9 - 1 from rfl,
    Nat.and_two_pow_sub_one_eq_mod]
  rfl

theorem index3_eq (v : Nat) : (v >>> 30) &&& 0x1FF = idx3 v := by
  rw [Nat.shiftRight_eq_div_pow, show (0x1FF : Nat) = 2 ^ 9 - 1 from rfl,
    Nat.and_two_pow_sub_one_eq_mod]
  rfl

theorem index2_eq (v : Nat) : (v >>> 21) &&& 0x1FF = idx2 v := by
  rw [Nat.shiftRight_eq_div_pow, show (0x1FF : Nat) = 2 ^ 9 - 1 from rfl,
    Nat.and_two_pow_sub_one_eq_mod]
  rfl

theorem and_pteP (e : Nat) : e &&& pteP = e % 2 := Nat.and_one_is_mod e

theorem present_iff (e : Nat) : e &&& pteP ≠ 0 ↔ present e := by
  rw [and_pteP]
  unfold present
  omega

theorem pdeAddr_eq {e : Nat} (h : e < 2 ^ 52) : pdeAddr e = frame e := by
  unfold pdeAddr frame
  rw [Nat.shiftRight_eq_div_pow, Nat.shiftLeft_eq]
  omega

/-- An entry for the page `t` with the low bits `attr`. -/
theorem or_attr {t attr : Nat} (ht : t % pageSize = 0) (ha : attr < 4096) : t ||| attr = t + attr := by
  have h : t = (t / 4096) <<< 12 := by
    rw [Nat.shiftLeft_eq]
    rw [pageSize_eq] at ht
    omega
  rw [h, Nat.shiftLeft_add_eq_or_of_lt (by omega)]

/-- An entry built from page `t` and `attr` points at the page. -/
theorem entry_frame {t attr : Nat} (ht : t % pageSize = 0) (hb : t + pageSize ≤ 0x30000000)
    (ha : attr < 4096) (hp : attr % 2 = 1) :
    present (t + attr) ∧ frame (t + attr) = t ∧ t + attr < 2 ^ 52 := by
  unfold present frame
  rw [pageSize_eq] at *
  omega

/-- What it says when it grants rights only. -/
theorem entry_attr {t attr : Nat} (ht : t % pageSize = 0) (hb : t + pageSize ≤ 0x30000000)
    (ha : attr < 8) (hp : attr % 2 = 1) :
    present (t + attr) ∧ ¬ huge (t + attr) ∧ frame (t + attr) = t ∧ t + attr < 2 ^ 52 ∧
      writable (t + attr) = writable attr ∧ userBit (t + attr) = userBit attr := by
  unfold present huge frame writable userBit
  rw [pageSize_eq] at *
  refine ⟨by omega, by omega, by omega, by omega, ?_, ?_⟩
  · congr 1
    rw [show (t + attr) / 2 % 2 = attr / 2 % 2 by omega]
  · congr 1
    rw [show (t + attr) / 4 % 2 = attr / 4 % 2 by omega]

/-- Storing one entry. -/
theorem entries_store_self (m : Mem) (t i v : Nat) (hv : v < 2 ^ 64) :
    entries (store m (t + 8 * i) 8 v) t i = v := by
  unfold entries
  rw [load_store_self]
  exact Nat.mod_eq_of_lt hv

theorem entries_store_ne (m : Mem) {t u i j : Nat} (v : Nat) (ht : t % pageSize = 0)
    (hu : u % pageSize = 0) (hi : i < 512) (hj : j < 512) (h : u ≠ t ∨ j ≠ i) :
    entries (store m (t + 8 * i) 8 v) u j = entries m u j := by
  unfold entries
  refine load_store_of_disjoint m _ _ v ?_
  rw [pageSize_eq] at *
  omega

/-- A cleared table. -/
theorem entries_fill (m : Mem) (t : Nat) {i : Nat} (hi : i < 512) :
    entries (fill m t pageSize 0) t i = 0 := by
  unfold entries
  exact load_fill_zero m (by omega) (by rw [pageSize_eq]; omega)

theorem entries_fill_ne (m : Mem) {t u : Nat} (b : UInt8) (ht : t % pageSize = 0)
    (hu : u % pageSize = 0) (h : u ≠ t) {j : Nat} (hj : j < 512) :
    entries (fill m t pageSize b) u j = entries m u j :=
  (agreeOff_fill m b).entries_eq hu (by simpa using h) (by simpa using ht) hj

/-! ## Maps -/

/-- Below `root` hang tables in pages of the allocator, none of them shared. -/
structure TableTree (K : Image) (m : Mem) (root : Nat) : Prop where
  unshared : Unshared (entries m) root
  valid : ∀ t ∈ tables (entries m) root, ValidPage K t
  small : ∀ t ∈ root :: kids (entries m) root, ∀ i < 512, present (entries m t i) →
    entries m t i < 2 ^ 52

namespace TableTree

variable {m m' : Mem} {root : Nat}

theorem root_valid (h : TableTree K m root) : ValidPage K root := h.valid root root_mem_tables

theorem kid_valid (h : TableTree K m root) {t : Nat} (ht : t ∈ kids (entries m) root) :
    ValidPage K t := h.valid t (kids_subset_tables ht)

theorem pd_valid (h : TableTree K m root) {t : Nat} (ht : t ∈ pds (entries m) root) :
    ValidPage K t := h.valid t (pds_subset_tables ht)

theorem root_small (h : TableTree K m root) {i : Nat} (hi : i < 512)
    (hp : present (entries m root i)) : entries m root i < 2 ^ 52 :=
  h.small root List.mem_cons_self i hi hp

theorem kid_small (h : TableTree K m root) {t i : Nat} (ht : t ∈ kids (entries m) root)
    (hi : i < 512) (hp : present (entries m t i)) : entries m t i < 2 ^ 52 :=
  h.small t (List.mem_cons_of_mem root ht) i hi hp

/-- A tree whose tables are not touched. -/
theorem congr (h : TableTree K m root)
    (he : ∀ t ∈ tables (entries m) root, ∀ i < 512, entries m' t i = entries m t i) :
    TableTree K m' root := by
  have ht := tables_congr he
  have hk : kids (entries m') root = kids (entries m) root := kids_congr (he root root_mem_tables)
  refine ⟨by unfold Unshared; rw [ht]; exact h.unshared, by rw [ht]; exact h.valid, ?_⟩
  rw [hk]
  intro t htm i hi hp
  have htab : t ∈ tables (entries m) root := by
    rcases List.mem_cons.mp htm with rfl | hk
    · exact root_mem_tables
    · exact kids_subset_tables hk
  rw [he t htab i hi] at hp ⊢
  exact h.small t htm i hi hp

end TableTree

/-- Below `root` hangs a well-formed map in pages of the allocator. -/
structure TreeOk (K : Image) (m : Mem) (root : Nat) : Prop where
  wf : WfMap (entries m) root
  valid : ∀ t ∈ tables (entries m) root, ValidPage K t
  small : ∀ t ∈ tables (entries m) root, ∀ i < 512, present (entries m t i) →
    entries m t i < 2 ^ 52

namespace TreeOk

variable {m m' : Mem} {root : Nat}

theorem tree (h : TreeOk K m root) : TableTree K m root := by
  refine ⟨h.wf.nodup, h.valid, fun t ht => h.small t ?_⟩
  rcases List.mem_cons.mp ht with rfl | hk
  · exact root_mem_tables
  · exact kids_subset_tables hk

theorem root_valid (h : TreeOk K m root) : ValidPage K root := h.valid root root_mem_tables

theorem kid_valid (h : TreeOk K m root) {t : Nat} (ht : t ∈ kids (entries m) root) :
    ValidPage K t := h.valid t (kids_subset_tables ht)

theorem pd_valid (h : TreeOk K m root) {t : Nat} (ht : t ∈ pds (entries m) root) :
    ValidPage K t := h.valid t (pds_subset_tables ht)

theorem entries_eq (h : TreeOk K m root) {P : List Nat} (hm : AgreeOff P m m')
    (hP : ∀ p ∈ P, p % pageSize = 0 ∧ p ∉ tables (entries m) root) :
    ∀ t ∈ tables (entries m) root, ∀ i < 512, entries m' t i = entries m t i :=
  fun t ht _ hi => hm.entries_eq (h.valid t ht).aligned (fun hp => (hP t hp).2 ht)
    (fun p hp => (hP p hp).1) hi

/-- A map whose tables are not touched. -/
theorem congr (h : TreeOk K m root)
    (he : ∀ t ∈ tables (entries m) root, ∀ i < 512, entries m' t i = entries m t i) :
    TreeOk K m' root := by
  have ht := tables_congr he
  refine ⟨h.wf.congr he, ?_, ?_⟩
  · rw [ht]
    exact h.valid
  · rw [ht]
    intro t htm i hi hp
    rw [he t htm i hi] at hp ⊢
    exact h.small t htm i hi hp

end TreeOk

/-- A map whose tables are not free. -/
structure MapOk (K : Image) (r : Ram) (free : List Nat) (root : Nat) : Prop
    extends TreeOk K r.mem root where
  freeList : FreeList K r free
  used : ∀ t ∈ tables (entries r.mem) root, t ∉ free

/-- A tree whose tables are not free. -/
structure MapTree (K : Image) (r : Ram) (free : List Nat) (root : Nat) : Prop
    extends TableTree K r.mem root where
  freeList : FreeList K r free
  used : ∀ t ∈ tables (entries r.mem) root, t ∉ free

theorem MapOk.tree {r : Ram} {free : List Nat} {root : Nat} (h : MapOk K r free root) :
    MapTree K r free root := ⟨h.toTreeOk.tree, h.freeList, h.used⟩

/-- The tree grew from `r` to `r'`: the pages taken off the free list became its tables. -/
structure Grown (K : Image) (r r' : Ram) (free free' : List Nat) (root : Nat) : Prop where
  tree : MapTree K r' free' root
  taken : ∃ ts, free = ts ++ free' ∧
    (tables (entries r'.mem) root).Perm (ts ++ tables (entries r.mem) root) ∧
    AgreeOff (ts ++ tables (entries r.mem) root) r.mem r'.mem
  region : SameRegions r r'

namespace Grown

variable {r r' r'' : Ram} {free free' free'' : List Nat} {root : Nat}

theorem refl (h : MapTree K r free root) : Grown K r r free free root :=
  ⟨h, ⟨[], rfl, List.Perm.refl _, AgreeOff.refl _ _⟩, .refl r⟩

theorem trans (h : Grown K r r' free free' root) (h' : Grown K r' r'' free' free'' root) :
    Grown K r r'' free free'' root := by
  obtain ⟨ts, hf, hp, hm⟩ := h.taken
  obtain ⟨ts', hf', hp', hm'⟩ := h'.taken
  refine ⟨h'.tree, ⟨ts ++ ts', by rw [hf, hf', List.append_assoc], ?_, ?_⟩, h.region.trans h'.region⟩
  · refine (hp'.trans (hp.append_left ts')).trans ?_
    rw [← List.append_assoc]
    exact List.perm_append_comm.append_right _
  · refine (hm.mono fun p hpm => ?_).trans (hm'.mono fun p hpm => ?_)
    · rw [List.append_assoc, List.mem_append, List.mem_append]
      exact (List.mem_append.mp hpm).elim Or.inl fun h => Or.inr (Or.inr h)
    · rw [List.append_assoc, List.mem_append, List.mem_append]
      rcases List.mem_append.mp hpm with hpm | hpm
      · exact Or.inr (Or.inl hpm)
      · exact (List.mem_append.mp (hp.mem_iff.mp hpm)).elim Or.inl fun h => Or.inr (Or.inr h)

end Grown

/-- Building: `r` gave `r'`, and the pages taken off the free list went into the map below
    `root`. -/
structure Built (K : Image) (r r' : Ram) (free free' : List Nat) (root : Nat) : Prop where
  ok : MapOk K r' free' root
  taken : ∃ ts, free = ts ++ free' ∧
    (tables (entries r'.mem) root).Perm (ts ++ tables (entries r.mem) root) ∧
    AgreeOff (ts ++ tables (entries r.mem) root) r.mem r'.mem
  region : r'.freeMemRegion = r.freeMemRegion ∧ r'.totalMem = r.totalMem

namespace Built

variable {r r' r'' : Ram} {free free' free'' : List Nat} {root : Nat}

theorem refl (h : MapOk K r free root) : Built K r r free free root :=
  ⟨h, ⟨[], rfl, List.Perm.refl _, AgreeOff.refl _ _⟩, rfl, rfl⟩

theorem grown (h : Built K r r' free free' root) : Grown K r r' free free' root :=
  ⟨h.ok.tree, h.taken, h.region⟩

theorem trans (h : Built K r r' free free' root) (h' : Built K r' r'' free' free'' root) :
    Built K r r'' free free'' root :=
  ⟨h'.ok, (h.grown.trans h'.grown).taken, (h.grown.trans h'.grown).region⟩

end Built

/-! ## A new table -/

/-- Allocate a page, clear it, and hang it below entry `i` of table `t`. -/
def hangTable (K : Image) (t i attr : Nat) : RamM Nat := do
  let c ← kalloc K
  if c ≠ 0 then
    kmemset c 0 pageSize
    kstore (p2v t + 8 * i) 8 (v2p c ||| attr)
  return c

section Hang

variable {r : Ram} {free : List Nat} {root t i attr : Nat}

/-- Hanging a new table below an absent entry of a table of the map. -/
theorem hangTable_run (h : MapTree K r free root) (ht : t ∈ tables (entries r.mem) root)
    (hi : i < 512) (ha : attr < 4096) (hp : attr % 2 = 1)
    (habs : ¬ present (entries r.mem t i)) :
    (free = [] ∧ hangTable K t i attr r = .ok 0 r) ∨
      ∃ c free' r', free = c :: free' ∧ hangTable K t i attr r = .ok (p2v c) r' ∧
        FreeList K r' free' ∧ ValidPage K c ∧
        Hang (entries r.mem) (entries r'.mem) root t i c ∧
        entries r'.mem t i = c + attr ∧
        AgreeOff (c :: tables (entries r.mem) root) r.mem r'.mem ∧
        r'.freeMemRegion = r.freeMemRegion ∧ r'.totalMem = r.totalMem := by
  cases hfree : free with
  | nil =>
      refine Or.inl ⟨rfl, ?_⟩
      unfold hangTable
      rw [bind_run (kalloc_nil (hfree ▸ h.freeList))]
      rfl
  | cons c free' =>
      have hfl := h.freeList
      rw [hfree] at hfl
      obtain ⟨hrun, hfl'⟩ := kalloc_cons hfl
      have hc := hfl.valid c List.mem_cons_self
      have htv := h.valid t ht
      have hcfree : c ∈ free := by rw [hfree]; exact List.mem_cons_self
      have hct : c ∉ tables (entries r.mem) root := fun hm => h.used c hm hcfree
      have hne : t ≠ c := fun he => hct (he ▸ ht)
      have hval : v2p (p2v c) ||| attr = c + attr := by
        rw [hc.v2p_p2v, or_attr hc.aligned (by omega)]
      have hlt : c + attr < 2 ^ 64 := by
        have := hc.below
        omega
      have hstore : ∀ r' : Ram, kstore (p2v t + 8 * i) 8 (v2p (p2v c) ||| attr) r' =
          .ok () { r' with mem := store r'.mem (t + 8 * i) 8 (c + attr) } := by
        intro r'
        rw [hval]
        exact kstore_page htv (by rw [pageSize_eq]; omega) (by omega)
          (by rw [htv.p2v_eq]; omega) r' _
      obtain ⟨h1, h3, -⟩ := entry_frame hc.aligned hc.below ha hp
      refine Or.inr ⟨c, free', { r with
          mem := store (fill r.mem c pageSize 0) (t + 8 * i) 8 (c + attr)
          freeMemory := load r.mem c 8 }, rfl, ?_, ?_, hc, ?_, ?_, ?_, rfl, rfl⟩
      · unfold hangTable
        rw [bind_run hrun, if_pos hc.p2v_ne_zero, bind_run (kmemset_page hc 0 _),
          bind_run (hstore _)]
        rfl
      · refine hfl'.congr (P := [c, t]) rfl ?_ ?_
        · refine ((agreeOff_fill r.mem 0).mono ?_).trans
            ((agreeOff_store (p := t) _ _ (by omega) (by rw [pageSize_eq]; omega)).mono ?_)
          · intro p hp
            simp only [List.mem_singleton] at hp
            simp [hp]
          · intro p hp
            simp only [List.mem_singleton] at hp
            simp [hp]
        · intro p hp
          rcases List.mem_cons.mp hp with rfl | hp
          · exact ⟨hc.aligned, (List.nodup_cons.mp hfl.nodup).1⟩
          · rw [List.mem_singleton.mp hp]
            refine ⟨htv.aligned, fun hm => h.used t ht ?_⟩
            rw [hfree]
            exact List.mem_cons_of_mem c hm
      · refine ⟨hi, habs, ?_, hct, ?_, ?_⟩
        · rw [entries_store_self _ _ _ _ hlt]
          exact ⟨h1, h3⟩
        · intro j hj
          rw [entries_store_ne _ _ htv.aligned hc.aligned hi hj (Or.inl (Ne.symm hne)),
            entries_fill _ _ hj]
        · intro u hu j hj hne'
          have huv := h.valid u hu
          rw [entries_store_ne _ _ htv.aligned huv.aligned hi hj hne',
            entries_fill_ne _ _ hc.aligned huv.aligned (fun he => hct (he ▸ hu)) hj]
      · exact entries_store_self _ _ _ _ hlt
      · refine ((agreeOff_fill r.mem 0).mono ?_).trans
          ((agreeOff_store (p := t) _ _ (by omega) (by rw [pageSize_eq]; omega)).mono ?_)
        · intro p hp
          rw [List.mem_singleton.mp hp]
          exact List.mem_cons_self
        · intro p hp
          rw [List.mem_singleton.mp hp]
          exact List.mem_cons_of_mem c ht

/-- A hung table makes the tree larger by one page. -/
theorem grown_hang {c : Nat} {free' : List Nat} {r' : Ram} (h : MapTree K r free root)
    (hfree : free = c :: free') (hfl : FreeList K r' free') (hc : ValidPage K c)
    (hh : Hang (entries r.mem) (entries r'.mem) root t i c) (he : entries r'.mem t i < 2 ^ 52)
    (hm : AgreeOff (c :: tables (entries r.mem) root) r.mem r'.mem) (hreg : SameRegions r r')
    (hp : (tables (entries r'.mem) root).Perm (c :: tables (entries r.mem) root))
    (hk : ∀ k ∈ kids (entries r'.mem) root, k = c ∨ k ∈ kids (entries r.mem) root) :
    Grown K r r' free free' root := by
  have hnd := h.freeList.nodup
  rw [hfree] at hnd
  refine ⟨⟨⟨hp.nodup_iff.mpr (List.nodup_cons.mpr ⟨hh.fresh, h.unshared⟩), ?_, ?_⟩, hfl, ?_⟩,
    ⟨[c], hfree, hp, hm⟩, hreg⟩
  · intro u hu
    rcases List.mem_cons.mp (hp.mem_iff.mp hu) with rfl | hu
    · exact hc
    · exact h.valid u hu
  · have hold : ∀ u ∈ root :: kids (entries r.mem) root, ∀ j < 512, present (entries r'.mem u j) →
        entries r'.mem u j < 2 ^ 52 := by
      intro u hu j hj hpr
      by_cases hut : u = t ∧ j = i
      · obtain ⟨rfl, rfl⟩ := hut
        exact he
      · have hmem : u ∈ tables (entries r.mem) root := by
          rcases List.mem_cons.mp hu with rfl | hu
          · exact root_mem_tables
          · exact kids_subset_tables hu
        rw [hh.others u hmem j hj (not_and_or.mp hut)] at hpr ⊢
        exact h.small u hu j hj hpr
    intro u hu j hj hpr
    rcases List.mem_cons.mp hu with rfl | hu
    · exact hold u List.mem_cons_self j hj hpr
    · rcases hk u hu with rfl | hu
      · rw [hh.empty j hj] at hpr
        exact absurd hpr (by decide)
      · exact hold u (List.mem_cons_of_mem root hu) j hj hpr
  · intro u hu
    rcases List.mem_cons.mp (hp.mem_iff.mp hu) with rfl | hu
    · exact (List.nodup_cons.mp hnd).1
    · intro hm'
      refine h.used u hu ?_
      rw [hfree]
      exact List.mem_cons_of_mem c hm'

theorem grown_link4 {c : Nat} {free' : List Nat} {r' : Ram} (h : MapTree K r free root)
    (hfree : free = c :: free') (hfl : FreeList K r' free') (hc : ValidPage K c)
    (hh : Hang (entries r.mem) (entries r'.mem) root root i c)
    (he : entries r'.mem root i < 2 ^ 52)
    (hm : AgreeOff (c :: tables (entries r.mem) root) r.mem r'.mem) (hreg : SameRegions r r') :
    Grown K r r' free free' root :=
  grown_hang h hfree hfl hc hh he hm hreg (hh.tables_link4 h.unshared) fun _ hk =>
    List.mem_cons.mp ((hh.kids_perm root_mem_tables).mem_iff.mp hk)

theorem grown_link3 {c : Nat} {free' : List Nat} {r' : Ram} (h : MapTree K r free root)
    (ht : t ∈ kids (entries r.mem) root) (hfree : free = c :: free') (hfl : FreeList K r' free')
    (hc : ValidPage K c) (hh : Hang (entries r.mem) (entries r'.mem) root t i c)
    (he : entries r'.mem t i < 2 ^ 52)
    (hm : AgreeOff (c :: tables (entries r.mem) root) r.mem r'.mem) (hreg : SameRegions r r') :
    Grown K r r' free free' root := by
  refine grown_hang h hfree hfl hc hh he hm hreg (hh.tables_link3 h.unshared ht) fun k hk => Or.inr ?_
  rwa [hh.kids_other root_mem_tables (h.unshared.kid_ne_root ht).symm] at hk

/-- A tree with 2 MB pages and rights only, grown by one table. -/
theorem built_of_grown {c : Nat} {free' : List Nat} {r' : Ram} (h : MapOk K r free root)
    (hg : Grown K r r' free free' root) (hw : WfMap (entries r'.mem) root)
    (hh : Hang (entries r.mem) (entries r'.mem) root t i c) (he : entries r'.mem t i < 2 ^ 52)
    (hp : ∀ u ∈ tables (entries r'.mem) root, u = c ∨ u ∈ tables (entries r.mem) root) :
    Built K r r' free free' root := by
  refine ⟨⟨⟨hw, hg.tree.valid, fun u hu j hj hpr => ?_⟩, hg.tree.freeList, hg.tree.used⟩, hg.taken,
    hg.region⟩
  rcases hp u hu with rfl | hu
  · rw [hh.empty j hj] at hpr
    exact absurd hpr (by decide)
  · by_cases hut : u = t ∧ j = i
    · obtain ⟨rfl, rfl⟩ := hut
      exact he
    · rw [hh.others u hu j hj (not_and_or.mp hut)] at hpr ⊢
      exact h.small u hu j hj hpr

end Hang

/-! ## Walking down -/

section Find

variable {r : Ram} {free : List Nat} {root t i attr v alloc : Nat}

/-- Reading an entry of a table. -/
theorem kload_entry (ht : ValidPage K t) (hi : i < 512) (r : Ram) :
    kload (p2v t + 8 * i) 8 r = .ok (entries r.mem t i) r :=
  kload_page ht (by rw [pageSize_eq]; omega) (by omega) (by rw [ht.p2v_eq]; omega) r

theorem kstore_entry (ht : ValidPage K t) (hi : i < 512) (r : Ram) (x : Nat) :
    kstore (p2v t + 8 * i) 8 x r = .ok () { r with mem := store r.mem (t + 8 * i) 8 x } :=
  kstore_page ht (by rw [pageSize_eq]; omega) (by omega) (by rw [ht.p2v_eq]; omega) r x

theorem findPml4tEntry_present (h : TableTree K r.mem root)
    (hp : present (entries r.mem root (idx4 v))) :
    findPml4tEntry K (p2v root) v alloc attr r =
      .ok (p2v (frame (entries r.mem root (idx4 v)))) r := by
  unfold findPml4tEntry
  rw [index4_eq, bind_run (kload_entry h.root_valid (idx4_lt v) r), if_pos ((present_iff _).mpr hp),
    pdeAddr_eq (h.root_small (idx4_lt v) hp)]
  rfl

theorem findPml4tEntry_absent (h : TableTree K r.mem root)
    (hp : ¬ present (entries r.mem root (idx4 v))) (attr : Nat) :
    findPml4tEntry K (p2v root) v 0 attr r = .ok 0 r ∧
      findPml4tEntry K (p2v root) v 1 attr r = hangTable K root (idx4 v) attr r := by
  constructor
  · unfold findPml4tEntry
    rw [index4_eq, bind_run (kload_entry h.root_valid (idx4_lt v) r),
      if_neg fun hn => hp ((present_iff _).mp hn), if_neg (by decide)]
    rfl
  · unfold findPml4tEntry
    rw [index4_eq, bind_run (kload_entry h.root_valid (idx4_lt v) r),
      if_neg fun hn => hp ((present_iff _).mp hn), if_pos rfl]
    rfl

/-- The second level of `find_pdpt_entry`, at table `t`. -/
theorem findPdptEntry_present {r₁ : Ram}
    (h : findPml4tEntry K (p2v root) v alloc attr r = .ok (p2v t) r₁) (ht : ValidPage K t)
    (hp : present (entries r₁.mem t (idx3 v))) (hs : entries r₁.mem t (idx3 v) < 2 ^ 52) :
    findPdptEntry K (p2v root) v alloc attr r = .ok (p2v (frame (entries r₁.mem t (idx3 v)))) r₁ := by
  unfold findPdptEntry
  dsimp only
  rw [index3_eq, bind_run h, if_neg ht.p2v_ne_zero, bind_run (kload_entry ht (idx3_lt v) r₁),
    if_pos ((present_iff _).mpr hp), pdeAddr_eq hs]
  rfl

theorem findPdptEntry_absent {r₁ : Ram}
    (h : findPml4tEntry K (p2v root) v alloc attr r = .ok (p2v t) r₁) (ht : ValidPage K t)
    (hp : ¬ present (entries r₁.mem t (idx3 v))) :
    findPdptEntry K (p2v root) v alloc attr r =
      if alloc = 1 then hangTable K t (idx3 v) attr r₁ else .ok 0 r₁ := by
  unfold findPdptEntry
  dsimp only
  rw [index3_eq, bind_run h, if_neg ht.p2v_ne_zero, bind_run (kload_entry ht (idx3_lt v) r₁),
    if_neg fun hn => hp ((present_iff _).mp hn)]
  split
  · rfl
  · rfl

theorem findPdptEntry_none {r₁ : Ram}
    (h : findPml4tEntry K (p2v root) v alloc attr r = .ok 0 r₁) :
    findPdptEntry K (p2v root) v alloc attr r = .ok 0 r₁ := by
  unfold findPdptEntry
  dsimp only
  rw [bind_run h, if_pos rfl]
  rfl

/-- Walking down to a directory that exists. -/
theorem findPdptEntry_found {w u : Bool} (h : TableTree K r.mem root)
    (hup : upper (entries r.mem) root v = some (t, w, u)) :
    findPdptEntry K (p2v root) v alloc attr r = .ok (p2v t) r := by
  unfold upper at hup
  dsimp only at hup
  split at hup
  swap
  · cases hup
  rename_i hp
  have hk := frame_mem_kids (idx4_lt v) hp.1
  obtain ⟨rfl, -⟩ := Prod.mk.inj (Option.some.inj hup)
  exact findPdptEntry_present (findPml4tEntry_present h hp.1) (h.kid_valid hk) hp.2
    (h.kid_small hk (idx3_lt v) hp.2)

/-- The entries that exist above the directory of `v` have the rights of `attr`. -/
def Grants (E : Entries) (root attr v : Nat) : Prop :=
  present (E root (idx4 v)) →
    (writable (E root (idx4 v)) = writable attr ∧ userBit (E root (idx4 v)) = userBit attr) ∧
      (present (E (frame (E root (idx4 v))) (idx3 v)) →
        writable (E (frame (E root (idx4 v))) (idx3 v)) = writable attr ∧
          userBit (E (frame (E root (idx4 v))) (idx3 v)) = userBit attr)

theorem Grants.upper {E : Entries} (hg : Grants E root attr v) (h4 : present (E root (idx4 v)))
    (h3 : present (E (frame (E root (idx4 v))) (idx3 v))) :
    upper E root v =
      some (frame (E (frame (E root (idx4 v))) (idx3 v)), writable attr, userBit attr) := by
  obtain ⟨⟨hw, hu⟩, hg3⟩ := hg h4
  obtain ⟨hw3, hu3⟩ := hg3 h3
  unfold Lib.upper
  dsimp only
  rw [if_pos ⟨h4, h3⟩, hw, hw3, hu, hu3, Bool.and_self, Bool.and_self]

/-- What `find_pdpt_entry` leaves alone while it builds. -/
structure Opened (K : Image) (r r' : Ram) (free free' : List Nat) (root v : Nat) : Prop where
  built : Built K r r' free free' root
  walk : ∀ va, walk (entries r'.mem) root va = walk (entries r.mem) root va
  rest : ∀ j < 512, j ≠ idx4 v → entries r'.mem root j = entries r.mem root j

theorem Opened.refl (h : MapOk K r free root) (v : Nat) : Opened K r r free free root v :=
  ⟨.refl h, fun _ => rfl, fun _ _ _ => rfl⟩

theorem Opened.trans {r' r'' : Ram} {free' free'' : List Nat}
    (h : Opened K r r' free free' root v) (h' : Opened K r' r'' free' free'' root v) :
    Opened K r r'' free free'' root v :=
  ⟨h.built.trans h'.built, fun va => (h'.walk va).trans (h.walk va),
    fun j hj hne => (h'.rest j hj hne).trans (h.rest j hj hne)⟩

/-- The first level: a table below the root, found or new. -/
theorem findPml4tEntry_alloc (h : MapOk K r free root) (ha : attr < 8) (hp : attr % 2 = 1)
    (hg : Grants (entries r.mem) root attr v) :
    (free = [] ∧ findPml4tEntry K (p2v root) v 1 attr r = .ok 0 r) ∨
      ∃ r' free', findPml4tEntry K (p2v root) v 1 attr r =
          .ok (p2v (frame (entries r'.mem root (idx4 v)))) r' ∧
        Opened K r r' free free' root v ∧ present (entries r'.mem root (idx4 v)) ∧
        Grants (entries r'.mem) root attr v ∧ free.length ≤ free'.length + 1 := by
  by_cases h4 : present (entries r.mem root (idx4 v))
  · exact Or.inr ⟨r, free, findPml4tEntry_present h.toTreeOk.tree h4, .refl h v, h4, hg, by omega⟩
  · have hfind := (findPml4tEntry_absent h.toTreeOk.tree h4 attr).2
    rcases hangTable_run h.tree root_mem_tables (idx4_lt v) (by omega) hp h4 with
      ⟨hnil, hrun⟩ | ⟨c, free', r', hcons, hrun, hfl, hc, hh, he, hm, hreg⟩
    · exact Or.inl ⟨hnil, hfind.trans hrun⟩
    · obtain ⟨h1, h2, h3, hlt, hw, hu⟩ := entry_attr hc.aligned hc.below ha hp
      have hb : Built K r r' free free' root :=
        built_of_grown h (grown_link4 h.tree hcons hfl hc hh (he ▸ hlt) hm hreg) (hh.wf_link4 h.wf)
          hh (he ▸ hlt) fun _ hu =>
            List.mem_cons.mp ((hh.tables_link4 h.wf.unshared).mem_iff.mp hu)
      refine Or.inr ⟨r', free', ?_, ⟨hb, hh.walk_link4 h.wf, ?_⟩, ?_, ?_, ?_⟩
      · rw [hfind, hrun, he, h3]
      · exact fun j hj hne => hh.others root root_mem_tables j hj (Or.inr hne)
      · rw [he]
        exact h1
      · intro _
        rw [he, h3]
        refine ⟨⟨hw, hu⟩, fun hpr => ?_⟩
        rw [hh.empty _ (idx3_lt v)] at hpr
        exact absurd hpr (by decide)
      · rw [hcons]
        exact Nat.le_refl _

/-- `find_pdpt_entry` with allocation: the directory of `v`, unless pages run out. -/
theorem findPdptEntry_alloc (h : MapOk K r free root) (ha : attr < 8) (hp : attr % 2 = 1)
    (hg : Grants (entries r.mem) root attr v) :
    (free.length < 2 ∧ ∃ r' free', findPdptEntry K (p2v root) v 1 attr r = .ok 0 r' ∧
        Opened K r r' free free' root v) ∨
      ∃ t r' free', findPdptEntry K (p2v root) v 1 attr r = .ok (p2v t) r' ∧
        Opened K r r' free free' root v ∧ free.length ≤ free'.length + 2 ∧
        upper (entries r'.mem) root v = some (t, writable attr, userBit attr) := by
  rcases findPml4tEntry_alloc h ha hp hg with ⟨hnil, hrun⟩ | ⟨r₁, free₁, hrun, ho, h4, hg₁, hlen⟩
  · refine Or.inl ⟨by rw [hnil]; decide, r, free, findPdptEntry_none hrun, .refl h v⟩
  · have hk := frame_mem_kids (idx4_lt v) h4
    have hv := ho.built.ok.toTreeOk.kid_valid hk
    by_cases h3 : present (entries r₁.mem (frame (entries r₁.mem root (idx4 v))) (idx3 v))
    · refine Or.inr ⟨_, r₁, free₁, findPdptEntry_present hrun hv h3 ?_, ho, by omega, hg₁.upper h4 h3⟩
      exact ho.built.ok.small _ (kids_subset_tables hk) _ (idx3_lt v) h3
    · have hfind := findPdptEntry_absent hrun hv h3
      rw [if_pos rfl] at hfind
      rcases hangTable_run ho.built.ok.tree (kids_subset_tables hk) (idx3_lt v) (by omega) hp h3 with
        ⟨hnil, hrun'⟩ | ⟨c, free', r', hcons, hrun', hfl, hc, hh, he, hm, hreg⟩
      · refine Or.inl ⟨?_, r₁, free₁, hfind.trans hrun', ho⟩
        rw [hnil] at hlen
        exact Nat.lt_succ_of_le hlen
      · obtain ⟨h1, h2, h3', hlt, hw, hu⟩ := entry_attr hc.aligned hc.below ha hp
        have hwf := ho.built.ok.wf
        have hne : root ≠ frame (entries r₁.mem root (idx4 v)) := (hwf.unshared.kid_ne_root hk).symm
        have hroot : ∀ j < 512, entries r'.mem root j = entries r₁.mem root j := fun j hj =>
          hh.others root root_mem_tables j hj (Or.inl hne)
        have hnh : ¬ huge (entries r'.mem (frame (entries r₁.mem root (idx4 v))) (idx3 v)) := by
          rw [he]
          exact h2
        have hb : Built K r₁ r' free₁ free' root :=
          built_of_grown ho.built.ok (grown_link3 ho.built.ok.tree hk hcons hfl hc hh (he ▸ hlt) hm hreg)
            (hh.wf_link3 hwf hk hnh) hh (he ▸ hlt) fun _ hu =>
              List.mem_cons.mp ((hh.tables_link3 hwf.unshared hk).mem_iff.mp hu)
        refine Or.inr ⟨c, r', free', hfind.trans hrun',
          ho.trans ⟨hb, hh.walk_link3 hwf hk hnh, fun j hj _ => hroot j hj⟩, ?_, ?_⟩
        · rw [hcons] at hlen
          simp only [List.length_cons] at hlen
          omega
        · obtain ⟨⟨hw4, hu4⟩, -⟩ := hg₁ h4
          unfold upper
          dsimp only
          rw [hroot _ (idx4_lt v), he, if_pos ⟨h4, h1⟩, h3', hw, hu, hw4, hu4, Bool.and_self,
            Bool.and_self]

end Find

end Os64
