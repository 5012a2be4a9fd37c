/-
  What becomes of the pages of a map: free_vm on a map in any state of construction, and the
  clean-up of setup_uvm and copy_uvm.

  * `Assembled K root r free`: `map_pages` built the map below `root`, from an empty table by
    calls that were completed or cut short.
  * `freeVm_assembled`: `free_vm` on such a map frees each of its pages once, and reads no table
    that it freed before.
  * `mapPages_user`: the call of `map_pages` for the user page.
  * `cleansUp_iff`: `setup_uvm` and `copy_uvm` release the map when they fail, unless they fail
    for want of the user page itself.
-/
import Os64.Mem.Ranges
import Os64.Mem.Release

namespace Os64

open Os64.Lib

variable {K : Image}

/-! ## Maps that map_pages built -/

/-- An empty table, calls of `map_pages`, and whatever happens in between elsewhere. -/
inductive Assembled (K : Image) (root : Nat) : Ram → List Nat → Prop where
  | empty {r : Ram} {free : List Nat} : FreeList K r free → ValidPage K root → root ∉ free →
      (∀ i < 512, entries r.mem root i = 0) → Assembled K root r free
  | call {r r' : Ram} {free free' : List Nat} {v e pa attr : Nat} {b : Bool} :
      Assembled K root r free → attr < 4096 → attr % 2 = 1 → pa < 2 ^ 64 →
      mapPages K (p2v root) v e pa attr r = .ok b r' → FreeList K r' free' →
      Assembled K root r' free'
  | other {r r' : Ram} {free free' ps : List Nat} : Assembled K root r free →
      AgreeOff ps r.mem r'.mem →
      (∀ p ∈ ps, p % pageSize = 0 ∧ p ∉ tables (entries r.mem) root) → FreeList K r' free' →
      (∀ t ∈ tables (entries r.mem) root, t ∉ free') → Assembled K root r' free'

section Assembled

variable {r : Ram} {free : List Nat} {root : Nat}

/-- The tables of a map are not touched by what happens elsewhere. -/
theorem MapTree.elsewhere {r' : Ram} {free' ps : List Nat} (h : MapTree K r free root)
    (hm : AgreeOff ps r.mem r'.mem)
    (hps : ∀ p ∈ ps, p % pageSize = 0 ∧ p ∉ tables (entries r.mem) root)
    (hfl : FreeList K r' free') (hused : ∀ t ∈ tables (entries r.mem) root, t ∉ free') :
    MapTree K r' free' root ∧
      ∀ t ∈ tables (entries r.mem) root, ∀ i < 512, entries r'.mem t i = entries r.mem t i := by
  have he : ∀ t ∈ tables (entries r.mem) root, ∀ i < 512,
      entries r'.mem t i = entries r.mem t i := fun t ht i hi =>
    hm.entries_eq (h.valid t ht).aligned (fun hp => (hps t hp).2 ht) (fun p hp => (hps p hp).1) hi
  refine ⟨⟨h.toTableTree.congr he, hfl, ?_⟩, he⟩
  rw [tables_congr he]
  exact hused

/-- A call of `map_pages` that returns grows the tree. -/
theorem MapTree.call {r' : Ram} {v e pa attr : Nat} {b : Bool} (h : MapTree K r free root)
    (ha : attr < 4096) (hp : attr % 2 = 1) (hpa : pa < 2 ^ 64)
    (hrun : mapPages K (p2v root) v e pa attr r = .ok b r') :
    ∃ free', Grown K r r' free free' root := by
  unfold mapPages assertMem at hrun
  obtain ⟨_, r₁, h₁, hrest₁⟩ := bind_ok.mp hrun
  obtain ⟨_, r₂, h₂, hrest₂⟩ := bind_ok.mp hrest₁
  obtain ⟨_, r₃, h₃, hloop⟩ := bind_ok.mp hrest₂
  rw [(ensure_ok.mp h₃).2, (ensure_ok.mp h₂).2, (ensure_ok.mp h₁).2] at hloop
  exact (mapPagesLoop_keeps ha hp _ _ _ _ _ h hpa b r' hloop).1

/-- However far the calls got, the tables are valid pages in use, none of them shared. -/
theorem Assembled.tree (h : Assembled K root r free) : MapTree K r free root := by
  induction h with
  | @empty r free hfl hv hf hz =>
      obtain ⟨hw, ht⟩ := wfMap_empty hz
      refine ⟨⟨hw.unshared, ?_, ?_⟩, hfl, ?_⟩
      · rw [ht]
        intro t htm
        rw [List.mem_singleton.mp htm]
        exact hv
      · intro t htm i hi hp
        have hk : kids (entries r.mem) root = [] := by
          unfold tables at ht
          exact (List.append_eq_nil_iff.mp (List.cons.inj ht).2).1
        rw [hk, List.mem_singleton] at htm
        rw [htm, hz i hi] at hp
        exact absurd hp (by decide)
      · rw [ht]
        intro t htm
        rw [List.mem_singleton.mp htm]
        exact hf
  | call _ ha hp hpa hrun hfl ih =>
      obtain ⟨free₁, hg⟩ := ih.call ha hp hpa hrun
      rw [hfl.unique hg.tree.freeList]
      exact hg.tree
  | other _ hm hps hfl hused ih => exact (ih.elsewhere hm hps hfl hused).1

/-- `free_vm` frees the pages of such a map, the user page, the directories, the tables above
    them and the root, each exactly once, and none of its loads hits a page that it freed
    before. -/
theorem freeVm_assembled (h : Assembled K root r free) (hu : UserHeld K r free root) :
    ∃ r' free' log, freeVm K (p2v root) r = .ok () r' ∧ FreeList K r' free' ∧ free'.Nodup ∧
      free'.Perm (userPages (entries r.mem) root ++ (pds (entries r.mem) root ++
        (kids (entries r.mem) root ++ [root])) ++ free) ∧
      Watched.freeVm K (p2v root) [] r = .ok ((), log) r' ∧
      frees log = vmPages (entries r.mem) root ∧ Clean pageSize log := by
  obtain ⟨r', free', log, hlog, hclean, hfrees, hrun, hfr⟩ := freeVm_frees h.tree hu
  exact ⟨r', free', log, hrun, hfr.freeList, hfr.freeList.nodup, hfr.perm, hlog, hfrees, hclean⟩

end Assembled

/-! ## The user page -/

section User

variable {r : Ram} {free : List Nat} {root c : Nat}

theorem leafEntry_user {E : Entries} {x : Nat} (h1 : 0x400000 ≤ x) (h2 : x < 0x400000 + pageSize) :
    leafEntry E root x = leafEntry E root 0x400000 := by
  refine leafEntry_eq_of_idx ?_
  unfold idx4 idx3 idx2
  rw [pageSize_eq] at h2
  omega

/-- The call of `map_pages` for the user page, complete or cut short. -/
theorem mapPages_user (h : MapTree K r free root)
    (hno : leafEntry (entries r.mem) root 0x400000 = none) (hc : ValidPage K c) :
    ∃ b r' free', mapPages K (p2v root) 0x400000 (0x400000 + pageSize) c (pteP ||| pteW ||| pteU) r =
        .ok b r' ∧ Grown K r r' free free' root ∧
      userPages (entries r'.mem) root = if b then [c] else [] := by
  have hbelow := hc.below
  have hdown : paDown 0x400000 = 0x400000 := by decide
  have htop : pageTop (0x400000 + pageSize) = 0x400000 + pageSize := by decide
  have hcount : pageCount 0x400000 (0x400000 + pageSize) = 1 := by decide
  have hcall : MapCall r root 0x400000 (0x400000 + pageSize) c (pteP ||| pteW ||| pteU) := by
    refine ⟨by rw [pageSize_eq]; omega, by rw [pageSize_eq]; omega, fun x _ hx => ?_, hc.aligned,
      by omega, ?_, by decide, by decide, fun x h1 h2 => ?_⟩
    · unfold canonical
      rw [pageSize_eq] at hx
      omega
    · have hup : paUp (0x400000 + pageSize) = 0x600000 := by decide
      rw [hdown, hup]
      unfold u64
      omega
    · rw [hdown] at h1
      rw [htop] at h2
      rw [leafEntry_user h1 h2]
      exact hno
  have hpage : ∀ k, k ≤ 1 → ∀ r' : Ram, Laid (entries r.mem) (entries r'.mem) root (paDown 0x400000) c
      (pteP ||| pteW ||| pteU) k → userPages (entries r'.mem) root = if k = 1 then [c] else [] := by
    intro k hk r' hl
    have hleaf := hl 0x400000 (by decide)
    rw [hdown] at hleaf
    unfold userPages
    by_cases hone : k = 1
    · obtain ⟨haddr, -⟩ := rangeEntry_eq hc.aligned 0
        (show pteP ||| pteW ||| pteU < 4096 by decide)
      have hcu : u64 (c + 0 * pageSize) = c := by
        unfold u64
        omega
      rw [hleaf, if_pos ⟨Nat.le_refl _, by rw [hone, pageSize_eq]; omega⟩, if_pos hone,
        Nat.sub_self, Nat.zero_div, Option.map_some, haddr, hcu]
      rfl
    · have hzero : k = 0 := by omega
      rw [hleaf, hzero, Nat.zero_mul, if_neg (by omega), hno, if_neg (by omega)]
      rfl
  obtain ⟨fuel, -, ⟨-, k, r', free', hk, hrun, -, hl⟩ | ⟨-, q, r', free', -, -, hl, hrun⟩⟩ :=
    hcall.run h (n := 0) (by rw [hcount]; omega) fun j hj => absurd hj (Nat.not_lt_zero j)
  · obtain ⟨free₁, hg⟩ := h.call (by decide) (by decide) (by omega) hrun
    refine ⟨false, r', free₁, hrun, hg, ?_⟩
    rw [hpage k (by omega) r' hl, if_neg (by omega)]
    rfl
  · have htrue : mapPages K (p2v root) 0x400000 (0x400000 + pageSize) c (pteP ||| pteW ||| pteU) r =
        .ok true r' := by
      rw [hrun]
      unfold mapNext
      rw [if_neg]
      · rfl
      · have hup : paUp (0x400000 + pageSize) = 0x600000 := by decide
        rw [hdown, hup, u64_u64_add]
        unfold u64
        rw [pageSize_eq]
        omega
    obtain ⟨free₁, hg⟩ := h.call (by decide) (by decide) (by omega) htrue
    refine ⟨true, r', free₁, htrue, hg, ?_⟩
    rw [hpage 1 (Nat.le_refl 1) r' hl]
    rfl

/-- The user page of a map that grew is held, when it came from elsewhere. -/
theorem Grown.userHeld {r' : Ram} {free' : List Nat} {b : Bool} (hg : Grown K r r' free free' root)
    (hc : ValidPage K c) (hcf : c ∉ free) (hct : c ∉ tables (entries r.mem) root)
    (hu : userPages (entries r'.mem) root = if b then [c] else []) : UserHeld K r' free' root := by
  obtain ⟨ts, hts, hperm, -⟩ := hg.taken
  have hmem : ∀ p ∈ userPages (entries r'.mem) root, p = c := by
    rw [hu]
    intro p hp
    split at hp
    · exact List.mem_singleton.mp hp
    · cases hp
  refine ⟨fun p hp => ?_, fun p hp ht => ?_, fun p hp hf => ?_⟩
  · rw [hmem p hp]
    exact hc
  · rw [hmem p hp] at ht
    rcases List.mem_append.mp (hperm.mem_iff.mp ht) with ht | ht
    · exact hcf (hts ▸ List.mem_append_left _ ht)
    · exact hct ht
  · rw [hmem p hp] at hf
    exact hcf (hts ▸ List.mem_append_right _ hf)

end User

/-- An empty map and a call for the user page: what it built is freed. -/
theorem freeVm_assembled_image : ∃ r free, Assembled image 0x400000 r free ∧
    UserHeld image r free 0x400000 ∧
    ∃ r' free' log, freeVm image (p2v 0x400000) r = .ok () r' ∧ FreeList image r' free' ∧
      free'.Nodup ∧
      free'.Perm (userPages (entries r.mem) 0x400000 ++ (pds (entries r.mem) 0x400000 ++
        (kids (entries r.mem) 0x400000 ++ [0x400000])) ++ free) ∧
      Watched.freeVm image (p2v 0x400000) [] r = .ok ((), log) r' ∧
      frees log = vmPages (entries r.mem) 0x400000 ∧ Clean pageSize log := by
  obtain ⟨r₀, ht, hz⟩ := emptyMap_image 4 (by decide)
  have hc : ValidPage image 0xe00000 := by
    have hend : image.kend = kernelBase + 0x400000 := rfl
    exact ⟨by rw [pageSize_eq], by omega, by rw [pageSize_eq]; omega⟩
  have htab := (wfMap_empty hz).2
  obtain ⟨b, r, free, hrun, hg, hu⟩ := mapPages_user ht (leafEntry_empty hz _) hc
  have hcf : 0xe00000 ∉ (List.range 4).map fun k => 0x600000 + k * pageSize := by
    rw [pageSize_eq]
    decide
  have hheld := hg.userHeld hc hcf (by rw [htab]; decide) hu
  have hmade : Assembled image 0x400000 r free :=
    .call (.empty ht.freeList ht.root_valid (ht.used _ root_mem_tables) hz) (by decide) (by decide)
      (by decide) hrun hg.tree.freeList
  exact ⟨r, free, hmade, hheld, freeVm_assembled hmade hheld⟩

/-! ## The clean-up of setup_uvm and copy_uvm -/

/-- Every table of the map is free, each once, and so is what was free before. -/
def MapReleased (K : Image) (r r' : Ram) (free : List Nat) (root : Nat) : Prop :=
  ∃ free', FreeList K r' free' ∧ free'.Perm (tables (entries r.mem) root ++ free)

section Released

variable {r : Ram} {free : List Nat} {root : Nat}

theorem userPages_untouched {r' : Ram}
    (he : ∀ t ∈ tables (entries r.mem) root, ∀ i < 512, entries r'.mem t i = entries r.mem t i) :
    userPages (entries r'.mem) root = userPages (entries r.mem) root := by
  unfold userPages
  rw [leafEntry_untouched he]

/-- The shared part of `setup_uvm` and `copy_uvm`, when there is a page: the map grew, and has
    the page or not. -/
theorem mapUserPage_grown {c : Nat} (h : MapTree K r (c :: free) root)
    (hno : leafEntry (entries r.mem) root 0x400000 = none) :
    ∃ (b : Bool) (r' : Ram) (free' : List Nat),
      mapUserPage K (p2v root) r = (if b then pure (some (p2v c)) else do
        kfree K (p2v c); freeVm K (p2v root); return none : RamM (Option Nat)) r' ∧
      MapTree K r' free' root ∧ UserHeld K r' free' root ∧ ValidPage K c ∧ c ∉ free' ∧
      c ∉ tables (entries r'.mem) root ∧
      userPages (entries r'.mem) root = (if b then [c] else []) ∧
      (c :: (tables (entries r'.mem) root ++ free')).Perm
        (tables (entries r.mem) root ++ c :: free) := by
  obtain ⟨halloc, hfl⟩ := kalloc_cons h.freeList
  have hc := h.freeList.valid c List.mem_cons_self
  have hcf := (List.nodup_cons.mp h.freeList.nodup).1
  have hct : c ∉ tables (entries r.mem) root := fun hm => h.used c hm List.mem_cons_self
  let r₁ : Ram := { r with freeMemory := load r.mem c 8, mem := fill r.mem c pageSize 0 }
  have hm₁ : AgreeOff [c] r.mem r₁.mem := agreeOff_fill r.mem 0
  have hfl₁ : FreeList K r₁ free := hfl.congr rfl hm₁ fun p hp => by
    rw [List.mem_singleton.mp hp]
    exact ⟨hc.aligned, hcf⟩
  have hps : ∀ p ∈ [c], p % pageSize = 0 ∧ p ∉ tables (entries r.mem) root := fun p hp => by
    rw [List.mem_singleton.mp hp]
    exact ⟨hc.aligned, hct⟩
  obtain ⟨ht₁, he₁⟩ := h.elsewhere hm₁ hps hfl₁ fun t ht hf =>
    h.used t ht (List.mem_cons_of_mem c hf)
  have hno₁ : leafEntry (entries r₁.mem) root 0x400000 = none := by
    rw [leafEntry_untouched he₁]
    exact hno
  have htab₁ : tables (entries r₁.mem) root = tables (entries r.mem) root := tables_congr he₁
  obtain ⟨b, r', free', hrun, hg, hu⟩ := mapPages_user ht₁ hno₁ hc
  have hheld := hg.userHeld hc hcf (by rw [htab₁]; exact hct) hu
  obtain ⟨ts, hts, hperm, -⟩ := hg.taken
  refine ⟨b, r', free', ?_, hg.tree, hheld, hc, ?_, ?_, hu, ?_⟩
  · unfold mapUserPage
    rw [bind_run halloc, if_pos hc.p2v_ne_zero, bind_run (kmemset_page hc 0 _), hc.v2p_p2v,
      bind_run hrun]
  · exact fun hm => hcf (hts ▸ List.mem_append_right _ hm)
  · intro hm
    rcases List.mem_append.mp (hperm.mem_iff.mp hm) with hm | hm
    · exact hcf (hts ▸ List.mem_append_left _ hm)
    · rw [htab₁] at hm
      exact hct hm
  · rw [htab₁] at hperm
    rw [hts]
    refine List.perm_iff_count.mpr fun x => ?_
    have hcount := List.perm_iff_count.mp hperm x
    simp only [List.count_cons, List.count_append] at hcount ⊢
    omega

/-- Freeing a map that grew by its user page releases the map. -/
theorem freeVm_released {r' r'' : Ram} {free' : List Nat} {c : Nat} (ht : MapTree K r' free' root)
    (hheld : UserHeld K r' free' root) (hu : userPages (entries r'.mem) root = [c])
    (hperm : (c :: (tables (entries r'.mem) root ++ free')).Perm
      (tables (entries r.mem) root ++ free))
    (hrun : freeVm K (p2v root) r' = .ok () r'') : MapReleased K r r'' free root := by
  obtain ⟨r₂, free₂, -, -, -, -, hrun₂, hfr⟩ := freeVm_frees ht hheld
  rw [hrun₂] at hrun
  obtain ⟨-, rfl⟩ := EStateM.Result.ok.inj hrun
  have hvm := vmPages_perm (entries r'.mem) root
  rw [hu] at hvm
  exact ⟨free₂, hfr.freeList, (hfr.perm.trans (hvm.append_right free')).trans hperm⟩

/-- When the page could not be mapped, it goes back, and the map after it. -/
theorem mapUserPage_undone {c : Nat} {r₁ : Ram} {free₁ : List Nat} (ht : MapTree K r₁ free₁ root)
    (hc : ValidPage K c) (hcf : c ∉ free₁) (hct : c ∉ tables (entries r₁.mem) root)
    (hu : userPages (entries r₁.mem) root = [])
    (hperm : (c :: (tables (entries r₁.mem) root ++ free₁)).Perm
      (tables (entries r.mem) root ++ c :: free)) :
    ∃ r', (do kfree K (p2v c); freeVm K (p2v root); return none : RamM (Option Nat)) r₁ =
      .ok none r' ∧ MapReleased K r r' (c :: free) root := by
  obtain ⟨r₂, hk, hfr⟩ := kfree_freed ht.freeList hc hcf rfl
  obtain ⟨ht₂, he₂⟩ := ht.elsewhere hfr.mem (fun p hp => by
    rw [List.append_nil, List.mem_singleton] at hp
    rw [hp]
    exact ⟨hc.aligned, hct⟩) hfr.freeList fun t htm hm => by
      rcases List.mem_cons.mp hm with he | hm
      · rw [he] at htm
        exact hct htm
      · exact ht.used t htm hm
  have hu₂ := (userPages_untouched he₂).trans hu
  have hheld : UserHeld K r₂ (c :: free₁) root := by
    refine ⟨?_, ?_, ?_⟩
    all_goals
      rw [hu₂]
      exact fun p hp => nomatch hp
  obtain ⟨r₃, free₃, -, -, -, -, hrun₃, hfr₃⟩ := freeVm_frees ht₂ hheld
  refine ⟨r₃, ?_, free₃, hfr₃.freeList, ?_⟩
  · rw [bind_run hk, bind_run hrun₃]
    rfl
  · have hvm := vmPages_perm (entries r₂.mem) root
    rw [hu₂, List.nil_append, tables_congr he₂] at hvm
    exact (hfr₃.perm.trans (hvm.append_right _)).trans (List.perm_middle.trans hperm)

/-- When the shared part fails with a page at hand, the map is released. -/
theorem mapUserPage_none {c : Nat} {r' : Ram} (h : MapTree K r (c :: free) root)
    (hno : leafEntry (entries r.mem) root 0x400000 = none)
    (hrun : mapUserPage K (p2v root) r = .ok none r') : MapReleased K r r' (c :: free) root := by
  obtain ⟨b, r₁, free₁, hmap, ht, -, hc, hcf, hct, hu, hperm⟩ := mapUserPage_grown h hno
  rw [hmap] at hrun
  cases b with
  | true => cases hrun
  | false =>
      rw [if_neg Bool.false_ne_true] at hrun hu
      obtain ⟨r₂, hrun₂, hrel⟩ := mapUserPage_undone ht hc hcf hct hu hperm
      obtain ⟨-, rfl⟩ := EStateM.Result.ok.inj (hrun₂.symm.trans hrun)
      exact hrel

theorem setupUvm_released {c start size : Nat} {r' : Ram} (h : MapTree K r (c :: free) root)
    (hno : leafEntry (entries r.mem) root 0x400000 = none)
    (hrun : setupUvm K (p2v root) start size r = .ok false r') :
    MapReleased K r r' (c :: free) root := by
  unfold setupUvm at hrun
  obtain ⟨o, r₁, hmap, hrest⟩ := bind_ok.mp hrun
  cases o with
  | none =>
      obtain ⟨-, rfl⟩ := EStateM.Result.ok.inj hrest
      exact mapUserPage_none h hno hmap
  | some page =>
      obtain ⟨_, r₂, -, hret⟩ := bind_ok.mp hrest
      cases hret

theorem copyUvm_released {c src size : Nat} {r' : Ram} (h : MapTree K r (c :: free) root)
    (hno : leafEntry (entries r.mem) root 0x400000 = none)
    (hrun : copyUvm K (p2v root) src size r = .ok false r') : MapReleased K r r' (c :: free) root := by
  unfold copyUvm at hrun
  obtain ⟨o, r₁, hmap, hrest⟩ := bind_ok.mp hrun
  cases o with
  | none =>
      obtain ⟨-, rfl⟩ := EStateM.Result.ok.inj hrest
      exact mapUserPage_none h hno hmap
  | some page =>
      obtain ⟨pd, r₂, hfind, hrest⟩ := bind_ok.mp hrest
      have hsame := (reads_findPdptEntry src 0x400000 0).ok hfind
      rw [hsame] at hrest
      by_cases hpd : pd = 0
      · -- the source has no directory: the map is freed with the page in it
        rw [if_pos hpd] at hrest
        obtain ⟨_, r₃, hfree, hret⟩ := bind_ok.mp hrest
        obtain ⟨-, rfl⟩ := EStateM.Result.ok.inj hret
        obtain ⟨b, r₄, free₄, hmap₄, ht, hheld, -, -, -, hu, hperm⟩ := mapUserPage_grown h hno
        rw [hmap₄] at hmap
        cases b with
        | true =>
            rw [if_pos rfl] at hmap hu
            obtain ⟨-, rfl⟩ := EStateM.Result.ok.inj hmap
            exact freeVm_released ht hheld hu hperm hfree
        | false =>
            rw [if_neg Bool.false_ne_true] at hmap
            obtain ⟨_, _, -, hmap⟩ := bind_ok.mp hmap
            obtain ⟨_, _, -, hmap⟩ := bind_ok.mp hmap
            cases hmap
      · rw [if_neg hpd] at hrest
        obtain ⟨_, _, -, hrest⟩ := bind_ok.mp hrest
        obtain ⟨_, _, -, hrest⟩ := bind_ok.mp hrest
        obtain ⟨_, _, -, hret⟩ := bind_ok.mp hrest
        cases hret

end Released

/-- The map that `setup_kvm` returned, after whatever happened elsewhere since. -/
def KvmBuilt (K : Image) (r : Ram) (free : List Nat) (map : Nat) : Prop :=
  ∃ r₀ r₁ free₀ ps, FreeList K r₀ free₀ ∧ setupKvm K r₀ = .ok map r₁ ∧ map ≠ 0 ∧
    AgreeOff ps r₁.mem r.mem ∧
    (∀ p ∈ ps, p % pageSize = 0 ∧ p ∉ tables (entries r₁.mem) (v2p map)) ∧
    FreeList K r free ∧ ∀ t ∈ tables (entries r₁.mem) (v2p map), t ∉ free

/-- Whenever `setup_uvm` or `copy_uvm` returns `false`, the map is released. -/
def CleansUp (K : Image) (r : Ram) (free : List Nat) (map : Nat) : Prop :=
  (∀ start size r', setupUvm K map start size r = .ok false r' →
      MapReleased K r r' free (v2p map)) ∧
    ∀ src size r', copyUvm K map src size r = .ok false r' → MapReleased K r r' free (v2p map)

section CleansUp

variable {r : Ram} {free : List Nat} {map : Nat}

/-- A kernel map has nothing at `0x400000`. -/
theorem KernelMap.no_user {m : Mem} {root : Nat} (h : KernelMap K m root) :
    leafEntry (entries m) root 0x400000 = none := by
  have hwalk : Lib.walk (entries m) root 0x400000 = none :=
    (h.walk _).trans (kernelTarget_user (by rw [pageSize_eq]; omega))
  rw [h.wf.walk_eq (by decide)] at hwalk
  unfold leafEntry
  cases hup : upper (entries m) root 0x400000 with
  | none => rfl
  | some p =>
      obtain ⟨t, w, u⟩ := p
      rw [hup, Option.bind_some] at hwalk
      rw [Option.bind_some]
      split at hwalk
      · cases hwalk
      · rename_i hp
        rw [if_neg hp]

theorem KvmBuilt.tree (h : KvmBuilt K r free map) :
    ∃ root, map = p2v root ∧ v2p map = root ∧ MapTree K r free root ∧
      leafEntry (entries r.mem) root 0x400000 = none := by
  obtain ⟨r₀, r₁, free₀, ps, hfl₀, hk, hmap, hm, hps, hfl, hused⟩ := h
  rcases setupKvm_run hfl₀ with ⟨-, hzero⟩ | ⟨root, r', free₁, hrun, hmade⟩
  · exact absurd (hzero map r₁ hk) hmap
  obtain ⟨rfl, rfl⟩ := EStateM.Result.ok.inj (hrun.symm.trans hk)
  have hroot : v2p (p2v root) = root := hmade.map.toTreeOk.root_valid.v2p_p2v
  rw [hroot] at hps hused
  have ht : MapTree K r' free₁ root := by
    obtain ⟨ts, hts, hperm, -⟩ := hmade.taken
    refine ⟨hmade.map.toTreeOk.tree, hmade.freeList, fun t ht hf => ?_⟩
    have hnd := hfl₀.nodup
    rw [hts] at hnd
    exact List.disjoint_of_nodup_append hnd (hperm.mem_iff.mp ht) hf
  obtain ⟨ht', he⟩ := ht.elsewhere hm hps hfl hused
  refine ⟨root, rfl, hroot, ht', ?_⟩
  rw [leafEntry_untouched he]
  exact hmade.map.no_user

/-- With no page left, `setup_uvm` fails and leaves everything as it is. -/
theorem setupUvm_empty (hfl : FreeList K r []) (map start size : Nat) :
    setupUvm K map start size r = .ok false r := by
  have hmap : mapUserPage K map r = .ok none r := by
    unfold mapUserPage
    rw [bind_run (kalloc_nil hfl), if_neg fun hn => hn rfl]
    rfl
  unfold setupUvm
  rw [bind_run hmap]
  rfl

/-- Then the map is not released. -/
theorem KvmBuilt.kept (h : KvmBuilt K r [] map) : ¬ MapReleased K r r [] (v2p map) := by
  obtain ⟨root, -, hroot, ht, -⟩ := h.tree
  rintro ⟨free', hfl, hperm⟩
  rw [hroot, ht.freeList.unique hfl] at hperm
  have hmem : root ∈ tables (entries r.mem) root ++ free' :=
    List.mem_append_left _ root_mem_tables
  rw [← ht.freeList.unique hfl] at hperm hmem
  exact absurd (hperm.mem_iff.mpr hmem) List.not_mem_nil

/-- `setup_uvm` and `copy_uvm` clean up when they fail exactly when there is a page left. -/
theorem cleansUp_iff (h : KvmBuilt K r free map) : CleansUp K r free map ↔ free ≠ [] := by
  constructor
  · rintro ⟨hsetup, -⟩ hnil
    rw [hnil] at h hsetup
    obtain ⟨root, -, -, ht, -⟩ := h.tree
    exact h.kept (hsetup 0 0 r (setupUvm_empty ht.freeList map 0 0))
  · intro hne
    obtain ⟨c, free₁, hfree⟩ := List.exists_cons_of_ne_nil hne
    obtain ⟨root, hmap, hroot, ht, hno⟩ := h.tree
    rw [hfree] at ht ⊢
    rw [hmap]
    unfold CleansUp
    rw [← hmap, hroot, hmap]
    exact ⟨fun _ _ _ hrun => setupUvm_released ht hno hrun,
      fun _ _ _ hrun => copyUvm_released ht hno hrun⟩

end CleansUp

/-- With one page left there is none for the tables of the user page. -/
theorem setupUvm_fails {r : Ram} {root c : Nat} (h : MapOk K r [c] root) (hk : KernelMap K r.mem root)
    (h3 : (tables (entries r.mem) root).length = 3) (start size : Nat) :
    ∃ r', setupUvm K (p2v root) start size r = .ok false r' := by
  have hnone : ∀ v r', mapUserPage K (p2v root) r = .ok v r' → v = none := by
    rcases mapUserPage_run h hk with ⟨-, hnone⟩ | ⟨page, r', free', -, hh, -, -⟩
    · exact hnone
    · -- a user space has five tables
      have h5 := hh.space.five_le
      obtain ⟨ts, hts, hperm, -⟩ := hh.taken
      have hone := congrArg List.length hts
      rw [hperm.length_eq, List.length_append] at h5
      rw [List.length_singleton, List.length_append, List.length_cons] at hone
      omega
  obtain ⟨b, r₁, free₁, hmap, ht, -, hc, hcf, hct, hu, hperm⟩ := mapUserPage_grown h.tree hk.no_user
  cases b with
  | true => cases hnone _ _ hmap
  | false =>
      rw [if_neg Bool.false_ne_true] at hmap hu
      obtain ⟨r₂, hrun₂, -⟩ := mapUserPage_undone ht hc hcf hct hu hperm
      have hrun : mapUserPage K (p2v root) r = .ok none r₂ := hmap.trans hrun₂
      refine ⟨r₂, ?_⟩
      unfold setupUvm
      rw [bind_run hrun]
      rfl

/-- `setup_kvm` with `n` pages takes three of them. -/
theorem kvmBuilt_image {n : Nat} (h3 : 3 ≤ n) (hn : n < 300) :
    ∃ r free root, KvmBuilt image r free (p2v root) ∧ free.length + 3 = n ∧ MapOk image r free root ∧
      KernelMap image r.mem root ∧ (tables (entries r.mem) root).length = 3 := by
  obtain ⟨r, hfl⟩ := freeList_image 0x400000 n (by rw [pageSize_eq]) (Nat.le_refl _)
    (by rw [pageSize_eq]; omega)
  have hlen : ((List.range n).map fun k => 0x400000 + k * pageSize).length = n := by
    rw [List.length_map, List.length_range]
  rcases setupKvm_run hfl with ⟨hlt, -⟩ | ⟨root, r₁, free, hrun, hmade⟩
  · omega
  obtain ⟨ts, hts, hperm, -⟩ := hmade.taken
  have hroot := hmade.map.toTreeOk.root_valid
  have hused : ∀ t ∈ tables (entries r₁.mem) root, t ∉ free := by
    have hnd := hfl.nodup
    rw [hts] at hnd
    exact fun t ht hf => List.disjoint_of_nodup_append hnd (hperm.mem_iff.mp ht) hf
  have hwalk : Lib.walk (entries r₁.mem) root kernelBase = some ⟨0, true, false⟩ := by
    rw [hmade.map.walk]
    rfl
  have htables := hmade.map.wf.three_le hwalk
  have hsum := congrArg List.length hts
  rw [hlen, List.length_append, ← hperm.length_eq] at hsum
  have hle := hmade.length_le
  refine ⟨r₁, free, root, ⟨r, r₁, _, [], hfl, hrun, hroot.p2v_ne_zero, AgreeOff.refl _ _,
    ⟨List.forall_mem_nil _, hmade.freeList, ?_⟩⟩, by omega, ⟨hmade.map.toTreeOk, hmade.freeList, hused⟩,
    hmade.map, by omega⟩
  rw [hroot.v2p_p2v]
  exact hused

/-- With one page left `setup_uvm` fails, and cleans up. -/
theorem cleansUp_image : ∃ r r' free map, KvmBuilt image r free map ∧
    setupUvm image map (p2v 0x30000) 5120 r = .ok false r' ∧ CleansUp image r free map := by
  obtain ⟨r, free, root, hbuilt, hlen, hok, hk, h3⟩ := kvmBuilt_image (n := 4) (by decide) (by decide)
  obtain ⟨c, rfl⟩ := List.length_eq_one_iff.mp (show free.length = 1 by omega)
  obtain ⟨r', hrun⟩ := setupUvm_fails hok hk h3 (p2v 0x30000) 5120
  exact ⟨r, r', [c], p2v root, hbuilt, hrun, (cleansUp_iff hbuilt).mpr (List.cons_ne_nil c [])⟩

/-- Three pages are enough for `setup_kvm`; then `setup_uvm` fails and the map stays. -/
theorem setupUvm_keeps_map : ∃ r map, KvmBuilt image r [] map ∧
    setupUvm image map (p2v 0x30000) 5120 r = .ok false r ∧ ¬ CleansUp image r [] map := by
  obtain ⟨r, free, root, hbuilt, hlen, hok, -⟩ := kvmBuilt_image (n := 3) (by decide) (by decide)
  have hnil : free = [] := List.length_eq_zero_iff.mp (by omega)
  rw [hnil] at hbuilt hok
  have hrun := setupUvm_empty hok.freeList (p2v root) (p2v 0x30000) 5120
  exact ⟨r, p2v root, hbuilt, hrun, fun hclean => hbuilt.kept (hclean.1 _ _ _ hrun)⟩

end Os64
