/-
  setup_kvm, setup_uvm and copy_uvm: the address spaces of the kernel and of processes.

  `kernelTarget` is the translation of the kernel's window and `spaceTarget page` that
  of a process with its user page; `KernelMap` and `Space` are maps that translate so.

  * `setupKvm_run`: a kernel map from three pages.
  * `mapUserPage_run`: a kernel map becomes a process's space with a zeroed user page.
  * `setupUvm_run`, `copyUvm_run`: the user page gets its contents.
-/
import Os64.Mem.Release

namespace Os64

open Os64.Lib

variable {K : Image}

/-- The kernel's window: 1 GB of physical memory, writable, for the supervisor. -/
def kernelTarget (va : Nat) : Option Target :=
  if kernelBase ≤ va ∧ va < kernelBase + 0x40000000 then some ⟨va - kernelBase, true, false⟩
  else none

/-- A process's space: its user page, and the kernel's window. -/
def spaceTarget (page va : Nat) : Option Target :=
  if 0x400000 ≤ va ∧ va < 0x400000 + pageSize then some ⟨page + (va - 0x400000), true, true⟩
  else kernelTarget va

structure KernelMap (K : Image) (m : Mem) (root : Nat) : Prop extends TreeOk K m root where
  walk : ∀ va, walk (entries m) root va = kernelTarget va
  only : ∀ i < 512, i ≠ idx4 kernelBase → ¬ present (entries m root i)

structure Space (K : Image) (m : Mem) (root page : Nat) : Prop extends TreeOk K m root where
  pageValid : ValidPage K page
  pageApart : page ∉ tables (entries m) root
  walk : ∀ va, walk (entries m) root va = spaceTarget page va

theorem KernelMap.congr {m m' : Mem} {root : Nat} (h : KernelMap K m root)
    (he : ∀ t ∈ tables (entries m) root, ∀ i < 512, entries m' t i = entries m t i) :
    KernelMap K m' root := by
  refine ⟨h.toTreeOk.congr he, fun va => ?_, fun i hi hne => ?_⟩
  · rw [h.wf.walk_untouched he]
    exact h.walk va
  · rw [he root root_mem_tables i hi]
    exact h.only i hi hne

theorem Space.congr {m m' : Mem} {root page : Nat} (h : Space K m root page)
    (he : ∀ t ∈ tables (entries m) root, ∀ i < 512, entries m' t i = entries m t i) :
    Space K m' root page := by
  refine ⟨h.toTreeOk.congr he, h.pageValid, ?_, fun va => ?_⟩
  · rw [tables_congr he]
    exact h.pageApart
  · rw [h.wf.walk_untouched he]
    exact h.walk va

/-- The user page is mapped at `0x400000`. -/
theorem Space.walk_user {m : Mem} {root page : Nat} (h : Space K m root page) :
    Lib.walk (entries m) root 0x400000 = some ⟨page, true, true⟩ := by
  rw [h.walk]
  unfold spaceTarget
  rw [if_pos ⟨Nat.le_refl _, by rw [pageSize_eq]; omega⟩, Nat.sub_self, Nat.add_zero]

/-- A user space has five tables: the root, and two below it for each half. -/
theorem Space.five_le {m : Mem} {root page : Nat} (h : Space K m root page) :
    5 ≤ (tables (entries m) root).length := by
  have hk : Lib.walk (entries m) root kernelBase = some ⟨0, true, false⟩ := by
    rw [h.walk]
    rfl
  exact h.toTreeOk.wf.five_le h.walk_user hk (by decide)

/-! ## setup_kvm -/

/-- A kernel map made of pages taken off the free list. -/
structure KvmMade (K : Image) (r r' : Ram) (free free' : List Nat) (root : Nat) : Prop where
  map : KernelMap K r'.mem root
  freeList : FreeList K r' free'
  taken : ∃ ts, free = ts ++ free' ∧ (tables (entries r'.mem) root).Perm ts ∧
    AgreeOff ts r.mem r'.mem
  length_le : free.length ≤ free'.length + 3
  region : SameRegions r r'

/-- An allocated and cleared page is an empty map. -/
theorem emptyMap {r : Ram} {free : List Nat} {c : Nat} (hfl : FreeList K r free)
    (hc : ValidPage K c) (hcf : c ∉ free) :
    MapOk K { r with mem := fill r.mem c pageSize 0 } free c ∧
      tables (entries (fill r.mem c pageSize 0)) c = [c] ∧
      ∀ i < 512, entries (fill r.mem c pageSize 0) c i = 0 := by
  have he : ∀ i < 512, entries (fill r.mem c pageSize 0) c i = 0 := fun i hi =>
    entries_fill r.mem c hi
  obtain ⟨hw, ht⟩ := wfMap_empty he
  refine ⟨⟨⟨hw, ?_, ?_⟩, ?_, ?_⟩, ht, he⟩
  · rw [ht]
    intro t htm
    rw [List.mem_singleton.mp htm]
    exact hc
  · rw [ht]
    intro t htm i hi hp
    rw [List.mem_singleton.mp htm, he i hi] at hp
    exact absurd hp (by decide)
  · refine hfl.congr rfl (agreeOff_fill r.mem 0) fun p hp => ?_
    rw [List.mem_singleton.mp hp]
    exact ⟨hc.aligned, hcf⟩
  · rw [ht]
    intro t htm
    rw [List.mem_singleton.mp htm]
    exact hcf

theorem kernelBase_canonical : canonical kernelBase := by
  unfold canonical
  rw [kernelBase_eq]
  omega

theorem v2p_kernelBase : v2p kernelBase = 0 := by
  unfold v2p u64
  rw [kernelBase_eq]
  omega

theorem p2v_window : p2v 0x40000000 = kernelBase + (511 + 1) * pageSize := by
  unfold p2v u64
  rw [kernelBase_eq, pageSize_eq]
  omega

/-- The end of `setup_kvm` on a full allocator returns 0. -/
theorem setupKvm_run {r : Ram} {free : List Nat} (h : FreeList K r free) :
    (free.length < 3 ∧ ∀ v r', setupKvm K r = .ok v r' → v = 0) ∨
      ∃ root r' free', setupKvm K r = .ok (p2v root) r' ∧ KvmMade K r r' free free' root := by
  cases free with
  | nil =>
      refine Or.inl ⟨by decide, fun v r' hrun => ?_⟩
      unfold setupKvm at hrun
      rw [bind_run (kalloc_nil h), if_neg fun hn => hn rfl] at hrun
      cases hrun
      rfl
  | cons c free =>
      obtain ⟨halloc, hfl⟩ := kalloc_cons h
      have hc := h.valid c List.mem_cons_self
      have hcf := (List.nodup_cons.mp h.nodup).1
      obtain ⟨hok, htab, hz⟩ := emptyMap hfl hc hcf
      have hempty : ∀ va, walk (entries (fill r.mem c pageSize 0)) c va = none := walk_empty hz
      have hgr : Grants (entries (fill r.mem c pageSize 0)) c (pteP ||| pteW) kernelBase := by
        intro hp
        rw [hz _ (idx4_lt _)] at hp
        exact absurd hp (by decide)
      have hmap := mapPages_run (n := 511) (q := 0) hok (by decide) (by decide) hgr
        kernelBase_canonical (by rw [kernelBase_eq, pageSize_eq])
        (by rw [kernelBase_eq, pageSize_eq]; omega) (by rw [pageSize_eq])
        (by rw [pageSize_eq]; omega) (by rw [kernelBase_eq, pageSize_eq]; omega)
        fun va _ _ => hempty va
      have hset : setupKvm K r = (do
          let status ← mapPages K (p2v c) kernelBase (kernelBase + (511 + 1) * pageSize) 0
            (pteP ||| pteW)
          if status then return p2v c else freeVm K (p2v c); return 0 : RamM Nat)
          { r with freeMemory := load r.mem c 8, mem := fill r.mem c pageSize 0 } := by
        unfold setupKvm
        rw [bind_run halloc, if_pos hc.p2v_ne_zero, bind_run (kmemset_page hc 0 _), v2p_kernelBase,
          p2v_window]
      rw [hset]
      rcases hmap with ⟨hlen, r', free', hrun, -⟩ | ⟨r', free', hrun, hm, hlen⟩
      · refine Or.inl ⟨by rw [List.length_cons]; omega, fun v r'' hrun' => ?_⟩
        rw [bind_run hrun, if_neg Bool.false_ne_true] at hrun'
        obtain ⟨_, _, _, hret⟩ := bind_ok.mp hrun'
        cases hret
        rfl
      · refine Or.inr ⟨c, r', free', ?_, ?_⟩
        · rw [bind_run hrun, if_pos rfl]
          rfl
        · obtain ⟨ts, hts, hperm, hagree⟩ := hm.built.taken
          rw [htab] at hperm hagree
          have hwin : (511 + 1) * pageSize = 0x40000000 := by rw [pageSize_eq]
          refine ⟨⟨hm.built.ok.toTreeOk, fun va => ?_, fun i hi hne => ?_⟩, hm.built.ok.freeList,
            ⟨c :: ts, by rw [hts]; rfl, ?_, ?_⟩, by rw [List.length_cons]; omega, hm.built.region⟩
          · rw [hm.walk va, hempty va, Nat.zero_add, hwin]
            rfl
          · rw [hm.rest i hi hne, hz i hi]
            decide
          · exact hperm.trans List.perm_append_comm
          · refine ((agreeOff_fill r.mem 0).mono ?_).trans (hagree.mono ?_)
            · intro p hp
              rw [List.mem_singleton.mp hp]
              exact List.mem_cons_self
            · intro p hp
              rcases List.mem_append.mp hp with hp | hp
              · exact List.mem_cons_of_mem c hp
              · rw [List.mem_singleton.mp hp]
                exact List.mem_cons_self

/-! ## The user page -/

/-- A kernel map was given a user page: `page` and the tables `ts` came off the free list. -/
structure Housed (K : Image) (r r' : Ram) (free free' : List Nat) (root page : Nat) : Prop where
  space : Space K r'.mem root page
  freeList : FreeList K r' free'
  taken : ∃ ts, free = page :: ts ++ free' ∧
    (tables (entries r'.mem) root).Perm (ts ++ tables (entries r.mem) root) ∧
    AgreeOff (page :: ts ++ tables (entries r.mem) root) r.mem r'.mem
  region : SameRegions r r'

theorem idx4_user : idx4 0x400000 ≠ idx4 kernelBase := by
  unfold idx4
  rw [kernelBase_eq]
  omega

theorem kernelTarget_user {va : Nat} (h : va < 0x400000 + pageSize) : kernelTarget va = none := by
  unfold kernelTarget
  rw [if_neg]
  rw [kernelBase_eq]
  rw [pageSize_eq] at h
  omega

/-- The shared part of `setup_uvm` and `copy_uvm`; the new page is zeroed. -/
theorem mapUserPage_run {r : Ram} {free : List Nat} {root : Nat} (h : MapOk K r free root)
    (hk : KernelMap K r.mem root) :
    (free.length < 3 ∧ ∀ v r', mapUserPage K (p2v root) r = .ok v r' → v = none) ∨
      ∃ page r' free', mapUserPage K (p2v root) r = .ok (some (p2v page)) r' ∧
        Housed K r r' free free' root page ∧ (∀ x, InPage page x → r'.mem x = 0) ∧
        free.length ≤ free'.length + 3 := by
  cases hfree : free with
  | nil =>
      refine Or.inl ⟨by decide, fun v r' hrun => ?_⟩
      unfold mapUserPage at hrun
      rw [bind_run (kalloc_nil (hfree ▸ h.freeList)), if_neg fun hn => hn rfl] at hrun
      cases hrun
      rfl
  | cons c free₁ =>
      have hfl := h.freeList
      rw [hfree] at hfl
      obtain ⟨halloc, hfl₁⟩ := kalloc_cons hfl
      have hc := hfl.valid c List.mem_cons_self
      have hcf := (List.nodup_cons.mp hfl.nodup).1
      have hct : c ∉ tables (entries r.mem) root := fun hm =>
        h.used c hm (hfree ▸ List.mem_cons_self)
      let r₁ : Ram := { r with freeMemory := load r.mem c 8, mem := fill r.mem c pageSize 0 }
      have hm₁ : AgreeOff [c] r.mem r₁.mem := agreeOff_fill r.mem 0
      have he₁ : ∀ t ∈ tables (entries r.mem) root, ∀ i < 512,
          entries r₁.mem t i = entries r.mem t i := h.toTreeOk.entries_eq hm₁ fun p hp => by
        rw [List.mem_singleton.mp hp]
        exact ⟨hc.aligned, hct⟩
      have hfl₂ : FreeList K r₁ free₁ := hfl₁.congr rfl hm₁ fun p hp => by
        rw [List.mem_singleton.mp hp]
        exact ⟨hc.aligned, hcf⟩
      have htab₁ : tables (entries r₁.mem) root = tables (entries r.mem) root := tables_congr he₁
      have hused : ∀ t ∈ tables (entries r₁.mem) root, t ∉ free₁ := by
        rw [htab₁]
        intro t ht hm
        refine h.used t ht ?_
        rw [hfree]
        exact List.mem_cons_of_mem c hm
      have hok₁ : MapOk K r₁ free₁ root := ⟨h.toTreeOk.congr he₁, hfl₂, hused⟩
      have hk₁ := hk.congr he₁
      have hgr : Grants (entries r₁.mem) root (pteP ||| pteW ||| pteU) 0x400000 := fun hp =>
        absurd hp (hk₁.only _ (idx4_lt _) idx4_user)
      have hmap := mapPages_run (n := 0) (q := c) hok₁ (by decide) (by decide) hgr (by decide)
        (by rw [pageSize_eq]) (by rw [Nat.zero_mul]) hc.aligned
        (by have := hc.below; rw [pageSize_eq] at *; omega) (by rw [pageSize_eq]; omega)
        fun va _ hva => (hk₁.walk va).trans (kernelTarget_user (by omega))
      rw [Nat.zero_add, Nat.one_mul] at hmap
      have hset : mapUserPage K (p2v root) r = (do
          let status ← mapPages K (p2v root) 0x400000 (0x400000 + pageSize) c
            (pteP ||| pteW ||| pteU)
          if status then return some (p2v c)
          else kfree K (p2v c); freeVm K (p2v root); return none : RamM (Option Nat)) r₁ := by
        unfold mapUserPage
        rw [bind_run halloc, if_pos hc.p2v_ne_zero, bind_run (kmemset_page hc 0 _), hc.v2p_p2v]
      rw [hset]
      rcases hmap with ⟨hlen, r', free', hrun, -⟩ | ⟨r', free', hrun, hm, hlen⟩
      · refine Or.inl ⟨by rw [List.length_cons]; omega, fun v r'' hrun' => ?_⟩
        rw [bind_run hrun, if_neg Bool.false_ne_true] at hrun'
        obtain ⟨_, _, _, hrun'⟩ := bind_ok.mp hrun'
        obtain ⟨_, _, _, hret⟩ := bind_ok.mp hrun'
        cases hret
        rfl
      · obtain ⟨ts, hts, hperm, hagree⟩ := hm.built.taken
        rw [htab₁] at hperm hagree
        have hcts : c ∉ ts ++ tables (entries r.mem) root := by
          intro hmem
          rcases List.mem_append.mp hmem with hmem | hmem
          · refine hcf ?_
            rw [hts]
            exact List.mem_append_left _ hmem
          · exact hct hmem
        have hal : ∀ p ∈ ts ++ tables (entries r.mem) root, p % pageSize = 0 := by
          intro p hp
          rcases List.mem_append.mp hp with hp | hp
          · refine (hfl.valid p (List.mem_cons_of_mem c ?_)).aligned
            rw [hts]
            exact List.mem_append_left _ hp
          · exact (h.valid p hp).aligned
        refine Or.inr ⟨c, r', free', ?_, ⟨⟨hm.built.ok.toTreeOk, hc, ?_, fun va => ?_⟩,
          hm.built.ok.freeList, ⟨ts, by rw [hts]; rfl, hperm, ?_⟩, hm.built.region⟩, ?_,
          by rw [List.length_cons]; omega⟩
        · rw [bind_run hrun, if_pos rfl]
          rfl
        · exact fun hmem => hcts (hperm.mem_iff.mp hmem)
        · rw [hm.walk va, hk₁.walk va]
          rfl
        · refine (hm₁.mono fun p hp => ?_).trans (hagree.mono fun p hp => ?_)
          · rw [List.mem_singleton.mp hp]
            exact List.mem_cons_self
          · exact List.mem_cons_of_mem c hp
        · intro x hx
          rw [hagree.page hc.aligned hcts hal hx]
          exact fill_of_inside r.mem 0 hx.1 hx.2

/-- Copying into the user page leaves the space as it is. -/
theorem Housed.copy {r r' : Ram} {free free' : List Nat} {root page size : Nat}
    (h : Housed K r r' free free' root page) (hs : size ≤ pageSize) (hpf : page ∉ free') (src : Nat) :
    Housed K r { r' with mem := copy r'.mem page src size } free free' root page := by
  have hv := h.space.pageValid
  have hm : AgreeOff [page] r'.mem (Lib.copy r'.mem page src size) :=
    agreeOff_copy r'.mem src (Nat.le_refl page) (by omega)
  have he : ∀ t ∈ tables (entries r'.mem) root, ∀ i < 512,
      entries (Lib.copy r'.mem page src size) t i = entries r'.mem t i :=
    h.space.toTreeOk.entries_eq hm fun p hp => by
      rw [List.mem_singleton.mp hp]
      exact ⟨hv.aligned, h.space.pageApart⟩
  obtain ⟨ts, hts, hperm, hagree⟩ := h.taken
  refine ⟨h.space.congr he, h.freeList.congr rfl hm fun p hp => ?_, ⟨ts, hts, ?_, ?_⟩, h.region⟩
  · rw [List.mem_singleton.mp hp]
    exact ⟨hv.aligned, hpf⟩
  · dsimp only
    rw [tables_congr he]
    exact hperm
  · refine hagree.trans (hm.mono fun p hp => ?_)
    rw [List.mem_singleton.mp hp]
    exact List.mem_cons_self

theorem Housed.page_not_free {r r' : Ram} {free free' : List Nat} {root page : Nat}
    (h : Housed K r r' free free' root page) (hf : FreeList K r free) : page ∉ free' := by
  obtain ⟨ts, hts, -⟩ := h.taken
  have hnd := hf.nodup
  rw [hts, List.cons_append] at hnd
  exact fun hm => (List.nodup_cons.mp hnd).1 (List.mem_append_right _ hm)

/-! ## setup_uvm and copy_uvm -/

/-- Without allocation `find_pdpt_entry` only reads. -/
theorem reads_findPdptEntry (map v attr : Nat) : Reads (findPdptEntry K map v 0 attr) := by
  have hpml : Reads (findPml4tEntry K map v 0 attr) := by
    unfold findPml4tEntry
    refine (reads_kload _ _).bind fun e => reads_ite (reads_pure _) ?_
    rw [if_neg (by decide)]
    exact reads_pure _
  unfold findPdptEntry
  refine hpml.bind fun pdptr => reads_ite (reads_pure _) ((reads_kload _ _).bind fun e =>
    reads_ite (reads_pure _) ?_)
  rw [if_neg (by decide)]
  exact reads_pure _

section Contents

variable {r : Ram} {free : List Nat} {root size : Nat}

/-- Copy `size` bytes from a kernel pointer into a user page. -/
theorem fillPage_ends {r' : Ram} {free' : List Nat} {page : Nat}
    (h : Housed K r r' free free' root page) (hf : FreeList K r free) (hs : size ≤ pageSize)
    (src : Nat) :
    Ends (kmemcpy (p2v page) src size) r' (fun _ r'' => Housed K r r'' free free' root page)
      fun _ _ => ¬ KernelPtr src size := by
  have hv := h.space.pageValid
  have hdst : KernelPtr (p2v page) size := hv.kernelPtr (a := page) (by omega) hv.p2v_eq
  by_cases hsrc : KernelPtr src size
  · refine ends_of_run (kmemcpy_run hdst hsrc r') ?_
    rw [hv.v2p_p2v]
    exact h.copy hs (h.page_not_free hf) _
  · refine ends_of_error (e := .exception) (t := r') ?_ hsrc
    unfold kmemcpy
    rw [bind_run (ensure_run hdst _ r')]
    exact bind_error.mpr (Or.inl (ensure_error.mpr ⟨hsrc, rfl, rfl⟩))

/-- `setup_uvm` on a kernel map. -/
theorem setupUvm_ends (h : MapOk K r free root) (hk : KernelMap K r.mem root)
    (hs : size ≤ pageSize) (start : Nat) :
    Ends (setupUvm K (p2v root) start size) r
      (fun ok r' => ok = true ∧ (∃ page free', Housed K r r' free free' root page ∧
        free.length ≤ free'.length + 3) ∨ ok = false ∧ free.length < 3)
      fun _ _ => ¬ KernelPtr start size ∨ free.length < 3 := by
  unfold setupUvm
  rcases mapUserPage_run h hk with ⟨hlen, hnone⟩ | ⟨page, r₁, free₁, hrun, hh, -, hlen⟩
  · have hmap : Ends (mapUserPage K (p2v root)) r (fun v _ => v = none) fun _ _ => True :=
      ⟨fun hx => hnone _ _ hx, fun _ => trivial⟩
    refine hmap.bind (fun v r₁ hv => ?_) fun _ _ _ => Or.inr hlen
    rw [hv]
    exact ends_pure.mpr (Or.inr ⟨rfl, hlen⟩)
  · rw [ends_bind]
    refine ends_of_run hrun ?_
    refine (fillPage_ends hh h.freeList hs start).bind (fun _ r₂ h₂ => ?_) fun _ _ he => Or.inl he
    exact ends_pure.mpr (Or.inl ⟨rfl, page, free₁, h₂, hlen⟩)

/-- `copy_uvm` on a kernel map, from whatever map. -/
theorem copyUvm_ends (h : MapOk K r free root) (hk : KernelMap K r.mem root)
    (hs : size ≤ pageSize) (srcMap : Nat) :
    Ends (copyUvm K (p2v root) srcMap size) r
      (fun ok r' => ok = true → ∃ page free', Housed K r r' free free' root page)
      fun _ _ => True := by
  unfold copyUvm
  rcases mapUserPage_run h hk with ⟨hlen, hnone⟩ | ⟨page, r₁, free₁, hrun, hh, -⟩
  · have hmap : Ends (mapUserPage K (p2v root)) r (fun v _ => v = none) fun _ _ => True :=
      ⟨fun hx => hnone _ _ hx, fun _ => trivial⟩
    refine hmap.bind (fun v r₁ hv => ?_) fun _ _ _ => trivial
    rw [hv]
    exact ends_pure.mpr nofun
  · rw [ends_bind]
    refine ends_of_run hrun ?_
    refine (reads_findPdptEntry srcMap 0x400000 0).then (fun pd _ => ?_) fun _ _ => trivial
    rw [ends_ite]
    constructor
    · intro _
      have hfree : Ends (freeVm K (p2v root)) r₁ (fun _ _ => True) fun _ _ => True :=
        ⟨fun _ => trivial, fun _ => trivial⟩
      exact hfree.bind (fun _ _ _ => ends_pure.mpr nofun) fun _ _ _ => trivial
    · intro _
      refine (reads_kload _ _).then (fun e _ => ?_) fun _ _ => trivial
      rw [ends_bind, assertMem, ends_ensure]
      refine ⟨fun _ => ?_, fun _ => trivial⟩
      refine (fillPage_ends hh h.freeList hs _).bind (fun _ r₂ h₂ => ?_) fun _ _ _ => trivial
      exact ends_pure.mpr fun _ => ⟨page, free₁, h₂⟩

/-- `setup_uvm` from memory outside the pages copies it to the start of a zeroed page. -/
theorem setupUvm_run {src start : Nat} (h : MapOk K r free root) (hk : KernelMap K r.mem root)
    (hs : size ≤ pageSize) (hp : KernelPtr start size) (hstart : v2p start = src)
    (hsrc : ∀ x, src ≤ x → x < src + size → ∀ p, ValidPage K p → ¬ InPage p x) :
    (free.length < 3 ∧ ∀ v r', setupUvm K (p2v root) start size r = .ok v r' → v = false) ∨
      ∃ page r' free', setupUvm K (p2v root) start size r = .ok true r' ∧
        Housed K r r' free free' root page ∧ free.length ≤ free'.length + 3 ∧
        ∀ k < pageSize, r'.mem (page + k) = if k < size then r.mem (src + k) else 0 := by
  rcases mapUserPage_run h hk with ⟨hlen, hnone⟩ | ⟨page, r₁, free₁, hrun, hh, hzero, hlen⟩
  · refine Or.inl ⟨hlen, fun v r' hrun => ?_⟩
    obtain ⟨o, r₁, ho, hrest⟩ := bind_ok.mp hrun
    rw [hnone o r₁ ho] at hrest
    cases hrest
    rfl
  · obtain ⟨ts, hts, hperm, hagree⟩ := hh.taken
    have hpv := hh.space.pageValid
    have hcopy := kmemcpy_run (hpv.kernelPtr (a := page) (n := size) (by omega) hpv.p2v_eq) hp r₁
    rw [hpv.v2p_p2v, hstart] at hcopy
    refine Or.inr ⟨page, _, free₁, ?_, hh.copy hs (hh.page_not_free h.freeList) src, hlen,
      fun k hk => ?_⟩
    · unfold setupUvm
      rw [bind_run hrun]
      dsimp only
      rw [bind_run hcopy]
      rfl
    · dsimp only
      by_cases hks : k < size
      · rw [if_pos hks, copy_of_inside _ (by omega) (by omega), Nat.add_sub_cancel_left]
        refine hagree _ fun p hp => hsrc _ (by omega) (by omega) p ?_
        rcases List.mem_append.mp hp with hp | hp
        · refine h.freeList.valid p ?_
          rw [hts]
          exact List.mem_append_left _ hp
        · exact h.valid p hp
      · rw [if_neg hks, copy_of_outside _ _ _ _ (by omega)]
        exact hzero _ ⟨by omega, by omega⟩

/-- `copy_uvm` from the space of another process copies its user page. -/
theorem copyUvm_run {src srcPage : Nat} (h : MapOk K r free root) (hk : KernelMap K r.mem root)
    (hsrc : Space K r.mem src srcPage) (hsf : ∀ t ∈ srcPage :: tables (entries r.mem) src, t ∉ free)
    (hst : ∀ t ∈ srcPage :: tables (entries r.mem) src, t ∉ tables (entries r.mem) root) :
    (free.length < 3 ∧ ∀ v r', copyUvm K (p2v root) (p2v src) pageSize r = .ok v r' → v = false) ∨
      ∃ page r' free', copyUvm K (p2v root) (p2v src) pageSize r = .ok true r' ∧
        Housed K r r' free free' root page ∧ free.length ≤ free'.length + 3 ∧
        ∀ k < pageSize, r'.mem (page + k) = r.mem (srcPage + k) := by
  rcases mapUserPage_run h hk with ⟨hlen, hnone⟩ | ⟨page, r₁, free₁, hrun, hh, -, hlen⟩
  · refine Or.inl ⟨hlen, fun v r' hrun => ?_⟩
    obtain ⟨o, r₁, ho, hrest⟩ := bind_ok.mp hrun
    rw [hnone o r₁ ho] at hrest
    cases hrest
    rfl
  · obtain ⟨ts, hts, hperm, hagree⟩ := hh.taken
    have hpv := hh.space.pageValid
    have hsv := hsrc.pageValid
    have hnot : ∀ t ∈ srcPage :: tables (entries r.mem) src,
        t ∉ page :: ts ++ tables (entries r.mem) root := by
      intro t ht hm
      rcases List.mem_append.mp hm with hm | hm
      · refine hsf t ht ?_
        rw [hts]
        exact List.mem_append_left _ hm
      · exact hst t ht hm
    have hal : ∀ p ∈ page :: ts ++ tables (entries r.mem) root, p % pageSize = 0 := by
      intro p hp
      rcases List.mem_append.mp hp with hp | hp
      · refine (h.freeList.valid p ?_).aligned
        rw [hts]
        exact List.mem_append_left _ hp
      · exact (h.valid p hp).aligned
    have hsrc₁ : Space K r₁.mem src srcPage :=
      hsrc.congr (hsrc.toTreeOk.entries_eq hagree fun p hp => ⟨hal p hp, fun hm =>
        hnot p (List.mem_cons_of_mem _ hm) hp⟩)
    have hwalk := hsrc₁.walk_user
    obtain ⟨t, w, u, hup, hpres, hphys⟩ := WfMap.entry hsrc₁.wf (by decide) hwalk
    have htv := hsrc₁.toTreeOk.pd_valid (upper_mem_pds hup)
    have hsmall := hsrc₁.small t (pds_subset_tables (upper_mem_pds hup)) _ (idx2_lt _) hpres
    have hpte : pteAddr (entries r₁.mem t (idx2 0x400000)) = srcPage := by
      dsimp only at hphys
      rw [hphys]
      unfold pteAddr
      rw [Nat.shiftRight_eq_div_pow, Nat.shiftLeft_eq]
      omega
    have hone : entries r₁.mem t (idx2 0x400000) &&& pteP = 1 := by
      rw [and_pteP]
      exact hpres
    have hcopy := kmemcpy_run (hpv.kernelPtr (Nat.le_refl _) hpv.p2v_eq)
      (hsv.kernelPtr (Nat.le_refl _) hsv.p2v_eq) r₁
    rw [hpv.v2p_p2v, hsv.v2p_p2v] at hcopy
    refine Or.inr ⟨page, _, free₁, ?_, hh.copy (Nat.le_refl pageSize)
      (hh.page_not_free h.freeList) srcPage, hlen, fun k hk => ?_⟩
    · unfold copyUvm
      rw [bind_run hrun]
      dsimp only
      rw [bind_run (findPdptEntry_found hsrc₁.toTreeOk.tree hup), if_neg htv.p2v_ne_zero, index2_eq,
        bind_run (kload_entry htv (idx2_lt _) r₁), bind_run (assertMem_run hone 408 r₁), hpte,
        bind_run hcopy]
      rfl
    · dsimp only
      rw [copy_of_inside _ (by omega) (by omega), Nat.add_sub_cancel_left]
      exact hagree.page hsv.aligned (hnot srcPage List.mem_cons_self) hal
        ⟨by omega, by omega⟩

end Contents

/-! ## Both together -/

/-- A process's map, from `setup_kvm` and then `setup_uvm` or `copy_uvm`, translates the
    kernel's window and the process's own user page and nothing else. -/
theorem setupSpace_translates {r r₁ r₂ : Ram} {free : List Nat} {map start src size : Nat}
    (h : FreeList K r free) (hk : setupKvm K r = .ok map r₁) (hmap : map ≠ 0)
    (hs : size ≤ pageSize)
    (hu : setupUvm K map start size r₁ = .ok true r₂ ∨ copyUvm K map src size r₁ = .ok true r₂) :
    ∃ page ∈ free, page ∉ tables (entries r₂.mem) (v2p map) ∧ ∀ va, canonical va →
      walk (entries r₂.mem) (v2p map) va =
        if 0x400000 ≤ va ∧ va < 0x600000 then some ⟨page + (va - 0x400000), true, true⟩
        else if kernelBase ≤ va ∧ va < kernelBase + 0x40000000 then
          some ⟨va - kernelBase, true, false⟩
        else none := by
  rcases setupKvm_run h with ⟨-, hzero⟩ | ⟨root, r', free₁, hrun, hm⟩
  · exact absurd (hzero map r₁ hk) hmap
  · obtain ⟨rfl, rfl⟩ := EStateM.Result.ok.inj (hrun.symm.trans hk)
    obtain ⟨ts, hts, hperm, -⟩ := hm.taken
    have hroot := hm.map.toTreeOk.root_valid
    have hnd := h.nodup
    rw [hts] at hnd
    have hok : MapOk K r' free₁ root := ⟨hm.map.toTreeOk, hm.freeList, fun t ht hf =>
      List.disjoint_of_nodup_append hnd (hperm.mem_iff.mp ht) hf⟩
    have hh : ∃ page free', Housed K r' r₂ free₁ free' root page := by
      rcases hu with hu | hu
      · rcases (setupUvm_ends hok hm.map hs start).ok hu with ⟨-, page, free', hh, -⟩ | ⟨hf, -⟩
        · exact ⟨page, free', hh⟩
        · cases hf
      · exact (copyUvm_ends hok hm.map hs src).ok hu rfl
    obtain ⟨page, free', hh⟩ := hh
    obtain ⟨ts', hts', -⟩ := hh.taken
    rw [hroot.v2p_p2v]
    refine ⟨page, ?_, hh.space.pageApart, fun va _ => ?_⟩
    · rw [hts, hts']
      exact List.mem_append_right _ (List.mem_append_left _ List.mem_cons_self)
    · rw [hh.space.walk va]
      rfl

/-- An image that ends at 4 MB. -/
def image : Image := ⟨kernelBase + 0x400000, kernelBase + 0x201000, by decide⟩

/-- Pages above it can be free. -/
theorem freeList_image (a n : Nat) (ha : a % pageSize = 0) (h1 : 0x400000 ≤ a)
    (h2 : a + n * pageSize ≤ 0x30000000) :
    ∃ r, FreeList image r ((List.range n).map fun k => a + k * pageSize) := by
  have hpage : 0 < pageSize := by rw [pageSize_eq]; omega
  refine FreeList.exists (fun p hp => ?_) (List.nodup_range.map fun i j hij => ?_)
  · obtain ⟨k, hk, rfl⟩ := List.mem_map.mp hp
    have hend : image.kend = kernelBase + 0x400000 := rfl
    have hk : (k + 1) * pageSize ≤ n * pageSize :=
      Nat.mul_le_mul_right _ (List.mem_range.mp hk)
    rw [Nat.succ_mul] at hk
    refine ⟨?_, by omega, by omega⟩
    rw [Nat.add_mod, ha, Nat.mul_mod_left]
    rfl
  · have hij : a + i * pageSize = a + j * pageSize := hij
    exact Nat.eq_of_mul_eq_mul_right hpage (Nat.add_left_cancel hij)

/-- The eight pages after it are enough for a process. -/
theorem setupSpace_translates_image : ∃ r r₁ r₂ free map, FreeList image r free ∧
    setupKvm image r = .ok map r₁ ∧ setupUvm image map (p2v 0x30000) 5120 r₁ = .ok true r₂ ∧
      ∃ page ∈ free, page ∉ tables (entries r₂.mem) (v2p map) ∧ ∀ va, canonical va →
        walk (entries r₂.mem) (v2p map) va =
          if 0x400000 ≤ va ∧ va < 0x600000 then some ⟨page + (va - 0x400000), true, true⟩
          else if kernelBase ≤ va ∧ va < kernelBase + 0x40000000 then
            some ⟨va - kernelBase, true, false⟩
          else none := by
  obtain ⟨r, hfl⟩ := freeList_image 0x400000 8 (by rw [pageSize_eq]) (Nat.le_refl _)
    (by rw [pageSize_eq]; omega)
  have hnd := hfl.nodup
  rcases setupKvm_run hfl with ⟨hlt, -⟩ | ⟨root, r₁, free₁, hk, hm⟩
  · exact absurd hlt (by decide)
  · obtain ⟨ts, hts, hperm, -⟩ := hm.taken
    have hlen := hm.length_le
    have hroot := hm.map.toTreeOk.root_valid
    have hok : MapOk image r₁ free₁ root := ⟨hm.map.toTreeOk, hm.freeList, fun t ht hf => by
      rw [hts] at hnd
      exact List.disjoint_of_nodup_append hnd (hperm.mem_iff.mp ht) hf⟩
    have hne : p2v root ≠ 0 := Nat.pos_iff_ne_zero.mp hroot.p2v_pos
    have hptr : KernelPtr (p2v 0x30000) 5120 := by decide
    have hphys : v2p (p2v 0x30000) = 0x30000 := by decide
    rcases setupUvm_run hok hm.map (by decide) hptr hphys (fun x h1 h2 p hp hin => by
        have := hp.low_le
        unfold InPage at hin
        omega) with ⟨hlt, -⟩ | ⟨page, r₂, free₂, hu, -⟩
    · rw [List.length_map, List.length_range] at hlen
      omega
    · have hmade : setupUvm image (p2v root) (p2v 0x30000) 5120 r₁ = .ok true r₂ ∨
          copyUvm image (p2v root) 0 5120 r₁ = .ok true r₂ := Or.inl hu
      exact ⟨r, r₁, r₂, _, p2v root, hfl, hk, hu,
        setupSpace_translates hfl hk hne (by decide) hmade⟩

end Os64
