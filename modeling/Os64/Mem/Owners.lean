/-
  Page ownership: what every page of the allocator is for.

  `MemOk K pool free s`: the pages of `pool` are divided among the free list, the two
  tables of file.c, the kernel's page map and the processes in the table, and each
  process's page map is the space of its user page. Whatever writes to pages of data
  only keeps this (`MemOk.still`), and so does passing pages between the free list and
  one process (`MemOk.transfer`).
-/
import Os64.Lib.Shares
import Os64.Mem.Spaces
import Os64.Sched.Represent

namespace Os64

open Os64.Lib

variable {K : Image}

/-! ## Owners -/

inductive Owner where
  | free | fcbTable | fileDescTable | kernelMap | process (i : Slot)
  deriving DecidableEq

def Owner.all : List Owner :=
  [.free, .fcbTable, .fileDescTable, .kernelMap] ++ (List.finRange numProc).map .process

theorem Owner.all_nodup : Owner.all.Nodup := by decide

theorem Owner.mem_all (o : Owner) : o ∈ Owner.all := by
  cases o with
  | process i => exact List.mem_append_right _ (List.mem_map_of_mem (List.mem_finRange i))
  | _ => decide

/-- The root table of a process's page map. -/
def Kernel.root (s : Kernel) (i : Slot) : Nat := v2p (s.processTable i).pageMap

def Kernel.stackPage (s : Kernel) (i : Slot) : Nat := v2p (s.processTable i).stack

/-- The page that the process's map has at `0x400000`. -/
def Kernel.userPage (s : Kernel) (i : Slot) : Nat :=
  match walk (entries s.ram.mem) (s.root i) 0x400000 with
  | some t => t.phys
  | none => 0

/-- The slot holds a process other than the idle process. -/
def Kernel.Live (s : Kernel) (i : Slot) : Prop := i ≠ 0 ∧ (s.processTable i).state ≠ .unused

instance (s : Kernel) (i : Slot) : Decidable (s.Live i) := inferInstanceAs (Decidable (_ ∧ _))

/-- The pages of an owner, with `free` for the free list. -/
def Kernel.pagesOf (s : Kernel) (free : List Nat) : Owner → List Nat
  | .free => free
  | .fcbTable => [v2p s.fcbTable]
  | .fileDescTable => [v2p s.fileDescTable]
  | .kernelMap => tables (entries s.ram.mem) (s.root 0)
  | .process i =>
      if s.Live i then s.stackPage i :: s.userPage i :: tables (entries s.ram.mem) (s.root i)
      else []

theorem Kernel.pagesOf_live {s : Kernel} {l : List Nat} {i : Slot} (h : s.Live i) :
    s.pagesOf l (.process i) =
      s.stackPage i :: s.userPage i :: tables (entries s.ram.mem) (s.root i) := if_pos h

theorem Kernel.pagesOf_dead {s : Kernel} {free : List Nat} {i : Slot} (h : ¬ s.Live i) :
    s.pagesOf free (.process i) = [] := if_neg h

/-- Only the pages of the free list depend on it. -/
theorem Kernel.pagesOf_held {s : Kernel} {o : Owner} (hf : o ≠ .free) {l k : List Nat} :
    s.pagesOf k o = s.pagesOf l o := by
  cases o with
  | free => exact absurd rfl hf
  | _ => rfl

/-! ## The invariant -/

/-- The memory of one process. -/
structure ProcMem (K : Image) (s : Kernel) (i : Slot) : Prop where
  stack : (s.processTable i).stack = p2v (s.stackPage i)
  pageMap : (s.processTable i).pageMap = p2v (s.root i)
  tf : (s.processTable i).tf = (s.processTable i).stack + stackSize - trapFrameSize
  space : Space K s.ram.mem (s.root i) (s.userPage i)

structure MemOk (K : Image) (pool free : List Nat) (s : Kernel) : Prop where
  freeList : FreeList K s.ram free
  pages : Divides Owner.all (s.pagesOf free) pool
  valid : ∀ p ∈ pool, ValidPage K p
  fcbTable : s.fcbTable = p2v (v2p s.fcbTable)
  fileDescTable : s.fileDescTable = p2v (v2p s.fileDescTable)
  pageMap : (s.processTable 0).pageMap = p2v (s.root 0)
  kernel : KernelMap K s.ram.mem (s.root 0)
  process : ∀ i, s.Live i → ProcMem K s i
  loaded : Loaded s

/-- A page that holds data: neither free nor a table. -/
def Kernel.Data (s : Kernel) (p : Nat) : Prop :=
  p = v2p s.fcbTable ∨ p = v2p s.fileDescTable ∨
    ∃ i, s.Live i ∧ (p = s.stackPage i ∨ p = s.userPage i)

section MemOk

variable {pool free : List Nat} {s s' : Kernel} {i : Slot} {p : Nat}

namespace MemOk

theorem validOf (h : MemOk K pool free s) {o : Owner} (hp : p ∈ s.pagesOf free o) :
    ValidPage K p := h.valid p (h.pages.mem_pool o.mem_all hp)

theorem apart (h : MemOk K pool free s) {o u : Owner} (hne : o ≠ u)
    (hp : p ∈ s.pagesOf free o) : p ∉ s.pagesOf free u :=
  h.pages.apart o.mem_all u.mem_all hne hp

theorem stackPage_mem {l : List Nat} (hl : s.Live i) :
    s.stackPage i ∈ s.pagesOf l (.process i) := by
  rw [Kernel.pagesOf_live hl]
  exact List.mem_cons_self

theorem userPage_mem {l : List Nat} (hl : s.Live i) :
    s.userPage i ∈ s.pagesOf l (.process i) := by
  rw [Kernel.pagesOf_live hl]
  exact List.mem_cons_of_mem _ List.mem_cons_self

theorem table_mem (hl : s.Live i) (hp : p ∈ tables (entries s.ram.mem) (s.root i)) :
    p ∈ s.pagesOf free (.process i) := by
  rw [Kernel.pagesOf_live hl]
  exact List.mem_cons_of_mem _ (List.mem_cons_of_mem _ hp)

theorem stackValid (h : MemOk K pool free s) (hl : s.Live i) : ValidPage K (s.stackPage i) :=
  h.validOf (o := .process i) (stackPage_mem hl)

theorem fcbValid (h : MemOk K pool free s) : ValidPage K (v2p s.fcbTable) :=
  h.validOf (o := .fcbTable) List.mem_cons_self

theorem descValid (h : MemOk K pool free s) : ValidPage K (v2p s.fileDescTable) :=
  h.validOf (o := .fileDescTable) List.mem_cons_self

/-- Inside one process the stack, the user page and the tables differ. -/
theorem within (h : MemOk K pool free s) (hl : s.Live i) :
    s.stackPage i ≠ s.userPage i ∧ s.stackPage i ∉ tables (entries s.ram.mem) (s.root i) ∧
      s.userPage i ∉ tables (entries s.ram.mem) (s.root i) := by
  have hnd := h.pages.share_nodup (Owner.process i).mem_all
  rw [Kernel.pagesOf_live hl, List.nodup_cons, List.nodup_cons, List.mem_cons, not_or] at hnd
  exact ⟨hnd.1.1, hnd.1.2, hnd.2.1⟩

/-- A process has its stack, its user page and at least five tables. -/
theorem seven_le (h : MemOk K pool free s) (hl : s.Live i) {l : List Nat} :
    7 ≤ (s.pagesOf l (.process i)).length := by
  have h5 := (h.process i hl).space.five_le
  rw [Kernel.pagesOf_live hl, List.length_cons, List.length_cons]
  omega

theorem free_le (h : MemOk K pool free s) (hl : s.Live i) : free.length + 7 ≤ pool.length := by
  have h7 := h.seven_le hl (l := free)
  have hle := h.pages.length_le (Owner.mem_all .free) (Owner.mem_all (.process i)) (by simp)
  have hfree : (s.pagesOf free .free).length = free.length := rfl
  omega

/-- A free page is not a page of a process. -/
theorem free_apart (h : MemOk K pool free s) (hp : p ∈ free) (hl : s.Live i) :
    p ≠ s.stackPage i ∧ p ≠ s.userPage i ∧ p ∉ tables (entries s.ram.mem) (s.root i) := by
  have hnot := h.apart (o := .free) (u := .process i) nofun hp
  exact ⟨fun he => hnot (he ▸ stackPage_mem hl), fun he => hnot (he ▸ userPage_mem hl),
    fun ht => hnot (table_mem hl ht)⟩

/-- A page of data is not free and not a table of a page map. -/
theorem data (h : MemOk K pool free s) (hp : s.Data p) :
    ValidPage K p ∧ p ∉ free ∧ p ∉ tables (entries s.ram.mem) (s.root 0) ∧
      ∀ i, s.Live i → p ∉ tables (entries s.ram.mem) (s.root i) := by
  have key : ∀ o : Owner, o ≠ .free → o ≠ .kernelMap → p ∈ s.pagesOf free o →
      (∀ i, s.Live i → o = .process i → p ∉ tables (entries s.ram.mem) (s.root i)) →
      ValidPage K p ∧ p ∉ free ∧ p ∉ tables (entries s.ram.mem) (s.root 0) ∧
        ∀ i, s.Live i → p ∉ tables (entries s.ram.mem) (s.root i) := by
    intro o hf hk hm hown
    refine ⟨h.validOf hm, h.apart (u := .free) hf hm, h.apart (u := .kernelMap) hk hm, ?_⟩
    intro i hl ht
    by_cases ho : o = .process i
    · exact hown i hl ho ht
    · exact h.apart ho hm (table_mem hl ht)
  rcases hp with hp | hp | ⟨i, hl, hp⟩
  · exact key .fcbTable (by decide) (by decide) (List.mem_singleton.mpr hp) nofun
  · exact key .fileDescTable (by decide) (by decide) (List.mem_singleton.mpr hp) nofun
  · rcases hp with hp | hp
    · refine key (.process i) nofun nofun (by rw [hp]; exact stackPage_mem hl) fun j hj he => ?_
      obtain rfl := Owner.process.inj he
      rw [hp]
      exact (h.within hl).2.1
    · refine key (.process i) nofun nofun (by rw [hp]; exact userPage_mem hl) fun j hj he => ?_
      obtain rfl := Owner.process.inj he
      rw [hp]
      exact (h.within hl).2.2

/-- While a process runs, a page that is not a process's and no table of the kernel's own map holds
    nothing that the kernel keeps elsewhere. -/
theorem not_reserved (h : MemOk K pool free s) (hl : s.Live s.pc.currentProcess) {o : Owner}
    (ho : ∀ j, o ≠ .process j) (hk : o ≠ .kernelMap) (hp : p ∈ s.pagesOf free o) {x : Nat}
    (hx : InPage p x) : ¬ s.Reserved K x := by
  have hv := h.validOf hp
  have hother : ∀ {u : Owner} {q}, o ≠ u → q ∈ s.pagesOf free u → ¬ InPage q x := by
    intro u q hu hq hin
    obtain rfl := inPage_inj (h.validOf hq).aligned hv.aligned hin hx
    exact h.apart hu hp hq
  have htable : ∀ {u : Owner} {root}, o ≠ u →
      (∀ t ∈ tables (entries s.ram.mem) root, t ∈ s.pagesOf free u) → ¬ s.InTable root x := by
    rintro u root hu hin ⟨t, ht, hlow, hhigh⟩
    exact hother hu (hin t ht) ⟨hlow, by rw [pageSize_eq]; omega⟩
  have hlive : ∀ j, s.Live j → ¬ s.InTable (s.root j) x := fun j hj =>
    htable (ho j) fun t ht => table_mem hj ht
  have hstack : ∀ j, (s.processTable j).state ≠ .unused → ¬ s.InStack j x :=
    fun j hstate ⟨hj, hlow, hhigh⟩ =>
      hother (ho j) (stackPage_mem ⟨hj, hstate⟩) ⟨hlow, Nat.lt_of_add_right_lt hhigh⟩
  rintro ((⟨-, hend⟩ | hin | hin) | ⟨j, hstate, -, hin | hin⟩)
  · -- the pages lie above the image
    have habove := hv.above
    have hbelow := hv.below
    have hle := hx.1
    have hbase := K.base_le
    unfold v2p u64 at hend
    rw [kernelBase_eq] at hend habove hbase
    omega
  · exact hstack _ hl.2 hin
  · rw [h.loaded.1] at hin
    exact hlive _ hl hin
  · exact hstack j hstate hin
  · by_cases hj : j = 0
    · subst hj
      exact htable hk (fun t ht => ht) hin
    · exact hlive j ⟨hj, hstate⟩ hin

end MemOk

/-! ## Writing data -/

/-- From `s` to `s'` no page changed hands, and memory changed in the pages `D` only. -/
structure Still (D : List Nat) (s s' : Kernel) : Prop where
  fcbTable : s'.fcbTable = s.fcbTable
  fileDescTable : s'.fileDescTable = s.fileDescTable
  live : ∀ i, s'.Live i ↔ s.Live i
  pageMap : ∀ i, (s'.processTable i).pageMap = (s.processTable i).pageMap
  stack : ∀ i, (s'.processTable i).stack = (s.processTable i).stack
  tf : ∀ i, (s'.processTable i).tf = (s.processTable i).tf
  freeMemory : s'.ram.freeMemory = s.ram.freeMemory
  mem : AgreeOff D s.ram.mem s'.ram.mem
  loaded : Loaded s → Loaded s'

namespace Still

variable {D D' : List Nat} {s'' : Kernel}

theorem trans (h : Still D s s') (h' : Still D s' s'') : Still D s s'' where
  fcbTable := h'.fcbTable.trans h.fcbTable
  fileDescTable := h'.fileDescTable.trans h.fileDescTable
  live i := (h'.live i).trans (h.live i)
  pageMap i := (h'.pageMap i).trans (h.pageMap i)
  stack i := (h'.stack i).trans (h.stack i)
  tf i := (h'.tf i).trans (h.tf i)
  freeMemory := h'.freeMemory.trans h.freeMemory
  mem := h.mem.trans h'.mem
  loaded hl := h'.loaded (h.loaded hl)

theorem mono (h : Still D s s') (hD : ∀ p ∈ D, p ∈ D') : Still D' s s' :=
  { h with mem := h.mem.mono hD }

theorem root (h : Still D s s') (i : Slot) : s'.root i = s.root i := by
  unfold Kernel.root
  rw [h.pageMap]

theorem stackPage (h : Still D s s') (i : Slot) : s'.stackPage i = s.stackPage i := by
  unfold Kernel.stackPage
  rw [h.stack]

end Still

/-- What stays when only data is written. -/
structure Stays (K : Image) (pool free : List Nat) (s s' : Kernel) : Prop where
  memOk : MemOk K pool free s'
  pagesOf : ∀ o, s'.pagesOf free o = s.pagesOf free o
  userPage : ∀ i, s.Live i → s'.userPage i = s.userPage i
  data : ∀ p, s'.Data p ↔ s.Data p

theorem Stays.pagesOf_held (h : Stays K pool free s s') {o : Owner} (hf : o ≠ .free) {l k : List Nat} :
    s'.pagesOf l o = s.pagesOf k o :=
  (Kernel.pagesOf_held hf).trans ((h.pagesOf o).trans (Kernel.pagesOf_held hf))

theorem MemOk.still {D : List Nat} (h : MemOk K pool free s) (hs : Still D s s')
    (hD : ∀ p ∈ D, s.Data p) : Stays K pool free s s' := by
  have hal : ∀ p ∈ D, p % pageSize = 0 := fun p hp => (h.data (hD p hp)).1.aligned
  have he0 : ∀ t ∈ tables (entries s.ram.mem) (s.root 0), ∀ i < 512,
      entries s'.ram.mem t i = entries s.ram.mem t i :=
    h.kernel.toTreeOk.entries_eq hs.mem fun p hp => ⟨hal p hp, (h.data (hD p hp)).2.2.1⟩
  have he : ∀ i, s.Live i → ∀ t ∈ tables (entries s.ram.mem) (s.root i), ∀ j < 512,
      entries s'.ram.mem t j = entries s.ram.mem t j := fun i hl =>
    (h.process i hl).space.toTreeOk.entries_eq hs.mem fun p hp =>
      ⟨hal p hp, (h.data (hD p hp)).2.2.2 i hl⟩
  have huser : ∀ i, s.Live i → s'.userPage i = s.userPage i := by
    intro i hl
    unfold Kernel.userPage
    rw [hs.root, (h.process i hl).space.wf.walk_untouched (he i hl)]
  have hpages : ∀ o, s'.pagesOf free o = s.pagesOf free o := by
    intro o
    cases o with
    | free => rfl
    | fcbTable => simp only [Kernel.pagesOf, hs.fcbTable]
    | fileDescTable => simp only [Kernel.pagesOf, hs.fileDescTable]
    | kernelMap =>
        simp only [Kernel.pagesOf, hs.root]
        exact tables_congr he0
    | process i =>
        by_cases hl : s.Live i
        · rw [Kernel.pagesOf_live hl, Kernel.pagesOf_live ((hs.live i).mpr hl), hs.stackPage,
            huser i hl, hs.root, tables_congr (he i hl)]
        · rw [Kernel.pagesOf_dead hl, Kernel.pagesOf_dead fun hl' => hl ((hs.live i).mp hl')]
  refine ⟨⟨?_, h.pages.congr fun o _ => hpages o, h.valid, ?_, ?_, ?_, ?_, ?_, hs.loaded h.loaded⟩,
    hpages, huser, fun p => ?_⟩
  · exact h.freeList.congr hs.freeMemory hs.mem fun p hp =>
      ⟨hal p hp, (h.data (hD p hp)).2.1⟩
  · rw [hs.fcbTable]
    exact h.fcbTable
  · rw [hs.fileDescTable]
    exact h.fileDescTable
  · rw [hs.pageMap, hs.root]
    exact h.pageMap
  · rw [hs.root]
    exact h.kernel.congr he0
  · intro i hl
    have hl := (hs.live i).mp hl
    have hp := h.process i hl
    refine ⟨?_, ?_, ?_, ?_⟩
    · rw [hs.stack, hs.stackPage]
      exact hp.stack
    · rw [hs.pageMap, hs.root]
      exact hp.pageMap
    · rw [hs.tf, hs.stack]
      exact hp.tf
    · rw [hs.root, huser i hl]
      exact hp.space.congr (he i hl)
  · unfold Kernel.Data
    rw [hs.fcbTable, hs.fileDescTable]
    refine or_congr Iff.rfl (or_congr Iff.rfl (exists_congr fun i => ?_))
    rw [hs.live i]
    refine and_congr_right fun hl => ?_
    rw [hs.stackPage, huser i hl]

/-! ## Passing pages -/

/-- From `s` to `s'` slot `i` and the pages `D` changed. -/
structure Passes (i : Slot) (D : List Nat) (s s' : Kernel) : Prop where
  fcbTable : s'.fcbTable = s.fcbTable
  fileDescTable : s'.fileDescTable = s.fileDescTable
  other : ∀ j, j ≠ i → s'.processTable j = s.processTable j
  mem : AgreeOff D s.ram.mem s'.ram.mem

/-- What holds after pages were passed. -/
structure Handed (K : Image) (pool free' : List Nat) (i : Slot) (s s' : Kernel) : Prop where
  memOk : MemOk K pool free' s'
  userPage : ∀ j, j ≠ i → s.Live j → s'.userPage j = s.userPage j
  pagesOf : ∀ o, o ≠ .free → o ≠ .process i → s'.pagesOf [] o = s.pagesOf [] o
  mem : ∀ o, o ≠ .free → o ≠ .process i → ∀ p ∈ s.pagesOf [] o, ∀ x, InPage p x →
    s'.ram.mem x = s.ram.mem x

theorem MemOk.transfer {free' D : List Nat} (h : MemOk K pool free s) (hp : Passes i D s s')
    (hi : i ≠ 0) (hD : ∀ p ∈ D, p ∈ free ∨ p ∈ s.pagesOf free (.process i))
    (hfree : FreeList K s'.ram free')
    (hperm : (free' ++ s'.pagesOf free' (.process i)).Perm (free ++ s.pagesOf free (.process i)))
    (hproc : s'.Live i → ProcMem K s' i) (hl : Loaded s') : Handed K pool free' i s s' := by
  -- the changed pages belong to nobody else
  have hapart : ∀ p ∈ D, ∀ o, o ≠ .free → o ≠ .process i → p % pageSize = 0 ∧
      p ∉ s.pagesOf free o := by
    intro p hpD o hf hpi
    rcases hD p hpD with hm | hm
    · exact ⟨(h.validOf (o := .free) hm).aligned, h.apart (o := .free) (Ne.symm hf) hm⟩
    · exact ⟨(h.validOf hm).aligned, h.apart (Ne.symm hpi) hm⟩
  have hroot : ∀ j, j ≠ i → s'.root j = s.root j := by
    intro j hj
    unfold Kernel.root
    rw [hp.other j hj]
  have hlive : ∀ j, j ≠ i → (s'.Live j ↔ s.Live j) := by
    intro j hj
    unfold Kernel.Live
    rw [hp.other j hj]
  have he0 : ∀ t ∈ tables (entries s.ram.mem) (s.root 0), ∀ k < 512,
      entries s'.ram.mem t k = entries s.ram.mem t k :=
    h.kernel.toTreeOk.entries_eq hp.mem fun p hpD => hapart p hpD .kernelMap nofun nofun
  have he : ∀ j, j ≠ i → s.Live j → ∀ t ∈ tables (entries s.ram.mem) (s.root j), ∀ k < 512,
      entries s'.ram.mem t k = entries s.ram.mem t k := fun j hj hlj =>
    (h.process j hlj).space.toTreeOk.entries_eq hp.mem fun p hpD => by
      obtain ⟨hal, hnot⟩ := hapart p hpD (.process j) nofun fun he => hj (Owner.process.inj he)
      exact ⟨hal, fun ht => hnot (table_mem hlj ht)⟩
  have huser : ∀ j, j ≠ i → s.Live j → s'.userPage j = s.userPage j := by
    intro j hj hlj
    unfold Kernel.userPage
    rw [hroot j hj, (h.process j hlj).space.wf.walk_untouched (he j hj hlj)]
  have hpages : ∀ (l l' : List Nat) o, o ≠ .free → o ≠ .process i →
      s'.pagesOf l' o = s.pagesOf l o := by
    intro l l' o hf hpi
    cases o with
    | free => exact absurd rfl hf
    | fcbTable => simp only [Kernel.pagesOf, hp.fcbTable]
    | fileDescTable => simp only [Kernel.pagesOf, hp.fileDescTable]
    | kernelMap =>
        simp only [Kernel.pagesOf, hroot 0 (Ne.symm hi)]
        exact tables_congr he0
    | process j =>
        have hj : j ≠ i := fun he => hpi (he ▸ rfl)
        by_cases hlj : s.Live j
        · have hstack : s'.stackPage j = s.stackPage j := by
            unfold Kernel.stackPage
            rw [hp.other j hj]
          rw [Kernel.pagesOf_live hlj, Kernel.pagesOf_live ((hlive j hj).mpr hlj), hstack,
            huser j hj hlj, hroot j hj, tables_congr (he j hj hlj)]
        · rw [Kernel.pagesOf_dead hlj, Kernel.pagesOf_dead fun hl' => hlj ((hlive j hj).mp hl')]
  refine ⟨⟨hfree, ?_, h.valid, ?_, ?_, ?_, ?_, ?_, hl⟩, huser, hpages [] [],
    fun o hf hpi p hpo x hx => ?_⟩
  · exact h.pages.transfer (o := .free) (u := .process i) (Owner.mem_all _) (Owner.mem_all _) nofun
      Owner.all_nodup hperm fun o _ hf hpi => hpages free free' o hf hpi
  · rw [hp.fcbTable]
    exact h.fcbTable
  · rw [hp.fileDescTable]
    exact h.fileDescTable
  · rw [hp.other 0 (Ne.symm hi), hroot 0 (Ne.symm hi)]
    exact h.pageMap
  · rw [hroot 0 (Ne.symm hi)]
    exact h.kernel.congr he0
  · intro j hlj
    by_cases hj : j = i
    · rw [hj]
      exact hproc (hj ▸ hlj)
    · have hlj := (hlive j hj).mp hlj
      have hpj := h.process j hlj
      refine ⟨?_, ?_, ?_, ?_⟩
      · unfold Kernel.stackPage
        rw [hp.other j hj]
        exact hpj.stack
      · rw [hp.other j hj, hroot j hj]
        exact hpj.pageMap
      · rw [hp.other j hj]
        exact hpj.tf
      · rw [hroot j hj, huser j hj hlj]
        exact hpj.space.congr (he j hj hlj)
  · rw [Kernel.pagesOf_held hf (l := free)] at hpo
    exact hp.mem.page (h.validOf hpo).aligned (fun hpD => (hapart p hpD o hf hpi).2 hpo)
      (fun q hq => (hapart q hq o hf hpi).1) hx

end MemOk

end Os64
