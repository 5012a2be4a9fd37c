/-
  fork: the child is a copy of its parent.

  * `fork_fledges`: up to the descriptor loop. Either there is no slot or there are no pages, or
    `dressChild` is left to run on a state in which the child has its pages.
  * `dressChild_shared`: the rest, for a descriptor loop that stores to data pages.
  * `fork_run`: on a state with the invariants of scheduler, memory and files, `fork` either fails
    for want of a slot or of pages, or ends in a state with the invariants in which the new process
    is a duplicate of the current one (`Forked`).
-/
import Os64.Files.Kept
import Os64.Proc.Create
import Os64.Sched.Refine
import Os64.Sched.Sane

namespace Os64

open Os64.Lib

variable {K : Image}

/-- From `s` to `s'` process `p` was duplicated in slot `i`. -/
structure Forked (p i : Slot) (s s' : Kernel) : Prop where
  page : ∀ k < pageSize, s'.ram.mem (s'.userPage i + k) = s.ram.mem (s.userPage p + k)
  frame : s'.frame i = { s.frame p with rax := 0 }
  file : (s'.processTable i).file = (s.processTable p).file
  /-- Other processes keep their pages, and these their contents. -/
  userPage : ∀ j, s.Live j → s'.userPage j = s.userPage j
  mem : ∀ j, s.Live j → ∀ q ∈ s.pagesOf [] (.process j), ∀ x, InPage q x →
    s'.ram.mem x = s.ram.mem x
  other : ∀ j, j ≠ i → (s'.processTable j).file = (s.processTable j).file ∧
    (s'.processTable j).pageMap = (s.processTable j).pageMap ∧
    (s'.processTable j).stack = (s.processTable j).stack ∧
    (s'.processTable j).tf = (s.processTable j).tf

theorem Rep.setRam {s : Kernel} {a : Sched} (h : Rep s a) (r : Ram) : Rep { s with ram := r } a :=
  h.of_same rfl rfl rfl rfl rfl

section Fork

variable {pool free : List Nat} {s : Kernel} {a : Sched} {S : Handles}

theorem Keeps.still {s s' : Kernel} (h : Keeps s s') (hl : ∀ i, s'.Live i ↔ s.Live i) :
    Still [] s s' :=
  ⟨h.fcbTable, h.fileDescTable, hl, h.pageMap, h.stack, h.tf, by rw [h.ram], by
    rw [h.ram]
    exact .refl _ _, h.loaded⟩

/-- A free page is not in the tables of file.c. -/
theorem MemOk.free_off_tables (h : MemOk K pool free s) {p : Nat} (hp : p ∈ free) :
    p % pageSize = 0 ∧ p ≠ v2p s.fcbTable ∧ p ≠ v2p s.fileDescTable := by
  refine ⟨(h.validOf (o := .free) hp).aligned, fun he => ?_, fun he => ?_⟩
  · exact h.apart (o := .free) (u := .fcbTable) nofun hp (List.mem_singleton.mpr he)
  · exact h.apart (o := .free) (u := .fileDescTable) nofun hp (List.mem_singleton.mpr he)

/-- The space of a process that is not the new one. -/
theorem Born.space {s₁ : Kernel} {i j : Slot} {free' : List Nat} {p root : Nat}
    (h : MemOk K pool free s) (hb : Born K s s₁ i free free' p root) (hl : s.Live j) :
    Space K s₁.ram.mem (s.root j) (s.userPage j) ∧
      ∀ q, InPage (s.userPage j) q → s₁.ram.mem q = s.ram.mem q := by
  obtain ⟨ts, hts, -, hagree⟩ := hb.taken
  have hD : ∀ q ∈ p :: ts, q ∈ free := fun q hq => by
    rw [hts]
    exact List.mem_append_left _ hq
  have hal : ∀ q ∈ p :: ts, q % pageSize = 0 := fun q hq =>
    (h.validOf (o := .free) (hD q hq)).aligned
  refine ⟨(h.process j hl).space.congr ((h.process j hl).space.toTreeOk.entries_eq hagree
    fun q hq => ⟨hal q hq, (h.free_apart (hD q hq) hl).2.2⟩), fun x hx => ?_⟩
  exact hagree.page (h.validOf (o := .process j) (MemOk.userPage_mem hl)).aligned
    (fun hm => (h.free_apart (hD _ hm) hl).2.1 rfl) hal hx

/-- The parent's page and tables are none of the new process's pages. -/
theorem Born.parent_apart {s₁ : Kernel} {i j : Slot} {free' : List Nat} {p root : Nat}
    (h : MemOk K pool free s) (hb : Born K s s₁ i free free' p root) (hl : s.Live j) :
    ∀ t ∈ s.userPage j :: tables (entries s₁.ram.mem) (s.root j),
      t ∉ free' ∧ t ∉ tables (entries s₁.ram.mem) root := by
  obtain ⟨ts, hts, -, hagree⟩ := hb.taken
  have hD : ∀ q ∈ p :: ts, q ∈ free := fun q hq => by
    rw [hts]
    exact List.mem_append_left _ hq
  have htab : tables (entries s₁.ram.mem) (s.root j) = tables (entries s.ram.mem) (s.root j) :=
    tables_congr ((h.process j hl).space.toTreeOk.entries_eq hagree fun q hq =>
      ⟨(h.validOf (o := .free) (hD q hq)).aligned, (h.free_apart (hD q hq) hl).2.2⟩)
  have key : ∀ q ∈ free, ∀ t ∈ s.userPage j :: tables (entries s₁.ram.mem) (s.root j), t ≠ q := by
    intro q hq t ht he
    have hap := h.free_apart hq hl
    rcases List.mem_cons.mp ht with rfl | ht
    · exact hap.2.1 he.symm
    · rw [htab] at ht
      exact hap.2.2 (he ▸ ht)
  intro t ht
  refine ⟨fun hf => key t ?_ t ht rfl, fun hr => key t (hb.mem_free (Or.inr hr)) t ht rfl⟩
  rw [hts]
  exact List.mem_append_right _ hf

/-- Up to the copy of the user page: what `fork` has after `copy_uvm`. -/
theorem copyStage_run (h : MemOk K pool free s) {s₁ : Kernel} {i p : Slot} {free' : List Nat}
    {page root : Nat} (hb : Born K s s₁ i free free' page root) (hi : i ≠ 0)
    (hp : p = s.pc.currentProcess) (hl : s.Live p) :
    (free.length < 7 ∧ ∀ v r', copyUvm K (s₁.processTable i).pageMap (s₁.processTable p).pageMap
        pageSize s₁.ram = .ok v r' → v = false) ∨
      ∃ r₂ free₂, copyUvm K (s₁.processTable i).pageMap (s₁.processTable p).pageMap pageSize s₁.ram =
          .ok true r₂ ∧ Handed K pool free₂ i s { s₁ with ram := r₂ } ∧
        ({ s₁ with ram := r₂ } : Kernel).Live i ∧
        (∀ k < pageSize, r₂.mem (({ s₁ with ram := r₂ } : Kernel).userPage i + k) =
          s.ram.mem (s.userPage p + k)) ∧ free.length ≤ free₂.length + 7 ∧
        AgreeOff free s.ram.mem r₂.mem := by
  have hpi : p ≠ i := fun he => hl.2 (he ▸ hb.unused)
  have hpar := h.process p hl
  obtain ⟨hspace, hsame⟩ := hb.space h hl
  have hap := hb.parent_apart h hl
  have hmap : (s₁.processTable p).pageMap = p2v (s.root p) := by
    rw [hb.other hpi]
    exact hpar.pageMap
  have hmap' : (s₁.processTable i).pageMap = p2v root := by
    rw [hb.processTable, Function.update_self]
  have hlen := hb.length_le
  rw [hmap, hmap']
  rcases copyUvm_run (hb.mapOk h.freeList) hb.map hspace (fun t ht => (hap t ht).1)
    (fun t ht => (hap t ht).2) with ⟨hlt, hfail⟩ | ⟨upage, r₂, free₂, hrun, hh, hle, hcopy⟩
  · exact Or.inl ⟨by omega, hfail⟩
  · obtain ⟨hmem, hlive, hup, -⟩ := hb.housed h hi (hp ▸ hpi) hh
    refine Or.inr ⟨r₂, free₂, hrun, hmem, hlive, fun k hk => ?_, by omega, hb.housed_mem hh⟩
    rw [hup, hcopy k hk]
    exact hsame _ ⟨by omega, by omega⟩

/-- A copied frame with another `rax`. -/
theorem frameAt_copy (m : Mem) (dst src x : Nat) (hx : x < 2 ^ 64) :
    frameAt (store (copy m dst src trapFrameSize) (dst + 112) 8 x) dst =
      { frameAt m src with rax := x } := by
  have hword : ∀ o, o + 8 ≤ 176 → (o + 8 ≤ 112 ∨ 120 ≤ o) →
      load (store (copy m dst src trapFrameSize) (dst + 112) 8 x) (dst + o) 8 = load m (src + o) 8 := by
    intro o ho hne
    rw [load_store_of_disjoint _ _ _ _ (by omega), load_copy m (by omega) (by
      unfold trapFrameSize
      omega), Nat.add_sub_cancel_left]
  have hrax : load (store (copy m dst src trapFrameSize) (dst + 112) 8 x) (dst + 112) 8 = x := by
    rw [load_store_self]
    exact Nat.mod_eq_of_lt hx
  have h0 := hword 0 (by omega) (by omega)
  rw [Nat.add_zero, Nat.add_zero] at h0
  unfold frameAt
  rw [TrapFrame.mk.injEq]
  exact ⟨h0, hword 8 (by omega) (by omega), hword 16 (by omega) (by omega),
    hword 24 (by omega) (by omega), hword 32 (by omega) (by omega), hword 40 (by omega) (by omega),
    hword 48 (by omega) (by omega), hword 56 (by omega) (by omega), hword 64 (by omega) (by omega),
    hword 72 (by omega) (by omega), hword 80 (by omega) (by omega), hword 88 (by omega) (by omega),
    hword 96 (by omega) (by omega), hword 104 (by omega) (by omega), hrax,
    hword 120 (by omega) (by omega), hword 128 (by omega) (by omega), hword 136 (by omega) (by omega),
    hword 144 (by omega) (by omega), hword 152 (by omega) (by omega), hword 160 (by omega) (by omega),
    hword 168 (by omega) (by omega)⟩

/-- The frame of the child: that of its parent, with the result 0. -/
theorem copyFrame_run (h : MemOk K pool free s) {i p : Slot} (hl : s.Live p) (hl' : s.Live i) :
    ∃ r₁ r₂, kmemcpy (s.processTable i).tf (s.processTable p).tf trapFrameSize s.ram = .ok () r₁ ∧
      kstore ((s.processTable i).tf + tfRax) 8 0 r₁ = .ok () r₂ ∧
      Wrote [s.stackPage i] s.ram r₂ ∧ frameAt r₂.mem (s.frameAddr i) = { s.frame p with rax := 0 } := by
  have hv := h.stackValid hl
  have hv' := h.stackValid hl'
  obtain ⟨h1, h2⟩ := frameAddr_end s p
  obtain ⟨h1', h2'⟩ := frameAddr_end s i
  have htf := h.tf_eq hl
  have htf' := h.tf_eq hl'
  have hcopy := kmemcpy_run (hv'.kernelPtr (a := s.frameAddr i) (n := trapFrameSize) (by omega) htf')
    (hv.kernelPtr (a := s.frameAddr p) (n := trapFrameSize) (by omega) htf) s.ram
  have hts : trapFrameSize = 176 := rfl
  rw [hv'.v2p_at (a := s.frameAddr i) (by omega) htf',
    hv.v2p_at (a := s.frameAddr p) (by omega) htf] at hcopy
  have hend : s.frameAddr i + 112 + 8 ≤ s.stackPage i + pageSize := by omega
  refine ⟨_, _, hcopy, kstore_page hv' hend (by omega) (by rw [htf']; unfold tfRax; omega) _ 0, ?_,
    frameAt_copy s.ram.mem (s.frameAddr i) (s.frameAddr p) 0 (by omega)⟩
  exact (wrote_copy s.ram (s.frameAddr p) h1' (by omega)).trans (wrote_store _ 0 (by omega) hend)

theorem still_ram {D : List Nat} {r : Ram} (h : Wrote D s.ram r) : Still D s { s with ram := r } :=
  (pokes_ram (fun _ => True) h).still

/-- Fields of a process that memory does not depend on. -/
theorem still_setProcess (s : Kernel) (i : Slot) {f : Process → Process}
    (hst : (f (s.processTable i)).state = .unused ↔ (s.processTable i).state = .unused)
    (hmap : (f (s.processTable i)).pageMap = (s.processTable i).pageMap)
    (hstack : (f (s.processTable i)).stack = (s.processTable i).stack)
    (htf : (f (s.processTable i)).tf = (s.processTable i).tf) : Still [] s (s.setProcess i f) := by
  have hup : ∀ {β : Type} (g : Process → β), g (f (s.processTable i)) = g (s.processTable i) →
      ∀ j, g ((s.setProcess i f).processTable j) = g (s.processTable j) := by
    intro β g hg j
    by_cases hj : j = i
    · subst hj
      simp [Kernel.setProcess, hg]
    · simp [Kernel.setProcess, Function.update_of_ne hj]
  refine ⟨rfl, rfl, fun j => ?_, hup _ hmap, hup _ hstack, hup _ htf, rfl, .refl _ _, fun hl => ?_⟩
  · unfold Kernel.Live
    by_cases hj : j = i
    · subst hj
      simp only [Kernel.setProcess, Function.update_self, ne_eq, hst]
    · simp only [Kernel.setProcess, Function.update_of_ne hj]
  · unfold Loaded Kernel.current at *
    rw [hup Process.pageMap hmap, hup Process.stack hstack]
    exact hl

/-- What `fork` has to do in `s` for the child `i` of process `p`, once it has its user page. -/
def dressChild (p i : Slot) (s : Kernel) (v : Int) : KernelM Int := do
  setProcess i fun q => { q with file := (s.processTable p).file }
  low (shareFiles i)
  low (ram (kmemcpy (s.processTable i).tf (s.processTable p).tf trapFrameSize))
  low (ram (kstore ((s.processTable i).tf + tfRax) 8 0))
  setProcess i fun q => { q with state := .ready }
  low (appendListTail .ready i)
  return v

/-- It was done, with stores to `D` that led to `r` when the descriptors were shared. -/
structure DressedBy (D : List Nat) (r : Ram) (p i : Slot) (s s' : Kernel) : Prop where
  still : Still (D ++ [s.stackPage i]) s s'
  mem : AgreeOff [s.stackPage i] r.mem s'.ram.mem
  frame : s'.frame i = { frameAt r.mem (s.frameAddr p) with rax := 0 }
  files : s'.files = Function.update s.files i (s.files p)

theorem dressChild_shared {i p : Slot} {D : List Nat} {r : Ram} (hr : Rep s a)
    (hq : ∀ q, i ∉ a.queue q) (h : MemOk K pool free s) (hl : s.Live p) (hl' : s.Live i)
    (hD : ∀ q ∈ D, s.Data q) (hw : Wrote D s.ram r)
    (hshare : shareFiles i (s.setProcess i fun q => { q with file := (s.processTable p).file }) =
      .ok () { s.setProcess i fun q => { q with file := (s.processTable p).file } with ram := r })
    (v : Int) : ∃ s', dressChild p i s v s = .ok v s' ∧
      Rep s' ((a.become i .ready).enqueue .ready i) ∧ DressedBy D r p i s s' := by
  -- the descriptors
  let s₃ := s.setProcess i fun q => { q with file := (s.processTable p).file }
  have st₃ : Still [] s s₃ := still_setProcess s i Iff.rfl rfl rfl rfl
  have hr₃ : Rep s₃ a := hr.setOther i fun _ => ⟨rfl, rfl, rfl, rfl, rfl⟩
  have st₄ : Still D s { s₃ with ram := r } :=
    (st₃.mono nofun).trans (still_ram (s := s₃) hw)
  have m₄ := (h.still st₄ hD).memOk
  have hlive₄ : ∀ j, s.Live j → ({ s₃ with ram := r } : Kernel).Live j := fun j hj =>
    (st₄.live j).mpr hj
  -- the frame
  obtain ⟨r₅, r₆, hrun₅, hrun₆, hw₆, hframe⟩ := copyFrame_run m₄ (hlive₄ p hl) (hlive₄ i hl')
  have st₆ : Still [s.stackPage i] { s₃ with ram := r } { s₃ with ram := r₆ } := by
    have := still_ram hw₆
    rw [st₄.stackPage] at this
    exact this
  -- the ready list
  let s₇ := ({ s₃ with ram := r₆ } : Kernel).setProcess i fun q => { q with state := .ready }
  have hu : (s.processTable i).state ≠ .unused := hl'.2
  have st₇ : Still [] { s₃ with ram := r₆ } s₇ :=
    still_setProcess _ i ⟨nofun, fun he => absurd he (by
      simp only [s₃, Kernel.setProcess, Function.update_self]
      exact hu)⟩ rfl rfl rfl
  have hr₇ : Rep s₇ (a.become i .ready) := (hr₃.setRam r₆).becomeRun i .ready
  obtain ⟨s', hrun', hr', hk⟩ := appendListTail_rep (q := .ready) hr₇ hq
  have st' : Still [] s₇ s' := hk.still fun j => by
    unfold Kernel.Live
    rw [hr'.state, hr₇.state]
    rfl
  have hrest : Still [s.stackPage i] { s₃ with ram := r } s' :=
    (st₆.trans (st₇.mono nofun)).trans (st'.mono nofun)
  have hall : Still (D ++ [s.stackPage i]) s s' :=
    (st₄.mono (List.subset_append_left _ _)).trans (hrest.mono (List.subset_append_right _ _))
  refine ⟨s', ?_, hr', hall, hrest.mem, ?_, ?_⟩
  · have h5 : low (ram (kmemcpy (s.processTable i).tf (s.processTable p).tf trapFrameSize))
        { s₃ with ram := r } = .ok () { s₃ with ram := r₅ } := by
      rw [← st₄.tf i, ← st₄.tf p]
      exact low_run (ram_run hrun₅)
    have h6 : low (ram (kstore ((s.processTable i).tf + tfRax) 8 0)) { s₃ with ram := r₅ } =
        .ok () { s₃ with ram := r₆ } := by
      rw [← st₄.tf i]
      exact low_run (ram_run (s := { s₃ with ram := r₅ }) hrun₆)
    unfold dressChild
    rw [bind_run (setProcess_run i _ s), bind_run (low_run hshare), bind_run h5, bind_run h6,
      bind_run (setProcess_run i _ _), bind_run (low_run hrun')]
    rfl
  · have haddr : ∀ j, ({ s₃ with ram := r } : Kernel).frameAddr j = s.frameAddr j := fun j => by
      unfold Kernel.frameAddr
      rw [st₄.stackPage]
    have haddr' : s'.frameAddr i = s.frameAddr i := by
      unfold Kernel.frameAddr
      rw [hall.stackPage]
    have hmem : s'.ram.mem = r₆.mem := by rw [hk.ram]; rfl
    unfold Kernel.frame at hframe ⊢
    rw [haddr', hmem, ← haddr i, hframe, haddr p]
  · have hfiles₃ : s₃.files = Function.update s.files i (s.files p) := setProcess_files s i _
    have h7 : s₇.files = s₃.files := by
      rw [setProcess_files]
      exact Function.update_eq_self i _
    rw [← hfiles₃, ← h7]
    exact funext hk.file

/-- What `fork` does to the child once it has its user page. -/
structure Dressed (K : Image) (pool free : List Nat) (p i : Slot) (s s' : Kernel) : Prop where
  still : Still [v2p s.fcbTable, v2p s.fileDescTable, s.stackPage i] s s'
  stays : Stays K pool free s s'
  frame : s'.frame i = { s.frame p with rax := 0 }
  files : s'.files = Function.update s.files i (s.files p)

theorem dressChild_run {i p : Slot} (hr : Rep s a) (hq : ∀ q, i ∉ a.queue q)
    (h : MemOk K pool free s) (hf : FilesOk s S) (hblank : s.files i = fun _ => 0)
    (hl : s.Live p) (hl' : s.Live i) (hne : p ≠ i) (v : Int) :
    ∃ s' S', dressChild p i s v s = .ok v s' ∧
      Rep s' ((a.become i .ready).enqueue .ready i) ∧ FilesOk s' S' ∧
      Dressed K pool free p i s s' ∧ Settled (fun _ => False) s s' := by
  let s₃ := s.setProcess i fun q => { q with file := (s.processTable p).file }
  have st₃ : Still [] s s₃ := still_setProcess s i Iff.rfl rfl rfl rfl
  have hfiles₃ : s₃.files = Function.update s.files i (s.files p) := setProcess_files s i _
  have hrep₃ : FileRep s₃.ram.mem (v2p s.fcbTable) (v2p s.fileDescTable)
      (Function.update s₃.files i fun _ => 0) S := by
    rw [hfiles₃, Function.update_idem, ← hblank, Function.update_eq_self]
    exact hf.rep
  obtain ⟨_, s₄, hrun₄, S', hch⟩ := (shareFiles_ends hrep₃ hf.ok h.tablePages hne (by
    rw [hfiles₃, Function.update_self, Function.update_of_ne hne])).run
  have hdata₄ : ∀ q ∈ [v2p s.fcbTable, v2p s.fileDescTable], s.Data q := fun q hq =>
    Kernel.tablePages_data hq
  have st₄ : Still [v2p s.fcbTable, v2p s.fileDescTable] s { s₃ with ram := s₄.ram } :=
    (st₃.mono nofun).trans (still_ram (s := s₃) hch.wrote)
  have m₄ := (h.still st₄ hdata₄).memOk
  rw [hch.same] at hrun₄
  obtain ⟨s', hrun, hr', hd⟩ := dressChild_shared hr hq h hl hl' hdata₄ hch.wrote hrun₄ v
  have hall := hd.still
  have hdata : ∀ q ∈ [v2p s.fcbTable, v2p s.fileDescTable] ++ [s.stackPage i], s.Data q := by
    intro q hq
    rcases List.mem_append.mp hq with hq | hq
    · exact hdata₄ q hq
    · exact Or.inr (Or.inr ⟨i, hl', Or.inl (List.mem_singleton.mp hq)⟩)
  have hset : Settled (fun _ => False) s s' := by
    have same₃ : TablesSame s s₃ := ⟨rfl, rfl, fun _ _ _ _ => rfl, fun _ _ => rfl⟩
    have set₄ : Settled (fun _ => False) s₃ { s₃ with ram := s₄.ram } :=
      Counted.settled h.tablePages rfl rfl hrep₃ hch.rep hch.counted hch.link hch.used
    have same' : TablesSame { s₃ with ram := s₄.ram } s' :=
      m₄.tablesSame hall.fcbTable hall.fileDescTable hd.mem fun q hq => by
        rw [List.mem_singleton.mp hq]
        exact ⟨h.stackValid hl', fun hin => (h.tables_off_stack hl' _ hin).2 rfl⟩
    exact (same₃.settled.trans set₄).trans same'.settled
  refine ⟨s', S', hrun, hr', ?_, ⟨hall, h.still hall hdata, ?_, hd.files⟩, hset⟩
  · -- the counts
    have hoff := h.tables_off_stack hl'
    have hfree : ∀ q ∈ [s.stackPage i], q % pageSize = 0 ∧ q ≠ v2p s.fcbTable ∧
        q ≠ v2p s.fileDescTable := by
      intro q hq
      rw [List.mem_singleton.mp hq]
      exact ⟨(h.stackValid hl').aligned,
        fun he => (hoff _ List.mem_cons_self).2 he.symm,
        fun he => (hoff _ (List.mem_cons_of_mem _ List.mem_cons_self)).2 he.symm⟩
    have hrep := hch.rep.off h.tablePages hd.mem hfree
    rw [Function.update_eq_self, hfiles₃, ← hd.files] at hrep
    refine .of_tables hall.fcbTable hall.fileDescTable hrep hch.ok fun j hj fd => ?_
    have hlj : ¬ s.Live j := fun hl => hj ((hall.live j).mpr hl)
    have hji : j ≠ i := fun he => hlj (he ▸ hl')
    have hrow : (s'.processTable j).file = (s.processTable j).file := by
      have := congrFun hd.files j
      rw [Function.update_of_ne hji] at this
      exact this
    rw [hrow]
    exact hf.blank j hlj fd
  · -- the frame
    have hpar : ({ s₃ with ram := s₄.ram } : Kernel).frame p = s.frame p :=
      st₄.frame h hl (h.tables_off_stack hl)
    have haddr : ({ s₃ with ram := s₄.ram } : Kernel).frameAddr p = s.frameAddr p := by
      unfold Kernel.frameAddr
      rw [st₄.stackPage]
    rw [hd.frame, ← hpar]
    unfold Kernel.frame
    rw [haddr]

/-- The dressed child is a duplicate of its parent. -/
theorem Dressed.forked {i p : Slot} {free₂ : List Nat} {s₂ s' : Kernel} (h : MemOk K pool free s)
    (hl : s.Live p) (hm : Handed K pool free₂ i s s₂) (hl₂ : s₂.Live i)
    (hlive : ∀ j, s.Live j → j ≠ i ∧ s₂.Live j)
    (hother : ∀ j, j ≠ i → s₂.processTable j = s.processTable j) (hfiles : s₂.files = s.files)
    (hpage : ∀ k < pageSize, s₂.ram.mem (s₂.userPage i + k) = s.ram.mem (s.userPage p + k))
    (hd : Dressed K pool free₂ p i s₂ s') : Forked p i s s' := by
  have h₂ := hm.memOk
  have hstack : ∀ j, j ≠ i → s₂.stackPage j = s.stackPage j := by
    intro j hj
    unfold Kernel.stackPage
    rw [hother j hj]
  -- the pages that dressing wrote
  have hD : ∀ q ∈ [v2p s₂.fcbTable, v2p s₂.fileDescTable, s₂.stackPage i],
      q % pageSize = 0 ∧ q ≠ s₂.userPage i ∧ ∀ j, j ≠ i → q ∉ s₂.pagesOf [] (.process j) := by
    have key : ∀ o, o ≠ .free → (∀ j, o = .process j → j = i) → ∀ q ∈ s₂.pagesOf free₂ o,
        (o = .process i → q = s₂.stackPage i) →
        q % pageSize = 0 ∧ q ≠ s₂.userPage i ∧ ∀ j, j ≠ i → q ∉ s₂.pagesOf [] (.process j) := by
      intro o hf ho q hq hstk
      refine ⟨(h₂.validOf hq).aligned, fun he => ?_, fun j hj hm' => ?_⟩
      · by_cases hoi : o = .process i
        · exact (h₂.within hl₂).1 ((hstk hoi).symm.trans he)
        · exact h₂.apart (u := .process i) hoi hq (he ▸ MemOk.userPage_mem hl₂)
      · rw [Kernel.pagesOf_held (o := .process j) (l := free₂) nofun] at hm'
        exact h₂.apart (u := .process j) (fun he => hj (ho j he)) hq hm'
    intro q hq
    rcases List.mem_cons.mp hq with he | hq
    · exact key .fcbTable nofun nofun q (List.mem_singleton.mpr he) nofun
    · rcases List.mem_cons.mp hq with he | hq
      · exact key .fileDescTable nofun nofun q (List.mem_singleton.mpr he) nofun
      · refine key (.process i) nofun (fun j he => (Owner.process.inj he).symm) q ?_
          fun _ => List.mem_singleton.mp hq
        rw [List.mem_singleton.mp hq]
        exact MemOk.stackPage_mem hl₂
  have hmem : ∀ j, s.Live j → ∀ q ∈ s.pagesOf [] (.process j), ∀ x, InPage q x →
      s'.ram.mem x = s.ram.mem x := by
    intro j hj q hq x hx
    obtain ⟨hji, -⟩ := hlive j hj
    have hne : Owner.process j ≠ .process i := fun he => hji (Owner.process.inj he)
    rw [← hm.mem (.process j) nofun hne q hq x hx]
    have hq₂ : q ∈ s₂.pagesOf [] (.process j) := by
      rw [hm.pagesOf (.process j) nofun hne]
      exact hq
    have hval : q % pageSize = 0 := by
      rw [Kernel.pagesOf_held (o := .process j) (l := free) nofun] at hq
      exact (h.validOf hq).aligned
    exact hd.still.mem.page hval (fun hqD => (hD q hqD).2.2 j hji hq₂) (fun r hr => (hD r hr).1) hx
  refine ⟨fun k hk => ?_, ?_, ?_, fun j hj => ?_, hmem, fun j hj => ?_⟩
  · rw [← hpage k hk, hd.stays.userPage i hl₂]
    refine hd.still.mem.page (h₂.validOf (o := .process i) (MemOk.userPage_mem hl₂)).aligned
      (fun hqD => (hD _ hqD).2.1 rfl) (fun r hr => (hD r hr).1) ⟨by omega, by omega⟩
  · rw [hd.frame]
    have hpi := (hlive p hl).1
    have hframe : s₂.frame p = s.frame p := by
      obtain ⟨h1, h2⟩ := frameAddr_end s p
      have haddr : s₂.frameAddr p = s.frameAddr p := by
        unfold Kernel.frameAddr
        rw [hstack p hpi]
      unfold Kernel.frame
      rw [haddr]
      refine frameAt_congr fun x hx1 hx2 => ?_
      exact hm.mem (.process p) nofun (fun he => hpi (Owner.process.inj he)) _
        (MemOk.stackPage_mem hl) x ⟨by omega, by omega⟩
    rw [hframe]
  · have hrow := congrFun hd.files i
    rw [Function.update_self, hfiles] at hrow
    exact hrow
  · obtain ⟨hji, hlj⟩ := hlive j hj
    rw [hd.stays.userPage j hlj, hm.userPage j hji hj]
  · have hrow := congrFun hd.files j
    rw [Function.update_of_ne hj, hfiles] at hrow
    refine ⟨hrow, ?_, ?_, ?_⟩
    · rw [hd.still.pageMap, hother j hj]
    · rw [hd.still.stack, hother j hj]
    · rw [hd.still.tf, hother j hj]

/-- In `s₂` the current process of `s` has a child `i` with a copy of its user page, still to be
    dressed. -/
structure Fledged (K : Image) (pool free free₂ : List Nat) (a : Sched) (i : Slot) (s s₂ : Kernel) :
    Prop where
  found : findUnusedProcess s = some i
  unused : a.state i = .unused
  rep : Rep s₂ (a.newborn i)
  handed : Handed K pool free₂ i s s₂
  live : s₂.Live i
  lives : ∀ j, s.Live j → j ≠ i ∧ s₂.Live j
  other : ∀ j, j ≠ i → s₂.processTable j = s.processTable j
  files : s₂.files = s.files
  page : ∀ k < pageSize,
    s₂.ram.mem (s₂.userPage i + k) = s.ram.mem (s.userPage s.pc.currentProcess + k)
  length : free.length ≤ free₂.length + 7
  mem : AgreeOff free s.ram.mem s₂.ram.mem
  same : s₂ = { s with
    ram := s₂.ram
    processTable := s₂.processTable
    pidNum := s₂.pidNum
    hist := s₂.hist }
  run : fork K s = dressChild s.pc.currentProcess i s₂ a.pidNum s₂

/-- Up to there `fork` fails for want of a slot or of pages, or succeeds. -/
theorem fork_fledges (hr : Rep s a) (ha : a.Sane) (h : MemOk K pool free s) (hc : a.current ≠ 0) :
    ((free.length < 7 ∨ findUnusedProcess s = none) ∧ ∀ v s', fork K s ≠ .ok v s') ∨
      ∃ i s₂ free₂, Fledged K pool free free₂ a i s s₂ := by
  have hl : s.Live s.pc.currentProcess := by
    refine ⟨hr.current ▸ hc, ?_⟩
    rw [hr.state, hr.current, ha.current_running]
    exact nofun
  cases hfind : findUnusedProcess s with
  | none =>
      refine Or.inl ⟨Or.inr rfl, fun v s' hrun => ?_⟩
      have hnone : allocNewProcess K s = .ok none s := by
        unfold allocNewProcess
        rw [bind_run (get_run s)]
        simp only [hfind]
        rfl
      unfold fork at hrun
      rw [bind_run (get_run s), bind_run (low_run hnone)] at hrun
      cases hrun
  | some i =>
      have hu := findUnused hr hfind
      have hi := ha.unused_ne hu
      rcases allocNewProcess_run h.freeList hfind with
        ⟨hlt, hnone⟩ | ⟨s₁, page, root, free₁, halloc, hb⟩
      · refine Or.inl ⟨Or.inl (by omega), fun v s' hrun => ?_⟩
        unfold fork at hrun
        rw [bind_run (get_run s)] at hrun
        obtain ⟨o, s₁, ho, hrest⟩ := bind_ok.mp hrun
        obtain ⟨s₁', ho, -⟩ := onPart_ok.mp ho
        rw [hnone o s₁' ho] at hrest
        cases hrest
      · have hpi : s.pc.currentProcess ≠ i := fun he => hl.2 (he ▸ hb.unused)
        rcases copyStage_run h hb hi rfl hl with
          ⟨hlt, hfail⟩ | ⟨r₂, free₂, hcopy, hmem₂, hlive₂, hpage, hlen, hagree⟩
        · refine Or.inl ⟨Or.inl hlt, fun v s' hrun => ?_⟩
          unfold fork at hrun
          rw [bind_run (get_run s), bind_run (low_run halloc)] at hrun
          dsimp only at hrun
          rw [bind_run (get_run s₁)] at hrun
          obtain ⟨copied, s₂, hcop, hrest⟩ := bind_ok.mp hrun
          obtain ⟨_, hcop, -⟩ := onPart_ok.mp hcop
          obtain ⟨r₂, hcop, -⟩ := onPart_ok.mp hcop
          rw [hfail copied r₂ hcop] at hrest
          obtain ⟨_, _, hassert, -⟩ := bind_ok.mp hrest
          exact absurd (ensure_ok.mp hassert).1 (by decide)
        · obtain ⟨-, hr₁⟩ := (allocNewProcess_ends hr).ok halloc i rfl
          refine Or.inr ⟨i, { s₁ with ram := r₂ }, free₂, hfind, hu, hr₁.setRam r₂, hmem₂, hlive₂,
            fun j hj => ?_, fun j hj => hb.other hj, ?_, hpage, hlen, hagree, ?_, ?_⟩
          · have hji : j ≠ i := fun he => hj.2 (he ▸ hb.unused)
            refine ⟨hji, hj.1, ?_⟩
            change (s₁.processTable j).state ≠ .unused
            rw [hb.other hji]
            exact hj.2
          · funext j
            change (s₁.processTable j).file = (s.processTable j).file
            by_cases hj : j = i
            · rw [hj, hb.processTable, Function.update_self]
            · rw [hb.other hj]
          · rw [hb.same]
          · have hpid : (s₁.processTable i).pid = a.pidNum := by
              rw [hb.processTable, Function.update_self, hr.pidNum]
            unfold fork
            rw [bind_run (get_run s), bind_run (low_run halloc)]
            dsimp only
            rw [bind_run (get_run s₁), bind_run (low_run (ram_run hcopy)),
              bind_run (show assertProcess (true = true) 287 { s₁ with ram := r₂ } =
                .ok () { s₁ with ram := r₂ } from rfl), hpid]
            rfl

/-- `fork` fails for want of a slot or of pages, or duplicates the current process. -/
theorem fork_run (hr : Rep s a) (ha : a.Sane) (h : MemOk K pool free s) (hf : FilesOk s S)
    (hc : a.current ≠ 0) :
    ((free.length < 7 ∨ findUnusedProcess s = none) ∧ ∀ v s', fork K s ≠ .ok v s') ∨
      ∃ i s' free' S', fork K s = .ok a.pidNum s' ∧ findUnusedProcess s = some i ∧
        a.state i = .unused ∧ Rep s' (a.create i) ∧ MemOk K pool free' s' ∧ FilesOk s' S' ∧
        Forked s.pc.currentProcess i s s' ∧ free.length ≤ free'.length + 7 ∧
        (free' ++ s'.pagesOf [] (.process i)).Perm free ∧ s'.Live i ∧
        Settled (fun _ => False) s s' := by
  have hl : s.Live s.pc.currentProcess := by
    refine ⟨hr.current ▸ hc, ?_⟩
    rw [hr.state, hr.current, ha.current_running]
    exact nofun
  refine (fork_fledges hr ha h hc).imp_right ?_
  rintro ⟨i, s₂, free₂, hfl⟩
  have hmem₂ := hfl.handed
  have h₂ := hmem₂.memOk
  have hu := (hr.state i).trans hfl.unused
  have hdead : ¬ s.Live i := fun hl => hl.2 hu
  have hpi := (hfl.lives _ hl).1
  have hF : s₂.fcbTable = s.fcbTable := by rw [hfl.same]
  have hD : s₂.fileDescTable = s.fileDescTable := by rw [hfl.same]
  have hblank : s.files i = fun _ => 0 := funext fun fd => hf.blank i hdead fd
  have hf₂ : FilesOk s₂ S := by
    refine hf.same hF hD hfl.files (fun q hq x hx => ?_) fun j hj fd => ?_
    · rcases List.mem_cons.mp hq with he | hq
      · exact hmem₂.mem .fcbTable nofun nofun q (List.mem_singleton.mpr he) x hx
      · exact hmem₂.mem .fileDescTable nofun nofun q hq x hx
    · have hlj : ¬ s.Live j := fun hl => hj (hfl.lives j hl).2
      have hrow : s₂.files j fd = s.files j fd := by rw [hfl.files]
      exact hrow.trans (hf.blank j hlj fd)
  have hq : ∀ q, i ∉ (a.newborn i).queue q := fun q =>
    Sched.Sane.unused_free (a := a) ha.toListed hfl.unused q
  obtain ⟨s', S', hrun', hr', hf', hd, hset⟩ := dressChild_run (p := s.pc.currentProcess) hfl.rep hq h₂
    hf₂ (by rw [hfl.files, hblank]) (hfl.lives _ hl).2 hfl.live hpi a.pidNum
  rw [newborn_ready] at hr'
  have hlast : (free₂ ++ s'.pagesOf [] (.process i)).Perm free := by
    have hsame : ∀ o ∈ Owner.all, o ≠ .free → o ≠ .process i →
        s'.pagesOf free₂ o = s.pagesOf free o := by
      intro o _ hf ho
      rw [Kernel.pagesOf_held (l := []) hf, hd.stays.pagesOf_held hf, hmem₂.pagesOf o hf ho,
        Kernel.pagesOf_held (l := free) hf]
    have hbal := h.pages.balance hd.stays.memOk.pages (Owner.mem_all .free)
      (Owner.mem_all (.process i)) (by simp) Owner.all_nodup hsame
    rw [Kernel.pagesOf_dead hdead, List.append_nil,
      Kernel.pagesOf_held (o := .process i) (l := []) (by simp)] at hbal
    exact hbal
  refine ⟨i, s', free₂, S', hfl.run.trans hrun', hfl.found, hfl.unused, hr', hd.stays.memOk, hf',
    hd.forked h hl hmem₂ hfl.live hfl.lives hfl.other hfl.files hfl.page, hfl.length, hlast,
    (hd.still.live i).mpr hfl.live, ?_⟩
  have hsame : TablesSame s s₂ := h.tablesSame hF hD hfl.mem fun q hq => by
    obtain ⟨-, hne, hne'⟩ := h.free_off_tables hq
    refine ⟨h.validOf (o := .free) hq, fun hin => ?_⟩
    rcases List.mem_cons.mp hin with he | hin
    · exact hne he
    · exact hne' (List.mem_singleton.mp hin)
  exact hsame.settled.trans hset

end Fork

end Os64
