/-
  The boot establishes the invariant.

  * `initKvm_run`, `initFs_run`, `initProcess_run`: what the stages of `KMain` need and
    leave.
  * `kMain_run`: with twelve usable pages and a signed volume `KMain` succeeds, otherwise
    it does not; after it the invariant holds, and memory that no page of the allocator
    covers is as the loader left it.
-/
import Os64.Files.Volume
import Os64.Mem.Boot
import Os64.Sys.Whole

namespace Os64

open Os64.Lib

variable {K : Image}

/-- The checks of `init_fs`: the volume's first sector is mapped and signed. -/
structure Signed (m : Mem) : Prop where
  mapped : volumeStart m + 0x200 ≤ 2 ^ 30
  low : load m (volumeStart m + 0x1fe) 1 = 0x55
  high : load m (volumeStart m + 0x1ff) 1 = 0xaa

/-! ## Memory that boot does not touch -/

/-- The boot area below the kernel and the image are outside all pages. -/
theorem outside_pages {p x : Nat} (hp : ValidPage K p) (hx : x < 0x200000 ∨ 0x30000000 ≤ x) :
    ¬ InPage p x := by
  have h1 := hp.low_le
  have h2 := hp.below
  unfold InPage
  omega

theorem OffPages.load_eq {m m' : Mem} (h : OffPages K m m') {a n : Nat}
    (ha : a + n ≤ 0x200000 ∨ 0x30000000 ≤ a) : load m' a n = load m a n :=
  load_congr fun x h1 h2 => h x fun _ hp => outside_pages hp (by omega)

theorem OffPages.volumeStart {m m' : Mem} (h : OffPages K m m') : volumeStart m' = volumeStart m := by
  unfold Os64.volumeStart
  rw [h.load_eq (by unfold fsBase; omega)]

/-- A volume inside the image keeps its signature. -/
theorem Signed.off {m m' : Mem} (h : Signed m) (hv : fsBase ≤ Os64.volumeStart m)
    (ho : OffPages K m m') : Signed m' := by
  unfold fsBase at hv
  have hstart := ho.volumeStart
  refine ⟨?_, ?_, ?_⟩
  · rw [hstart]
    exact h.mapped
  · rw [hstart, ho.load_eq (Or.inr (by omega))]
    exact h.low
  · rw [hstart, ho.load_eq (Or.inr (by omega))]
    exact h.high

/-! ## init_kvm -/

section Stages

variable {s : Kernel} {free : List Nat}

theorem initKvm_run (h : FreeList K s.ram free) :
    (free.length < 3 ∧ ∀ s', initKvm K s ≠ .ok () s') ∨
      ∃ root r' free', initKvm K s = .ok () { s with ram := r', cr3 := root } ∧
        KvmMade K s.ram r' free free' root := by
  rcases setupKvm_run h with ⟨hlen, hzero⟩ | ⟨root, r', free', hrun, hm⟩
  · refine Or.inl ⟨hlen, fun s' hrun => ?_⟩
    unfold initKvm at hrun
    obtain ⟨map, s₁, hmap, hrest⟩ := bind_ok.mp hrun
    obtain ⟨r₁, hmap, -⟩ := onPart_ok.mp hmap
    obtain ⟨_, _, hassert, -⟩ := bind_ok.mp hrest
    obtain ⟨_, hassert, -⟩ := onPart_ok.mp hassert
    exact (ensure_ok.mp hassert).1 (hzero map r₁ hmap)
  · have hroot := hm.map.toTreeOk.root_valid
    refine Or.inr ⟨root, r', free', ?_, hm⟩
    have hassert : ram (assertMem (p2v root ≠ 0) 263) { s with ram := r' } =
        .ok () { s with ram := r' } :=
      ram_run (s := { s with ram := r' }) (assertMem_run hroot.p2v_ne_zero 263 r')
    unfold initKvm
    rw [bind_run (ram_run hrun), bind_run hassert, modify_run, hroot.v2p_p2v]

/-! ## init_fs -/

/-- Memory with page `p` off the free list and zeroed. -/
def Ram.taken (r : Ram) (p : Nat) : Ram :=
  { r with freeMemory := load r.mem p 8, mem := fill r.mem p pageSize 0 }

theorem taken_freeList {r : Ram} {p : Nat} {ps : List Nat} (h : FreeList K r (p :: ps)) :
    FreeList K (r.taken p) ps := by
  have hv := h.valid p List.mem_cons_self
  have hpf := (List.nodup_cons.mp h.nodup).1
  refine (kalloc_cons h).2.congr (P := [p]) rfl (agreeOff_fill r.mem 0) fun q hq => ?_
  rw [List.mem_singleton.mp hq]
  exact ⟨hv.aligned, hpf⟩

theorem initTable_run {p : Nat} {ps : List Nat} (h : FreeList K s.ram (p :: ps)) :
    initTable K s = .ok (p2v p) { s with ram := s.ram.taken p } := by
  have hv := h.valid p List.mem_cons_self
  have hfill : ram (kmemset (p2v p) 0 pageSize)
      { s with ram := { s.ram with freeMemory := load s.ram.mem p 8 } } =
        .ok () { s with ram := s.ram.taken p } :=
    ram_run (s := { s with ram := { s.ram with freeMemory := load s.ram.mem p 8 } })
      (kmemset_page hv 0 _)
  unfold initTable
  rw [bind_run (ram_run (kalloc_cons h).1), if_pos hv.p2v_ne_zero, bind_run hfill]
  rfl

theorem initTable_nil (h : FreeList K s.ram []) : initTable K s = .ok 0 s := by
  unfold initTable
  rw [bind_run (ram_run (kalloc_nil h)), if_neg fun hn => hn rfl]
  rfl

/-- Reading the two signature bytes. -/
theorem signature_run {α : Type} (f : Nat → Nat → LowM α)
    (hmap : volumeStart s.ram.mem + 0x200 ≤ 2 ^ 30) :
    (do
      let p ← ram getFsBpb
      let b ← ram (kload (p + 0x1fe) 1)
      let c ← ram (kload (p + 0x1ff) 1)
      f b c : LowM α) s =
      f (load s.ram.mem (volumeStart s.ram.mem + 0x1fe) 1)
        (load s.ram.mem (volumeStart s.ram.mem + 0x1ff) 1) s := by
  have h1 : ram getFsBpb s = .ok (volumeStart s.ram.mem + kernelBase) s :=
    ram_run (getFsBpb_run s.ram)
  have h2 : ram (kload (volumeStart s.ram.mem + kernelBase + 0x1fe) 1) s = .ok _ s :=
    ram_run (kload_volume s.ram (o := 0x1fe) (by omega))
  have h3 : ram (kload (volumeStart s.ram.mem + kernelBase + 0x1ff) 1) s = .ok _ s :=
    ram_run (kload_volume s.ram (o := 0x1ff) (by omega))
  rw [bind_run h1, bind_run h2, bind_run h3]

/-- The kernel with its two file tables in the pages `F` and `D`. -/
def Kernel.withTables (s : Kernel) (F D : Nat) : Kernel :=
  { s with ram := (s.ram.taken F).taken D, fcbTable := p2v F, fileDescTable := p2v D }

theorem initFs_run (h : FreeList K s.ram free) :
    (¬ (Signed s.ram.mem ∧ 2 ≤ free.length) ∧ ∀ s', initFs K s ≠ .ok () s') ∨
      Signed s.ram.mem ∧ ∃ F D free', free = F :: D :: free' ∧
        initFs K s = .ok () (s.withTables F D) := by
  by_cases hmap : volumeStart s.ram.mem + 0x200 ≤ 2 ^ 30
  · have hstart : initFs K s = _ := signature_run _ hmap
    by_cases hsig : load s.ram.mem (volumeStart s.ram.mem + 0x1fe) 1 = 0x55 ∧
        load s.ram.mem (volumeStart s.ram.mem + 0x1ff) 1 = 0xaa
    · have hsigned : Signed s.ram.mem := ⟨hmap, hsig.1, hsig.2⟩
      rw [bind_run (assertFile_run hsig _ s)] at hstart
      match free, h with
      | [], h =>
          refine Or.inl ⟨fun hn => absurd hn.2 (by simp), fun s' hrun => ?_⟩
          rw [hstart, bind_run (initTable_nil h)] at hrun
          obtain ⟨_, _, hassert, -⟩ := bind_ok.mp hrun
          exact (assertFile_ok.mp hassert).1 rfl
      | [F], h =>
          have hv := h.valid F List.mem_cons_self
          refine Or.inl ⟨fun hn => absurd hn.2 (by simp), fun s' hrun => ?_⟩
          rw [hstart, bind_run (initTable_run h), bind_run (assertFile_run hv.p2v_ne_zero _ _),
            bind_run (modify_run _ _),
            bind_run (initTable_nil (s := { s with ram := s.ram.taken F, fcbTable := p2v F })
              (taken_freeList h))] at hrun
          obtain ⟨_, _, hassert, -⟩ := bind_ok.mp hrun
          exact (assertFile_ok.mp hassert).1 rfl
      | F :: D :: free', h =>
          have hF := h.valid F List.mem_cons_self
          have hD := h.valid D (List.mem_cons_of_mem F List.mem_cons_self)
          refine Or.inr ⟨hsigned, F, D, free', rfl, ?_⟩
          rw [hstart, bind_run (initTable_run h), bind_run (assertFile_run hF.p2v_ne_zero _ _),
            bind_run (modify_run _ _),
            bind_run (initTable_run (s := { s with ram := s.ram.taken F, fcbTable := p2v F })
              (taken_freeList h)), bind_run (assertFile_run hD.p2v_ne_zero _ _)]
          rfl
    · refine Or.inl ⟨fun hn => hsig ⟨hn.1.low, hn.1.high⟩, fun s' hrun => ?_⟩
      rw [hstart] at hrun
      obtain ⟨_, _, hassert, -⟩ := bind_ok.mp hrun
      exact hsig (assertFile_ok.mp hassert).1
  · refine Or.inl ⟨fun hn => hmap hn.1.mapped, fun s' hrun => ?_⟩
    -- the last byte of the sector is not mapped
    unfold initFs at hrun
    have hstart : ram getFsBpb s = .ok (volumeStart s.ram.mem + kernelBase) s :=
      ram_run (getFsBpb_run s.ram)
    rw [bind_run hstart] at hrun
    obtain ⟨b, s₁, hb, hrest⟩ := bind_ok.mp hrun
    have hs₁ := (reads_ram (reads_kload _ _)).ok hb
    obtain ⟨c, s₂, hc, -⟩ := bind_ok.mp hrest
    obtain ⟨r₂, hc, -⟩ := onPart_ok.mp hc
    unfold kload at hc
    obtain ⟨_, _, hensure, -⟩ := bind_ok.mp hc
    have hptr := (ensure_ok.mp hensure).1
    unfold KernelPtr at hptr
    omega

end Stages

/-! ## init_process -/

/-- The kernel with the idle process only: its map below `root`, the tables in `F` and `D`. -/
def idleKernel (m : Mem) (r : Ram) (root F D : Nat) : Kernel :=
  { bootKernel m with
    ram := r
    fcbTable := p2v F
    fileDescTable := p2v D
    cr3 := root
    processTable := Function.update (fun _ => Process.zero) 0
      { Process.zero with pid := 0, pageMap := p2v root, state := .running } }

/-- No process holds a descriptor. -/
def noHandles : Handles := ⟨fun _ => none, fun _ => none, fun _ => 0, fun _ => 0⟩

theorem noHandles_ok : noHandles.Ok := by
  refine ⟨fun d => ?_, fun d => ⟨fun _ => rfl, fun _ => rfl⟩, fun c => ?_⟩
  · exact (Finset.card_eq_zero.mpr (by ext h; simp [noHandles])).symm
  · exact (Finset.card_eq_zero.mpr (by ext h; simp [noHandles])).symm

section Idle

variable {m : Mem} {r : Ram} {root F D : Nat} {free ts : List Nat}

theorem idle_other {i : Slot} (hi : i ≠ 0) :
    (idleKernel m r root F D).processTable i = Process.zero := by
  change Function.update (fun _ : Slot => Process.zero) 0 _ i = _
  rw [Function.update_of_ne hi]

theorem idle_dead (i : Slot) : ¬ (idleKernel m r root F D).Live i := by
  rintro ⟨hi, hs⟩
  rw [idle_other hi] at hs
  exact hs rfl

theorem idle_unused : findUnusedProcess (idleKernel m r root F D) = some 1 := by
  have hstate : ∀ i : Slot, ((idleKernel m r root F D).processTable i).state =
      if i = 0 then .running else .unused := by
    intro i
    by_cases hi : i = 0
    · rw [hi]
      rfl
    · rw [idle_other hi, if_neg hi]
      rfl
  unfold findUnusedProcess
  simp only [hstate]
  decide

/-- The pages are divided: the kernel's tables, the two file tables, and the rest is free. -/
theorem idle_memOk (hfl : FreeList K r free) (hk : KernelMap K r.mem root)
    (htab : (tables (entries r.mem) root).Perm ts) (hnd : (ts ++ F :: D :: free).Nodup)
    (hv : ∀ p ∈ ts ++ F :: D :: free, ValidPage K p) :
    MemOk K (ts ++ F :: D :: free) free (idleKernel m r root F D) := by
  have hF := hv F (List.mem_append_right _ List.mem_cons_self)
  have hD := hv D (List.mem_append_right _ (List.mem_cons_of_mem _ List.mem_cons_self))
  have hroot : (idleKernel m r root F D).root 0 = root := hk.toTreeOk.root_valid.v2p_p2v
  have hdead : ∀ i : Slot, (idleKernel m r root F D).pagesOf free (.process i) = [] := fun i =>
    Kernel.pagesOf_dead (idle_dead i)
  refine ⟨hfl, ⟨?_, hnd⟩, hv, ?_, ?_, ?_, ?_, fun i hi => absurd hi (idle_dead i), ?_⟩
  · -- all owners, process by process
    have hproc : ((List.finRange numProc).map Owner.process).flatMap
        ((idleKernel m r root F D).pagesOf free) = [] := by
      rw [List.flatMap_eq_nil_iff]
      intro o ho
      obtain ⟨i, -, rfl⟩ := List.mem_map.mp ho
      exact hdead i
    unfold Owner.all
    rw [List.flatMap_append, hproc, List.append_nil]
    have hkern : (idleKernel m r root F D).pagesOf free .kernelMap = tables (entries r.mem) root := by
      change tables (entries r.mem) ((idleKernel m r root F D).root 0) = _
      rw [hroot]
    have hfcb : (idleKernel m r root F D).pagesOf free .fcbTable = [F] := by
      change [v2p (p2v F)] = _
      rw [hF.v2p_p2v]
    have hdesc : (idleKernel m r root F D).pagesOf free .fileDescTable = [D] := by
      change [v2p (p2v D)] = _
      rw [hD.v2p_p2v]
    simp only [List.flatMap_cons, List.flatMap_nil, List.append_nil, hkern, hfcb, hdesc]
    refine List.perm_iff_count.mpr fun x => ?_
    have hc := htab.count_eq x
    change List.count x (free ++ ([F] ++ ([D] ++ tables (entries r.mem) root))) = _
    simp only [List.count_append, List.count_cons, List.count_nil, hc]
    omega
  · change p2v F = p2v (v2p (p2v F))
    rw [hF.v2p_p2v]
  · change p2v D = p2v (v2p (p2v D))
    rw [hD.v2p_p2v]
  · rw [hroot]
    rfl
  · rw [hroot]
    exact hk
  · refine ⟨?_, fun h => absurd rfl h⟩
    exact hk.toTreeOk.root_valid.v2p_p2v.symm

/-- Zeroed tables describe no open file. -/
theorem idle_filesOk (hF : ValidPage K F) (hD : ValidPage K D) (hzF : ∀ x, InPage F x → r.mem x = 0)
    (hzD : ∀ x, InPage D x → r.mem x = 0) : FilesOk (idleKernel m r root F D) noHandles := by
  have hfile : ∀ (i : Slot) (fd : Fin 100), ((idleKernel m r root F D).processTable i).file fd = 0 := by
    intro i fd
    by_cases hi : i = 0
    · rw [hi]
      rfl
    · rw [idle_other hi]
      rfl
  have hdesc : ∀ d < descLimit, ∀ o n, o + n ≤ fileDescSize → load r.mem (D + fileDescSize * d + o) n = 0 := by
    intro d hd o n ho
    have hend := desc_end D hd
    exact load_zero fun x h1 h2 => hzD x ⟨by omega, by omega⟩
  refine ⟨?_, noHandles_ok, fun i _ fd => hfile i fd⟩
  have hFp : v2p (idleKernel m r root F D).fcbTable = F := hF.v2p_p2v
  have hDp : v2p (idleKernel m r root F D).fileDescTable = D := hD.v2p_p2v
  rw [hFp, hDp]
  refine ⟨fun i fd => hfile i fd, fun h d hd => ?_, fun d hd => ?_, fun d c hc => ?_, fun d hd => ?_,
    fun c hc => ?_⟩
  · cases hd
  · exact hdesc d hd 0 8 (by unfold fileDescSize; omega)
  · cases hc
  · exact hdesc d hd 12 4 (by unfold fileDescSize; omega)
  · have hend := fcb_end F hc
    unfold fcbSize at *
    exact load_zero fun x h1 h2 => hzF x ⟨by omega, by omega⟩

end Idle

section User

variable {pool free : List Nat} {s : Kernel} {a : Sched} {S : Handles} {i : Slot}

/-- The first user process needs seven pages; its user page begins with the 5120 bytes
    at `0x30000`. -/
theorem initUserProcess_run (hr : Rep s a) (hq : ∀ q, i ∉ a.queue q) (h : MemOk K pool free s)
    (hf : FilesOk s S) (hfind : findUnusedProcess s = some i) (hi : i ≠ 0)
    (hcur : s.pc.currentProcess ≠ i) :
    (free.length < 7 ∧ ∀ s', initUserProcess K s ≠ .ok () s') ∨
      ∃ s' free', initUserProcess K s = .ok () s' ∧ Rep s' (a.create i) ∧ MemOk K pool free' s' ∧
        FilesOk s' S ∧ s'.Live i ∧ OffPages K s.ram.mem s'.ram.mem ∧
        free.length ≤ free'.length + 7 ∧ ∀ k < pageSize,
          s'.ram.mem (s'.userPage i + k) = if k < 5120 then s.ram.mem (0x30000 + k) else 0 := by
  rcases allocNewProcess_run h.freeList hfind with
    ⟨hlt, hnone⟩ | ⟨s₁, page, root, free₁, halloc, hb⟩
  · refine Or.inl ⟨by omega, fun s' hrun => ?_⟩
    unfold initUserProcess at hrun
    obtain ⟨o, s₁, ho, hrest⟩ := bind_ok.mp hrun
    obtain ⟨s₁', ho, -⟩ := onPart_ok.mp ho
    rw [hnone o s₁' ho] at hrest
    cases hrest
  · have hrv := hb.map.toTreeOk.root_valid
    have hmap : (s₁.processTable i).pageMap = p2v root := by
      rw [hb.processTable, Function.update_self]
    obtain ⟨ts, hts, hperm, hagree⟩ := hb.taken
    have hoff₁ : OffPages K s.ram.mem s₁.ram.mem := hagree.offPages fun p hp =>
      h.freeList.valid p (by rw [hts]; exact List.mem_append_left _ hp)
    have hstart : initUserProcess K s = (do
        let status ← low (ram (setupUvm K (p2v root) (p2v 0x30000) 5120))
        assertProcess status 116
        setProcess i fun p => { p with state := .ready }
        low (appendListTail .ready i) : KernelM Unit) s₁ := by
      unfold initUserProcess
      rw [bind_run (low_run halloc)]
      dsimp only
      rw [bind_run (get_run s₁), hmap]
    have hboot : ∀ x, 0x30000 ≤ x → x < 0x30000 + 5120 → ∀ p, ValidPage K p → ¬ InPage p x :=
      fun x _ h2 p hp => outside_pages hp (by omega)
    have hptr : KernelPtr (p2v 0x30000) 5120 := by decide
    have hphys : v2p (p2v 0x30000) = 0x30000 := by decide
    rcases setupUvm_run (hb.mapOk h.freeList) hb.map (by rw [pageSize_eq]; omega) hptr hphys hboot with
      ⟨hlt, hfail⟩ | ⟨upage, r₂, free₂, hrun₂, hh, hlen₂, hcont⟩
    · have hlen := hb.length_le
      refine Or.inl ⟨by omega, fun s' hrun => ?_⟩
      rw [hstart] at hrun
      obtain ⟨v, s₂, hv, hrest⟩ := bind_ok.mp hrun
      obtain ⟨_, hv, -⟩ := onPart_ok.mp hv
      obtain ⟨r₂, hv, -⟩ := onPart_ok.mp hv
      rw [hfail v r₂ hv] at hrest
      obtain ⟨_, _, hassert, -⟩ := bind_ok.mp hrest
      exact absurd (ensure_ok.mp hassert).1 (by decide)
    · obtain ⟨hh₂, hlive, huser, -⟩ := hb.housed h hi hcur hh
      obtain ⟨hu, hr₁⟩ := (allocNewProcess_ends hr).ok halloc i rfl
      have hr₂ : Rep { s₁ with ram := r₂ } (a.newborn i) := hr₁.setRam r₂
      have hdead : ¬ s.Live i := fun hl => hl.2 hb.unused
      let s₂ : Kernel := { s₁ with ram := r₂ }
      let s₃ : Kernel := s₂.setProcess i fun p => { p with state := .ready }
      have hstate : (s₂.processTable i).state = .init := by
        change (s₁.processTable i).state = .init
        rw [hb.processTable, Function.update_self]
      have hst₃ : Still [] s₂ s₃ := still_setProcess s₂ i
        (by rw [hstate]; exact ⟨nofun, nofun⟩) rfl rfl rfl
      obtain ⟨s', hrun', hr', hk⟩ := appendListTail_rep (hr₂.becomeRun i .ready) hq .ready
      rw [newborn_ready] at hr'
      have hlive' : ∀ j, s'.Live j ↔ s₃.Live j := by
        intro j
        have h3 : (s₃.processTable j).state = (a.create i).state j := by
          rw [← newborn_ready]
          exact (hr₂.becomeRun i .ready).state j
        unfold Kernel.Live
        rw [hr'.state, h3]
      have hall : Still [] s₂ s' := hst₃.trans (hk.still hlive')
      have hstays := hh₂.memOk.still hall nofun
      have hlive₂ : s'.Live i := (hall.live i).mpr hlive
      have hmem : s'.ram.mem = r₂.mem := by rw [hk.ram]; rfl
      have hfiles : s'.files = s.files := by
        funext j
        have h1 : s'.files j = s₂.files j := by
          refine (hk.file j).trans ?_
          have hrow : s₃.files = Function.update s₂.files i (s₂.files i) := setProcess_files s₂ i _
          rw [Function.update_eq_self] at hrow
          exact congrFun hrow j
        rw [h1]
        change (s₁.processTable j).file = (s.processTable j).file
        by_cases hj : j = i
        · rw [hj, hb.processTable, Function.update_self]
        · rw [hb.other hj]
      obtain ⟨ts', hts', -, hagree'⟩ := hh.taken
      have hoff₂ : OffPages K s₁.ram.mem r₂.mem := hagree'.offPages fun p hp => by
        rcases List.mem_append.mp hp with hp | hp
        · exact hb.freeList.valid p (by rw [hts']; exact List.mem_append_left _ hp)
        · exact hb.map.valid p hp
      have hlen := hb.length_le
      refine Or.inr ⟨s', free₂, ?_, hr', hstays.memOk, ?_, hlive₂, ?_, by omega, fun k hk => ?_⟩
      · rw [hstart, bind_run (low_run (ram_run hrun₂)),
          bind_run (show assertProcess (true = true) 116 s₂ = .ok () s₂ from rfl),
          bind_run (setProcess_run i _ _)]
        exact low_run hrun'
      · have hF : s₁.fcbTable = s.fcbTable := by rw [hb.same]
        have hD : s₁.fileDescTable = s.fileDescTable := by rw [hb.same]
        refine hf.same (hall.fcbTable.trans hF) (hall.fileDescTable.trans hD) hfiles
          (fun q hq' x hx => ?_) fun j hj fd => ?_
        · rw [hmem]
          rcases List.mem_cons.mp hq' with he | hq'
          · exact hh₂.mem .fcbTable nofun nofun q (List.mem_singleton.mpr he) x hx
          · exact hh₂.mem .fileDescTable nofun nofun q hq' x hx
        · have hji : j ≠ i := fun he => hj (he ▸ hlive₂)
          have hlj : ¬ s.Live j := by
            intro hl
            refine hj ((hall.live j).mpr ⟨hl.1, ?_⟩)
            change (s₁.processTable j).state ≠ .unused
            rw [hb.other hji]
            exact hl.2
          have hrow : (s'.processTable j).file fd = s.files j fd := congrFun (congrFun hfiles j) fd
          exact hrow.trans (hf.blank j hlj fd)
      · rw [hmem]
        exact hoff₁.trans hoff₂
      · rw [hstays.userPage i hlive, hmem, huser, hcont k hk]
        by_cases hk5 : k < 5120
        · rw [if_pos hk5, if_pos hk5]
          exact hoff₁ _ (hboot _ (by omega) (by omega))
        · rw [if_neg hk5, if_neg hk5]

end User

/-! ## KMain -/

/-- The scheduler after boot: the idle process runs and the first process is ready. -/
def firstSched : Sched :=
  ((Sched.start ⟨fun _ => 0, 0, 0, 500⟩).become 0 .running).create 1

theorem firstSched_ok : firstSched.Ok := by
  have hok := idle_ok ⟨fun _ => 0, 0, 0, 500⟩
  have hu : ((Sched.start ⟨fun _ => 0, 0, 0, 500⟩).become 0 .running).state 1 = .unused := by
    simp [Sched.become, Sched.start]
  obtain ⟨hp, hk, hl⟩ := Sched.create_lives hok hu
    (by simp [Sched.born, Sched.become, Sched.start, created])
  exact ⟨Sched.create_ok hok.toSchedOk hu, hp, hk, hl⟩

section Boot

variable {m : Mem} {r : Ram} {root F D : Nat}

theorem idle_rep : Rep (idleKernel m r root F D)
    ((Sched.start ⟨fun _ => 0, 0, 0, 500⟩).become 0 .running) := by
  have hget : ∀ {β : Type} (g : Process → β) (i : Slot), g ((idleKernel m r root F D).processTable i) =
      if i = 0 then g { Process.zero with pid := 0, pageMap := p2v root, state := .running }
      else g Process.zero := by
    intro β g i
    by_cases hi : i = 0
    · rw [hi]
      rfl
    · rw [idle_other hi, if_neg hi]
  refine ⟨⟨fun q => ⟨by cases q <;> rfl, by cases q <;> rfl⟩, fun _ => List.nodup_nil,
    fun q q' i hi => absurd hi List.not_mem_nil⟩, ?_⟩
  have hstate : (fun i => ((idleKernel m r root F D).processTable i).state) =
      Function.update (fun _ => .unused) 0 .running := by
    funext i
    rw [hget Process.state i]
    by_cases hi : i = 0
    · rw [hi, Function.update_self]
      rfl
    · rw [Function.update_of_ne hi, if_neg hi]
      rfl
  have hconst : ∀ {β : Type} (g : Process → β) (b : β),
      g { Process.zero with pid := 0, pageMap := p2v root, state := .running } = b →
      g Process.zero = b → (fun i => g ((idleKernel m r root F D).processTable i)) = fun _ => b := by
    intro β g b h1 h2
    funext i
    rw [hget g i]
    split
    · exact h1
    · exact h2
  unfold Kernel.sched Sched.become Sched.start
  dsimp only
  rw [hstate, hconst Process.pid 0 rfl rfl, hconst Process.wait 0 rfl rfl,
    hconst Process.kont .user rfl rfl]
  rfl

/-- The stages before `init_process` leave the kernel with cleared tables. -/
theorem initIdle_run :
    initProcess K { bootKernel m with ram := r, fcbTable := p2v F, fileDescTable := p2v D, cr3 := root } =
      initUserProcess K (idleKernel m r root F D) := by
  have hfind : findUnusedProcess
      { bootKernel m with ram := r, fcbTable := p2v F, fileDescTable := p2v D, cr3 := root } = some 0 := by
    have hstate : ∀ i : Slot, ((bootKernel m).processTable i).state = .unused := fun _ => rfl
    unfold findUnusedProcess
    simp only [hstate]
    decide
  have hidle : initIdleProcess
      { bootKernel m with ram := r, fcbTable := p2v F, fileDescTable := p2v D, cr3 := root } =
        .ok () (idleKernel m r root F D) := by
    unfold initIdleProcess
    rw [bind_run (get_run _), hfind]
    rfl
  unfold initProcess
  rw [bind_run hidle]

/-- `KMain` on a memory map the kernel accepts. -/
theorem kMain_run (hcount : memMapCount m ≤ 50) (hbios : BiosOk m) :
    ∃ r pool, initMemory K (bootKernel m).ram = .ok () r ∧ FreeList K r pool ∧
      (∀ p, p ∈ pool ↔ Usable K m p) ∧
      ((pool.length < 12 ∨ ¬ (Signed m ∧ fsBase ≤ volumeStart m)) ∧
          (∀ s₀, kMain K (bootKernel m) ≠ .ok () s₀) ∨
        ∃ s₀ free, kMain K (bootKernel m) = .ok () s₀ ∧
          Whole K pool free firstSched noHandles s₀ ∧ s₀.Live 1 ∧ OffPages K m s₀.ram.mem ∧
          pool.length ≤ free.length + 12 ∧
          ∀ k < pageSize, s₀.ram.mem (s₀.userPage 1 + k) = if k < 5120 then m (0x30000 + k) else 0) := by
  have hempty : FreeList K (bootKernel m).ram [] := ⟨rfl, nofun, List.nodup_nil⟩
  obtain ⟨r₁, pool, hrun₁, hfl₁, hpool⟩ := initMemory_run hempty hcount hbios
  have hoff₁ : OffPages K m r₁.mem := (initMemory_off _).ok hrun₁
  refine ⟨r₁, pool, hrun₁, hfl₁, hpool, ?_⟩
  let s₁ : Kernel := { bootKernel m with ram := r₁ }
  have hstart : kMain K (bootKernel m) = (do
      low (initKvm K)
      low (initFs K)
      initProcess K : KernelM Unit) s₁ := by
    unfold kMain
    rw [bind_run (low_run (ram_run hrun₁))]
  rcases initKvm_run (s := s₁) hfl₁ with ⟨hlen, hfail⟩ | ⟨root, r₂, free₂, hrun₂, hkvm⟩
  · refine Or.inl ⟨Or.inl (by omega), fun s₀ hrun => ?_⟩
    rw [hstart] at hrun
    obtain ⟨_, s₂, h₂, -⟩ := bind_ok.mp hrun
    obtain ⟨s₂', h₂, -⟩ := onPart_ok.mp h₂
    exact hfail s₂' h₂
  · obtain ⟨ts, hts, hperm, hagree⟩ := hkvm.taken
    have hroot := hkvm.map.toTreeOk.root_valid
    have hoff₂ : OffPages K m r₂.mem := hoff₁.trans (hagree.offPages fun p hp =>
      hfl₁.valid p (by rw [hts]; exact List.mem_append_left _ hp))
    let s₂ : Kernel := { s₁ with ram := r₂, cr3 := root }
    have hfl₂ : FreeList K s₂.ram free₂ := hkvm.freeList
    have hlen₂ := hkvm.length_le
    rcases initFs_run hfl₂ with ⟨hn, hfail⟩ | ⟨-, F, D, free₃, rfl, hrun₃⟩
    · refine Or.inl ⟨?_, fun s₀ hrun => ?_⟩
      · by_cases hs : Signed m ∧ fsBase ≤ volumeStart m
        · have hlt : ¬ 2 ≤ free₂.length := fun hle => hn ⟨hs.1.off hs.2 hoff₂, hle⟩
          exact Or.inl (by omega)
        · exact Or.inr hs
      · rw [hstart, bind_run (low_run hrun₂)] at hrun
        obtain ⟨_, s₃, h₃, -⟩ := bind_ok.mp hrun
        obtain ⟨s₃', h₃, -⟩ := onPart_ok.mp h₃
        exact hfail s₃' h₃
    · -- the two tables
      have hF := hfl₂.valid F List.mem_cons_self
      have hD := hfl₂.valid D (List.mem_cons_of_mem F List.mem_cons_self)
      have hnd := hfl₁.nodup
      rw [hts] at hnd
      let r₃ : Ram := (r₂.taken F).taken D
      have hm₃ : AgreeOff [F, D] r₂.mem r₃.mem :=
        ((agreeOff_fill r₂.mem 0).mono (by simp)).trans ((agreeOff_fill _ 0).mono (by simp))
      have hfl₃ : FreeList K r₃ free₃ := taken_freeList (taken_freeList hfl₂)
      have hts₃ : ∀ p ∈ [F, D], p % pageSize = 0 ∧ p ∉ tables (entries r₂.mem) root := by
        intro p hp
        have hpf : p ∈ F :: D :: free₃ := by
          rcases List.mem_cons.mp hp with he | hp
          · exact he ▸ List.mem_cons_self
          · exact List.mem_singleton.mp hp ▸ List.mem_cons_of_mem F List.mem_cons_self
        exact ⟨(hfl₂.valid p hpf).aligned, fun hm =>
          List.disjoint_of_nodup_append hnd (hperm.mem_iff.mp hm) hpf⟩
      have he₃ := hkvm.map.toTreeOk.entries_eq hm₃ hts₃
      have hmap₃ : KernelMap K r₃.mem root := hkvm.map.congr he₃
      have hperm₃ : (tables (entries r₃.mem) root).Perm ts := by
        rw [tables_congr he₃]
        exact hperm
      have hvalid : ∀ p ∈ ts ++ F :: D :: free₃, ValidPage K p := fun p hp =>
        hfl₁.valid p (by rw [hts]; exact hp)
      have hFD : F ≠ D := fun he => by
        have := (List.nodup_append.mp hnd).2.1
        exact (List.nodup_cons.mp this).1 (he ▸ List.mem_cons_self)
      have hmem := idle_memOk (m := m) hfl₃ hmap₃ hperm₃ hnd hvalid
      have hzD : ∀ x, InPage D x → r₃.mem x = 0 := fun x hx => fill_of_inside _ 0 hx.1 hx.2
      have hzF : ∀ x, InPage F x → r₃.mem x = 0 := by
        intro x hx
        have hz : (r₂.taken F).mem x = 0 := fill_of_inside r₂.mem 0 hx.1 hx.2
        rw [← hz]
        refine AgreeOff.page (P := [D]) (agreeOff_fill _ 0) hF.aligned ?_ ?_ hx
        · rw [List.mem_singleton]
          exact hFD
        · intro p hp
          rw [List.mem_singleton.mp hp]
          exact hD.aligned
      have hfiles : FilesOk (idleKernel m r₃ root F D) noHandles := idle_filesOk hF hD hzF hzD
      have hoff₃ : OffPages K m r₃.mem := hoff₂.trans (hm₃.offPages fun p hp => by
        rcases List.mem_cons.mp hp with he | hp
        · exact he ▸ hF
        · exact List.mem_singleton.mp hp ▸ hD)
      have hstart' : kMain K (bootKernel m) =
          initUserProcess K (idleKernel m r₃ root F D) := by
        rw [hstart, bind_run (low_run hrun₂), bind_run (low_run hrun₃)]
        exact initIdle_run
      have hpool' : pool = ts ++ F :: D :: free₃ := hts
      have hcur : (idleKernel m r₃ root F D).pc.currentProcess = 0 := rfl
      rcases initUserProcess_run idle_rep (fun q => List.not_mem_nil) hmem hfiles idle_unused
          (by decide) (by rw [hcur]; decide) with
        ⟨hlt, hfail⟩ | ⟨s₀, free, hrun, hr, hm, hf, hlive, hoff, hlen, hcont⟩
      · refine Or.inl ⟨Or.inl ?_, fun s₀ hrun => ?_⟩
        · rw [List.length_cons, List.length_cons] at hlen₂
          omega
        · rw [hstart'] at hrun
          exact hfail s₀ hrun
      · refine Or.inr ⟨s₀, free, hstart'.trans hrun, ⟨hr, firstSched_ok.sane, hpool' ▸ hm, hf⟩, hlive,
          hoff₃.trans hoff, ?_, fun k hk => ?_⟩
        · rw [List.length_cons, List.length_cons] at hlen₂
          omega
        rw [hcont k hk]
        by_cases hk5 : k < 5120
        · rw [if_pos hk5, if_pos hk5]
          exact hoff₃ _ fun p hp => outside_pages hp (by omega)
        · rw [if_neg hk5, if_neg hk5]

end Boot

end Os64
