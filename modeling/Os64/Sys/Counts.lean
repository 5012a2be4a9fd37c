/-
  The reference counts of descriptors and control blocks, over whole runs.

  * `FilesOk.counts`: what the tables say of the holders.
  * `run_counts`: in a run whose calls keep to the callers' user pages the counts are exact, so
    that nothing is recycled or closed while somebody holds it.
-/
import Os64.Sys.Reach
import Os64.Sys.Wild

namespace Os64

open Os64.Lib Finset

variable {K : Image}

/-- The unreaped processes that have the descriptor at `p`, with its number in each. -/
def Kernel.holders (s : Kernel) (p : Nat) : Finset Holder :=
  {h | s.Live h.1 ∧ (s.processTable h.1).file h.2 = p}

/-- Every count is the number of references. -/
structure CountsExact (s : Kernel) : Prop where
  desc : ∀ d < descLimit, s.descCount d = #(s.holders (s.fileDescTable + fileDescSize * d))
  null : ∀ d < descLimit, s.descLink d = 0 ↔ s.descCount d = 0
  block : ∀ c < fcbLimit, s.blockCount c =
    ∑ d ∈ range descLimit with s.descLink d = s.fcbTable + fcbSize * c, s.descCount d

/-- The current process comes to the `close_file` of `exec`. -/
def ExecCloses (K : Image) (s : Kernel) (name : Nat) (fd : Int) (s' : Kernel) : Prop :=
  ∃ s₁ s₂ s₃ u size read, openFile s.pc.currentProcess name s = .ok fd s₁ ∧ fd ≠ -1 ∧
    clearUserPage K s₁ = .ok u s₂ ∧ getFileSize s.pc.currentProcess fd s₂ = .ok size s₃ ∧
    readFile K false s.pc.currentProcess fd 0x400000 size s₃ = .ok read s'

/-- What follows for the calls of the current process. -/
structure CountsServe (K : Image) (s : Kernel) : Prop where
  fresh : ∀ path v s', openFile s.pc.currentProcess path s = .ok v s' → v ≠ -1 →
    ∃ n : Fin 100, v = n.val ∧ s.desc n = 0 ∧ s.holders (s'.desc n) = ∅
  failed : ∀ path s', openFile s.pc.currentProcess path s = .ok (-1) s' → s' = s
  close : ∀ fd s', closeFile s.pc.currentProcess fd s ≠ .error (.assertion "file.c" 169) s'
  execClose : ∀ name fd s₁ s', ExecCloses K s name fd s₁ →
    closeFile s.pc.currentProcess fd s₁ ≠ .error (.assertion "file.c" 169) s'
  others : ∀ fd u s', closeFile s.pc.currentProcess fd s = .ok u s' → ∀ i n,
    (i ≠ s.pc.currentProcess ∨ (n : Fin 100).val ≠ fd) → (s.processTable i).file n ≠ 0 →
      (s'.processTable i).file n = (s.processTable i).file n ∧
      s'.fileFcb ((s.processTable i).file n) = s.fileFcb ((s.processTable i).file n) ∧
      s'.fileFcb ((s.processTable i).file n) ≠ 0

section Counts

variable {pool free : List Nat} {a : Sched} {S : Handles} {s s' : Kernel} {c d : Nat}

theorem FilesOk.holders (h : FilesOk s S) (hm : MemOk K pool free s) (d : Nat) :
    s.holders (s.fileDescTable + fileDescSize * d) = S.holders d := by
  have hne := hm.tablePages.desc.p2v_ne_zero
  ext ⟨i, n⟩
  have hheld : (s.processTable i).file n = _ := h.rep.held i n
  unfold Kernel.holders
  rw [mem_filter, Sharing.mem_holders, ← hm.descPtr_eq d]
  dsimp only
  rw [hheld, descPtr_eq_iff hne]
  refine ⟨fun hin => hin.2.2, fun hin => ⟨mem_univ _, ?_, hin⟩⟩
  -- an unused slot holds nothing
  by_contra hdead
  have hnull := h.blank i hdead n
  rw [hheld, hin] at hnull
  unfold descPtr at hnull
  dsimp only at hnull
  omega

theorem FilesOk.counts (h : FilesOk s S) (hm : MemOk K pool free s) : CountsExact s where
  desc d hd := by
    rw [h.descCount hd, h.ok.handle, h.holders hm]
  null d hd := by
    have hne := hm.tablePages.fcb.p2v_ne_zero
    rw [h.descLink hd, h.descCount hd, ← h.ok.null]
    cases S.object d with
    | none => exact ⟨fun _ => rfl, fun _ => rfl⟩
    | some c =>
        refine ⟨fun he => ?_, fun he => by cases he⟩
        unfold fcbPtr at he
        dsimp only at he
        omega
  block c hc := by
    have hne := hm.tablePages.fcb.p2v_ne_zero
    have hall : ∀ x d, S.held x = some d → d ∈ range descLimit := fun x d hx =>
      mem_range.mpr (h.rep.heldLt x d hx)
    rw [h.blockCount hc, h.ok.objectCount_eq_sum c hall, ← hm.fcbPtr_eq c]
    refine sum_congr (filter_congr fun d hd => ?_) fun d hd => ?_
    · rw [h.descLink (mem_range.mp hd), fcbPtr_eq_iff hne]
    · rw [h.descCount (mem_range.mp (mem_filter.mp hd).1)]

/-! ## The calls -/

theorem openFile_fresh (h : Whole K pool free a S s) (hl : s.Live s.pc.currentProcess)
    {path : Nat} {v : Int} (hrun : openFile s.pc.currentProcess path s = .ok v s') (hv : v ≠ -1) :
    ∃ n : Fin 100, v = n.val ∧ s.desc n = 0 ∧ s.holders (s'.desc n) = ∅ := by
  have hq : Quiet false s s' := .of_low (quiet_openFile _ _) hrun
  rcases (openFile_ends h.files h.mem hl path).ok hrun with ⟨hno, -⟩ |
    ⟨n, d, c, hn, hnone, hfree, hf', -⟩
  · exact absurd hno hv
  · refine ⟨n, hn, ?_, ?_⟩
    · have hfile := h.files.rep.held s.pc.currentProcess n
      rw [hnone] at hfile
      exact hfile
    · have hfile := hf'.rep.held s.pc.currentProcess n
      have hheld : (S.opened (s.pc.currentProcess, n) d c).held (s.pc.currentProcess, n) = some d :=
        Function.update_self _ _ _
      rw [hheld, hq.fileDescTable, h.mem.descPtr_eq d] at hfile
      have hdesc : s'.desc n = s.fileDescTable + fileDescSize * d := by
        unfold Kernel.desc
        rw [hq.pc]
        exact hfile
      rw [hdesc, h.files.holders h.mem, ← card_eq_zero, ← h.files.ok.handle]
      exact (h.files.ok.null d).mp hfree

theorem openFile_failed (h : Whole K pool free a S s) (hl : s.Live s.pc.currentProcess)
    {path : Nat} (hrun : openFile s.pc.currentProcess path s = .ok (-1) s') : s' = s := by
  rcases (openFile_ends h.files h.mem hl path).ok hrun with ⟨-, hs, -⟩ | ⟨n, d, c, hn, -⟩
  · exact hs
  · omega

theorem closeFile_close (h : Whole K pool free a S s) (hl : s.Live s.pc.currentProcess) {fd : Int} :
    closeFile s.pc.currentProcess fd s ≠ .error (.assertion "file.c" 169) s' := fun hrun =>
  ((closeFile_ends h.files h.mem hl fd).error hrun).1 rfl

theorem closeFile_others (h : Whole K pool free a S s) (hl : s.Live s.pc.currentProcess) {fd : Int}
    {u : Unit} (hrun : closeFile s.pc.currentProcess fd s = .ok u s') {i : Slot} {n : Fin 100}
    (hne : i ≠ s.pc.currentProcess ∨ n.val ≠ fd) (hopen : (s.processTable i).file n ≠ 0) :
    (s'.processTable i).file n = (s.processTable i).file n ∧
      s'.fileFcb ((s.processTable i).file n) = s.fileFcb ((s.processTable i).file n) ∧
      s'.fileFcb ((s.processTable i).file n) ≠ 0 := by
  have hq : Quiet false s s' := .of_low (quiet_closeFile _ _) hrun
  have hmem := ((closeFile_worked h hl hrun).whole.choose_spec.choose_spec).mem
  obtain ⟨m, d, c, hfd, hheld, hobj, hf', -⟩ := (closeFile_ends h.files h.mem hl fd).ok hrun
  have hsame : (S.dropped (s.pc.currentProcess, m) d c).held (i, n) = S.held (i, n) := by
    refine Function.update_of_ne (fun he => ?_) _ _
    obtain ⟨rfl, rfl⟩ := Prod.mk.inj he
    exact hne.elim (fun hi => hi rfl) fun hn => hn hfd.symm
  rcases h.files.rep.pointer h.files.ok h.mem.tablePages i n with ⟨h0, -⟩ |
    ⟨d', c', hptr, hheld', hobj', hd', -, -⟩
  · exact absurd h0 hopen
  have hfile : (s.processTable i).file n = descPtr (v2p s.fileDescTable) (some d') := hptr
  have hfile' : (s'.processTable i).file n = descPtr (v2p s.fileDescTable) (some d') := by
    have := hf'.rep.held i n
    rw [hsame, hheld', hq.fileDescTable] at this
    exact this
  -- the descriptor still has a holder, so it still has its control block
  obtain ⟨c₁, hc₁⟩ := hf'.ok.object_of_held (hsame.trans hheld')
  have hkept : (S.dropped (s.pc.currentProcess, m) d c).object d' = S.object d' := by
    rcases dropped_link S d d' (h := (s.pc.currentProcess, m)) (c := c) with hk | hk
    · exact hk
    · rw [hc₁] at hk
      cases hk
  have hlink := h.files.descLink hd'
  have hlink' := hf'.descLink hd'
  have hptr' := (desc_fields hmem hd').2
  rw [hq.fileDescTable] at hptr'
  rw [hkept, hobj', hq.fcbTable] at hlink'
  rw [hobj'] at hlink
  rw [hfile', hfile]
  refine ⟨rfl, ?_, ?_⟩
  · rw [hptr', (desc_fields h.mem hd').2, hlink', hlink]
  · have := h.mem.tablePages.fcb.p2v_ne_zero
    rw [hptr', hlink']
    unfold fcbPtr
    dsimp only
    omega

theorem execCloses_close (h : Whole K pool free a S s) (hl : s.Live s.pc.currentProcess)
    {name : Nat} {fd : Int} {s₁ : Kernel} (hexec : ExecCloses K s name fd s₁) :
    closeFile s.pc.currentProcess fd s₁ ≠ .error (.assertion "file.c" 169) s' := by
  obtain ⟨t₁, t₂, t₃, u, size, read, hopen, -, hclear, hsize, hread⟩ := hexec
  have hw₁ := openFile_worked h hl hopen
  obtain ⟨os₁, S₁, h₁⟩ := hw₁.whole
  have hl₁ := hw₁.live.mpr hl
  have hw₂ := hw₁.then (h₁.poked_user hl₁
    ((clearUserPage_ends (h₁.mem.currentSpace hl₁) InUser).ok hclear))
  obtain ⟨os₂, S₂, h₂⟩ := hw₂.whole
  have hl₂ := hw₂.live.mpr hl
  have hlt := getFileSize_lt hsize
  obtain rfl := (reads_getFileSize _ _).ok hsize
  have hinto : Into false 0x400000 size := ⟨by decide, fun hf => (Bool.false_ne_true hf).elim⟩
  rw [← hw₂.pc] at hread
  have hw₄ := hw₂.then (readFile_worked h₂ hl₂ hlt (fun _ => Or.inr hinto) hread)
  obtain ⟨os₄, S₄, h₄⟩ := hw₄.whole
  have hl₄ := hw₄.live.mpr hl
  rw [← hw₄.pc]
  exact closeFile_close h₄ hl₄

theorem Whole.countsServe (h : Whole K pool free a S s) (hl : s.Live s.pc.currentProcess) :
    CountsServe K s where
  fresh _ _ _ hrun hv := openFile_fresh h hl hrun hv
  failed _ _ hrun := openFile_failed h hl hrun
  close _ _ := closeFile_close h hl
  execClose _ _ _ _ hexec := execCloses_close h hl hexec
  others _ _ _ hrun _ _ hne hopen := closeFile_others h hl hrun hne hopen

/-- In a run whose calls keep to the callers' user pages the counts are exact, also while a call is
    under way, and what they are for holds. -/
theorem run_counts {m : Mem} {r : Ram} {s₀ : Kernel} (hbios : BiosOk m)
    (hinit : initMemory K (bootKernel m).ram = .ok () r) (hpool : FreeList K r pool)
    (h₀ : kMain K (bootKernel m) = .ok () s₀) (h : Run K Confined s₀ s) :
    CountsExact s ∧ ∀ f s₁, Enabled s (.syscall f) → pushFrame f s = .ok () s₁ →
      CountsExact s₁ ∧ CountsServe K s₁ := by
  obtain ⟨free₀, hw₀⟩ := boot_whole hbios hinit hpool h₀
  obtain ⟨free, a, S, hw⟩ := run_whole hw₀ (fun _ _ he => he) h
  refine ⟨hw.files.counts hw.mem, fun f s₁ he hpush => ?_⟩
  obtain ⟨hw₁, -, -⟩ := pushFrame_after hw hpush
  have hc : a.current ≠ 0 := hw.rep.current ▸ he.2.1
  exact ⟨hw₁.files.counts hw₁.mem, hw₁.countsServe (hw₁.live hc)⟩

/-- The first program has opened a file, and read none of it. -/
theorem run_counts_machine : ∃ s n, Reached image fileMem Confined s ∧ s.desc n ≠ 0 ∧
    CountsExact s ∧ ∀ f s₁, Enabled s (.syscall f) → pushFrame f s = .ok () s₁ →
      CountsExact s₁ ∧ CountsServe image s₁ := by
  obtain ⟨pool, free, a, S, s, n, hr⟩ := read_machine Confined (fun _ _ he => he) (Nat.zero_le 512)
  obtain ⟨s₀, h₀, hrun⟩ := hr.machine.reached
  obtain ⟨r, pool', hinit, hfl, -⟩ := machine_pool (n := 20) (by decide)
    (diskWords 0x20 512 ++ [(0x30000800, 1, 0x41)])
  have hbios : BiosOk fileMem := machine_bios (by decide)
  exact ⟨s, n, hr.machine.reached, hr.file.opened, run_counts hbios hinit hfl h₀ hrun⟩

/-- A program reads the first byte of a file that it has open over the count of its descriptor. -/
theorem read_over_count : ∃ s f s₁ n buffer s', Reached image fileMem Confined s ∧
    Enabled s (.syscall f) ∧ ReadCall s f s₁ n buffer 1 ∧ s.desc n ≠ 0 ∧
      step image (.syscall f) s = .ok () s' ∧ ¬ CountsExact s' := by
  obtain ⟨pool, free, a, S, s, n, hr⟩ := read_machine Confined (fun _ _ he => he) (Nat.zero_le 512)
  have h := hr.machine.whole
  obtain ⟨d, c, hd⟩ := h.files.openDesc h.mem hr.file.opened
  have hend := desc_end (v2p s.fileDescTable) hd.descLt
  have hin : ∀ k < 4, InPage (v2p s.fileDescTable) (v2p s.fileDescTable + fileDescSize * d + 12 + k) := by
    intro k hk
    unfold fileDescSize at hend ⊢
    exact ⟨by omega, by omega⟩
  obtain ⟨h1, h2⟩ := hin 0 (by decide)
  obtain ⟨f, s₁, s', he, hcall, hstep, hwild, -⟩ :=
    hr.wild (k := 1) fileMem_file hd (by decide) (by decide) h1 h2
  refine ⟨s, f, s₁, n, _, s', hr.machine.reached, he, hcall, hr.file.opened, hstep, fun hno => ?_⟩
  -- the program holds the descriptor once
  have hone : S.handleCount d = 1 := by
    obtain ⟨d', c', hS⟩ := hr.handles
    have hheld : (noHandles.opened (s.pc.currentProcess, n) d' c').held (s.pc.currentProcess, n) =
        some d' := Function.update_self _ _ _
    rw [← hS, hd.held] at hheld
    obtain rfl := Option.some.inj hheld
    rw [hS]
    exact Function.update_self _ _ _
  have hholders : s'.holders (s'.fileDescTable + fileDescSize * d) =
      s.holders (s.fileDescTable + fileDescSize * d) := by
    rw [hwild.same]
    rfl
  have hcount := hno.desc d hd.descLt
  rw [hholders, ← (h.files.counts h.mem).desc d hd.descLt, h.files.descCount hd.descLt, hone] at hcount
  have hload : s'.descCount d = load (Function.update s.ram.mem
      (v2p s.fileDescTable + fileDescSize * d + 12 + 0) 0x41)
      (v2p s.fileDescTable + fileDescSize * d + 12) 4 := by
    unfold Kernel.descCount
    rw [show s'.fileDescTable = s.fileDescTable by rw [hwild.same]]
    rw [← hr.patched_letter]
    refine load_congr fun x h1 h2 => hwild.others x ?_ (Or.inr (by omega))
    obtain ⟨k, rfl⟩ := Nat.exists_eq_add_of_le h1
    exact hin k (by omega)
  have hold : load s.ram.mem (v2p s.fileDescTable + fileDescSize * d + 12) 4 = 1 :=
    (h.files.descCount hd.descLt).trans hone
  rw [hload, Nat.add_zero, load_update, hold] at hcount
  exact absurd hcount (by decide)

end Counts

end Os64
