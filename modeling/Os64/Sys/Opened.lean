/-
  The machine with a file, and the file open.

  * `EntriesOk`: the control blocks in use say what the entries of the directory say; runs keep it
    (`run_entries`).
  * `openFile_fields`: what a new descriptor says about its entry.
  * `At.reads`: a program reads on in a file.
  * `opened_machine`, `read_machine`: the first program has opened `A` and read some of it.
-/
import Os64.Sys.Disk
import Os64.Sys.Reading

namespace Os64

open Os64.Lib

variable {K : Image} {pool free : List Nat} {a : Sched} {S : Handles} {s s' : Kernel}

/-! ## Control blocks and entries -/

/-- The control blocks in use have the size and the first cluster of their entries. -/
def EntriesOk (s : Kernel) : Prop := ∀ c < fcbLimit, s.blockCount c ≠ 0 →
  s.blockSize c = entrySize s.ram.mem c ∧ s.blockCluster c = entryCluster s.ram.mem c

theorem Whole.entries_none (h : Whole K pool free a noHandles s) : EntriesOk s := fun _ hc hne =>
  absurd (h.files.blockCount hc) hne

theorem EntriesOk.kept {R : Nat → Prop} (h : EntriesOk s) (hk : Kept R s s')
    (hm : Mounted s.ram.mem) : EntriesOk s' := by
  intro c hc hne
  obtain ⟨-, hsize, hcluster⟩ := entry_congr hm hk.image c
  rw [hsize, hcluster]
  by_cases h0 : s.blockCount c = 0
  · exact hk.entry hm c hc h0 hne
  · obtain ⟨hs, hcl⟩ := hk.file c hc h0
    rw [hs, hcl]
    exact h c hc h0

theorem run_entries (h₀ : Whole K pool free a noHandles s) (h : Run K Confined s s')
    (hm : Mounted s'.ram.mem) : EntriesOk s' := by
  induction h with
  | refl => exact h₀.entries_none
  | step hrun he hconf hs ih =>
      obtain ⟨free₁, a₁, S₁, h₁⟩ := run_whole h₀ (fun _ _ hc => hc) hrun
      have hk := step_kept h₁ he hconf hs
      have hm₁ := hm.congr fun x hx => (hk.image x hx).symm
      exact (ih hm₁).kept hk hm₁

/-- A descriptor of the caller at a position of a file with this size and first cluster. -/
structure OpenAt (s : Kernel) (n : Fin 100) (size cluster position : Nat) : Prop where
  opened : s.desc n ≠ 0
  position : s.filePosition (s.desc n) = position
  size : s.descSize (s.desc n) = size
  cluster : s.descCluster (s.desc n) = cluster

/-- open_file fails or gives a descriptor at the start of the entry. -/
theorem openFile_fields (h : Whole K pool free a S s) (hent : EntriesOk s)
    (hl : s.Live s.pc.currentProcess) (hm : Mounted s.ram.mem) {path : Nat} {p : List UInt8}
    (ht : Text loadVirt s path p) {v : Int}
    (hrun : openFile s.pc.currentProcess path s = .ok v s') (hv : v ≠ -1) :
    ∃ n : Fin 100, ∃ os d c, v = n.val ∧ S.held (s.pc.currentProcess, n) = none ∧
      S.object d = none ∧
      Whole K pool free { a with hist := a.hist ++ os }
        (S.opened (s.pc.currentProcess, n) d c) s' ∧
      s'.pc = s.pc ∧ (kernelDirectory s.ram.mem).First (fields p).1 (fields p).2 c ∧
      OpenAt s' n (entrySize s.ram.mem c) (entryCluster s.ram.mem c) 0 := by
  have hq : Quiet false s s' := .of_low (quiet_openFile _ _) hrun
  have hwork := openFile_worked h hl hrun
  rcases (openFile_ends h.files h.mem hl path).ok hrun with ⟨hno, -⟩ |
    ⟨n, d, c, hn, hfree, hnull, hf', ho, -, hsearch, hne⟩
  · exact absurd hno hv
  have hfirst : (kernelDirectory s.ram.mem).First (fields p).1 (fields p).2 c := by
    rcases (searchFile_found ht hsearch).2 with hfound | hfound
    · exact hfound.2
    · exact absurd hfound.1 hne
  obtain ⟨os, S₀, hw⟩ := hwork.whole
  have h' : Whole K pool free { a with hist := a.hist ++ os }
      (S.opened (s.pc.currentProcess, n) d c) s' := ⟨hw.rep, hw.sane, hw.mem, hf'⟩
  have hheld : (S.opened (s.pc.currentProcess, n) d c).held (s.pc.currentProcess, n) =
      some d := Function.update_self _ _ _
  have hobj : (S.opened (s.pc.currentProcess, n) d c).object d = some c :=
    Function.update_self _ _ _
  have hd := hf'.rep.heldLt _ d hheld
  have hc := (hf'.rep.objectLt d c hobj).2
  have hptr : s'.desc n = descPtr (v2p s'.fileDescTable) (some d) := by
    have hfile := hf'.rep.held s.pc.currentProcess n
    rw [hheld] at hfile
    unfold Kernel.desc
    rw [hq.pc]
    exact hfile
  obtain ⟨hpos, hlink⟩ := desc_fields h'.mem hd
  obtain ⟨hsize, hcluster⟩ := block_fields h'.mem hc
  have hused : s'.blockCount c ≠ 0 := by
    rw [hf'.blockCount hc]
    exact hf'.ok.objectCount_pos hheld hobj |>.ne'
  have hkept := (openFile_kept h hl hrun).1
  obtain ⟨hentrySize, hentryCluster⟩ := hent.kept hkept hm c hc hused
  obtain ⟨-, hsame, hsame'⟩ := entry_congr hm hkept.image c
  have hblock : s'.fileFcb (s'.desc n) = fcbPtr (v2p s'.fcbTable) (some c) := by
    rw [hptr, hlink, hf'.descLink hd, hobj]
  refine ⟨n, os, d, c, hn, hfree, hnull, h', hwork.pc, hfirst, ?_, ?_, ?_, ?_⟩
  · have hpd := h'.mem.tablePages.desc.p2v_ne_zero
    rw [hptr]
    unfold descPtr
    dsimp only
    omega
  · rw [hptr, hpos, Kernel.descPos, hq.fileDescTable]
    exact ho.start
  · rw [Kernel.descSize, hblock, hsize]
    exact hentrySize.trans hsame
  · rw [Kernel.descCluster, hblock, hcluster]
    exact hentryCluster.trans hsame'

theorem OpenAt.same {n : Fin 100} {size cluster position : Nat} (h : OpenAt s n size cluster position)
    (hw : Whole K pool free a S s) {b : Sched} (hw' : Whole K pool free b S s')
    (hsame : TablesSame s s') (hpc : s'.pc = s.pc) (hp : s'.processTable = s.processTable) :
    OpenAt s' n size cluster position := by
  obtain ⟨d, c, ho⟩ := hw.files.openDesc hw.mem h.opened
  obtain ⟨hfile, hpos⟩ := hsame.sameFile hw.mem hw'.mem hw.files ho
  have hdesc : s'.desc n = s.desc n := by
    unfold Kernel.desc
    rw [hpc, hp]
  rw [← hdesc] at hfile hpos
  exact ⟨hdesc ▸ h.opened, hpos.trans (hdesc ▸ h.position), hfile.size.trans (hdesc ▸ h.size),
    hfile.cluster.trans (hdesc ▸ h.cluster)⟩

section Read

variable {m : Mem} {Ok : Kernel → Event → Prop} {n : Fin 100} {size cluster position k : Nat}

/-- The frame of a read_file call. -/
theorem At.readCall (h : At K m Ok pool free a S s) (hu : a.kont a.current = .user)
    (hc : a.current ≠ 0) (n : Fin 100) {buffer k : Nat} (hb : buffer < 2 ^ 64) (hk : k < 2 ^ 32) :
    Enabled s (.syscall (s.callFrame 10 n.val buffer k 0)) ∧
      ∃ s₁, ReadCall s (s.callFrame 10 n.val buffer k 0) s₁ n buffer k := by
  have he := h.enabled_call hu hc 10 (by decide) (show n.val < 2 ^ 64 by omega) hb
    (show k < 2 ^ 64 by omega) At.zero_lt
  obtain ⟨s₁, hcall⟩ := call_begins (K := K) h.whole hc he.2.2 (show 0 < 2 ^ 63 by decide)
    (show 10 ≤ 15 by decide)
  refine ⟨he, s₁, rfl, show 0 < 2 ^ 63 by decide, hcall.push, ?_, ?_, ?_⟩
  · refine ⟨n.val, hcall.arg hc rfl (by decide), ?_⟩
    unfold i32
    omega
  · exact hcall.arg hc rfl (by decide)
  · exact ⟨k, hcall.arg hc rfl (by decide), Nat.mod_eq_of_lt hk⟩

/-- The open files after a step that keeps them. -/
theorem OpenAt.kept (ho : OpenAt s n size cluster position) (h : Whole K pool free a S s)
    (h' : Whole K pool free { a with hist := a.hist ++ os } S s') {R : Nat → Prop}
    (hk : Kept R s s') : s'.desc n = s.desc n ∧ SameFile s s' (s.desc n) := by
  obtain ⟨d, c, hd⟩ := h.files.openDesc h.mem ho.opened
  have hcur : s'.pc.currentProcess = s.pc.currentProcess := h'.rep.current.trans h.rep.current.symm
  have hdesc : s'.desc n = s.desc n := by
    have hfile := h'.files.rep.held s.pc.currentProcess n
    rw [hd.held, hk.fileDescTable] at hfile
    rw [hd.desc]
    unfold Kernel.desc
    rw [hcur]
    exact hfile
  obtain ⟨d', c', hd'⟩ := h'.files.openDesc h'.mem (show s'.desc n ≠ 0 from hdesc ▸ ho.opened)
  have hopen' := hd'.fcb_ne h'.mem
  rw [hdesc, hd.desc] at hopen'
  have hsame := (hk.sameFile h.mem h'.mem h.files hd.descLt (hd.desc ▸ hd.fcb_ne h.mem) hopen').1
  rw [← hd.desc] at hsame
  exact ⟨hdesc, hsame⟩

/-- The program reads on. -/
theorem At.reads (h : At K m Ok pool free a S s) (hOk : ∀ s e, Confined s e → Ok s e)
    (hu : a.kont a.current = .user) (hc : a.current ≠ 0) (ho : OpenAt s n size cluster position)
    (hread : Readable s (s.desc n)) (h0 : 0 < k) (hk : k ≤ 0x200000) (hfit : position + k ≤ size) :
    ∃ s' os, At K m Ok pool free { a with hist := a.hist ++ os } S s' ∧
      OpenAt s' n size cluster (position + k) ∧
      s'.userPage s.pc.currentProcess = s.userPage s.pc.currentProcess ∧
      ∀ x, fsBase ≤ x → s'.ram.mem x = s.ram.mem x := by
  obtain ⟨he, s₁, hcall⟩ := h.readCall hu hc n (show 0x400000 < 2 ^ 64 by decide)
    (show k < 2 ^ 32 by omega)
  have hconf := hcall.confined (Or.inr ⟨by omega, by omega⟩)
  obtain ⟨s', os, hstep, h', -, -, hpos, hpage⟩ := readStep_slice h.whole he hcall ho.opened hread h0
    (by rw [ho.position, ho.size]; exact hfit) (by omega) (by omega)
  have hkept := step_kept h.whole he hconf hstep
  obtain ⟨hdesc, hsame⟩ := ho.kept h.whole h' hkept
  refine ⟨s', os, ⟨h.reached.step he (hOk _ _ hconf) hstep, h'⟩, ?_, hpage, hkept.image⟩
  refine ⟨hdesc ▸ ho.opened, ?_, ?_, ?_⟩
  · rw [hdesc, hpos, ho.position]
  · rw [hdesc, hsame.size, ho.size]
  · rw [hdesc, hsame.cluster, ho.cluster]

end Read

/-! ## A file of one cluster -/

/-- The disk has a file `A` of one cluster. -/
structure FileDisk (m : Mem) : Prop where
  disk : Disk m 0x20 512
  clusterSize : (volumeAt m).clusterSize = 512
  exact : (volumeAt m).Exact 2 512
  onVolume : OnVolume m 2 512

theorem FileDisk.of_words {m : Mem} (hdisk : Disk m 0x20 512) (hsize : (volumeAt m).clusterSize = 512)
    (hmark : 0xfff8 ≤ (volumeAt m).cluster 2 1) (hstart : volumeStart m = 0x30000200)
    (hoffset : clusterStart m 2 = 0x600) : FileDisk m := by
  have hexact : (volumeAt m).Exact 2 512 := by
    refine ⟨fun k hk => ?_, fun _ => ?_⟩
    · rw [hsize] at hk
      have h0 : k = 0 := by omega
      rw [h0, Volume.cluster_zero]
      decide
    · rw [hsize]
      exact hmark
  refine ⟨hdisk, hsize, hexact, hexact.covers, fun k hk => ?_⟩
  rw [hsize] at hk ⊢
  have h0 : k = 0 := by omega
  rw [h0, Volume.cluster_zero, hstart, hoffset]
  decide

/-- The first letter of the file is `A`. -/
def fileMem : Mem := machineMem 20 (diskWords 0x20 512 ++ [(0x30000800, 1, 0x41)])

theorem fileMem_file : FileDisk fileMem := by
  refine .of_words ⟨by decide +kernel, ⟨by decide +kernel, by decide +kernel⟩, ?_, by decide +kernel,
    by decide +kernel, by decide +kernel⟩ (by decide +kernel) (by decide +kernel) (by decide +kernel)
    (by decide +kernel)
  exact ⟨by decide +kernel, ⟨⟨by decide +kernel, by decide +kernel⟩, by decide +kernel,
    by decide +kernel⟩, fun j hj => absurd hj (Nat.not_lt_zero j)⟩

section File

variable {m : Mem} {n : Fin 100} {position : Nat}

/-- The file is there for a process that has it open. -/
theorem OpenAt.readable (ho : OpenAt s n 512 2 position) (hf : FileDisk m)
    (hs : ∀ x, fsBase ≤ x → s.ram.mem x = m x) : Readable s (s.desc n) := by
  have hm := hf.disk.mounted
  obtain ⟨-, hvol⟩ := volumeAt_congr hs hm
  have hsize : (volumeAt s.ram.mem).clusterSize = 512 := by
    rw [hvol]
    exact hf.clusterSize
  refine ⟨hm.congr hs, by omega, ?_, by rw [hsize, ho.size]; decide⟩
  rw [ho.cluster, ho.size]
  exact hf.onVolume.congr hm hs

theorem OpenAt.exact (ho : OpenAt s n 512 2 position) (hf : FileDisk m)
    (hs : ∀ x, fsBase ≤ x → s.ram.mem x = m x) :
    (volumeAt s.ram.mem).Exact (s.descCluster (s.desc n)) (s.descSize (s.desc n)) := by
  rw [ho.cluster, ho.size, (volumeAt_congr hs hf.disk.mounted).2]
  exact hf.exact

end File

/-- The first program is about to go on after it has read `k` bytes of `A`, its only open file. -/
structure Reader (m : Mem) (Ok : Kernel → Event → Prop) (k : Nat) (pool free : List Nat) (a : Sched)
    (S : Handles) (s : Kernel) (n : Fin 100) : Prop where
  machine : At image m Ok pool free a S s
  running : a.current ≠ 0
  user : a.kont a.current = .user
  handles : ∃ d c, S = noHandles.opened (s.pc.currentProcess, n) d c
  file : OpenAt s n 512 2 k
  volume : ∀ x, fsBase ≤ x → s.ram.mem x = m x
  room : 7 ≤ free.length
  slot : (List.finRange numProc).find? (fun j => a.state j = .unused) = some 2

theorem opened_machine {ws : List Word} (hf : FileDisk (machineMem 20 ws))
    (Ok : Kernel → Event → Prop) (hOk : ∀ s e, Confined s e → Ok s e) :
    ∃ pool free a S s n, Reader (machineMem 20 ws) Ok 0 pool free a S s n := by
  obtain ⟨pool, free, s, s₁, r, he, hcall, harg, ht, hd₁, hoff, hfree⟩ :=
    file_named hOk 9 (by decide) hf.disk
  have hc : userSched.current ≠ 0 := by decide
  have h₁ := hcall.whole
  have hl₁ := h₁.live hc
  obtain ⟨v, s₂, hopen, hv⟩ := openFile_opens h₁.mem h₁.files hl₁ hd₁.mounted hd₁.root ht
    (canOpen_none h₁ _) (by decide) hd₁.first
  have hk₂ := (openFile_kept h₁ hl₁ hopen).1
  obtain ⟨n, os, d, c, hn, -, -, h₂, hpc, hfirst, hstart₂⟩ :=
    openFile_fields h₁ h₁.entries_none hl₁ hd₁.mounted ht hopen hv
  rw [hfirst.unique hd₁.first, hd₁.size, hd₁.cluster] at hstart₂
  have hl₂ := h₂.live hc
  have htf : s₁.trapFrame = s₂.trapFrame := by
    have hq : Quiet false s₁ s₂ := .of_low (quiet_openFile _ _) hopen
    unfold Kernel.trapFrame
    rw [hq.rsp0]
  obtain ⟨s₃, hset, h₃, he₃, hw₃, -⟩ := h₂.answer hc htf v
  have same₃ : TablesSame s₂ s₃ := he₃ ▸ h₂.mem.tablesSame_stack hl₂ hw₃
  have hrun : systemCalls image 9 (s.callFrame 9 (s.trapFrame + 8) 0x41 0 0).rsi s₁ =
      .ok (some v) s₂ := by
    change sysOpenFile _ s₁ = _
    unfold sysOpenFile
    rw [bind_run (get_run s₁), bind_run (low_run harg), bind_run (low_run hopen)]
    rfl
  have hstep : step image (.syscall (s.callFrame 9 (s.trapFrame + 8) 0x41 0 0)) s = .ok () s₃ := by
    rw [hcall.run]
    exact (bind_run hrun).trans hset
  have hconf : Confined s (.syscall (s.callFrame 9 (s.trapFrame + 8) 0x41 0 0)) := fun _ _ =>
    ⟨fun h10 => absurd (show 9 = 10 from h10) (by decide),
      fun h15 => absurd (show 9 = 15 from h15) (by decide)⟩
  refine ⟨pool, free, _, _, s₃, n, ⟨r.reached.step he (hOk _ _ hconf) hstep, h₃⟩, hc,
    show userSched.kont userSched.current = .user by decide, ⟨d, c, ?_⟩,
    hstart₂.same h₂ h₃ same₃ (by rw [he₃]) (by rw [he₃]), fun x hx => ?_, hfree,
    show (List.finRange numProc).find? (fun j => userSched.state j = .unused) = some 2 by decide⟩
  · rw [he₃, hpc]
  · rw [same₃.image x hx, hk₂.image x hx]
    exact hoff x fun _ hp => outside_pages hp (Or.inr hx)

/-- It reads the first `k` bytes. -/
theorem Reader.reads {m : Mem} {Ok : Kernel → Event → Prop} {n : Fin 100} {k : Nat}
    (hf : FileDisk m) (hr : Reader m Ok 0 pool free a S s n) (hOk : ∀ s e, Confined s e → Ok s e)
    (hk : k ≤ 512) : ∃ b s', Reader m Ok k pool free b S s' n ∧
      s'.userPage s'.pc.currentProcess = s.userPage s.pc.currentProcess := by
  rcases Nat.eq_zero_or_pos k with rfl | h0
  · exact ⟨a, s, hr, rfl⟩
  · obtain ⟨s', os, hat', ho', hpage, hsame⟩ := hr.machine.reads hOk hr.user hr.running hr.file
      (hr.file.readable hf hr.volume) h0 (by omega) (by omega)
    have hcur : s'.pc.currentProcess = s.pc.currentProcess :=
      hat'.whole.rep.current.trans hr.machine.whole.rep.current.symm
    rw [Nat.zero_add] at ho'
    refine ⟨_, s', ⟨hat', hr.running, hr.user, ?_, ho',
        fun x hx => (hsame x hx).trans (hr.volume x hx), hr.room, hr.slot⟩,
      hcur.symm ▸ hpage⟩
    rw [hcur]
    exact hr.handles

/-- The first program, after it has read `k` bytes of the file. -/
theorem read_machine (Ok : Kernel → Event → Prop) (hOk : ∀ s e, Confined s e → Ok s e) {k : Nat}
    (hk : k ≤ 512) : ∃ pool free a S s n, Reader fileMem Ok k pool free a S s n := by
  obtain ⟨pool, free, a, S, s, n, hr⟩ := opened_machine fileMem_file Ok hOk
  obtain ⟨b, s', hr', -⟩ := hr.reads fileMem_file hOk hk
  exact ⟨pool, free, b, S, s', n, hr'⟩

end Os64
