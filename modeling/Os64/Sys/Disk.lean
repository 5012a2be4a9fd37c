/-
  A machine with a file, and what open_file opens on it.

  The volume has one sector of 512 bytes in a cluster, one FAT of one sector and 16 entries in its
  root directory. Entry 0 is called `A`, with the attributes and the size of the machine, and lies
  in cluster 2.

  * `file_named`: the first program has made a call whose argument points to the name `A`.
  * `openFile_files_iff`: open_file opens files only exactly when the path names one.
-/
import Os64.Sys.Moves
import Os64.Files.Opening

namespace Os64

open Os64.Lib

/-! ## The machine -/

def diskWords (attributes size : Nat) : List Word :=
  [(0x3000020b, 2, 512), (0x3000020d, 1, 1), (0x3000020e, 2, 1), (0x30000210, 1, 1),
    (0x30000211, 2, 16), (0x30000216, 2, 1), (0x30000404, 2, 0xffff),
    (0x30000600, 8, 0x2020202020202041), (0x30000608, 3, 0x202020), (0x3000060b, 1, attributes),
    (0x3000061a, 2, 2), (0x3000061c, 4, size)]

def diskMem (attributes size : Nat) : Mem := machineMem 20 (diskWords attributes size)

/-- The name of entry 0, as a path and as a word of memory. -/
def diskPath : List UInt8 := [0x41]

/-- Entry 0 is the first that is called `A`, and it has these attributes. -/
structure Disk (m : Mem) (attributes size : Nat) : Prop where
  mounted : Mounted m
  root : RootMapped m
  first : (kernelDirectory m).First (fields diskPath).1 (fields diskPath).2 0
  attributes : (kernelDirectory m).attributes 0 = attributes
  size : entrySize m 0 = size
  cluster : entryCluster m 0 = 2

section Congr

variable {m m' : Mem}

theorem kernelDirectory_congr (hm : Mounted m) (h : ∀ x, fsBase ≤ x → m' x = m x) :
    kernelDirectory m' = kernelDirectory m := by
  have hroot := (entry_congr hm h 0).1
  have hstart := (volumeAt_congr h hm).1
  have hlow := hm.start
  have hcount : bpb m' 17 2 = bpb m 17 2 := by
    unfold bpb
    rw [hstart]
    exact load_congr fun x hx _ => h x (by omega)
  have hbyte : ∀ k, m' (rootStart m + k) = m (rootStart m + k) := fun k =>
    h _ (by unfold rootStart; omega)
  unfold kernelDirectory directoryAt
  rw [hroot, hcount]
  congr 1
  · funext i
    exact List.map_congr_left fun k _ => by rw [Nat.add_assoc, hbyte]
  · funext i
    exact List.map_congr_left fun k _ => by rw [Nat.add_assoc, Nat.add_assoc, hbyte]
  · funext i
    rw [Nat.add_assoc, hbyte]

theorem Disk.congr {attributes size : Nat} (h : Disk m attributes size)
    (hsame : ∀ x, fsBase ≤ x → m' x = m x) : Disk m' attributes size := by
  have hm := h.mounted
  have hdir := kernelDirectory_congr hm hsame
  obtain ⟨hroot, hsize, hcluster⟩ := entry_congr hm hsame 0
  have hstart := (volumeAt_congr hsame hm).1
  have hlow := hm.start
  have hcount : bpb m' 17 2 = bpb m 17 2 := by
    unfold bpb
    rw [hstart]
    exact load_congr fun x hx _ => hsame x (by omega)
  refine ⟨hm.congr hsame, ⟨?_, ?_⟩, ?_, ?_, hsize.trans h.size, hcluster.trans h.cluster⟩
  · rw [hstart]
    exact h.root.sector
  · rw [hroot, hcount]
    exact h.root.root
  · rw [hdir]
    exact h.first
  · rw [hdir]
    exact h.attributes

theorem Disk.off {K : Image} {attributes size : Nat} (h : Disk m attributes size)
    (hoff : OffPages K m m') : Disk m' attributes size :=
  h.congr fun x hx => hoff x fun _ hp => outside_pages hp (Or.inr hx)

end Congr

/-- A directory, and a file. -/
theorem disk_directory : Disk (diskMem 0x10 512) 0x10 512 where
  mounted := by decide +kernel
  root := ⟨by decide +kernel, by decide +kernel⟩
  first := by
    refine ⟨by decide +kernel, ⟨⟨by decide +kernel, by decide +kernel⟩, by decide +kernel,
      by decide +kernel⟩, fun j hj => absurd hj (Nat.not_lt_zero j)⟩
  attributes := by decide +kernel
  size := by decide +kernel
  cluster := by decide +kernel

theorem disk_file : Disk (diskMem 0x20 512) 0x20 512 where
  mounted := by decide +kernel
  root := ⟨by decide +kernel, by decide +kernel⟩
  first := by
    refine ⟨by decide +kernel, ⟨⟨by decide +kernel, by decide +kernel⟩, by decide +kernel,
      by decide +kernel⟩, fun j hj => absurd hj (Nat.not_lt_zero j)⟩
  attributes := by decide +kernel
  size := by decide +kernel
  cluster := by decide +kernel

/-! ## The name in a frame -/

section Named

variable {K : Image} {pool free : List Nat} {a : Sched} {S : Handles} {s : Kernel}

/-- A word of the caller's frame that holds `A` and zeros is a path. -/
theorem frame_text (h : Whole K pool free a S s) (hl : s.Live s.pc.currentProcess) {k : Nat}
    (hk : k < 22) (hword : (s.frame s.pc.currentProcess).words.getD k 0 = 0x41) :
    Text loadVirt s (s.trapFrame + 8 * k) diskPath := by
  have hv := h.mem.stackValid hl
  obtain ⟨-, h2⟩ := frameAddr_end s s.pc.currentProcess
  unfold trapFrameSize at h2
  have htf : s.trapFrame = s.frameAddr s.pc.currentProcess + kernelBase :=
    (h.mem.trapFrame_eq hl).trans (h.mem.tf_eq hl)
  have hbyte : ∀ o < 8, loadVirt (s.trapFrame + 8 * k + o) s =
      .ok (s.ram.mem (s.frameAddr s.pc.currentProcess + 8 * k + o)) s := by
    intro o ho
    have hptr : KernelPtr (s.trapFrame + 8 * k + o) 1 :=
      hv.kernelPtr (a := s.frameAddr s.pc.currentProcess + 8 * k + o) (by omega) (by omega)
    have hphys : v2p (s.trapFrame + 8 * k + o) = s.frameAddr s.pc.currentProcess + 8 * k + o :=
      hv.v2p_at (by omega) (by omega)
    rw [loadVirt_kernel (h.mem.currentSpace hl) hptr, hphys]
  have hload : load s.ram.mem (s.frameAddr s.pc.currentProcess + 8 * k) 8 = 0x41 :=
    (frameAt_words s.ram.mem (s.frameAddr s.pc.currentProcess) hk).symm.trans hword
  generalize s.frameAddr s.pc.currentProcess + 8 * k = b at hbyte hload
  simp only [load] at hload
  have h0 := (s.ram.mem b).toNat_lt
  have h1 := (s.ram.mem (b + 1)).toNat_lt
  have hfirst : s.ram.mem b = 0x41 := UInt8.toNat_inj.mp (show _ = 65 by omega)
  have hsecond : s.ram.mem (b + 1) = 0 := UInt8.toNat_inj.mp (show _ = 0 by omega)
  have t0 := hbyte 0 (by omega)
  have t1 := hbyte 1 (by omega)
  rw [hsecond] at t1
  rw [Nat.add_zero, Nat.add_zero, hfirst] at t0
  unfold diskPath Text Text
  exact ⟨by decide, t0, t1⟩

/-- There is room for a descriptor while none is open. -/
theorem canOpen_none (h : Whole K pool free a noHandles s) (i : Slot) : s.CanOpen i := by
  have hp := h.mem.tablePages
  have hzero : (s.processTable i).file 0 = 0 := h.files.rep.held i 0
  have hload : kload (descFcb (s.fileDescTable + fileDescSize * 0)) 8 s.ram = .ok 0 s.ram := by
    rw [descPtr_eq h.mem.fileDescTable]
    exact kload_descFcb h.files.rep hp (by rw [descLimit_eq]; omega)
  refine ⟨⟨0, hzero⟩, s.ram, 0, ?_⟩
  obtain ⟨n, hn⟩ := Nat.exists_eq_succ_of_ne_zero (show pageSize / fileDescSize ≠ 0 by decide)
  rw [hn]
  unfold findFileDesc
  rw [bind_run hload]
  rfl

end Named

/-- The first program makes call `rax` with a pointer to the name `A`. -/
theorem file_named {ws : List Word} {Ok : Kernel → Event → Prop}
    (hOk : ∀ s e, Confined s e → Ok s e) (rax : Nat) {attributes size : Nat} (hrax : rax ≤ 15)
    (hdisk : Disk (machineMem 20 ws) attributes size) :
    ∃ pool free s s₁, At image (machineMem 20 ws) Ok pool free userSched noHandles s ∧
      Enabled s (.syscall (s.callFrame rax (s.trapFrame + 8) 0x41 0 0)) ∧
      Calling image pool free userSched noHandles (s.callFrame rax (s.trapFrame + 8) 0x41 0 0) s s₁ ∧
      arg (s.callFrame rax (s.trapFrame + 8) 0x41 0 0).rsi 0 s₁ = .ok (s.trapFrame + 8) s₁ ∧
      Text loadVirt s₁ (s.trapFrame + 8) diskPath ∧ Disk s₁.ram.mem attributes size ∧
      OffPages image (machineMem 20 ws) s₁.ram.mem ∧ 7 ≤ free.length := by
  obtain ⟨pool, free, s, r, -, hfree, hoff⟩ := reached_user (n := 20) (by decide) (by decide) ws Ok
    fun s e he => hOk s e (by rcases he with ⟨f, rfl⟩ | rfl <;> trivial)
  have hc : userSched.current ≠ 0 := by decide
  have hlt : s.trapFrame + 8 < 2 ^ 64 := by
    have hl := r.whole.live hc
    have hb := (r.whole.mem.stackValid hl).below
    obtain ⟨-, h2⟩ := frameAddr_end s s.pc.currentProcess
    rw [r.whole.mem.trapFrame_eq hl]
    change (s.processTable s.pc.currentProcess).tf + 8 < _
    rw [r.whole.mem.tf_eq hl, kernelBase_eq]
    omega
  have he := r.enabled_call (by decide) hc rax hrax hlt (show 0x41 < 2 ^ 64 by decide) At.zero_lt
    At.zero_lt
  obtain ⟨s₁, hcall⟩ := call_begins (K := image) r.whole hc he.2.2 At.rdi_lt hrax
  refine ⟨pool, free, s, s₁, r, he, hcall, hcall.arg hc rfl (by decide), ?_,
    (hdisk.off hoff).off hcall.off, hoff.trans hcall.off, by omega⟩
  rw [hcall.trapFrame]
  refine frame_text (k := 1) hcall.whole (hcall.whole.live hc) (by decide) ?_
  rw [hcall.frame]
  rfl

/-! ## open_file -/

/-- open_file opens nothing but files exactly when the path names neither a volume label nor a
    directory. -/
theorem openFile_files_iff {K : Image} {pool free : List Nat} {s : Kernel} {S : Handles}
    {path : Nat} {p : List UInt8} (hm : MemOk K pool free s) (hf : FilesOk s S)
    (hl : s.Live s.pc.currentProcess) (hmount : Mounted s.ram.mem) (hroot : RootMapped s.ram.mem)
    (ht : Text loadVirt s path p) : OpensFiles s path ↔ NamesFile s p :=
  ⟨fun h => h.names hm hf hl hmount hroot ht, openFile_regular hm hf hl ht⟩

theorem openFile_files_iff_disk : ∃ s path, Text loadVirt s path diskPath ∧
    (OpensFiles s path ↔ NamesFile s diskPath) := by
  obtain ⟨pool, free, s, s₁, -, -, hcall, -, ht, hdisk, -⟩ :=
    file_named (fun _ _ h => h) 9 (by decide) disk_file
  have hw := hcall.whole
  exact ⟨s₁, _, ht, openFile_files_iff hw.mem hw.files (hw.live (by decide)) hdisk.mounted
    hdisk.root ht⟩

/-- The first program opens a directory. -/
theorem openFile_directory : ∃ s f s₁ path v s', Reached image (diskMem 0x10 512) (fun _ _ => True) s ∧
    Enabled s (.syscall f) ∧ f.rax = 9 ∧ pushFrame f s = .ok () s₁ ∧
      arg f.rsi 0 s₁ = .ok path s₁ ∧ openFile s₁.pc.currentProcess path s₁ = .ok v s' ∧ v ≠ -1 ∧
        ¬ OpensFiles s₁ path := by
  obtain ⟨pool, free, s, s₁, r, he, hcall, harg, ht, hdisk, -⟩ :=
    file_named (fun _ _ _ => trivial) 9 (by decide) disk_directory
  have hw := hcall.whole
  have hl := hw.live (show userSched.current ≠ 0 by decide)
  have hshort : Short diskPath := by decide
  have hcan := canOpen_none hw s₁.pc.currentProcess
  obtain ⟨v, s', hopen, hv⟩ := openFile_opens hw.mem hw.files hl hdisk.mounted hdisk.root ht hcan
    hshort hdisk.first
  refine ⟨s, _, s₁, _, v, s', r.reached, he, rfl, hcall.push, harg, hopen, hv, fun h => ?_⟩
  have hdir := (h.names hw.mem hw.files hl hdisk.mounted hdisk.root ht hcan hshort 0 hdisk.first).2
  rw [hdisk.attributes] at hdir
  exact absurd hdir (by decide)

end Os64
