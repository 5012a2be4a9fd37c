/-
  The first program, from the volume to its page.

  `EMain` loads `USER.BIN` at `0x30000`; `init_user_process` of the kernel copies 5120 bytes
  from there. `BootImage m` has both files on the volume, each with its chain.

  * `BootImage.loaded`: memory after `EMain`.
  * `boot_holds_iff`: when the first process starts with the whole file.
-/
import Os64.Loader.Alike
import Os64.Sys.Disk

namespace Os64

open Os64.Lib

namespace Loader

/-! ## Another memory with the same image -/

section Congr

variable {m m' : Mem} {v n : Nat}

theorem directory_eq (hm : Mounted m) : directory m = kernelDirectory m := by
  unfold directory kernelDirectory
  rw [rootStart_eq hm, bpb_eq hm]

theorem FileAt.congr (h : FileAt m v n) (hsame : ∀ x, fsBase ≤ x → m' x = m x) : FileAt m' v n := by
  have hm := h.mounted
  have hm' := hm.congr hsame
  obtain ⟨hstart, hV⟩ := volumeAt_congr hsame hm
  obtain ⟨hroot, hsize, hcluster⟩ := entry_congr hm hsame v
  have hcount : Os64.bpb m' 17 2 = Os64.bpb m 17 2 :=
    congrArg Directory.count (kernelDirectory_congr hm hsame)
  refine ⟨hm', ⟨?_, ?_⟩, by rw [hV]; exact h.clusterSize, by rw [hV, hcluster]; exact h.chain, ?_, ?_⟩
  · have := h.root.sector
    rw [volumeStart_eq hm] at this
    rw [volumeStart_eq hm', hstart]
    exact this
  · have := h.root.root
    rw [rootStart_eq hm, bpb_eq hm] at this
    rw [rootStart_eq hm', bpb_eq hm', hroot, hcount]
    exact this
  · intro k hk
    rw [hstart, hV, hcluster, clusterStart_congr hm hsame]
    exact h.mapped k hk
  · rw [hsize, hV]
    exact h.size

theorem text_congr : ∀ {p : List UInt8} {a : Nat},
    (∀ k ≤ p.length, m' (phys (a + k)) = m (phys (a + k))) → Text lbyte m a p → Text lbyte m' a p := by
  have hbyte : ∀ {a : Nat} {c : UInt8}, m' (phys a) = m (phys a) → lbyte a m = .ok c m →
      lbyte a m' = .ok c m' := by
    intro a c hsame h
    obtain ⟨_, m₁, hens, hrest⟩ := bind_ok.mp h
    obtain ⟨hp, rfl⟩ := ensure_ok.mp hens
    obtain ⟨hc, -⟩ := EStateM.Result.ok.inj hrest
    unfold lbyte
    rw [bind_run (ensure_run hp _ m'), ← hc, ← hsame]
    rfl
  intro p
  induction p with
  | nil => exact fun hsame h => hbyte (hsame 0 (Nat.le_refl 0)) h
  | cons c p ih =>
      intro a hsame h
      refine ⟨h.1, hbyte (hsame 0 (Nat.zero_le _)) h.2.1, ih (fun k hk => ?_) h.2.2⟩
      have := hsame (k + 1) (Nat.succ_le_succ hk)
      rwa [Nat.add_comm k 1, ← Nat.add_assoc] at this

end Congr

/-! ## The two files -/

/-- `KERNEL.BIN` -/
def kernelName : List UInt8 := [0x4b, 0x45, 0x52, 0x4e, 0x45, 0x4c, 0x2e, 0x42, 0x49, 0x4e]

/-- `USER.BIN` -/
def userName : List UInt8 := [0x55, 0x53, 0x45, 0x52, 0x2e, 0x42, 0x49, 0x4e]

section Boot

variable {K : Image} {m m₁ m' : Mem} {path v n addr : Nat} {name : List UInt8}

theorem NamedFile.filled (h : NamedFile m path name v n) (haddr : addr ≤ 2 ^ 28)
    (hrun : loadFile path addr m = .ok 0 m') (hsize : entrySize m v ≤ n * (volumeAt m).clusterSize) :
    Filled m v addr (entrySize m v) m' :=
  h.file.filled h.text h.find.1 h.find.2 haddr hrun hsize

/-- What `load_file` of a file that its chain holds leaves of another one. -/
theorem NamedFile.congr (h : NamedFile m path name v n)
    (hsame : ∀ x, x < 0x200000 ∨ fsBase ≤ x → m' x = m x) : NamedFile m' path name v n where
  text := text_congr (fun k hk => hsame _ (Or.inl (h.low k hk))) h.text
  short := h.short
  low := h.low
  first := by
    have hm := h.file.mounted
    have himage : ∀ x, fsBase ≤ x → m' x = m x := fun x hx => hsame x (Or.inr hx)
    rw [directory_eq (hm.congr himage), kernelDirectory_congr hm himage, ← directory_eq hm]
    exact h.first
  file := h.file.congr fun x hx => hsame x (Or.inr hx)

theorem lload_same {a k x : Nat} (h : lload a k m = .ok x m') : m' = m := by
  obtain ⟨_, m₁, hens, hrest⟩ := bind_ok.mp h
  obtain ⟨-, rfl⟩ := ensure_ok.mp hens
  exact (EStateM.Result.ok.inj hrest).2.symm

theorem initFs_same {u : Unit} (h : initFs m = .ok u m') : m' = m := by
  unfold initFs at h
  rw [bind_run (getFsBpb_run m)] at h
  obtain ⟨first, m₁, h1, h⟩ := bind_ok.mp h
  obtain ⟨second, m₂, h2, h⟩ := bind_ok.mp h
  obtain ⟨-, rfl⟩ := ensure_ok.mp h
  rw [lload_same h2, lload_same h1]

theorem initFs_run (hm : Mounted m) (hfirst : Os64.bpb m 0x1fe 1 = 0x55)
    (hsecond : Os64.bpb m 0x1ff 1 = 0xaa) : initFs m = .ok () m := by
  unfold initFs
  rw [bind_run (getFsBpb_mounted hm), bind_run (bpb_run hm (by decide) (by decide)),
    bind_run (bpb_run hm (by decide) (by decide)), hfirst, hsecond]
  exact assertFile_run (by decide) 216 m

/-- `EMain` where both files are in place already. -/
theorem eMain_run {kernelBin userBin : Nat} (hfirst : Os64.bpb m 0x1fe 1 = 0x55)
    (hsecond : Os64.bpb m 0x1ff 1 = 0xaa) (hk : loadFile kernelBin 0x200000 m = .ok 0 m)
    (hu : loadFile userBin 0x30000 m = .ok 0 m) (hm : Mounted m) :
    eMain kernelBin userBin m = .ok () m := by
  unfold eMain
  rw [bind_run (initFs_run hm hfirst hsecond), bind_run hk, bind_run (ensure_run rfl _ m),
    bind_run hu]
  exact ensure_run rfl _ m

theorem eMain_ok {kernelBin userBin : Nat} (h : eMain kernelBin userBin m = .ok () m') :
    ∃ m₁, loadFile kernelBin 0x200000 m = .ok 0 m₁ ∧ loadFile userBin 0x30000 m₁ = .ok 0 m' := by
  obtain ⟨_, m₀, hinit, h1⟩ := bind_ok.mp h
  rw [initFs_same hinit] at h1
  obtain ⟨kernel, m₁, hkernel, h2⟩ := bind_ok.mp h1
  obtain ⟨_, m₂, hens, h3⟩ := bind_ok.mp h2
  obtain ⟨hzero, hsame⟩ := ensure_ok.mp hens
  rw [hsame] at h3
  obtain ⟨user, m₃, huser, h4⟩ := bind_ok.mp h3
  obtain ⟨hzero', hsame'⟩ := ensure_ok.mp h4
  rw [hsame']
  exact ⟨m₁, hzero ▸ hkernel, hzero' ▸ huser⟩

/-! ## The memory map -/

section Bios

theorem memMapCount_congr (h : ∀ x, 0x20000 ≤ x → x < 0x30000 → m' x = m x) :
    memMapCount m' = memMapCount m := by
  unfold memMapCount
  rw [load_congr fun x h1 h2 => h x h1 (by omega)]

theorem memMap_congr (h : ∀ x, 0x20000 ≤ x → x < 0x30000 → m' x = m x) {i : Nat} (hi : i ≤ 50) :
    memMap m' i = memMap m i := by
  have hload : ∀ a n : Nat, 0x20000 ≤ a → a + n ≤ 0x30000 → load m' a n = load m a n :=
    fun a n ha hn => load_congr fun x h1 h2 => h x (by omega) (by omega)
  unfold memMap
  rw [hload _ 8 (by omega) (by omega), hload _ 8 (by omega) (by omega),
    hload _ 4 (by omega) (by omega)]

theorem bios_congr (h : ∀ x, 0x20000 ≤ x → x < 0x30000 → m' x = m x) (hcount : memMapCount m ≤ 50)
    (hbios : BiosOk m) : memMapCount m' ≤ 50 ∧ BiosOk m' := by
  have hsame := memMapCount_congr h
  have hmap : ∀ {i : Nat}, i < (memMapCount m).toNat → memMap m' i = memMap m i := fun hi =>
    memMap_congr h (by omega)
  refine ⟨by rw [hsame]; exact hcount, fun i j hi hj hne => ?_, fun i hi => ?_⟩
  · rw [hsame] at hi hj
    rw [hmap hi, hmap hj]
    exact hbios.disjoint i j hi hj hne
  · rw [hsame] at hi
    rw [hmap hi]
    exact hbios.bounded i hi

end Bios

/-! ## The first process -/

/-- The user page of process `i` holds the whole file of entry `v`, and then zeros. -/
structure HoldsFile (s : Kernel) (i : Slot) (m : Mem) (v n : Nat) : Prop where
  covers : entrySize m v ≤ n * (volumeAt m).clusterSize
  bytes : ∀ k < entrySize m v, s.ram.mem (s.userPage i + k) = fileByte m (entryCluster m v) k
  zeros : ∀ k, entrySize m v ≤ k → k < pageSize → s.ram.mem (s.userPage i + k) = 0

/-- What `EMain` leaves where the kernel looks for the program. -/
theorem program_bytes {kernelBin userBin vk nk : Nat} (hk : NamedFile m kernelBin kernelName vk nk)
    (hkz : entrySize m vk ≤ nk * (volumeAt m).clusterSize)
    (hu : NamedFile m userBin userName v n) (hz : entrySize m v ≤ n * (volumeAt m).clusterSize)
    (hload : eMain kernelBin userBin m = .ok () m') :
    (∀ x, 0x20000 ≤ x → x < 0x30000 → m' x = m x) ∧
      (∀ k < entrySize m v, m' (0x30000 + k) = fileByte m (entryCluster m v) k) ∧
      ∀ k, entrySize m v ≤ k → 0x30000 + k < 0x200000 → m' (0x30000 + k) = m (0x30000 + k) := by
  obtain ⟨m₁, hkernel, huser⟩ := eMain_ok hload
  have hbytes := hk.file.bytes_le
  have hf₁ := hk.filled (by decide) hkernel hkz
  -- the kernel's file lies between the loader and the image
  have hsame : ∀ x, x < 0x200000 ∨ fsBase ≤ x → m₁ x = m x := fun x hx => by
    rw [hf₁ x, if_neg (by unfold fsBase at hx; omega)]
  have himage : ∀ x, fsBase ≤ x → m₁ x = m x := fun x hx => hsame x (Or.inr hx)
  obtain ⟨hstart, hV⟩ := volumeAt_congr himage hu.file.mounted
  obtain ⟨-, hsize, hcluster⟩ := entry_congr hu.file.mounted himage v
  have hf := (hu.congr hsame).filled (by decide) huser (by rw [hsize, hV]; exact hz)
  rw [hsize] at hf
  refine ⟨fun x h1 h2 => ?_, fun k hlt => ?_, fun k hge hlow => ?_⟩
  · rw [hf x, if_neg (by omega)]
    exact hsame x (Or.inl (by omega))
  · have hvol := hu.file.onVolume hz
    rw [hf, if_pos (by omega), hstart, hV, hcluster, Nat.add_sub_cancel_left,
      himage _ (by have := hu.file.mounted.start; omega)]
    exact (hvol.byteAt hu.file.clusterSize hlt).2
  · rw [hf, if_neg (by omega)]
    exact hsame _ (Or.inl (by omega))

end Boot

/-! ## A machine to boot -/

/-- A volume with `KERNEL.BIN` and with `USER.BIN`, of `size` bytes in one cluster. Byte 5120 of
    the cluster is `b`, and so is the one that the kernel does not copy. -/
def bootWords (size b : Nat) : List Word :=
  [(0x3000020b, 2, 512), (0x3000020d, 1, 16), (0x3000020e, 2, 1), (0x30000210, 1, 1),
    (0x30000211, 2, 16), (0x30000216, 2, 1), (0x30000404, 2, 0xffff), (0x30000406, 2, 0xffff),
    (0x30000600, 8, 0x20204c454e52454b), (0x30000608, 3, 0x4e4942), (0x3000060b, 1, 0x20),
    (0x3000061a, 2, 2), (0x3000061c, 4, 512),
    (0x30000620, 8, 0x2020202052455355), (0x30000628, 3, 0x4e4942), (0x3000062b, 1, 0x20),
    (0x3000063a, 2, 3), (0x3000063c, 4, size),
    (0x101000, 8, 0x422e4c454e52454b), (0x101008, 2, 0x4e49), (0x101100, 8, 0x4e49422e52455355),
    (0x30003c00, 1, b), (0x31400, 1, b)]

def bootMem (size b : Nat) : Mem := machineMem 20 (bootWords size b)

section Memory

variable {size b x : Nat}

theorem memOf_zero {ws : List Word} (h : ∀ w ∈ ws, x < w.1 ∨ w.1 + w.2.1 ≤ x) : memOf ws x = 0 := by
  induction ws using List.reverseRecOn with
  | nil => rfl
  | append_singleton ws w ih =>
      have hlast := h w (List.mem_append_right _ List.mem_cons_self)
      unfold memOf at ih ⊢
      rw [List.foldl_append]
      exact (store_of_outside _ _ _ _ hlast).trans
        (ih fun v hv => h v (List.mem_append_left _ hv))

/-- Where the files lie and where they are loaded, all other bytes are zero. -/
theorem bootMem_zero (hx : 0x30000800 ≤ x ∧ x < 0x30004800 ∧ x ≠ 0x30003c00 ∨
    0x30000 ≤ x ∧ x < 0x32000 ∧ x ≠ 0x31400 ∨ 0x200000 ≤ x ∧ x < 0x202000) :
    bootMem size b x = 0 := by
  refine memOf_zero ?_
  simp only [bootWords, List.cons_append, List.nil_append, List.forall_mem_cons,
    List.not_mem_nil, false_implies, implies_true, and_true]
  omega

end Memory

/-- A file of one cluster is in place already. -/
theorem NamedFile.inPlace {m : Mem} {path v addr i : Nat} {name : List UInt8}
    (h : NamedFile m path name v 1)
    (hsize : 0 < entrySize m v ∧ entrySize m v ≤ (volumeAt m).clusterSize)
    (haddr : addr ≤ 2 ^ 28) (hi : entryCluster m v = i) (hin : ∀ j < entrySize m v,
      m (Os64.volumeStart m + ((volumeAt m).offset i + j)) = m (addr + j)) :
    loadFile path addr m = .ok 0 m := by
  obtain ⟨m', hrun, hf⟩ := h.file.loaded h.text h.find.1 h.find.2 haddr
    (by rw [Nat.one_mul]; exact hsize.2) (Or.inl (by rw [Nat.sub_self, Nat.zero_mul]; exact hsize.1))
  have hsame : m' = m := by
    funext x
    rw [hf x]
    split
    · have hat := Volume.byteAt_block (V := volumeAt m) (i := i) 0 (j := x - addr) (by omega)
      rw [Nat.zero_mul, Nat.zero_add, Volume.cluster_zero] at hat
      rw [hi, hat, hin _ (by omega), Nat.add_sub_cancel' (by omega)]
    · rfl
  rw [hrun, hsame]

/-- What the words of `bootMem` come to. -/
structure BootMem (size b : Nat) : Prop where
  kernel : NamedFile (bootMem size b) 0x101000 kernelName 0 1
  user : NamedFile (bootMem size b) 0x101100 userName 1 1
  volume : (volumeAt (bootMem size b)).clusterSize = 8192 ∧
    (volumeAt (bootMem size b)).offset 2 = 0x600 ∧ (volumeAt (bootMem size b)).offset 3 = 0x2600
  sizes : entrySize (bootMem size b) 0 = 512 ∧ entrySize (bootMem size b) 1 = size
  clusters : entryCluster (bootMem size b) 0 = 2 ∧ entryCluster (bootMem size b) 1 = 3
  signature : Os64.bpb (bootMem size b) 0x1fe 1 = 0x55 ∧ Os64.bpb (bootMem size b) 0x1ff 1 = 0xaa
  byte : bootMem size b 0x30003c00 = bootMem size b 0x31400

theorem BootMem.loads {size b : Nat} (h : BootMem size b) (h0 : 0 < size) (hsize : size ≤ 8192) :
    eMain 0x101000 0x101100 (bootMem size b) = .ok () (bootMem size b) := by
  have hstart : Os64.volumeStart (bootMem size b) = 0x30000200 := machine_start
  obtain ⟨hc, hoff2, hoff3⟩ := h.volume
  obtain ⟨hz0, hz1⟩ := h.sizes
  have haddr : 0x200000 ≤ 2 ^ 28 := by decide
  have hk := h.kernel.inPlace (by omega) haddr h.clusters.1 fun j hj => by
    rw [hz0] at hj
    rw [hstart, hoff2, bootMem_zero (by omega), bootMem_zero (by omega)]
  have haddr' : 0x30000 ≤ 2 ^ 28 := by decide
  have hu := h.user.inPlace (by omega) haddr' h.clusters.2 fun j hj => by
    rw [hz1] at hj
    rw [hstart, hoff3]
    by_cases hj' : j = 5120
    · rw [hj']
      exact h.byte
    · rw [bootMem_zero (by omega), bootMem_zero (by omega)]
  exact eMain_run h.signature.1 h.signature.2 hk hu h.user.file.mounted

theorem bootMem_kernel_full : NamedFile (bootMem 512 0) 0x101000 kernelName 0 1 where
  text := text_of (by decide) (by decide +kernel) (by decide +kernel)
  short := by decide
  low := by decide
  first := ⟨by decide +kernel, ⟨⟨by decide +kernel, by decide +kernel⟩, by decide +kernel,
    by decide +kernel⟩, fun j hj => absurd hj (Nat.not_lt_zero j)⟩
  file := fileAt_one (c := 8192) (i := 2) (by decide +kernel) ⟨by decide +kernel, by decide +kernel⟩
    (by decide +kernel) (by decide) (by decide +kernel) (by decide) (by decide +kernel)
    (by decide +kernel) (by decide +kernel)

theorem bootMem_user_full : NamedFile (bootMem 512 0) 0x101100 userName 1 1 where
  text := text_of (by decide) (by decide +kernel) (by decide +kernel)
  short := by decide
  low := by decide
  first := by
    refine ⟨by decide +kernel, ⟨⟨by decide +kernel, by decide +kernel⟩, by decide +kernel,
      by decide +kernel⟩, fun j hj hno => ?_⟩
    have hbase := hno.2.1
    rw [Nat.lt_one_iff.mp hj] at hbase
    exact absurd hbase (by decide +kernel)
  file := fileAt_one (c := 8192) (i := 3) (by decide +kernel) ⟨by decide +kernel, by decide +kernel⟩
    (by decide +kernel) (by decide) (by decide +kernel) (by decide) (by decide +kernel)
    (by decide +kernel) (by decide +kernel)

theorem bootMem_full : BootMem 512 0 where
  kernel := bootMem_kernel_full
  user := bootMem_user_full
  volume := by decide +kernel
  sizes := by decide +kernel
  clusters := by decide +kernel
  signature := by decide +kernel
  byte := by decide +kernel

theorem bootMem_kernel_cut : NamedFile (bootMem 5121 0x41) 0x101000 kernelName 0 1 where
  text := text_of (by decide) (by decide +kernel) (by decide +kernel)
  short := by decide
  low := by decide
  first := ⟨by decide +kernel, ⟨⟨by decide +kernel, by decide +kernel⟩, by decide +kernel,
    by decide +kernel⟩, fun j hj => absurd hj (Nat.not_lt_zero j)⟩
  file := fileAt_one (c := 8192) (i := 2) (by decide +kernel) ⟨by decide +kernel, by decide +kernel⟩
    (by decide +kernel) (by decide) (by decide +kernel) (by decide) (by decide +kernel)
    (by decide +kernel) (by decide +kernel)

theorem bootMem_user_cut : NamedFile (bootMem 5121 0x41) 0x101100 userName 1 1 where
  text := text_of (by decide) (by decide +kernel) (by decide +kernel)
  short := by decide
  low := by decide
  first := by
    refine ⟨by decide +kernel, ⟨⟨by decide +kernel, by decide +kernel⟩, by decide +kernel,
      by decide +kernel⟩, fun j hj hno => ?_⟩
    have hbase := hno.2.1
    rw [Nat.lt_one_iff.mp hj] at hbase
    exact absurd hbase (by decide +kernel)
  file := fileAt_one (c := 8192) (i := 3) (by decide +kernel) ⟨by decide +kernel, by decide +kernel⟩
    (by decide +kernel) (by decide) (by decide +kernel) (by decide) (by decide +kernel)
    (by decide +kernel) (by decide +kernel)

/-- A program with a byte that the kernel does not copy. -/
theorem bootMem_cut : BootMem 5121 0x41 where
  kernel := bootMem_kernel_cut
  user := bootMem_user_cut
  volume := by decide +kernel
  sizes := by decide +kernel
  clusters := by decide +kernel
  signature := by decide +kernel
  byte := by decide +kernel

/-! ## When the page has the program -/

/-- The first process starts with the whole program exactly when its chain holds it, the kernel's
    copy does not cut off anything but zeros, and the memory that it copies after the end of a
    shorter program was zero. -/
theorem boot_holds_iff {K : Image} {m m' : Mem} {kernelBin userBin vk nk v n : Nat} {s : Kernel}
    (hk : NamedFile m kernelBin kernelName vk nk)
    (hkz : entrySize m vk ≤ nk * (volumeAt m).clusterSize)
    (hu : NamedFile m userBin userName v n) (hz : entrySize m v ≤ pageSize)
    (hcount : memMapCount m ≤ 50) (hbios : BiosOk m)
    (hload : eMain kernelBin userBin m = .ok () m') (hboot : kMain K (bootKernel m') = .ok () s) :
    HoldsFile s 1 m v n ↔ entrySize m v ≤ n * (volumeAt m).clusterSize ∧
      (∀ k, 5120 ≤ k → k < entrySize m v → fileByte m (entryCluster m v) k = 0) ∧
      ∀ k, entrySize m v ≤ k → k < 5120 → m (0x30000 + k) = 0 := by
  by_cases hcover : entrySize m v ≤ n * (volumeAt m).clusterSize
  swap
  · exact iff_of_false (fun h => hcover h.covers) fun h => hcover h.1
  obtain ⟨hmap, hfile, hafter⟩ := program_bytes hk hkz hu hcover hload
  obtain ⟨hcount', hbios'⟩ := bios_congr hmap hcount hbios
  have hpage : ∀ k < pageSize, s.ram.mem (s.userPage 1 + k) =
      if k < 5120 then m' (0x30000 + k) else 0 := by
    obtain ⟨_, _, -, -, -, hrun⟩ := kMain_run (K := K) hcount' hbios'
    rcases hrun with ⟨-, hno⟩ | ⟨s₀, free, hrun, -, -, -, -, hpage⟩
    · exact absurd hboot (hno s)
    · rw [(EStateM.Result.ok.inj (hboot.symm.trans hrun)).2]
      exact hpage
  have hps := pageSize_eq
  constructor
  · intro h
    refine ⟨hcover, fun k hge hlt => ?_, fun k hge hlt => ?_⟩
    · rw [← h.bytes k hlt, hpage k (by omega), if_neg (by omega)]
    · rw [← hafter k hge (by omega), ← h.zeros k hge (by omega), hpage k (by omega), if_pos hlt]
  · rintro ⟨-, hcut, hrest⟩
    refine ⟨hcover, fun k hlt => ?_, fun k hge hlt => ?_⟩
    · rw [hpage k (by omega)]
      split
      · exact hfile k hlt
      · exact (hcut k (by omega) hlt).symm
    · rw [hpage k hlt]
      split
      · rw [hafter k hge (by omega)]
        exact hrest k hge ‹_›
      · rfl

theorem boot_holds_iff_full : ∃ s, kMain image (bootKernel (bootMem 512 0)) = .ok () s ∧
    HoldsFile s 1 (bootMem 512 0) 1 1 := by
  have h := bootMem_full
  obtain ⟨hz0, hz1⟩ := h.sizes
  have hc := h.volume.1
  have hcount : memMapCount (bootMem 512 0) ≤ 50 := by
    rw [show memMapCount (bootMem 512 0) = 1 from machine_count]
    decide
  obtain ⟨-, -, s, hboot, -⟩ := machine_boots (n := 20) (by decide) (by decide) (bootWords 512 0)
  refine ⟨s, hboot, (boot_holds_iff h.kernel (by rw [hz0, hc]; decide) h.user
    (by rw [hz1]; decide) hcount (machine_bios (by decide)) (h.loads (by decide) (by decide))
    hboot).mpr ⟨by rw [hz1, hc]; decide, fun k hge hlt => ?_, fun k hge hlt => ?_⟩⟩
  · omega
  · exact bootMem_zero (by omega)

/-- Byte 5120 of the program is not in the page. -/
theorem boot_cut : ∃ s, NamedFile (bootMem 5121 0x41) 0x101100 userName 1 1 ∧
    eMain 0x101000 0x101100 (bootMem 5121 0x41) = .ok () (bootMem 5121 0x41) ∧
      kMain image (bootKernel (bootMem 5121 0x41)) = .ok () s ∧
        ¬ HoldsFile s 1 (bootMem 5121 0x41) 1 1 := by
  have h := bootMem_cut
  obtain ⟨-, -, s, hboot, -, -, -, -, -, hpage⟩ :=
    machine_boots (n := 20) (by decide) (by decide) (bootWords 5121 0x41)
  refine ⟨s, h.user, h.loads (by decide) (by decide), hboot, fun hholds => ?_⟩
  have hbyte := hholds.bytes 5120 (by rw [h.sizes.2]; decide)
  rw [hpage 5120 (by decide), if_neg (by decide), h.clusters.2] at hbyte
  exact absurd hbyte (by decide +kernel)

end Loader

end Os64
