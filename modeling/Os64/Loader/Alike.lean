/-
  The loader's reader and the kernel's.

  `Alike m path addr v n` compares `load_file` of entry `v`, a file whose chain has `n` clusters,
  with `read_raw_data` of the kernel on that file.

  * `Filled.bytes`, `Filled.kernel`: what the kernel reads where the loader has the file.
  * `loadFile_alike_iff`: when the two are alike.
-/
import Os64.Loader.Load
import Os64.Sys.Disk

namespace Os64

open Os64.Lib

namespace Loader

/-! ## The two readers -/

/-- The kernel's `read_raw_data` gives `size` bytes from position 0 of the file, in every address
    space that has the image: byte `k` is `b k`. -/
def KernelReads (m : Mem) (v size : Nat) (b : Nat → UInt8) : Prop :=
  ∀ (K : Image) (s : Kernel) (page buffer : Nat) (supplied : Bool), Space K s.ram.mem s.cr3 page →
    (∀ x, fsBase ≤ x → s.ram.mem x = m x) → 0x400000 ≤ buffer → buffer + size ≤ 0x600000 →
    ∃ s', Os64.readRawData K supplied (entryCluster m v) buffer 0 size s = .ok size s' ∧
      ∀ k < size, s'.ram.mem (page + (buffer - 0x400000) + k) = b k

/-- `load_file` does with entry `v` what `read_raw_data` of the kernel would do. `bytes` is for the
    kernel's copies, whatever memory they are made in, and `kernel` for its runs. -/
structure Alike (m : Mem) (path addr v n : Nat) : Prop where
  succeeds : (∃ m', loadFile path addr m = .ok 0 m') ↔
    entrySize m v ≤ n * (volumeAt m).clusterSize
  bytes : ∀ m', loadFile path addr m = .ok 0 m' →
    ∃ cs, (volumeAt m).readRawData (2 ^ 32) (entryCluster m v) 0 (entrySize m v) =
        (cs, .ok (entrySize m v)) ∧
      m' = copyAll addr (Os64.volumeStart m) m cs
  kernel : ∀ m', loadFile path addr m = .ok 0 m' →
    KernelReads m v (entrySize m v) fun k => m' (addr + k)
  rest : ∀ m', loadFile path addr m = .ok 0 m' →
    ∀ x, (x < addr ∨ addr + entrySize m v ≤ x) → m' x = m x

section Alike

variable {m m' : Mem} {path v n addr k : Nat} {p : List UInt8}

theorem FileAt.onVolume (h : FileAt m v n) (hsize : entrySize m v ≤ n * (volumeAt m).clusterSize) :
    OnVolume m (entryCluster m v) (entrySize m v) where
  covers k hk := h.chain.data k (Nat.lt_of_mul_lt_mul_right (hk.trans_le hsize))
  mapped k hk := h.mapped k (Nat.lt_of_mul_lt_mul_right (hk.trans_le hsize))

/-- The kernel's copies fill the same bytes. -/
theorem Filled.bytes (hf : Filled m v addr (entrySize m v) m') (h : FileAt m v n)
    (haddr : addr ≤ 2 ^ 28) (hsize : entrySize m v ≤ n * (volumeAt m).clusterSize) :
    ∃ cs, (volumeAt m).readRawData (2 ^ 32) (entryCluster m v) 0 (entrySize m v) =
        (cs, .ok (entrySize m v)) ∧
      m' = copyAll addr (Os64.volumeStart m) m cs := by
  have hcs := Nat.pos_of_ne_zero h.clusterSize
  have hbytes := h.bytes_le
  have hz := h.size
  have hstart := h.mounted.start
  have hvol := h.onVolume hsize
  by_cases h0 : entrySize m v = 0
  · rw [h0] at hf ⊢
    refine ⟨[], ?_, ?_⟩
    · unfold Volume.readRawData
      rw [Nat.zero_div, Nat.zero_mod]
      exact Volume.readClusters_done (by decide)
    · funext x
      rw [hf x, if_neg (by omega)]
      rfl
  · have hcovers : (volumeAt m).Covers (entryCluster m v) (0 + entrySize m v) := by
      rw [Nat.zero_add]
      exact hvol.covers
    obtain ⟨cs, hplan, hslice⟩ := Volume.readRawData_slice (f := 2 ^ 32) hcs (by omega) (by omega)
      (by omega) hcovers
    refine ⟨cs, hplan, ?_⟩
    funext x
    rw [hf x, hslice.copyAll fun j hj => by unfold fsBase at hstart; omega, Nat.add_zero,
      Nat.zero_add]

/-- So do its runs. -/
theorem Filled.kernel (hf : Filled m v addr (entrySize m v) m') (h : FileAt m v n)
    (hsize : entrySize m v ≤ n * (volumeAt m).clusterSize) :
    KernelReads m v (entrySize m v) fun k => m' (addr + k) := by
  intro K s page buffer supplied hsp hsame hlow hend
  have hm := h.mounted.congr hsame
  obtain ⟨hstart, hV⟩ := volumeAt_congr hsame h.mounted
  have hcs : (volumeAt s.ram.mem).clusterSize ≠ 0 := by
    rw [hV]
    exact h.clusterSize
  have hz := h.size
  have hvol := h.onVolume hsize
  by_cases h0 : entrySize m v = 0
  · rw [h0]
    have hrun : Os64.readRawData K supplied (entryCluster m v) buffer 0 0 s = _ :=
      readRawData_plan hsp hm hcs (load_lt _ _ _) (by decide) (by rw [kernelBase_eq]; omega)
    have hplan : (volumeAt s.ram.mem).readRawData (2 ^ 32) (entryCluster m v) 0 0 =
        ([], .ok 0) := by
      unfold Volume.readRawData
      rw [Nat.zero_div, Nat.zero_mod]
      exact Volume.readClusters_done (by decide)
    rw [hplan] at hrun
    exact ⟨s, hrun, fun k hk => absurd hk (Nat.not_lt_zero k)⟩
  · have hfile : OnVolume s.ram.mem (entryCluster m v) (0 + entrySize m v) := by
      rw [Nat.zero_add]
      exact hvol.congr h.mounted hsame
    obtain ⟨s', hrun, -, hmem⟩ := readRawData_run supplied hsp hm hcs hfile (by omega)
      (by rw [hV]; omega) hlow hend
    refine ⟨s', hrun, fun k hk => ?_⟩
    have hk' := hf (addr + k)
    rw [if_pos (by omega), Nat.add_sub_cancel_left] at hk'
    rw [hmem, if_pos (by omega), fileByte_congr h.mounted hsame, Nat.add_sub_cancel_left,
      Nat.zero_add]
    exact ((hvol.byteAt h.clusterSize hk).2.symm).trans hk'.symm

end Alike

/-! ## A volume with one file -/

/-- The volume with file `A` of `size` bytes in one cluster, and its name at `0x1000`. -/
def loaderMem (size : Nat) : Mem := machineMem 20 (diskWords 0x20 size ++ [(0x1000, 1, 0x41)])

theorem loaderMem_full : NamedFile (loaderMem 512) 0x1000 diskPath 0 1 where
  text := text_of (by decide) (by decide +kernel) (by decide +kernel)
  short := by decide
  low := by decide
  first := ⟨by decide +kernel, ⟨⟨by decide +kernel, by decide +kernel⟩, by decide +kernel,
    by decide +kernel⟩, fun j hj => absurd hj (Nat.not_lt_zero j)⟩
  file := fileAt_one (c := 512) (i := 2) (by decide +kernel) ⟨by decide +kernel, by decide +kernel⟩
    (by decide +kernel) (by decide) (by decide +kernel) (by decide) (by decide +kernel)
    (by decide +kernel) (by decide +kernel)

/-- The size of this one is twice what its chain holds. -/
theorem loaderMem_long : NamedFile (loaderMem 1024) 0x1000 diskPath 0 1 where
  text := text_of (by decide) (by decide +kernel) (by decide +kernel)
  short := by decide
  low := by decide
  first := ⟨by decide +kernel, ⟨⟨by decide +kernel, by decide +kernel⟩, by decide +kernel,
    by decide +kernel⟩, fun j hj => absurd hj (Nat.not_lt_zero j)⟩
  file := fileAt_one (c := 512) (i := 2) (by decide +kernel) ⟨by decide +kernel, by decide +kernel⟩
    (by decide +kernel) (by decide) (by decide +kernel) (by decide) (by decide +kernel)
    (by decide +kernel) (by decide +kernel)

/-! ## When they are alike -/

/-- The loader reads the file as the kernel does when the chain holds it and it either ends in the
    last cluster of the chain or fills the one it ends in. A file that is longer than its chain
    is told apart only by a copy that leaves the memory the loader maps. -/
theorem loadFile_alike_iff {m : Mem} {path v n addr : Nat} {p : List UInt8}
    (hpath : Text lbyte m path p) (hfind : searchFile path m = .ok v m) (hv : v ≠ 0xffffffff)
    (h : FileAt m v n) (haddr : addr ≤ 2 ^ 28) :
    Alike m path addr v n ↔
      entrySize m v ≤ n * (volumeAt m).clusterSize ∧
          ((n - 1) * (volumeAt m).clusterSize < entrySize m v ∨
            (volumeAt m).clusterSize ∣ entrySize m v) ∨
        n * (volumeAt m).clusterSize < entrySize m v ∧ ¬ LastMapped m v n addr := by
  by_cases hsize : entrySize m v ≤ n * (volumeAt m).clusterSize
  · by_cases hend : (n - 1) * (volumeAt m).clusterSize < entrySize m v ∨
        (volumeAt m).clusterSize ∣ entrySize m v
    · refine iff_of_true ?_ (Or.inl ⟨hsize, hend⟩)
      obtain ⟨m₁, hrun, hf⟩ := h.loaded hpath hfind hv haddr hsize hend
      have hdet : ∀ m', loadFile path addr m = .ok 0 m' → m' = m₁ := fun m' h' =>
        (EStateM.Result.ok.inj (h'.symm.trans hrun)).2
      refine ⟨iff_of_true ⟨m₁, hrun⟩ hsize, fun m' h' => ?_, fun m' h' => ?_, fun m' h' x hx => ?_⟩
      · rw [hdet m' h']
        exact hf.bytes h haddr hsize
      · rw [hdet m' h']
        exact hf.kernel h hsize
      · rw [hdet m' h', hf x, if_neg (by omega)]
    · refine iff_of_false (fun ha => ?_) fun hc => ?_
      · -- the loader has read a whole cluster at the end
        rw [not_or] at hend
        obtain ⟨m₁, hrun⟩ := h.refused hpath hfind hv haddr (Nat.le_of_not_lt hend.1) hend.2
        obtain ⟨m', h'⟩ := ha.succeeds.mpr hsize
        rw [hrun] at h'
        exact absurd (EStateM.Result.ok.inj h').1 (by decide)
      · rcases hc with ⟨-, hc⟩ | ⟨hc, -⟩
        · exact hend hc
        · omega
  · have hlt := Nat.lt_of_not_le hsize
    have hover := h.overrun hpath hfind hv haddr hlt
    by_cases hlast : LastMapped m v n addr
    · refine iff_of_false (fun ha => hsize (ha.succeeds.mp (hover.mpr hlast))) fun hc => ?_
      rcases hc with ⟨hc, -⟩ | ⟨-, hc⟩
      · exact hsize hc
      · exact hc hlast
    · have hno : ∀ m', loadFile path addr m ≠ .ok 0 m' := fun m' h' => hlast (hover.mp ⟨m', h'⟩)
      refine iff_of_true ?_ (Or.inr ⟨hlt, hlast⟩)
      exact ⟨iff_of_false (fun ⟨m', h'⟩ => hno m' h') hsize, fun m' h' => absurd h' (hno m'),
        fun m' h' => absurd h' (hno m'), fun m' h' => absurd h' (hno m')⟩

theorem loadFile_alike_iff_full : Alike (loaderMem 512) 0x1000 0x30000 0 1 := by
  have h := loaderMem_full
  have hsize : entrySize (loaderMem 512) 0 = 512 := by decide +kernel
  have hc : (volumeAt (loaderMem 512)).clusterSize = 512 := by decide +kernel
  refine (loadFile_alike_iff h.text h.find.1 h.find.2 h.file (by decide)).mpr (Or.inl ?_)
  rw [hsize, hc]
  decide

/-- The loader reports success on it, with 512 bytes that are not the file's. -/
theorem loadFile_overrun : NamedFile (loaderMem 1024) 0x1000 diskPath 0 1 ∧
    (∃ m', loadFile 0x1000 0x30000 (loaderMem 1024) = .ok 0 m') ∧
      ¬ Alike (loaderMem 1024) 0x1000 0x30000 0 1 := by
  have h := loaderMem_long
  have hsize : entrySize (loaderMem 1024) 0 = 1024 := by decide +kernel
  have hc : (volumeAt (loaderMem 1024)).clusterSize = 512 := by decide +kernel
  have hlast : LastMapped (loaderMem 1024) 0 1 0x30000 := by
    refine ⟨?_, ?_⟩
    · rw [hsize]
      decide
    · rw [hsize]
      decide +kernel
  have hrun := (h.file.overrun h.text h.find.1 h.find.2 (by decide)
    (by rw [hc, hsize]; decide)).mpr hlast
  refine ⟨h, hrun, fun ha => ?_⟩
  have hle := ha.succeeds.mp hrun
  rw [hc, hsize] at hle
  omega

end Loader

end Os64
