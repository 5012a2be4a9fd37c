/-
  The FAT16 volume as data: what the bytes of the file system image say.

  The image begins at `fsBase`; its partition table says where the volume starts
  (`volumeStart`). `volumeAt m` is the volume that the bytes of `m` describe, and each
  getter of file.c returns its part (`getClusterValue_run` and its companions).
  `volumeAt_congr`: it depends on the image only. The root directory follows.
-/
import Os64.Files.Lookup
import Os64.Files.Plan

namespace Os64

open Os64.Lib

/-- Where the volume begins: `lba` sectors after the start of the image. -/
def volumeStart (m : Mem) : Nat := u32 (fsBase + u32 (load m (fsBase + 0x1be + 8) 4 * 512))

theorem volumeStart_lt (m : Mem) : volumeStart m < 2 ^ 32 := Nat.mod_lt _ (by decide)

theorem getFsBpb_run (r : Ram) : getFsBpb r = .ok (volumeStart r.mem + kernelBase) r := by
  have hp : KernelPtr (p2v fsBase + 0x1be + 8) 4 := by decide
  have hv : v2p (p2v fsBase + 0x1be + 8) = fsBase + 0x1be + 8 := by decide
  have hlt := volumeStart_lt r.mem
  unfold getFsBpb
  rw [bind_run (kload_run hp r), hv]
  have hsum : p2v (volumeStart r.mem) = volumeStart r.mem + kernelBase := by
    unfold p2v u64
    rw [kernelBase_eq]
    omega
  rw [← hsum]
  rfl

/-- A kernel pointer into the volume. -/
theorem kload_volume (r : Ram) {o n : Nat} (h : volumeStart r.mem + o + n ≤ 2 ^ 30) :
    kload (volumeStart r.mem + kernelBase + o) n r = .ok (load r.mem (volumeStart r.mem + o) n) r := by
  have hp : KernelPtr (volumeStart r.mem + kernelBase + o) n := by
    unfold KernelPtr
    omega
  have hv : v2p (volumeStart r.mem + kernelBase + o) = volumeStart r.mem + o := by
    unfold v2p u64
    rw [kernelBase_eq]
    omega
  rw [kload_run hp, hv]

/-! ## The volume -/

/-- A field of the BPB. -/
def bpb (m : Mem) (o n : Nat) : Nat := load m (volumeStart m + o) n

def fatStart (m : Mem) : Nat := volumeStart m + u32 (bpb m 14 2 * bpb m 11 2)

def volumeAt (m : Mem) : Volume where
  clusterSize := u32 (bpb m 11 2 * bpb m 13 1)
  next index := load m (fatStart m + 2 * index) 2
  offset index := u32 (u32 (bpb m 14 2 * bpb m 11 2) + u32 (bpb m 16 1 * bpb m 22 2 * bpb m 11 2) +
    u32 (bpb m 17 2 * dirEntrySize) + u32 ((index - 2) * u32 (bpb m 13 1 * bpb m 11 2)))

/-- The volume begins in the image, and its FAT lies in the memory that the kernel maps. -/
structure Mounted (m : Mem) : Prop where
  start : fsBase ≤ volumeStart m
  fat : fatStart m + 2 * 2 ^ 16 ≤ 2 ^ 30

instance (m : Mem) : Decidable (Mounted m) :=
  decidable_of_iff (fsBase ≤ volumeStart m ∧ fatStart m + 2 * 2 ^ 16 ≤ 2 ^ 30)
    ⟨fun h => ⟨h.1, h.2⟩, fun h => ⟨h.1, h.2⟩⟩

section Volume

variable {m m' : Mem} {r : Ram}

theorem clusterSize_lt (m : Mem) : (volumeAt m).clusterSize < 2 ^ 24 := by
  have h : bpb m 11 2 * bpb m 13 1 < 256 ^ 2 * 256 ^ 1 :=
    Nat.mul_lt_mul'' (load_lt _ _ _) (load_lt _ _ _)
  change bpb m 11 2 * bpb m 13 1 % 2 ^ 32 < 2 ^ 24
  omega

theorem next_lt (m : Mem) (i : Nat) : (volumeAt m).next i < 2 ^ 16 := load_lt _ _ _

theorem offset_lt (m : Mem) (i : Nat) : (volumeAt m).offset i < 2 ^ 32 := Nat.mod_lt _ (by decide)

/-- Memory below the image does not matter. -/
theorem volumeAt_congr (h : ∀ x, fsBase ≤ x → m' x = m x) (hm : Mounted m) :
    volumeStart m' = volumeStart m ∧ volumeAt m' = volumeAt m := by
  have hload : ∀ a n, fsBase ≤ a → load m' a n = load m a n := fun a n ha =>
    load_congr fun x hx _ => h x (by omega)
  have hstart : volumeStart m' = volumeStart m := by
    unfold volumeStart
    rw [hload _ _ (by omega)]
  have hbpb : ∀ o n, bpb m' o n = bpb m o n := fun o n => by
    unfold bpb
    rw [hstart]
    exact hload _ _ (by have := hm.start; omega)
  have hfat : fatStart m' = fatStart m := by
    unfold fatStart
    rw [hstart, hbpb, hbpb]
  have hnext : ∀ i, load m' (fatStart m + 2 * i) 2 = load m (fatStart m + 2 * i) 2 := fun i =>
    hload _ _ (by have := hm.start; unfold fatStart; omega)
  refine ⟨hstart, ?_⟩
  unfold volumeAt
  simp only [hbpb, hfat, hnext]

theorem Mounted.congr (hm : Mounted m) (h : ∀ x, fsBase ≤ x → m' x = m x) : Mounted m' := by
  have hstart := (volumeAt_congr h hm).1
  have hb : ∀ o n, bpb m' o n = bpb m o n := fun o n => by
    unfold bpb
    rw [hstart]
    exact load_congr fun x hx _ => h x (by have := hm.start; omega)
  have hfat : fatStart m' = fatStart m := by
    unfold fatStart
    rw [hstart, hb, hb]
  exact ⟨hstart.symm ▸ hm.start, hfat.symm ▸ hm.fat⟩

theorem bpb_run (hm : Mounted r.mem) {o n : Nat} (ho : o + n ≤ 2 ^ 17) :
    kload (volumeStart r.mem + kernelBase + o) n r = .ok (bpb r.mem o n) r := by
  refine kload_volume r ?_
  have := hm.fat
  unfold fatStart at this
  omega

theorem getClusterSize_run (hm : Mounted r.mem) :
    getClusterSize r = .ok (volumeAt r.mem).clusterSize r := by
  unfold getClusterSize bytesPerSector sectorsPerCluster
  rw [bind_run (getFsBpb_run r), bind_run (bpb_run hm (by omega)), bind_run (bpb_run hm (by omega))]
  rfl

theorem getClusterValue_run (hm : Mounted r.mem) {i : Nat} (hi : i < 2 ^ 16) :
    getClusterValue i r = .ok ((volumeAt r.mem).next i) r := by
  have hfat := hm.fat
  have htable : getFatTable r = .ok (fatStart r.mem + kernelBase) r := by
    unfold getFatTable reservedSectorCount bytesPerSector
    rw [bind_run (getFsBpb_run r), bind_run (bpb_run hm (by omega)), bind_run (bpb_run hm (by omega))]
    have hsum : u64 (volumeStart r.mem + kernelBase + u32 (bpb r.mem 14 2 * bpb r.mem 11 2)) =
        fatStart r.mem + kernelBase := by
      unfold fatStart at hfat ⊢
      unfold u64
      rw [kernelBase_eq]
      omega
    rw [← hsum]
    rfl
  have haddr : u64 (fatStart r.mem + kernelBase + 2 * i) =
      volumeStart r.mem + kernelBase + (u32 (bpb r.mem 14 2 * bpb r.mem 11 2) + 2 * i) := by
    unfold fatStart at hfat ⊢
    unfold u64
    rw [kernelBase_eq]
    omega
  unfold getClusterValue
  rw [bind_run htable, haddr, kload_volume r (by unfold fatStart at hfat; omega), ← Nat.add_assoc]
  rfl

theorem getClusterOffset_run (hm : Mounted r.mem) (i : Nat) : getClusterOffset i r =
    if 2 ≤ i then .ok ((volumeAt r.mem).offset i) r else .error (.assertion "file.c" 46) r := by
  unfold getClusterOffset reservedSectorCount bytesPerSector fatCount sectorsPerFat rootEntryCount
    sectorsPerCluster
  by_cases h : 2 ≤ i
  · rw [if_pos h, bind_run (assertFile_run h 46 r), bind_run (getFsBpb_run r)]
    iterate 6 rw [bind_run (bpb_run hm (by omega))]
    rfl
  · rw [if_neg h]
    exact bind_error.mpr (Or.inl (ensure_error.mpr ⟨h, rfl, rfl⟩))

theorem skipClusters_run (hm : Mounted r.mem) (n : Nat) {i : Nat} (hi : i < 2 ^ 16) :
    skipClusters n i r = match (volumeAt r.mem).skipClusters n i with
      | .ok v => .ok v r
      | .error e => .error e r := by
  induction n generalizing i with
  | zero => rfl
  | succ n ih =>
      unfold skipClusters Volume.skipClusters
      rw [bind_run (getClusterValue_run hm hi)]
      by_cases h : (volumeAt r.mem).next i < 0xfff7
      · rw [if_pos h, bind_run (assertFile_run h 227 r)]
        exact ih (next_lt _ _)
      · rw [if_neg h]
        exact bind_error.mpr (Or.inl (ensure_error.mpr ⟨h, rfl, rfl⟩))

end Volume

/-! ## The root directory -/

def rootStart (m : Mem) : Nat :=
  volumeStart m + u32 ((bpb m 14 2 + bpb m 16 1 * bpb m 22 2) * bpb m 11 2)

/-- The size of the file of entry `i`, and its first cluster. -/
def entrySize (m : Mem) (i : Nat) : Nat := load m (rootStart m + dirEntrySize * i + 28) 4

def entryCluster (m : Mem) (i : Nat) : Nat := load m (rootStart m + dirEntrySize * i + 26) 2

section Directory

variable {m m' : Mem} {r : Ram}

theorem rootStart_lt (m : Mem) : rootStart m < 2 ^ 33 := by
  have := volumeStart_lt m
  unfold rootStart u32
  omega

theorem getRootDirectory_run (hm : Mounted r.mem) :
    getRootDirectory r = .ok (rootStart r.mem + kernelBase) r := by
  unfold getRootDirectory reservedSectorCount fatCount sectorsPerFat bytesPerSector
  rw [bind_run (getFsBpb_run r)]
  iterate 4 rw [bind_run (bpb_run hm (by omega))]
  have hsum : u64 (volumeStart r.mem + kernelBase +
      u32 ((bpb r.mem 14 2 + bpb r.mem 16 1 * bpb r.mem 22 2) * bpb r.mem 11 2)) =
        rootStart r.mem + kernelBase := by
    have := volumeStart_lt r.mem
    unfold rootStart u64 u32
    rw [kernelBase_eq]
    omega
  rw [← hsum]
  rfl

/-- Memory below the image does not matter. -/
theorem entry_congr (hm : Mounted m) (h : ∀ x, fsBase ≤ x → m' x = m x) (i : Nat) :
    rootStart m' = rootStart m ∧ entrySize m' i = entrySize m i ∧
      entryCluster m' i = entryCluster m i := by
  have hstart := (volumeAt_congr h hm).1
  have hlow := hm.start
  have hb : ∀ o n, bpb m' o n = bpb m o n := fun o n => by
    unfold bpb
    rw [hstart]
    exact load_congr fun x hx _ => h x (by omega)
  have hroot : rootStart m' = rootStart m := by
    unfold rootStart
    rw [hstart, hb, hb, hb, hb]
  refine ⟨hroot, ?_, ?_⟩
  · unfold entrySize
    rw [hroot]
    exact load_congr fun x hx _ => h x (by unfold rootStart at hx; omega)
  · unfold entryCluster
    rw [hroot]
    exact load_congr fun x hx _ => h x (by unfold rootStart at hx; omega)

end Directory

end Os64
