/-
  A machine: what the loader leaves in memory for a given number of pages, program and
  volume.

  `machineMem n ws` holds one memory-map entry that covers `n` pages above the kernel, the
  signature of a volume at `0x30000200`, and the words `ws`. `machine_boots`: the kernel
  boots on it.
-/
import Os64.Sys.Boot

namespace Os64

open Os64.Lib

/-- A word in memory: its address, its bytes and its value. -/
abbrev Word := Nat × Nat × Nat

/-- Memory with the given words, the later ones on top. -/
def memOf (ws : List Word) : Mem := ws.foldl (fun m w => store m w.1 w.2.1 w.2.2) fun _ => 0

theorem load_memOf_snoc {ws : List Word} {a n v : Nat} :
    load (memOf (ws ++ [(a, n, v)])) a n = v % 256 ^ n := by
  unfold memOf
  rw [List.foldl_append]
  exact load_store_self _ a n v

theorem load_memOf_skip {ws : List Word} {a n b k v : Nat} (h : b + k ≤ a ∨ a + n ≤ b) :
    load (memOf (ws ++ [(a, n, v)])) b k = load (memOf ws) b k := by
  unfold memOf
  rw [List.foldl_append]
  exact load_store_of_disjoint _ a n v h

/-- The words that every machine has, besides `ws`: the memory map, the partition's first
    sector and the signature of the boot sector. -/
def machineMem (n : Nat) (ws : List Word) : Mem :=
  memOf (ws ++ [(0x20000, 4, 1)] ++ [(0x20008, 8, 0)] ++ [(0x20010, 8, 0x400000 + n * pageSize)] ++
    [(0x20018, 4, 1)] ++ [(0x300001c6, 4, 1)] ++ [(0x300003fe, 1, 0x55)] ++ [(0x300003ff, 1, 0xaa)])

section Machine

variable {n : Nat} {ws : List Word}

theorem machine_count : memMapCount (machineMem n ws) = 1 := by
  have h : load (machineMem n ws) 0x20000 4 = 1 := by
    unfold machineMem
    iterate 6 rw [load_memOf_skip (by decide)]
    exact load_memOf_snoc
  unfold memMapCount
  rw [h]
  rfl

theorem machine_map (hn : n ≤ 382) :
    memMap (machineMem n ws) 0 = ⟨0, 0x400000 + n * pageSize, 1⟩ := by
  have h1 : load (machineMem n ws) 0x20008 8 = 0 := by
    unfold machineMem
    iterate 5 rw [load_memOf_skip (by decide)]
    exact load_memOf_snoc
  have h2 : load (machineMem n ws) 0x20010 8 = 0x400000 + n * pageSize := by
    unfold machineMem
    iterate 4 rw [load_memOf_skip (by decide)]
    rw [load_memOf_snoc, pageSize_eq]
    exact Nat.mod_eq_of_lt (by omega)
  have h3 : load (machineMem n ws) 0x20018 4 = 1 := by
    unfold machineMem
    iterate 3 rw [load_memOf_skip (by decide)]
    exact load_memOf_snoc
  unfold memMap
  rw [h1, h2, h3]

theorem machine_bios (hn : n ≤ 382) : BiosOk (machineMem n ws) := by
  have hi : ∀ i : Nat, i < (memMapCount (machineMem n ws)).toNat → i = 0 := by
    intro i hi
    rw [machine_count] at hi
    exact Nat.lt_one_iff.mp hi
  refine ⟨fun i j h1 h2 hne => absurd ((hi i h1).trans (hi j h2).symm) hne, fun i h1 _ => ?_⟩
  rw [hi i h1, machine_map hn]
  change 0 + (0x400000 + n * pageSize) < _
  rw [pageSize_eq]
  omega

theorem machine_start : volumeStart (machineMem n ws) = 0x30000200 := by
  have h : load (machineMem n ws) (fsBase + 0x1be + 8) 4 = 1 := by
    unfold machineMem
    iterate 2 rw [load_memOf_skip (by decide)]
    exact load_memOf_snoc
  unfold volumeStart
  rw [h]
  rfl

theorem machine_signed : Signed (machineMem n ws) := by
  refine ⟨?_, ?_, ?_⟩
  · rw [machine_start]
    decide
  · rw [machine_start]
    unfold machineMem
    rw [load_memOf_skip (by decide)]
    exact load_memOf_snoc
  · rw [machine_start]
    exact load_memOf_snoc

/-- The machine's pages. -/
def machinePages (n : Nat) : List Nat := (List.range n).map fun k => 0x400000 + k * pageSize

theorem machinePages_nodup (n : Nat) : (machinePages n).Nodup := by
  refine List.nodup_range.map fun i j hij => ?_
  have hij : 0x400000 + i * pageSize = 0x400000 + j * pageSize := hij
  rw [pageSize_eq] at hij
  omega

theorem machinePages_length (n : Nat) : (machinePages n).length = n := by
  unfold machinePages
  rw [List.length_map, List.length_range]

theorem usable_machine (hn : n ≤ 382) (p : Nat) :
    Usable image (machineMem n ws) p ↔ p ∈ machinePages n := by
  have hk : image.kend = kernelBase + 0x400000 := rfl
  unfold machinePages
  rw [List.mem_map]
  constructor
  · rintro ⟨hv, i, hi, -, -, hend⟩
    rw [machine_count] at hi
    rw [Nat.lt_one_iff.mp hi, machine_map hn] at hend
    have h1 := hv.aligned
    have h2 := hv.above
    rw [hk] at h2
    have hend : p + pageSize ≤ 0 + (0x400000 + n * pageSize) := hend
    rw [pageSize_eq] at h1 hend
    refine ⟨(p - 0x400000) / 2097152, List.mem_range.mpr (by omega), ?_⟩
    rw [pageSize_eq]
    omega
  · rintro ⟨k, hkn, rfl⟩
    have hkn := List.mem_range.mp hkn
    have hps := pageSize_eq
    refine ⟨⟨?_, ?_, ?_⟩, 0, ?_, ?_⟩
    · rw [hps]
      omega
    · rw [hk]
      omega
    · rw [hps]
      omega
    · rw [machine_count]
      decide
    · rw [machine_map hn]
      refine ⟨rfl, Nat.zero_le _, ?_⟩
      change _ ≤ 0 + (0x400000 + n * pageSize)
      rw [hps]
      omega

/-- `init_memory` finds the machine's pages. -/
theorem machine_pool (hn : n ≤ 382) (ws : List Word) :
    ∃ r pool, initMemory image (bootKernel (machineMem n ws)).ram = .ok () r ∧
      FreeList image r pool ∧ pool.Perm (machinePages n) := by
  have hcount : memMapCount (machineMem n ws) ≤ 50 := by
    rw [machine_count]
    decide
  obtain ⟨r, pool, hinit, hfl, hpool, -⟩ := kMain_run (K := image) hcount (machine_bios hn)
  have hperm : pool.Perm (machinePages n) :=
    (List.perm_ext_iff_of_nodup hfl.nodup (machinePages_nodup n)).mpr fun p =>
      (hpool p).trans (usable_machine hn p)
  exact ⟨r, pool, hinit, hfl, hperm⟩

/-- The kernel boots, with the first process ready. -/
theorem machine_boots (h12 : 12 ≤ n) (hn : n ≤ 382) (ws : List Word) :
    ∃ pool free s₀, kMain image (bootKernel (machineMem n ws)) = .ok () s₀ ∧
      Whole image pool free firstSched noHandles s₀ ∧ s₀.Live 1 ∧ pool.length = n ∧
      n ≤ free.length + 12 ∧ OffPages image (machineMem n ws) s₀.ram.mem ∧
      ∀ k < pageSize, s₀.ram.mem (s₀.userPage 1 + k) =
        if k < 5120 then machineMem n ws (0x30000 + k) else 0 := by
  have hcount : memMapCount (machineMem n ws) ≤ 50 := by
    rw [machine_count]
    decide
  obtain ⟨r, pool, hinit, hfl, -, hrun⟩ := kMain_run (K := image) hcount (machine_bios hn)
  obtain ⟨r', pool', hinit', hfl', hperm⟩ := machine_pool hn ws
  obtain ⟨-, rfl⟩ := EStateM.Result.ok.inj (hinit'.symm.trans hinit)
  have hlen := hperm.length_eq
  rw [machinePages_length] at hlen
  rw [hfl'.unique hfl] at hlen
  rcases hrun with ⟨hbad, -⟩ | ⟨s₀, free, hrun, hw, hl, hoff, hfree, huser⟩
  · rcases hbad with hlt | hno
    · omega
    · refine absurd ⟨machine_signed, ?_⟩ hno
      rw [machine_start]
      decide
  · exact ⟨pool, free, s₀, hrun, hw, hl, hlen, by omega, hoff, huser⟩

end Machine

end Os64
