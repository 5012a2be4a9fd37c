/-
  loader/file.c: what `load_file` leaves in memory.

  The loop of `read_raw_data` copies whole clusters until it has the file's size or stands at the
  last cluster of the chain, and takes all the rest from that one. `FileAt m v n` says that entry
  `v` is a file on the volume whose chain has `n` clusters.

  * `FileAt.bytes_le`: a chain that ends has no more bytes than the memory from the image on.
  * `readClusters_whole`: the whole clusters; `readClusters_last`, `readClusters_done`: the end.
  * `FileAt.loaded`, `FileAt.refused`, `FileAt.overrun`: `load_file` by where the file ends.
-/
import Mathlib.Data.Finset.Card
import Os64.Files.Names
import Os64.Files.Slices
import Os64.Loader.File

namespace Os64

open Os64.Lib

/-! ## Chains -/

namespace Volume

variable {V : Volume} {i n k d b : Nat}

variable (V) in
/-- The chain from `index` has `n` clusters. -/
structure ChainOf (index n : Nat) : Prop where
  pos : 0 < n
  data : ∀ k < n, IsData (V.cluster index k)
  ends : 0xfff7 ≤ V.cluster index n

variable (V) in
/-- The copies of the first `k` clusters, to the destinations from `d` on. -/
def whole : Nat → Nat → Nat → List Copy
  | 0, _, _ => []
  | k + 1, index, d => ⟨d, V.offset index, V.clusterSize⟩ :: whole k (V.next index) (d + V.clusterSize)

theorem ChainOf.injective (h : V.ChainOf i n) {a b : Nat} (ha : a < n) (hb : b < n)
    (hab : V.cluster i a = V.cluster i b) : a = b := by
  -- a cluster that comes back never lets the chain end
  have hlt : ∀ {a b}, a < b → b < n → V.cluster i a ≠ V.cluster i b := by
    intro a b hlt hb heq
    have hend : V.cluster i (a + (n - b)) = V.cluster i n := by
      rw [← cluster_cluster, heq, cluster_cluster, Nat.add_sub_cancel' (by omega)]
    have hdata := h.data (a + (n - b)) (by omega)
    rw [hend] at hdata
    exact absurd hdata.2 (by have := h.ends; omega)
  rcases Nat.lt_trichotomy a b with hlt' | heq | hlt'
  · exact absurd hab (hlt hlt' hb)
  · exact heq
  · exact absurd hab.symm (hlt hlt' ha)

/-- The clusters of a chain that ends are so many different ones. -/
theorem ChainOf.length_le (h : V.ChainOf i n) {N : Nat} (hN : ∀ k < n, V.cluster i k - 2 < N) :
    n ≤ N := by
  have hcard := Finset.card_le_card_of_injOn (s := Finset.range n) (t := Finset.range N)
    (fun k => V.cluster i k - 2) (fun k hk => by
      have hk' := Finset.mem_range.mp (Finset.mem_coe.mp hk)
      exact Finset.mem_coe.mpr (Finset.mem_range.mpr (hN k hk'))) fun a ha b hb hab => by
      have ha' := Finset.mem_range.mp (Finset.mem_coe.mp ha)
      have hb' := Finset.mem_range.mp (Finset.mem_coe.mp hb)
      have h2a := (h.data a ha').1
      have h2b := (h.data b hb').1
      exact h.injective ha' hb' (by dsimp only at hab; omega)
  rwa [Finset.card_range, Finset.card_range] at hcard

theorem whole_slice (k : Nat) : Slice (V.byteAt i) d (b * V.clusterSize) (k * V.clusterSize)
    (V.whole k (V.cluster i b) d) := by
  induction k generalizing b d with
  | zero =>
      rw [Nat.zero_mul]
      exact .nil
  | succ k ih =>
      have h := ih (b := b + 1) (d := d + V.clusterSize)
      have hlen : (k + 1) * V.clusterSize = V.clusterSize + k * V.clusterSize := by
        rw [Nat.succ_mul, Nat.add_comm]
      rw [Nat.succ_mul] at h
      rw [hlen]
      unfold whole
      rw [cluster_next]
      exact .cons (c := ⟨d, V.offset (V.cluster i b), V.clusterSize⟩) rfl
        (fun j hj => byteAt_block b hj) h

end Volume

namespace Loader

/-! ## The volume, through the loader's pointers -/

section Accesses

variable {m : Mem}

theorem volumeStart_eq (hm : Mounted m) : volumeStart m = Os64.volumeStart m := by
  have hstart := hm.start
  have hlt : u32 (Lib.load m (fsBase + 0x1be + 8) 4 * 512) < 2 ^ 32 := Nat.mod_lt _ (by decide)
  unfold Os64.volumeStart at hstart ⊢
  unfold volumeStart
  unfold fsBase at *
  generalize u32 (Lib.load m (0x30000000 + 0x1be + 8) 4 * 512) = x at hstart hlt ⊢
  unfold u32 at hstart ⊢
  omega

theorem bpb_eq (hm : Mounted m) (o n : Nat) : bpb m o n = Os64.bpb m o n := by
  unfold bpb Os64.bpb
  rw [volumeStart_eq hm]

theorem rootStart_eq (hm : Mounted m) : rootStart m = Os64.rootStart m := by
  unfold rootStart Os64.rootStart
  rw [volumeStart_eq hm, bpb_eq hm, bpb_eq hm, bpb_eq hm, bpb_eq hm]

theorem getFsBpb_mounted (hm : Mounted m) : getFsBpb m = .ok (Os64.volumeStart m) m := by
  rw [← volumeStart_eq hm]
  exact getFsBpb_run m

theorem bpb_run (hm : Mounted m) {o n : Nat} (hn : 0 < n) (ho : o + n ≤ 2 ^ 17) :
    lload (Os64.volumeStart m + o) n m = .ok (Os64.bpb m o n) m := by
  refine lload_run ?_ hn m
  have := hm.fat
  unfold fatStart at this
  omega

theorem getClusterSize_run (hm : Mounted m) :
    getClusterSize m = .ok (volumeAt m).clusterSize m := by
  unfold getClusterSize
  rw [bind_run (getFsBpb_mounted hm), bind_run (bpb_run hm (by decide) (by decide)),
    bind_run (bpb_run hm (by decide) (by decide))]
  rfl

theorem getClusterValue_run (hm : Mounted m) {i : Nat} (hi : i < 2 ^ 16) :
    getClusterValue i m = .ok ((volumeAt m).next i) m := by
  have hfat := hm.fat
  have htable : getFatTable m = .ok (fatStart m) m := by
    unfold getFatTable
    rw [bind_run (getFsBpb_mounted hm), bind_run (bpb_run hm (by decide) (by decide)),
      bind_run (bpb_run hm (by decide) (by decide))]
    have hsum : u64 (Os64.volumeStart m + u32 (Os64.bpb m 14 2 * Os64.bpb m 11 2)) = fatStart m :=
      Nat.mod_eq_of_lt (by unfold fatStart at hfat; omega)
    rw [← hsum]
    rfl
  have haddr : u64 (fatStart m + 2 * i) = fatStart m + 2 * i := Nat.mod_eq_of_lt (by omega)
  unfold getClusterValue
  rw [bind_run htable, haddr]
  exact lload_run (by omega) (by decide) m

theorem getClusterOffset_run (hm : Mounted m) {i : Nat} (hi : 2 ≤ i) :
    getClusterOffset i m = .ok ((volumeAt m).offset i) m := by
  unfold getClusterOffset
  rw [bind_run (assertFile_run hi 36 m), bind_run (getFsBpb_mounted hm)]
  iterate 6 rw [bind_run (bpb_run hm (by decide) (by decide))]
  rfl

theorem phys_low {v : Nat} (h : v < 2 ^ 30) : phys v = v := if_pos (by omega)

theorem lbyte_run {a : Nat} (ha : a + 1 ≤ 2 ^ 30) : lbyte a m = .ok (m a) m := by
  have hp : Ptr a 1 := Or.inl ha
  have hv : phys a = a := phys_low (by omega)
  unfold lbyte
  rw [bind_run (ensure_run hp _ m), hv]
  rfl

/-- A copy of some bytes between addresses of the first GB. -/
theorem lmemcpy_run {dst src n : Nat} (hd : dst + n ≤ 2 ^ 30) (hs : src + n ≤ 2 ^ 30) (h0 : 0 < n) :
    lmemcpy dst src n m = .ok () (copy m dst src n) := by
  unfold lmemcpy
  rw [bind_run (ensure_run (Or.inr ⟨Or.inl hd, Or.inl hs⟩) _ m), modify_run, phys_low (by omega),
    phys_low (by omega)]

/-- One that leaves it. -/
theorem lmemcpy_fault {dst src n : Nat} (hd : dst < 2 ^ 35) (hs : src < 2 ^ 35) (h0 : 0 < n)
    (h : ¬ (dst + n ≤ 2 ^ 30 ∧ src + n ≤ 2 ^ 30)) (v : Unit) (m' : Mem) :
    lmemcpy dst src n m ≠ .ok v m' := by
  intro hrun
  obtain ⟨_, m₁, hens, -⟩ := bind_ok.mp hrun
  have hlow : ∀ {v}, v < 2 ^ 35 → Ptr v n → v + n ≤ 2 ^ 30 := by
    intro v hv hp
    rcases hp with hlow | hhigh
    · exact hlow
    · unfold KernelPtr at hhigh
      rw [kernelBase_eq] at hhigh
      omega
  rcases (ensure_ok.mp hens).1 with h0' | ⟨hpd, hps⟩
  · omega
  · exact h ⟨hlow hd hpd, hlow hs hps⟩

/-- The entry that a path names is the one found. -/
theorem searchFile_first {path v : Nat} {p : List UInt8} (hm : RootMapped m)
    (ht : Text lbyte m path p) (hs : Short p)
    (hv : (directory m).First (fields p).1 (fields p).2 v) : searchFile path m = .ok v m := by
  obtain ⟨w, m', hrun⟩ := searchFile_total hm ht
  obtain ⟨rfl, hfound⟩ := searchFile_found ht hrun
  rcases hfound with ⟨-, hw⟩ | ⟨-, hno⟩
  · have hvw : w = v := by
      rcases Nat.lt_trichotomy w v with hlt | heq | hlt
      · exact absurd hw.2.1 (hv.2.2 w hlt)
      · exact heq
      · exact absurd hv.2.1 (hw.2.2 v hlt)
    rw [hrun, hvw]
  · exact absurd hv.2.1 (hno hs v hv.1)

end Accesses

/-! ## The loop -/

section Loop

variable {m : Mem} {V : Volume} {start addr size i d r f k : Nat}

variable (V) in
/-- The loop copies cluster `i` in full, when it has `r` bytes. -/
structure Full (start size i r : Nat) : Prop where
  data : Volume.IsData i
  next : V.next i < 0xfff7
  source : start + V.offset i + V.clusterSize ≤ 2 ^ 30
  rest : r < size

theorem readClusters_step (hm : Mounted m) (h : Full (volumeAt m) (Os64.volumeStart m) size i r)
    (hcs : 0 < (volumeAt m).clusterSize) (hdst : addr + d + (volumeAt m).clusterSize ≤ fsBase)
    (hsum : r + (volumeAt m).clusterSize < 2 ^ 32) :
    readClusters (Os64.volumeStart m) (volumeAt m).clusterSize size (f + 1) i (addr + d) r m =
      readClusters (Os64.volumeStart m) (volumeAt m).clusterSize size f ((volumeAt m).next i)
        (addr + (d + (volumeAt m).clusterSize)) (r + (volumeAt m).clusterSize)
        (copy m (addr + d) (Os64.volumeStart m + (volumeAt m).offset i)
          (volumeAt m).clusterSize) := by
  have hsrc := h.source
  have hi := h.data.2
  have hnext := h.next
  unfold fsBase at hdst
  have hdata : u64 (Os64.volumeStart m + (volumeAt m).offset i) =
      Os64.volumeStart m + (volumeAt m).offset i := Nat.mod_eq_of_lt (by omega)
  have hbuf : u64 (addr + d + (volumeAt m).clusterSize) = addr + (d + (volumeAt m).clusterSize) := by
    rw [← Nat.add_assoc]
    exact Nat.mod_eq_of_lt (by omega)
  have hread : u32 (r + (volumeAt m).clusterSize) = r + (volumeAt m).clusterSize :=
    Nat.mod_eq_of_lt hsum
  conv_lhs => unfold readClusters
  rw [if_pos h.rest, bind_run (getClusterOffset_run hm h.data.1)]
  rw [bind_run (getClusterValue_run hm (by omega)), if_neg (by omega), hdata, hbuf, hread,
    bind_run (lmemcpy_run (by omega) hsrc hcs)]

/-- The whole clusters. -/
theorem readClusters_whole (hcs : 0 < V.clusterSize) (k : Nat) {i d r : Nat} {m : Mem}
    (hm : Mounted m) (hV : volumeAt m = V) (hstart : Os64.volumeStart m = start)
    (h : ∀ j < k, Full V start size (V.cluster i j) (r + j * V.clusterSize))
    (hdst : addr + d + k * V.clusterSize ≤ fsBase) (hsum : r + k * V.clusterSize < 2 ^ 32) :
    readClusters start V.clusterSize size (f + k) i (addr + d) r m =
      readClusters start V.clusterSize size f (V.cluster i k) (addr + (d + k * V.clusterSize))
        (r + k * V.clusterSize) (copyAll addr start m (V.whole k i d)) := by
  induction k generalizing i d r m with
  | zero =>
      rw [Nat.zero_mul, Nat.add_zero, Nat.add_zero, Nat.add_zero]
      rfl
  | succ k ih =>
      rw [Nat.succ_mul] at hdst hsum
      have hfirst := h 0 (Nat.succ_pos k)
      rw [Nat.zero_mul, Nat.add_zero, Volume.cluster_zero] at hfirst
      -- the copy stays below the image
      have hsame : ∀ x, fsBase ≤ x →
          copy m (addr + d) (start + V.offset i) V.clusterSize x = m x := fun x hx =>
        copy_of_outside _ _ _ _ (by omega)
      obtain ⟨hstart', hV'⟩ := volumeAt_congr hsame hm
      have hdst' : addr + d + (volumeAt m).clusterSize ≤ fsBase := by rw [hV]; omega
      have hstep := readClusters_step (f := f + k) hm (by rw [hV, hstart]; exact hfirst)
        (by rw [hV]; exact hcs) hdst' (by rw [hV]; omega)
      rw [hV, hstart] at hstep
      have hrest := ih (i := V.next i) (d := d + V.clusterSize) (r := r + V.clusterSize)
        (hm.congr hsame) (hV'.trans hV) (hstart'.trans hstart) (fun j hj => by
          have := h (j + 1) (Nat.succ_lt_succ hj)
          rwa [Nat.succ_mul, Nat.add_comm (j * _), ← Nat.add_assoc] at this) (by omega) (by omega)
      have hend : d + (k + 1) * V.clusterSize = d + V.clusterSize + k * V.clusterSize := by
        rw [Nat.succ_mul]
        omega
      have hend' : r + (k + 1) * V.clusterSize = r + V.clusterSize + k * V.clusterSize := by
        rw [Nat.succ_mul]
        omega
      rw [← Nat.add_assoc f k 1, hstep, hend, hend']
      exact hrest

/-- The file ends before its chain does. -/
theorem readClusters_done (h : size ≤ r) :
    readClusters start V.clusterSize size (f + 1) i addr r m = .ok r m := by
  unfold readClusters
  rw [if_neg (by omega)]
  rfl

/-- The last cluster gives all the rest. -/
theorem readClusters_last (addr : Nat) (hm : Mounted m) (hi : Volume.IsData i)
    (hnext : 0xfff7 ≤ (volumeAt m).next i) (hr : r < size) (hsize : size < 2 ^ 32) :
    readClusters (Os64.volumeStart m) (volumeAt m).clusterSize size (f + 1) i addr r m = (do
      lmemcpy addr (Os64.volumeStart m + (volumeAt m).offset i) (size - r)
      return size : LoaderM Nat) m := by
  have hlt := Os64.volumeStart_lt m
  have hoff := offset_lt m i
  have hi' := hi.2
  have hdata : u64 (Os64.volumeStart m + (volumeAt m).offset i) =
      Os64.volumeStart m + (volumeAt m).offset i := Nat.mod_eq_of_lt (by omega)
  have hread : u32 (r + (size - r)) = size := by
    rw [Nat.add_sub_cancel' (Nat.le_of_lt hr)]
    exact Nat.mod_eq_of_lt hsize
  conv_lhs => unfold readClusters
  rw [if_pos hr, bind_run (getClusterOffset_run hm hi.1)]
  rw [bind_run (getClusterValue_run hm (by omega)), if_pos hnext, hdata, hread]

end Loop

/-! ## A file on the volume -/

/-- Entry `v` is a file whose chain has `n` clusters, all of them in the image. -/
structure FileAt (m : Mem) (v n : Nat) : Prop where
  mounted : Mounted m
  root : RootMapped m
  clusterSize : (volumeAt m).clusterSize ≠ 0
  chain : (volumeAt m).ChainOf (entryCluster m v) n
  mapped : ∀ k < n, Os64.volumeStart m + clusterStart m ((volumeAt m).cluster (entryCluster m v) k) +
    (volumeAt m).clusterSize ≤ 2 ^ 30
  size : entrySize m v + (volumeAt m).clusterSize < 2 ^ 32

section File

variable {m : Mem} {path v n addr k : Nat} {p : List UInt8}

theorem clusterStart_ge (m : Mem) (i : Nat) :
    (i - 2) * (volumeAt m).clusterSize ≤ clusterStart m i := by
  have h13 : Os64.bpb m 13 1 < 2 ^ 8 := load_lt _ _ _
  have h11 : Os64.bpb m 11 2 < 2 ^ 16 := load_lt _ _ _
  have hprod : Os64.bpb m 11 2 * Os64.bpb m 13 1 < 2 ^ 32 := by
    have := Nat.mul_le_mul (Nat.le_of_lt h11) (Nat.le_of_lt h13)
    omega
  have hcs : (volumeAt m).clusterSize = Os64.bpb m 13 1 * Os64.bpb m 11 2 := by
    rw [Nat.mul_comm]
    exact Nat.mod_eq_of_lt hprod
  rw [hcs]
  exact Nat.le_add_left _ _

/-- The chain has no more bytes than the memory from the image on. -/
theorem FileAt.bytes_le (h : FileAt m v n) : n * (volumeAt m).clusterSize ≤ 2 ^ 28 := by
  have hcs := Nat.pos_of_ne_zero h.clusterSize
  have hstart := h.mounted.start
  unfold fsBase at hstart
  have hlen : n ≤ 2 ^ 28 / (volumeAt m).clusterSize := h.chain.length_le fun k hk => by
    have hmap := h.mapped k hk
    have hge := clusterStart_ge m ((volumeAt m).cluster (entryCluster m v) k)
    rw [Nat.lt_iff_add_one_le, Nat.le_div_iff_mul_le hcs, Nat.succ_mul]
    omega
  exact (Nat.mul_le_mul_right _ hlen).trans (Nat.div_mul_le_self _ _)

/-- Where a cluster of the chain lies. -/
theorem FileAt.offset (h : FileAt m v n) (hk : k < n) :
    Os64.volumeStart m + (volumeAt m).offset ((volumeAt m).cluster (entryCluster m v) k) +
      (volumeAt m).clusterSize ≤ 2 ^ 30 := by
  have hmap := h.mapped k hk
  rw [offset_eq (by omega)]
  exact hmap

theorem FileAt.full (h : FileAt m v n) {size : Nat} (hk : k + 1 < n)
    (hr : k * (volumeAt m).clusterSize < size) :
    Full (volumeAt m) (Os64.volumeStart m) size ((volumeAt m).cluster (entryCluster m v) k)
      (0 + k * (volumeAt m).clusterSize) where
  data := h.chain.data k (by omega)
  next := by
    rw [Volume.cluster_next]
    exact (h.chain.data (k + 1) hk).2
  source := h.offset (by omega)
  rest := by omega

/-- The whole clusters of a file, from its first on. -/
theorem FileAt.whole (h : FileAt m v n) (haddr : addr ≤ 2 ^ 28) {size : Nat} (hk : k < n)
    (hr : ∀ j < k, j * (volumeAt m).clusterSize < size) :
    readRawData (entryCluster m v) addr size m =
      readClusters (Os64.volumeStart m) (volumeAt m).clusterSize size (2 ^ 32 - k)
        ((volumeAt m).cluster (entryCluster m v) k) (addr + k * (volumeAt m).clusterSize)
        (k * (volumeAt m).clusterSize)
        (copyAll addr (Os64.volumeStart m) m ((volumeAt m).whole k (entryCluster m v) 0)) := by
  have hcs := Nat.pos_of_ne_zero h.clusterSize
  have hbytes := h.bytes_le
  have hfirst := (h.chain.data 0 h.chain.pos).1
  rw [Volume.cluster_zero] at hfirst
  have hk' : k * (volumeAt m).clusterSize ≤ n * (volumeAt m).clusterSize :=
    Nat.mul_le_mul_right _ (Nat.le_of_lt hk)
  have hkle : k ≤ k * (volumeAt m).clusterSize := Nat.le_mul_of_pos_right k hcs
  have hfull : ∀ j < k, Full (volumeAt m) (Os64.volumeStart m) size
      ((volumeAt m).cluster (entryCluster m v) j) (0 + j * (volumeAt m).clusterSize) :=
    fun j hj => h.full (by omega) (hr j hj)
  have hdst : addr + 0 + k * (volumeAt m).clusterSize ≤ fsBase := by unfold fsBase; omega
  have hrun := readClusters_whole (f := 2 ^ 32 - k) hcs k h.mounted rfl rfl hfull hdst (by omega)
  rw [Nat.sub_add_cancel (by omega), Nat.add_zero, Nat.zero_add] at hrun
  unfold readRawData
  rw [bind_run (getFsBpb_mounted h.mounted), bind_run (getClusterSize_run h.mounted),
    if_neg (by omega)]
  exact hrun

/-- Memory after the whole clusters. -/
theorem FileAt.whole_mem (h : FileAt m v n) (haddr : addr ≤ 2 ^ 28) (hk : k ≤ n) (x : Nat) :
    copyAll addr (Os64.volumeStart m) m ((volumeAt m).whole k (entryCluster m v) 0) x =
      if addr ≤ x ∧ x < addr + k * (volumeAt m).clusterSize then
        m (Os64.volumeStart m + (volumeAt m).byteAt (entryCluster m v) (x - addr))
      else m x := by
  have hbytes := h.bytes_le
  have hstart := h.mounted.start
  have hk' : k * (volumeAt m).clusterSize ≤ n * (volumeAt m).clusterSize :=
    Nat.mul_le_mul_right _ hk
  have hslice := Volume.whole_slice (V := volumeAt m) (i := entryCluster m v) (d := 0) (b := 0) k
  rw [Volume.cluster_zero] at hslice
  rw [hslice.copyAll fun j hj => by unfold fsBase at hstart; omega]
  rw [Nat.add_zero, Nat.zero_mul, Nat.zero_add]

/-- The image is as before. -/
theorem FileAt.whole_image (h : FileAt m v n) (haddr : addr ≤ 2 ^ 28) (hk : k ≤ n) {x : Nat}
    (hx : fsBase ≤ x) :
    copyAll addr (Os64.volumeStart m) m ((volumeAt m).whole k (entryCluster m v) 0) x = m x := by
  have hbytes := h.bytes_le
  have hk' : k * (volumeAt m).clusterSize ≤ n * (volumeAt m).clusterSize :=
    Nat.mul_le_mul_right _ hk
  rw [h.whole_mem haddr hk, if_neg (by unfold fsBase at hx; omega)]

/-- `read_raw_data` when the file ends `k` clusters on, before the last one. -/
theorem FileAt.stops (h : FileAt m v n) (haddr : addr ≤ 2 ^ 28) {size : Nat} (hk : k < n)
    (hr : ∀ j < k, j * (volumeAt m).clusterSize < size) (hsize : size ≤ k * (volumeAt m).clusterSize) :
    readRawData (entryCluster m v) addr size m = .ok (k * (volumeAt m).clusterSize)
      (copyAll addr (Os64.volumeStart m) m ((volumeAt m).whole k (entryCluster m v) 0)) := by
  have hbytes := h.bytes_le
  have hkle : k ≤ n * (volumeAt m).clusterSize :=
    (Nat.le_of_lt hk).trans (Nat.le_mul_of_pos_right n (Nat.pos_of_ne_zero h.clusterSize))
  have hfuel : 2 ^ 32 - k = 2 ^ 32 - k - 1 + 1 := by omega
  rw [h.whole haddr hk hr, hfuel]
  exact readClusters_done hsize

/-- `read_raw_data` when the file goes on into the last cluster, or past it. -/
theorem FileAt.goesOn (h : FileAt m v n) (haddr : addr ≤ 2 ^ 28) {size : Nat} (hsize : size < 2 ^ 32)
    (hr : (n - 1) * (volumeAt m).clusterSize < size) :
    readRawData (entryCluster m v) addr size m = (do
      lmemcpy (addr + (n - 1) * (volumeAt m).clusterSize)
        (Os64.volumeStart m + (volumeAt m).offset ((volumeAt m).cluster (entryCluster m v) (n - 1)))
        (size - (n - 1) * (volumeAt m).clusterSize)
      return size : LoaderM Nat)
        (copyAll addr (Os64.volumeStart m) m ((volumeAt m).whole (n - 1) (entryCluster m v) 0)) := by
  have hpos := h.chain.pos
  have hbytes := h.bytes_le
  have hnle : n ≤ n * (volumeAt m).clusterSize :=
    Nat.le_mul_of_pos_right n (Nat.pos_of_ne_zero h.clusterSize)
  have hsame := fun x => h.whole_image (k := n - 1) haddr (Nat.sub_le n 1) (x := x)
  obtain ⟨hstart', hV'⟩ := volumeAt_congr hsame h.mounted
  have hfuel : 2 ^ 32 - (n - 1) = 2 ^ 32 - (n - 1) - 1 + 1 := by omega
  have hend : 0xfff7 ≤ (volumeAt m).next ((volumeAt m).cluster (entryCluster m v) (n - 1)) := by
    rw [Volume.cluster_next, Nat.sub_add_cancel hpos]
    exact h.chain.ends
  have hlast := readClusters_last (f := 2 ^ 32 - (n - 1) - 1)
    (addr + (n - 1) * (volumeAt m).clusterSize) (h.mounted.congr hsame)
    (h.chain.data (n - 1) (by omega)) (by rw [hV']; exact hend) hr hsize
  rw [hstart', hV'] at hlast
  rw [h.whole haddr (by omega) fun j hj =>
    (Nat.mul_le_mul_right _ (Nat.le_of_lt hj)).trans_lt hr, hfuel]
  exact hlast

/-- Memory when the last copy has been made, for a file that ends in its chain. -/
theorem FileAt.last_mem (h : FileAt m v n) (haddr : addr ≤ 2 ^ 28) {size : Nat}
    (hr : (n - 1) * (volumeAt m).clusterSize < size) (hsize : size ≤ n * (volumeAt m).clusterSize)
    (x : Nat) :
    copy (copyAll addr (Os64.volumeStart m) m ((volumeAt m).whole (n - 1) (entryCluster m v) 0))
        (addr + (n - 1) * (volumeAt m).clusterSize)
        (Os64.volumeStart m + (volumeAt m).offset ((volumeAt m).cluster (entryCluster m v) (n - 1)))
        (size - (n - 1) * (volumeAt m).clusterSize) x =
      if addr ≤ x ∧ x < addr + size then
        m (Os64.volumeStart m + (volumeAt m).byteAt (entryCluster m v) (x - addr))
      else m x := by
  have hbytes := h.bytes_le
  have hstart := h.mounted.start
  have hn : n * (volumeAt m).clusterSize =
      (n - 1) * (volumeAt m).clusterSize + (volumeAt m).clusterSize := by
    rw [← Nat.succ_mul, Nat.succ_eq_add_one, Nat.sub_add_cancel h.chain.pos]
  have hwhole := Volume.whole_slice (V := volumeAt m) (i := entryCluster m v) (d := 0) (b := 0)
    (n - 1)
  have hone := Slice.one (c := ⟨(n - 1) * (volumeAt m).clusterSize,
      (volumeAt m).offset ((volumeAt m).cluster (entryCluster m v) (n - 1)),
      size - (n - 1) * (volumeAt m).clusterSize⟩) fun j (hj : j < size - _) =>
    Volume.byteAt_block (V := volumeAt m) (i := entryCluster m v) (n - 1) (by omega)
  rw [Volume.cluster_zero, Nat.zero_mul] at hwhole
  have hslice := hwhole.append (by rw [Nat.zero_add]; exact hone)
  dsimp only at hslice
  rw [Nat.add_sub_cancel' (Nat.le_of_lt hr)] at hslice
  rw [← copyAll_concat addr (Os64.volumeStart m)
      ⟨(n - 1) * (volumeAt m).clusterSize, _, size - (n - 1) * (volumeAt m).clusterSize⟩,
    hslice.copyAll fun j hj => by unfold fsBase at hstart; omega, Nat.add_zero, Nat.zero_add]

/-- Where `load_file` goes on, once it has found the entry. -/
theorem FileAt.loadFile (h : FileAt m v n) (hpath : Text lbyte m path p)
    (hfind : searchFile path m = .ok v m) (hv : v ≠ 0xffffffff) :
    loadFile path addr m = (do
      let readSize ← readRawData (entryCluster m v) addr (entrySize m v)
      return if readSize = entrySize m v then 0 else -1 : LoaderM Int) m := by
  have hcount : v < Loader.bpb m 17 2 := by
    rcases (searchFile_found hpath hfind).2 with ⟨-, hfirst⟩ | ⟨hno, -⟩
    · exact hfirst.1
    · exact absurd hno hv
  have hrootStart := rootStart_eq h.mounted
  have hroot := h.root.root
  have hdir : getRootDirectory m = .ok (Loader.rootStart m) m := by
    have hfield : ∀ o k, 0 < k → o + k ≤ 24 → lload (Loader.volumeStart m + o) k m =
        .ok (Loader.bpb m o k) m := fun o k hk ho =>
      lload_run (by have := h.root.sector; omega) hk m
    have hlt := Loader.rootStart_lt m
    unfold getRootDirectory
    rw [bind_run (getFsBpb_run m), bind_run (hfield 14 2 (by decide) (by decide)),
      bind_run (hfield 16 1 (by decide) (by decide)), bind_run (hfield 22 2 (by decide) (by decide)),
      bind_run (hfield 11 2 (by decide) (by decide))]
    have hval : u64 (Loader.rootStart m) = Loader.rootStart m := Nat.mod_eq_of_lt (by omega)
    rw [← hval]
    rfl
  obtain ⟨hentry, -⟩ := entry_eq m hcount
  unfold dirEntrySize at hroot hentry
  unfold Loader.loadFile
  rw [bind_run hfind, if_pos hv, bind_run hdir]
  unfold dirEntrySize
  rw [hentry, bind_run (lload_run (by omega) (by decide) m),
    bind_run (lload_run (by omega) (by decide) m), hrootStart]
  rfl

/-- `m'` is `m` with `size` bytes of the file at `addr`. -/
def Filled (m : Mem) (v addr size : Nat) (m' : Mem) : Prop :=
  ∀ x, m' x = if addr ≤ x ∧ x < addr + size then
      m (Os64.volumeStart m + (volumeAt m).byteAt (entryCluster m v) (x - addr))
    else m x

/-- Where a file of `size` bytes ends among the clusters before the last. -/
theorem FileAt.ceil (h : FileAt m v n) {size : Nat} (hsize : size ≤ (n - 1) * (volumeAt m).clusterSize) :
    ∃ k < n, (∀ j < k, j * (volumeAt m).clusterSize < size) ∧
      size ≤ k * (volumeAt m).clusterSize := by
  have hex : ∃ k, size ≤ k * (volumeAt m).clusterSize := ⟨_, hsize⟩
  have hmin := fun j (hj : j < Nat.find hex) => Nat.find_min hex hj
  have hpos := h.chain.pos
  refine ⟨Nat.find hex, ?_, fun j hj => Nat.lt_of_not_le (hmin j hj), Nat.find_spec hex⟩
  have hle : Nat.find hex ≤ n - 1 := Nat.find_min' hex hsize
  omega

/-- `load_file` succeeds with the file in memory when the file ends in the last cluster of its
    chain or at the end of an earlier one. -/
theorem FileAt.loaded (h : FileAt m v n) (hpath : Text lbyte m path p)
    (hfind : searchFile path m = .ok v m) (hv : v ≠ 0xffffffff) (haddr : addr ≤ 2 ^ 28)
    (hsize : entrySize m v ≤ n * (volumeAt m).clusterSize)
    (hend : (n - 1) * (volumeAt m).clusterSize < entrySize m v ∨
      (volumeAt m).clusterSize ∣ entrySize m v) :
    ∃ m', Loader.loadFile path addr m = .ok 0 m' ∧ Filled m v addr (entrySize m v) m' := by
  have hcs := Nat.pos_of_ne_zero h.clusterSize
  have hbytes := h.bytes_le
  by_cases hlast : (n - 1) * (volumeAt m).clusterSize < entrySize m v
  · -- the last cluster gives what is left
    have hmem := h.last_mem haddr hlast hsize
    have hoff := h.offset (k := n - 1) (by have := h.chain.pos; omega)
    have hn : n * (volumeAt m).clusterSize =
        (n - 1) * (volumeAt m).clusterSize + (volumeAt m).clusterSize := by
      rw [← Nat.succ_mul, Nat.succ_eq_add_one, Nat.sub_add_cancel h.chain.pos]
    refine ⟨_, ?_, hmem⟩
    rw [h.loadFile hpath hfind hv,
      bind_run ((h.goesOn haddr (by omega) hlast).trans
        (bind_run (lmemcpy_run (by omega) (by omega) (by omega)))), if_pos rfl]
    rfl
  · obtain ⟨k, hk, hr, hle⟩ := h.ceil (Nat.le_of_not_lt hlast)
    obtain ⟨q, hq⟩ := hend.resolve_left hlast
    rw [Nat.mul_comm] at hq
    -- the last cluster copied is the one that the file ends with
    have hkz : k * (volumeAt m).clusterSize = entrySize m v := by
      have hkq : k ≤ q := Nat.le_of_not_lt fun hqk => by
        have := hr q hqk
        omega
      have := Nat.mul_le_mul_right (volumeAt m).clusterSize hkq
      omega
    have hmem := h.whole_mem haddr (Nat.le_of_lt hk)
    simp only [hkz] at hmem
    refine ⟨_, ?_, hmem⟩
    rw [h.loadFile hpath hfind hv, bind_run (h.stops haddr hk hr hle), if_pos hkz]
    rfl

/-- It fails when the file ends inside an earlier one. -/
theorem FileAt.refused (h : FileAt m v n) (hpath : Text lbyte m path p)
    (hfind : searchFile path m = .ok v m) (hv : v ≠ 0xffffffff) (haddr : addr ≤ 2 ^ 28)
    (hsize : entrySize m v ≤ (n - 1) * (volumeAt m).clusterSize)
    (hend : ¬ (volumeAt m).clusterSize ∣ entrySize m v) :
    ∃ m', Loader.loadFile path addr m = .ok (-1) m' := by
  obtain ⟨k, hk, hr, hle⟩ := h.ceil hsize
  have hne : k * (volumeAt m).clusterSize ≠ entrySize m v := fun heq =>
    hend ⟨k, by rw [Nat.mul_comm]; exact heq.symm⟩
  rw [h.loadFile hpath hfind hv, bind_run (h.stops haddr hk hr hle), if_neg hne]
  exact ⟨_, rfl⟩

/-- What a success leaves, for a file that its chain holds. -/
theorem FileAt.filled {m' : Mem} (h : FileAt m v n) (hpath : Text lbyte m path p)
    (hfind : searchFile path m = .ok v m) (hv : v ≠ 0xffffffff) (haddr : addr ≤ 2 ^ 28)
    (hrun : Loader.loadFile path addr m = .ok 0 m')
    (hsize : entrySize m v ≤ n * (volumeAt m).clusterSize) :
    Filled m v addr (entrySize m v) m' := by
  by_cases hend : (n - 1) * (volumeAt m).clusterSize < entrySize m v ∨
      (volumeAt m).clusterSize ∣ entrySize m v
  · obtain ⟨m₁, hrun₁, hf⟩ := h.loaded hpath hfind hv haddr hsize hend
    rw [(EStateM.Result.ok.inj (hrun.symm.trans hrun₁)).2]
    exact hf
  · rw [not_or] at hend
    obtain ⟨m₁, hrun₁⟩ := h.refused hpath hfind hv haddr (Nat.le_of_not_lt hend.1) hend.2
    rw [hrun] at hrun₁
    exact absurd (EStateM.Result.ok.inj hrun₁).1 (by decide)

variable (m v n addr) in
/-- The copy of all that is left of the file from the last cluster stays in the memory that the
    loader maps. -/
def LastMapped : Prop :=
  addr + entrySize m v ≤ 2 ^ 30 ∧
    Os64.volumeStart m + clusterStart m ((volumeAt m).cluster (entryCluster m v) (n - 1)) +
      (entrySize m v - (n - 1) * (volumeAt m).clusterSize) ≤ 2 ^ 30

/-- What becomes of a file that is longer than its chain. -/
theorem FileAt.overrun (h : FileAt m v n) (hpath : Text lbyte m path p)
    (hfind : searchFile path m = .ok v m) (hv : v ≠ 0xffffffff) (haddr : addr ≤ 2 ^ 28)
    (hsize : n * (volumeAt m).clusterSize < entrySize m v) :
    (∃ m', Loader.loadFile path addr m = .ok 0 m') ↔ LastMapped m v n addr := by
  have hcs := Nat.pos_of_ne_zero h.clusterSize
  have hpos := h.chain.pos
  have hz := h.size
  have hbytes := h.bytes_le
  have hoff := h.offset (k := n - 1) (by omega)
  have hmap := h.mapped (n - 1) (by omega)
  have heq := offset_eq (m := m) (i := (volumeAt m).cluster (entryCluster m v) (n - 1)) (by omega)
  have hn : n * (volumeAt m).clusterSize =
      (n - 1) * (volumeAt m).clusterSize + (volumeAt m).clusterSize := by
    rw [← Nat.succ_mul, Nat.succ_eq_add_one, Nat.sub_add_cancel hpos]
  rw [h.loadFile hpath hfind hv]
  constructor
  · rintro ⟨m', hrun⟩
    obtain ⟨_, m₁, hread, -⟩ := bind_ok.mp hrun
    rw [h.goesOn haddr (by omega) (by omega)] at hread
    obtain ⟨u, m₂, hcopy, -⟩ := bind_ok.mp hread
    by_contra hno
    refine lmemcpy_fault (by omega) (by omega) (by omega) (fun hin => hno ?_) u m₂ hcopy
    exact ⟨by omega, by omega⟩
  · rintro ⟨hdst, hsrc⟩
    rw [bind_run ((h.goesOn haddr (by omega) (by omega)).trans
      (bind_run (lmemcpy_run (by omega) (by omega) (by omega)))), if_pos rfl]
    exact ⟨_, rfl⟩

end File

/-! ## A file by its name -/

/-- The string at `path`, which lies below what is loaded, names entry `v`, a file whose chain
    has `n` clusters. -/
structure NamedFile (m : Mem) (path : Nat) (name : List UInt8) (v n : Nat) : Prop where
  text : Text lbyte m path name
  short : Short name
  low : ∀ k ≤ name.length, phys (path + k) < 0x200000
  first : (directory m).First (fields name).1 (fields name).2 v
  file : FileAt m v n

section Named

variable {m : Mem} {path v n i c : Nat} {name : List UInt8}

theorem NamedFile.find (h : NamedFile m path name v n) :
    searchFile path m = .ok v m ∧ v ≠ 0xffffffff := by
  have hcount : v < Loader.bpb m 17 2 := h.first.1
  have hlt : Loader.bpb m 17 2 < 256 ^ 2 := load_lt _ _ _
  exact ⟨searchFile_first h.file.root h.text h.short h.first, by omega⟩

/-- A string of the first GB. -/
theorem text_of : ∀ {p : List UInt8} {a : Nat}, a + p.length + 1 ≤ 2 ^ 30 →
    (∀ k < p.length, p.getD k 0 ≠ 0 ∧ m (a + k) = p.getD k 0) → m (a + p.length) = 0 →
    Text lbyte m a p := by
  intro p
  induction p with
  | nil =>
      intro a ha _ hend
      have h := lbyte_run (m := m) (a := a) ha
      rwa [show m a = 0 from hend] at h
  | cons c p ih =>
      intro a ha hbytes hend
      rw [List.length_cons] at ha hend
      obtain ⟨hne, hc⟩ := hbytes 0 (Nat.succ_pos _)
      have h := lbyte_run (m := m) (a := a) (by omega)
      rw [show m a = c from hc] at h
      refine ⟨hne, h, ih (by omega) (fun k hk => ?_) ?_⟩
      · have := hbytes (k + 1) (Nat.succ_lt_succ hk)
        rwa [Nat.add_comm k 1, ← Nat.add_assoc, Nat.add_comm 1 k] at this
      · rwa [Nat.add_comm p.length 1, ← Nat.add_assoc] at hend

/-- A file of one cluster. -/
theorem fileAt_one (hm : Mounted m) (hr : RootMapped m) (hc : (volumeAt m).clusterSize = c)
    (hpos : c ≠ 0) (hcluster : entryCluster m v = i) (hi : Volume.IsData i)
    (hnext : 0xfff7 ≤ (volumeAt m).next i)
    (hmap : Os64.volumeStart m + clusterStart m i + c ≤ 2 ^ 30)
    (hsize : entrySize m v + c < 2 ^ 32) : FileAt m v 1 where
  mounted := hm
  root := hr
  clusterSize := by
    rw [hc]
    exact hpos
  chain := by
    refine ⟨Nat.one_pos, fun k hk => ?_, ?_⟩
    · rw [Nat.lt_one_iff.mp hk, hcluster, Volume.cluster_zero]
      exact hi
    · rw [hcluster, ← Volume.cluster_next, Volume.cluster_zero]
      exact hnext
  mapped k hk := by
    rw [Nat.lt_one_iff.mp hk, hcluster, Volume.cluster_zero, hc]
    exact hmap
  size := by
    rw [hc]
    exact hsize

end Named

end Loader

end Os64
