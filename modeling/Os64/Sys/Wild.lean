/-
  A read to an address that is not the caller's.

  * `readRawData_table`: the bytes of a file go to the descriptor table as to any other buffer.
  * `wild_move`: what a program changes that reads them over bytes of the descriptor table.
-/
import Os64.Sys.Opened

namespace Os64

open Os64.Lib

variable {K : Image} {pool free : List Nat} {a : Sched} {S : Handles} {s s₁ s' : Kernel}

section Table

variable {i n o x y : Nat}

/-- A copy to the descriptor table leaves every page where it is. -/
theorem copied_memOk (h : MemOk K pool free s) (h1 : v2p s.fileDescTable ≤ x)
    (h2 : x + n ≤ v2p s.fileDescTable + pageSize) (dst y : Nat) :
    MemOk K pool free (s.copied true x dst y n) := by
  have hpokes : Pokes [v2p s.fileDescTable] (fun _ => True) s (s.copied true x dst y n) := by
    refine ⟨rfl, wrote_copy s.ram y h1 h2, _, rfl, fun o ho => ?_⟩
    obtain ⟨k, -, rfl⟩ := List.mem_map.mp ho
    exact ⟨_, trivial, rfl⟩
  refine (h.still hpokes.still fun p hpm => ?_).memOk
  rw [List.mem_singleton.mp hpm]
  exact Kernel.tablePages_data (List.mem_cons_of_mem _ List.mem_cons_self)

/-- One round of the copy. -/
theorem copied_table (h : MemOk K pool free s) (hl : s.Live s.pc.currentProcess) {k : Nat}
    (h1 : v2p s.fileDescTable ≤ x) (h2 : x + k < v2p s.fileDescTable + pageSize) (hy : fsBase ≤ y)
    (hk : y + k < 2 ^ 30) : (do
      let b ← loadVirt (y + kernelBase + k)
      if true = true then
        observe (.stored (u64 (x + kernelBase + k)))
      storeVirt K (x + kernelBase + k) b : LowM Unit) (s.copied true x (x + kernelBase) y k) =
        .ok () (s.copied true x (x + kernelBase) y (k + 1)) := by
  have hv := h.tablePages.desc
  have hbelow := hv.below
  have hsp := (copied_memOk h h1 (n := k) (by omega) (x + kernelBase) y).currentSpace hl
  have hsrc : KernelPtr (y + kernelBase + k) 1 := by
    unfold KernelPtr
    omega
  have hphys : v2p (y + kernelBase + k) = y + k := by
    unfold v2p u64
    rw [kernelBase_eq]
    omega
  have hbyte : (s.copied true x (x + kernelBase) y k).ram.mem (y + k) = s.ram.mem (y + k) :=
    copy_of_outside s.ram.mem x y k (by unfold fsBase at hy; omega)
  have hdst : KernelPtr (x + kernelBase + k) 1 := hv.kernelPtr (a := x + k) (by omega) (by omega)
  have hphys' : v2p (x + kernelBase + k) = x + k := hv.v2p_at (by omega) (by omega)
  have hu : u64 (x + kernelBase + k) = x + kernelBase + k := by
    unfold u64
    rw [kernelBase_eq]
    omega
  have hr : ¬ (s.copied true x (x + kernelBase) y k).Reserved K (v2p (x + kernelBase + k)) := by
    rw [hphys']
    exact (copied_memOk h h1 (n := k) (by omega) (x + kernelBase) y).not_reserved hl
      (o := .fileDescTable) nofun nofun List.mem_cons_self
      (show v2p s.fileDescTable ≤ x + k ∧ x + k < v2p s.fileDescTable + pageSize from
        ⟨by omega, h2⟩)
  rw [bind_run (loadVirt_kernel hsp hsrc), hphys, hbyte, hu, if_pos rfl, bind_run (observe_run _ _)]
  refine (storeVirt_kernel (s := { s.copied true x (x + kernelBase) y k with
    hist := (s.copied true x (x + kernelBase) y k).hist ++ [.stored (x + kernelBase + k)] })
    hsp hdst hr _).trans ?_
  rw [hphys']
  unfold Kernel.copied
  rw [copy_succ, storedBytes_succ, ← List.append_assoc]

/-- A copy from the window above the pages to the descriptor table. -/
theorem memcpyVirt_table (h : MemOk K pool free s) (hl : s.Live s.pc.currentProcess)
    (h1 : v2p s.fileDescTable ≤ x) (h2 : x + n ≤ v2p s.fileDescTable + pageSize) (hy : fsBase ≤ y)
    (hn : y + n ≤ 2 ^ 30) : memcpyVirt K true (x + kernelBase) (y + kernelBase) n s =
      .ok () (s.copied true x (x + kernelBase) y n) := by
  have hbelow := h.tablePages.desc.below
  unfold memcpyVirt
  rcases Nat.eq_zero_or_pos n with rfl | h0
  · rw [Kernel.copied_zero]
    split <;> rfl
  rw [if_pos (Or.inl (by unfold fsBase at hy; omega))]
  have hrun := forM_range_run (S := s.copied true x (x + kernelBase) y) (n := n) fun k hk =>
    copied_table h hl h1 (show x + k < v2p s.fileDescTable + pageSize by omega) hy
      (show y + k < 2 ^ 30 by omega)
  rw [Kernel.copied_zero] at hrun
  exact hrun

/-- A read in the first cluster of a file, to the descriptor table. -/
theorem readRawData_table (h : MemOk K pool free s) (hl : s.Live s.pc.currentProcess)
    (hm : Mounted s.ram.mem) (h0 : 0 < n) (hend : o + n ≤ (volumeAt s.ram.mem).clusterSize)
    (hfile : OnVolume s.ram.mem i (o + n)) (h1 : v2p s.fileDescTable ≤ x)
    (h2 : x + n ≤ v2p s.fileDescTable + pageSize) :
    readRawData K true i (x + kernelBase) o n s = .ok n (s.copied true x (x + kernelBase)
      (volumeStart s.ram.mem + (volumeAt s.ram.mem).byteAt i o) n) := by
  have hcs24 := clusterSize_lt s.ram.mem
  have hdata : Volume.IsData i := hfile.covers 0 (by omega)
  have hi : i < 2 ^ 16 := by
    have := hdata.2
    omega
  have hstart := hm.start
  have hcs : (volumeAt s.ram.mem).clusterSize ≠ 0 := by omega
  have hdiv : o / (volumeAt s.ram.mem).clusterSize = 0 := Nat.div_eq_of_lt (by omega)
  have hmod : o % (volumeAt s.ram.mem).clusterSize = o := Nat.mod_eq_of_lt (by omega)
  -- the bytes lie in the window
  have hat : (volumeAt s.ram.mem).byteAt i o = (volumeAt s.ram.mem).offset i + o := by
    unfold Volume.byteAt
    rw [hdiv, hmod, Volume.cluster_zero]
  have hlast := (hfile.byteAt hcs (show o + n - 1 < o + n by omega)).1
  unfold Volume.byteAt at hlast
  rw [Nat.div_eq_of_lt (by omega), Nat.mod_eq_of_lt (by omega), Volume.cluster_zero] at hlast
  have hcopy := memcpyVirt_table (x := x) h hl h1 h2
    (y := volumeStart s.ram.mem + (volumeAt s.ram.mem).byteAt i o) (n := n) (by omega) (by omega)
  have hsrc : u64 (volumeStart s.ram.mem + kernelBase + (volumeAt s.ram.mem).offset i + o) =
      volumeStart s.ram.mem + (volumeAt s.ram.mem).byteAt i o + kernelBase := by
    rw [volume_data s.ram.mem i o (by omega), hat, Nat.add_right_comm]
  generalize (volumeStart s.ram.mem + (volumeAt s.ram.mem).byteAt i o) = src at hcopy hsrc ⊢
  have hoffset := getClusterOffset_run hm i
  rw [if_pos hdata.1] at hoffset
  unfold readRawData
  rw [bind_run (ram_run (getClusterSize_run hm)), bind_run (ensure_run hcs _ _)]
  dsimp only
  rw [hdiv, hmod, bind_run (ram_run (skipClusters_run hm 0 hi)), bind_run (ram_run (getFsBpb_run s.ram)),
    show 2 ^ 32 = (2 ^ 32 - 1) + 1 from (Nat.sub_add_cancel (by decide)).symm]
  by_cases ho : o = 0
  · have hsum : n ≤ u32 (0 + (volumeAt s.ram.mem).clusterSize) := by
      unfold u32
      omega
    rw [if_neg (not_not.mpr ho)]
    unfold readClusters
    rw [if_pos ⟨h0, hdata.2⟩, bind_run (ram_run hoffset)]
    rw [ho, Nat.add_zero] at hsrc
    rw [if_pos hsum, hsrc, Nat.sub_zero, bind_run hcopy]
    rfl
  · have hsum : u32 (o + n) ≤ (volumeAt s.ram.mem).clusterSize := by
      unfold u32
      omega
    rw [if_pos ho, if_pos hsum, bind_run (ram_run hoffset), hsrc, bind_run hcopy]
    -- the copy has not changed the volume
    have himage : ∀ z, fsBase ≤ z →
        (s.copied true x (x + kernelBase) src n).ram.mem z = s.ram.mem z := fun z hz =>
      copy_of_outside s.ram.mem x src n (by
        have := h.tablePages.desc.below
        unfold fsBase at hz
        omega)
    rw [bind_run (ram_run (getClusterValue_run (hm.congr himage) hi))]
    unfold readClusters
    rw [if_neg (by omega)]
    rfl

end Table

section Move

variable {f : TrapFrame} {n : Fin 100} {d c x k : Nat}

/-- Memory with the next `k` bytes of the file behind descriptor `n` at `x`. -/
def Kernel.patched (s : Kernel) (n : Fin 100) (x k : Nat) : Mem :=
  copy s.ram.mem x (volumeStart s.ram.mem + (volumeAt s.ram.mem).byteAt (s.descCluster (s.desc n))
    (s.filePosition (s.desc n))) k

/-- The read of `k` bytes moved the position of descriptor `n`, after it had stored them at `x`. -/
structure WildRead (s : Kernel) (n : Fin 100) (d x k : Nat) (s' : Kernel) : Prop where
  same : s' = { s with ram := s'.ram, hist := s.hist ++ storedBytes true (x + kernelBase) k }
  position : load s'.ram.mem (v2p s.fileDescTable + fileDescSize * d + 8) 4 =
    ((load (s.patched n x k) (v2p s.fileDescTable + fileDescSize * d + 8) 4 + k : Int) % 2 ^ 32).toNat
  others : ∀ y, InPage (v2p s.fileDescTable) y → (y < v2p s.fileDescTable + fileDescSize * d + 8 ∨
    v2p s.fileDescTable + fileDescSize * d + 8 + 4 ≤ y) → s'.ram.mem y = s.patched n x k y
  wrote : Wrote [v2p s.fileDescTable, s.stackPage s.pc.currentProcess] s.ram s'.ram

theorem WildRead.still (h : WildRead s n d x k s') :
    Still [v2p s.fileDescTable, s.stackPage s.pc.currentProcess] s s' := by
  have hpokes : Pokes [v2p s.fileDescTable, s.stackPage s.pc.currentProcess] (fun _ => True) s s' := by
    refine ⟨by rw [h.same], h.wrote, storedBytes true (x + kernelBase) k, by rw [h.same], fun o ho => ?_⟩
    obtain ⟨j, -, rfl⟩ := List.mem_map.mp ho
    exact ⟨_, trivial, rfl⟩
  exact hpokes.still

/-- read_file in the first cluster, to the descriptor table. -/
theorem readFile_wild (h : Whole K pool free a S s) (hl : s.Live s.pc.currentProcess)
    (ho : OpenDesc s S n d c) (hread : Readable s (s.desc n)) (h0 : 0 < k)
    (hfit : s.filePosition (s.desc n) + k ≤ s.descSize (s.desc n))
    (hcluster : s.filePosition (s.desc n) + k ≤ (volumeAt s.ram.mem).clusterSize)
    (h1 : v2p s.fileDescTable ≤ x) (h2 : x + k ≤ v2p s.fileDescTable + pageSize) :
    ∃ s', readFile K true s.pc.currentProcess n.val (x + kernelBase) k s = .ok k s' ∧
      WildRead s n d x k s' ∧ MemOk K pool free s' := by
  have hp := h.mem.tablePages
  have hcs24 := clusterSize_lt s.ram.mem
  have hraw := readRawData_table h.mem hl hread.mounted h0 hcluster (hread.onVolume.mono hfit) h1 h2
  have hmove := ho.move_run h.mem k { s.ram with mem := s.patched n x k }
  generalize hv : ((load (s.patched n x k)
    (v2p s.fileDescTable + fileDescSize * d + 8) 4 + k : Int) % 2 ^ 32).toNat = v at hmove
  have hend := desc_end (v2p s.fileDescTable) ho.descLt
  have hrun : readFile K true s.pc.currentProcess n.val (x + kernelBase) k s = .ok k { s with
      ram := { s.ram with
        mem := store (s.patched n x k) (v2p s.fileDescTable + fileDescSize * d + 8) 4 v }
      hist := s.hist ++ storedBytes true (x + kernelBase) k } := by
    have hle : ¬ s.descSize (s.desc n) < u32 (s.filePosition (s.desc n) + k) := by
      unfold u32
      omega
    rw [readFile_eq h.mem ho, if_neg hle, bind_run hraw]
    refine (bind_run (ram_run hmove)).trans ?_
    rw [i32_small (by omega)]
    rfl
  -- both stores are in the table
  have hwrote : Wrote [v2p s.fileDescTable] s.ram { s.ram with
      mem := store (s.patched n x k) (v2p s.fileDescTable + fileDescSize * d + 8) 4 v } := by
    unfold fileDescSize at hend
    exact (wrote_copy s.ram _ h1 h2).trans (wrote_store _ v (by unfold fileDescSize; omega)
      (by unfold fileDescSize; omega))
  refine ⟨_, hrun, ⟨rfl, ?_, fun y _ hout => ?_, hwrote.mono (by simp)⟩, ?_⟩
  · rw [hv]
    refine (load_store_self _ _ _ _).trans (Nat.mod_eq_of_lt ?_)
    omega
  · exact store_of_outside _ _ _ _ hout
  · have hpokes : Pokes [v2p s.fileDescTable] (fun _ => True) s { s with
        ram := { s.ram with
          mem := store (s.patched n x k) (v2p s.fileDescTable + fileDescSize * d + 8) 4 v }
        hist := s.hist ++ storedBytes true (x + kernelBase) k } := by
      refine ⟨rfl, hwrote, _, rfl, fun o ho => ?_⟩
      obtain ⟨j, -, rfl⟩ := List.mem_map.mp ho
      exact ⟨_, trivial, rfl⟩
    refine (h.mem.still hpokes.still fun p hpm => ?_).memOk
    rw [List.mem_singleton.mp hpm]
    exact Kernel.tablePages_data (List.mem_cons_of_mem _ List.mem_cons_self)

/-- The call. -/
theorem wild_move (h : Whole K pool free a S s) (he : Enabled s (.syscall f))
    (hr : ReadCall s f s₁ n (x + kernelBase) k) (ho : OpenDesc s S n d c)
    (hread : Readable s (s.desc n)) (h0 : 0 < k)
    (hfit : s.filePosition (s.desc n) + k ≤ s.descSize (s.desc n))
    (hcluster : s.filePosition (s.desc n) + k ≤ (volumeAt s.ram.mem).clusterSize)
    (h1 : v2p s.fileDescTable ≤ x) (h2 : x + k ≤ v2p s.fileDescTable + pageSize) :
    ∃ s', step K (.syscall f) s = .ok () s' ∧ WildRead s n d x k s' ∧ MemOk K pool free s' := by
  have hc : a.current ≠ 0 := h.rep.current ▸ he.2.1
  have hl := h.live hc
  have hp := h.mem.tablePages
  obtain ⟨s₂, hcall⟩ := call_begins (K := K) h hc he.2.2 hr.rdi (by rw [hr.rax]; decide)
  obtain ⟨-, rfl⟩ := EStateM.Result.ok.inj (hcall.push.symm.trans hr.push)
  have h₁ := hcall.whole
  have hl₁ := h₁.live hc
  have same₁ := pushFrame_same h hr.push
  have hdesc : s₂.desc n = s.desc n := by
    rw [hcall.same]
    rfl
  have hcur : s₂.pc = s.pc := by rw [hcall.same]
  obtain ⟨hfile, hpos₁⟩ := same₁.sameFile h.mem h₁.mem h.files ho
  have hread₁ := hread.same hfile same₁.image
  obtain ⟨hstart, hvol⟩ := volumeAt_congr same₁.image hread.mounted
  rw [← hdesc] at hpos₁ hread₁
  have ho₁ : OpenDesc s₂ S n d c := by
    obtain ⟨d', c', ho'⟩ := h₁.files.openDesc h₁.mem (show s₂.desc n ≠ 0 by
      rw [hdesc, ho.desc]
      unfold descPtr
      have := hp.desc.p2v_ne_zero
      dsimp only
      omega)
    have hheld := ho'.held
    rw [hcur, ho.held] at hheld
    obtain rfl := Option.some.inj hheld
    obtain rfl := Option.some.inj (ho.object.symm.trans ho'.object)
    exact ho'
  have hpos₂ : s₂.filePosition (s₂.desc n) = s.filePosition (s.desc n) := by rw [hpos₁, hdesc]
  have hsize₂ : s₂.descSize (s₂.desc n) = s.descSize (s.desc n) := by rw [hdesc, hfile.size]
  have hcluster₂ : s₂.descCluster (s₂.desc n) = s.descCluster (s.desc n) := by
    rw [hdesc, hfile.cluster]
  obtain ⟨s₃, hrun, hwild, hm₃⟩ := readFile_wild (x := x) h₁ hl₁ ho₁ hread₁ h0
    (by rw [hpos₂, hsize₂]; exact hfit) (by rw [hpos₂, hvol]; exact hcluster)
    (by rw [same₁.fileDescTable]; exact h1) (by rw [same₁.fileDescTable]; exact h2)
  have hargs : systemCalls K f.rax f.rsi s₂ = .ok (some (k : Int)) s₃ := by
    obtain ⟨fd, hfd, hn⟩ := hr.fd
    obtain ⟨w, hw, hone⟩ := hr.size
    rw [hr.rax]
    change sysReadFile K f.rsi s₂ = _
    unfold sysReadFile
    rw [bind_run (get_run s₂), bind_run (low_run hfd), bind_run (low_run hr.buffer),
      bind_run (low_run hw), hn, hone, bind_run (low_run hrun)]
    rfl
  -- the result is in the caller's stack
  have hl₃ : s₃.Live s₃.pc.currentProcess := by
    rw [hwild.same]
    exact hl₁
  have htf : s₂.trapFrame = (s₃.processTable s₃.pc.currentProcess).tf := by
    rw [hwild.same]
    exact h₁.mem.trapFrame_eq hl₁
  obtain ⟨r, hset, -, hw⟩ := setResult_run hm₃ hl₃ htf k
  have same₃ := hm₃.tablesSame_stack hl₃ hw
  have hsame : ({ s₃ with ram := r } : Kernel) =
      { s with ram := r, hist := s.hist ++ storedBytes true (x + kernelBase) k } := by
    rw [hwild.same, hcall.same]
  have hF : s₃.fcbTable = s.fcbTable := by rw [hwild.same, same₁.fcbTable]
  have hD : s₃.fileDescTable = s.fileDescTable := by rw [hwild.same, same₁.fileDescTable]
  have hend := desc_end (v2p s.fileDescTable) ho.descLt
  -- the table at the two ends of the call
  have hdesc₁ : ∀ y, InPage (v2p s.fileDescTable) y → s₂.ram.mem y = s.ram.mem y :=
    same₁.tables _ (List.mem_cons_of_mem _ List.mem_cons_self)
  have hdesc₃ : ∀ y, InPage (v2p s.fileDescTable) y → r.mem y = s₃.ram.mem y :=
    hD ▸ same₃.tables _ (List.mem_cons_of_mem _ List.mem_cons_self)
  have hpatched : ∀ y, InPage (v2p s.fileDescTable) y → s₂.patched n x k y = s.patched n x k y := by
    intro y hy
    unfold Kernel.patched
    rw [hcluster₂, hpos₂, hstart, hvol]
    unfold copy
    split
    · exact same₁.image _ (by have := hread.mounted.start; omega)
    · exact hdesc₁ y hy
  unfold fileDescSize at hend
  have hin : ∀ y, v2p s.fileDescTable + fileDescSize * d + 8 ≤ y →
      y < v2p s.fileDescTable + fileDescSize * d + 8 + 4 → InPage (v2p s.fileDescTable) y := by
    intro y h1 h2
    unfold fileDescSize at h1 h2
    exact ⟨by omega, by omega⟩
  refine ⟨{ s₃ with ram := r }, ?_, ⟨hsame, ?_, fun y hy hout => ?_, ?_⟩,
    (hm₃.still (still_ram hw) fun q hq => Or.inr (Or.inr ⟨_, hl₃, Or.inl (List.mem_singleton.mp hq)⟩)).memOk⟩
  · rw [hcall.run, bind_run hargs]
    exact hset
  · have hpos₃ := hwild.position
    rw [same₁.fileDescTable] at hpos₃
    rw [← load_congr fun y h1 h2 => hpatched y (hin y h1 h2), ← hpos₃]
    exact load_congr fun y h1 h2 => hdesc₃ y (hin y h1 h2)
  · have hother := hwild.others y (by rw [same₁.fileDescTable]; exact hy)
      (by rw [same₁.fileDescTable]; exact hout)
    exact (hdesc₃ y hy).trans (hother.trans (hpatched y hy))
  · have hw₁ : Wrote [s.stackPage s.pc.currentProcess] s.ram s₂.ram := by
      obtain ⟨r₁, hp₁, -, hw₁⟩ := pushFrame_run h.mem hl f
      obtain ⟨-, rfl⟩ := EStateM.Result.ok.inj (hp₁.symm.trans hcall.push)
      exact hw₁
    have hstack : s₂.stackPage s₂.pc.currentProcess = s.stackPage s.pc.currentProcess := by
      rw [hcall.same]
      rfl
    have hstack₃ : s₃.stackPage s₃.pc.currentProcess = s₂.stackPage s₂.pc.currentProcess := by
      rw [hwild.same]
      rfl
    have hw₂ := hwild.wrote
    rw [same₁.fileDescTable, hstack] at hw₂
    rw [hstack₃, hstack] at hw
    exact ((hw₁.mono (by simp)).trans hw₂).trans (hw.mono (by simp))

/-- The first program reads on in its file, over bytes of the descriptor table. -/
theorem Reader.wild {m : Mem} {Ok : Kernel → Event → Prop} {p : Nat} (hf : FileDisk m)
    (hr : Reader m Ok p pool free a S s n) (ho : OpenDesc s S n d c) (h0 : 0 < k) (hk : p + k ≤ 512)
    (h1 : v2p s.fileDescTable ≤ x) (h2 : x + k ≤ v2p s.fileDescTable + pageSize) :
    ∃ f s₁ s', Enabled s (.syscall f) ∧ ReadCall s f s₁ n (x + kernelBase) k ∧
      step image (.syscall f) s = .ok () s' ∧ WildRead s n d x k s' ∧ MemOk image pool free s' := by
  have hbelow := hr.machine.whole.mem.tablePages.desc.below
  obtain ⟨he, s₁, hcall⟩ := hr.machine.readCall hr.user hr.running n
    (show x + kernelBase < 2 ^ 64 by rw [kernelBase_eq]; omega) (show k < 2 ^ 32 by omega)
  have hsize : (volumeAt s.ram.mem).clusterSize = 512 := by
    rw [(volumeAt_congr hr.volume hf.disk.mounted).2]
    exact hf.clusterSize
  obtain ⟨s', hstep, hwild, hm⟩ := wild_move hr.machine.whole he hcall ho
    (hr.file.readable hf hr.volume) h0 (by rw [hr.file.position, hr.file.size]; exact hk)
    (by rw [hr.file.position, hsize]; exact hk) h1 h2
  exact ⟨_, s₁, s', he, hcall, hstep, hwild, hm⟩

/-- What it puts there. -/
theorem Reader.patched {m : Mem} {Ok : Kernel → Event → Prop} {p : Nat} (hf : FileDisk m)
    (hr : Reader m Ok p pool free a S s n) (hp : p < 512) (x k : Nat) :
    s.patched n x k = copy s.ram.mem x (volumeStart m + ((volumeAt m).offset 2 + p)) k := by
  obtain ⟨hstart, hvol⟩ := volumeAt_congr hr.volume hf.disk.mounted
  unfold Kernel.patched Volume.byteAt
  rw [hstart, hvol, hr.file.cluster, hr.file.position, hf.clusterSize, Nat.div_eq_of_lt hp,
    Nat.mod_eq_of_lt hp, Volume.cluster_zero]

/-- The letter `A` at `x`. -/
theorem Reader.patched_letter {Ok : Kernel → Event → Prop} (hr : Reader fileMem Ok 0 pool free a S s n)
    (x : Nat) : s.patched n x 1 = Function.update s.ram.mem x 0x41 := by
  have hbyte : s.ram.mem (volumeStart fileMem + ((volumeAt fileMem).offset 2 + 0)) = 0x41 := by
    have hlow : fsBase ≤ volumeStart fileMem + ((volumeAt fileMem).offset 2 + 0) := by decide +kernel
    rw [hr.volume _ hlow]
    decide +kernel
  rw [hr.patched fileMem_file (by decide), copy_succ, copy_zero, Nat.add_zero, Nat.add_zero, hbyte]

end Move

end Os64
