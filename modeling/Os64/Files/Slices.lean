/-
  What a read of an open file leaves.

  `fileByte m i j` is byte `j` of the clusters from `i` on, one after the other, and
  `OnVolume m i z` says that the chain from `i` covers `z` bytes, in the mapped part of the volume.

  * `readRawData_run`: memory after `read_raw_data`.
  * `readFile_slice`: a read inside the file returns its size; the buffer has the bytes of the file
    from the position on, and the position has moved past them.
-/
import Os64.Files.Kept
import Os64.Files.Reading

namespace Os64

open Os64.Lib

variable {K : Image}

/-! ## The bytes of a file -/

/-- Where cluster `i` begins on the volume. -/
def clusterStart (m : Mem) (i : Nat) : Nat :=
  bpb m 14 2 * bpb m 11 2 + bpb m 16 1 * bpb m 22 2 * bpb m 11 2 + bpb m 17 2 * dirEntrySize +
    (i - 2) * (bpb m 13 1 * bpb m 11 2)

def fileByte (m : Mem) (i j : Nat) : UInt8 :=
  m (volumeStart m + (clusterStart m ((volumeAt m).cluster i (j / (volumeAt m).clusterSize)) +
    j % (volumeAt m).clusterSize))

structure OnVolume (m : Mem) (i z : Nat) : Prop where
  covers : (volumeAt m).Covers i z
  mapped : ∀ k, k * (volumeAt m).clusterSize < z →
    volumeStart m + clusterStart m ((volumeAt m).cluster i k) + (volumeAt m).clusterSize ≤ 2 ^ 30

section Bytes

variable {m m' : Mem} {i j z : Nat}

/-- The offsets of a volume that ends below 2^32 do not wrap. -/
theorem offset_eq (h : clusterStart m i < 2 ^ 32) : (volumeAt m).offset i = clusterStart m i := by
  have h13 : bpb m 13 1 < 2 ^ 8 := load_lt _ _ _
  have h11 : bpb m 11 2 < 2 ^ 16 := load_lt _ _ _
  have hprod : bpb m 13 1 * bpb m 11 2 < 2 ^ 32 := by
    have := Nat.mul_le_mul (Nat.le_of_lt h13) (Nat.le_of_lt h11)
    omega
  unfold clusterStart at h ⊢
  change u32 (u32 _ + u32 _ + u32 _ + u32 ((i - 2) * u32 _)) = _
  unfold u32
  rw [Nat.mod_eq_of_lt hprod, Nat.mod_eq_of_lt (a := bpb m 14 2 * bpb m 11 2) (by omega),
    Nat.mod_eq_of_lt (a := bpb m 16 1 * bpb m 22 2 * bpb m 11 2) (by omega),
    Nat.mod_eq_of_lt (a := bpb m 17 2 * dirEntrySize) (by omega),
    Nat.mod_eq_of_lt (a := (i - 2) * (bpb m 13 1 * bpb m 11 2)) (by omega), Nat.mod_eq_of_lt h]

theorem OnVolume.mono {z' : Nat} (h : OnVolume m i z) (hle : z' ≤ z) : OnVolume m i z' :=
  ⟨fun k hk => h.covers k (hk.trans_le hle), fun k hk => h.mapped k (hk.trans_le hle)⟩

/-- Where byte `j` of the file lies. -/
theorem OnVolume.byteAt (h : OnVolume m i z) (hcs : (volumeAt m).clusterSize ≠ 0) (hj : j < z) :
    volumeStart m + (volumeAt m).byteAt i j < 2 ^ 30 ∧
      m (volumeStart m + (volumeAt m).byteAt i j) = fileByte m i j := by
  have hdiv := Nat.div_add_mod j (volumeAt m).clusterSize
  have hlt := Nat.mod_lt j (Nat.pos_of_ne_zero hcs)
  have hmap := h.mapped (j / (volumeAt m).clusterSize) (by rw [Nat.mul_comm]; omega)
  unfold Volume.byteAt fileByte
  rw [offset_eq (by omega)]
  exact ⟨by omega, rfl⟩

theorem clusterStart_congr (hm : Mounted m) (h : ∀ x, fsBase ≤ x → m' x = m x) (i : Nat) :
    clusterStart m' i = clusterStart m i := by
  have hlow := hm.start
  have hbpb : ∀ o n, bpb m' o n = bpb m o n := by
    intro o n
    unfold bpb
    rw [(volumeAt_congr h hm).1]
    exact load_congr fun x hx _ => h x (by omega)
  unfold clusterStart
  rw [hbpb, hbpb, hbpb, hbpb, hbpb, hbpb]

/-- The files are those of the image. -/
theorem fileByte_congr (hm : Mounted m) (h : ∀ x, fsBase ≤ x → m' x = m x) (i j : Nat) :
    fileByte m' i j = fileByte m i j := by
  have hlow := hm.start
  obtain ⟨hstart, hvol⟩ := volumeAt_congr h hm
  unfold fileByte
  rw [hstart, hvol, clusterStart_congr hm h]
  exact h _ (by omega)

theorem OnVolume.congr (hf : OnVolume m i z) (hm : Mounted m) (h : ∀ x, fsBase ≤ x → m' x = m x) :
    OnVolume m' i z := by
  obtain ⟨hstart, hvol⟩ := volumeAt_congr h hm
  refine ⟨by rw [hvol]; exact hf.covers, fun k hk => ?_⟩
  rw [hvol] at hk ⊢
  rw [hstart, clusterStart_congr hm h]
  exact hf.mapped k hk

end Bytes

/-! ## An open descriptor, seen through its pointer -/

/-- Descriptor `desc` is open on the same file. -/
structure SameFile (s s' : Kernel) (desc : Nat) : Prop where
  fcb : s'.fileFcb desc = s.fileFcb desc
  size : s'.descSize desc = s.descSize desc
  cluster : s'.descCluster desc = s.descCluster desc

theorem SameFile.refl (s : Kernel) (desc : Nat) : SameFile s s desc := ⟨rfl, rfl, rfl⟩

theorem SameFile.trans {s s₁ s' : Kernel} {desc : Nat} (h : SameFile s s₁ desc)
    (h' : SameFile s₁ s' desc) : SameFile s s' desc :=
  ⟨h'.fcb.trans h.fcb, h'.size.trans h.size, h'.cluster.trans h.cluster⟩

section Pointers

variable {pool free : List Nat} {s s' : Kernel} {S : Handles} {d c : Nat}

theorem desc_fields (hm : MemOk K pool free s) (hd : d < descLimit) :
    s.filePosition (descPtr (v2p s.fileDescTable) (some d)) = s.descPos d ∧
      s.fileFcb (descPtr (v2p s.fileDescTable) (some d)) = s.descLink d := by
  have hp := hm.tablePages
  have hpos := (descField (o := 8) hp.desc hd (n := 4) (by omega) (by omega) s.ram).2
  have hlink := (descField (o := 0) hp.desc hd (n := 8) (by omega) (by omega) s.ram).2
  rw [Nat.add_zero, Nat.add_zero] at hlink
  unfold Kernel.filePosition Kernel.fileFcb descPosition descFcb
  rw [hpos, hlink]
  exact ⟨rfl, rfl⟩

theorem block_fields (hm : MemOk K pool free s) (hc : c < fcbLimit) :
    s.fcbFileSize (fcbPtr (v2p s.fcbTable) (some c)) = s.blockSize c ∧
      s.fcbCluster (fcbPtr (v2p s.fcbTable) (some c)) = s.blockCluster c := by
  have hp := hm.tablePages
  have hsize := (fcbField (o := 20) hp.fcb hc (n := 4) (by omega) (by omega) s.ram).2
  have hcluster := (fcbField (o := 12) hp.fcb hc (n := 4) (by omega) (by omega) s.ram).2
  unfold Kernel.fcbFileSize Kernel.fcbCluster Os64.fcbFileSize fcbClusterIndex
  rw [hsize, hcluster]
  exact ⟨rfl, rfl⟩

/-- An open descriptor that is not given up stays open on its file. -/
theorem Kept.sameFile {R : Nat → Prop} (h : Kept R s s') (hm : MemOk K pool free s)
    (hm' : MemOk K pool' free' s') (hf : FilesOk s S) (hd : d < descLimit)
    (hopen : s.fileFcb (descPtr (v2p s.fileDescTable) (some d)) ≠ 0)
    (hopen' : s'.fileFcb (descPtr (v2p s.fileDescTable) (some d)) ≠ 0) :
    SameFile s s' (descPtr (v2p s.fileDescTable) (some d)) ∧
      (¬ R d → s'.filePosition (descPtr (v2p s.fileDescTable) (some d)) =
        s.filePosition (descPtr (v2p s.fileDescTable) (some d))) := by
  obtain ⟨hpos, hlink⟩ := desc_fields hm hd
  obtain ⟨hpos', hlink'⟩ := desc_fields hm' hd
  rw [h.fileDescTable] at hpos' hlink'
  rw [hlink] at hopen
  rw [hlink'] at hopen'
  have hsame := (h.link d hd hopen).resolve_right hopen'
  -- the control block is in use
  have hobject := hf.descLink hd
  cases ho : S.object d with
  | none =>
      rw [ho] at hobject
      exact absurd hobject hopen
  | some c =>
      rw [ho] at hobject
      have hc := (hf.rep.objectLt d c ho).2
      have hcount : s.blockCount c ≠ 0 := by
        obtain ⟨h, hh⟩ := hf.ok.held_of_object ho
        rw [hf.blockCount hc]
        exact Nat.pos_iff_ne_zero.mp (hf.ok.objectCount_pos hh ho)
      obtain ⟨hsize, hcluster⟩ := h.file c hc hcount
      obtain ⟨hbs, hbc⟩ := block_fields hm hc
      obtain ⟨hbs', hbc'⟩ := block_fields hm' hc
      rw [h.fcbTable] at hbs' hbc'
      refine ⟨⟨by rw [hlink', hlink, hsame], ?_, ?_⟩, fun hno => ?_⟩
      · unfold Kernel.descSize
        rw [hlink', hlink, hsame, hobject, hbs', hbs, hsize]
      · unfold Kernel.descCluster
        rw [hlink', hlink, hsame, hobject, hbc', hbc, hcluster]
      · rw [hpos', hpos]
        exact h.position d hd hopen hno

theorem OpenDesc.fcb_ne (hm : MemOk K pool free s) {fd : Fin 100} (ho : OpenDesc s S fd d c) :
    s.fileFcb (s.desc fd) ≠ 0 := by
  have hpos := hm.tablePages.fcb.p2v_ne_zero
  rw [ho.fcb]
  unfold fcbPtr
  dsimp only
  omega

/-- Nothing changed in the tables. -/
theorem TablesSame.sameFile (h : TablesSame s s') (hm : MemOk K pool free s)
    (hm' : MemOk K pool' free' s') (hf : FilesOk s S) {fd : Fin 100} (ho : OpenDesc s S fd d c) :
    SameFile s s' (s.desc fd) ∧ s'.filePosition (s.desc fd) = s.filePosition (s.desc fd) := by
  have hopen := ho.fcb_ne hm
  rw [ho.desc] at hopen ⊢
  have hk : Kept (fun _ => False) s s' := h.settled.kept
  have hlink := (desc_fields hm' ho.descLt).2
  rw [h.fileDescTable, (h.desc ho.descLt).1, ← (desc_fields hm ho.descLt).2] at hlink
  obtain ⟨hsame, hpos⟩ := hk.sameFile hm hm' hf ho.descLt hopen (hlink.symm ▸ hopen)
  exact ⟨hsame, hpos id⟩

end Pointers

/-! ## read_raw_data -/

section Reads

variable {pool free : List Nat} {s : Kernel} {S : Handles} {page : Nat} {supplied : Bool}
  {fd : Fin 100} {d c i buffer position size : Nat}

/-- A read that the chain covers, into the user page. -/
theorem readRawData_run (supplied : Bool) (hsp : Space K s.ram.mem s.cr3 page) (hm : Mounted s.ram.mem)
    (hcs : (volumeAt s.ram.mem).clusterSize ≠ 0) (hfile : OnVolume s.ram.mem i (position + size))
    (h0 : 0 < size) (hsize : position + size + (volumeAt s.ram.mem).clusterSize ≤ 2 ^ 32)
    (hlow : 0x400000 ≤ buffer) (hend : buffer + size ≤ 0x600000) :
    ∃ s', readRawData K supplied i buffer position size s = .ok size s' ∧
      s' = { s with ram := { s.ram with mem := s'.ram.mem }, hist := s'.hist } ∧
      ∀ x, s'.ram.mem x =
        if page + (buffer - 0x400000) ≤ x ∧ x < page + (buffer - 0x400000) + size then
          fileByte s.ram.mem i (position + (x - (page + (buffer - 0x400000))))
        else s.ram.mem x := by
  have hi : i < 2 ^ 16 := by
    have := (hfile.covers 0 (by omega)).2
    rw [Volume.cluster_zero] at this
    omega
  have hbelow := hsp.pageValid.below
  have hstart := hm.start
  obtain ⟨cs, hplan, hslice⟩ := Volume.readRawData_slice (f := 2 ^ 32) (Nat.pos_of_ne_zero hcs) hsize
    h0 (by omega) hfile.covers
  have hrun : readRawData K supplied i buffer position size s = _ :=
    readRawData_plan hsp hm hcs hi (by omega) (by rw [kernelBase_eq]; omega)
  rw [hplan] at hrun
  generalize hb : page + (buffer - 0x400000) = base
  have hmove : moveCopies K supplied buffer (volumeStart s.ram.mem + kernelBase) cs s =
      .ok () (s.moved supplied buffer base (volumeStart s.ram.mem) cs) := moveCopies_run hsp
    (show base + 0x400000 = page + buffer by omega)
    (fun c hc => by have := hslice.inside c hc; omega) fun c hc j hj => by
      obtain ⟨k, hk, -, hsrc⟩ := hslice.source c hc
      have hat := (hfile.byteAt hcs (show position + k + j < position + size by omega)).1
      rw [hsrc j hj] at hat
      exact ⟨by omega, hat⟩
  refine ⟨_, hrun.trans (bind_run hmove), rfl, fun x => ?_⟩
  change copyAll base (volumeStart s.ram.mem) s.ram.mem cs x = _
  have hoff : ∀ j < size,
      volumeStart s.ram.mem + (volumeAt s.ram.mem).byteAt i (position + j) < base + 0 ∨
        base + 0 + size ≤ volumeStart s.ram.mem + (volumeAt s.ram.mem).byteAt i (position + j) := by
    intro j _
    rw [pageSize_eq] at hbelow
    unfold fsBase at hstart
    omega
  rw [hslice.copyAll hoff, Nat.add_zero]
  split
  · exact (hfile.byteAt hcs (by omega)).2
  · rfl

/-! ## read_file -/

/-- The byte that process `i` sees at `va`, an address of its user page. -/
def Kernel.userByte (s : Kernel) (i : Slot) (va : Nat) : UInt8 :=
  s.ram.mem (s.userPage i + (va - 0x400000))

/-- Stores to other pages leave it alone. -/
theorem MemOk.userByte_off {D : List Nat} {s s' : Kernel} (hm : MemOk K pool free s)
    (hs : Still D s s') {i : Slot} (hl : s.Live i) (hD : ∀ p ∈ D, s.Data p) (hoff : s.userPage i ∉ D)
    {va : Nat} (hva : InUser va) : s'.userByte i va = s.userByte i va := by
  unfold Kernel.userByte
  rw [(hm.still hs hD).userPage i hl]
  refine hs.mem.page (q := s.userPage i) (hm.validOf (MemOk.userPage_mem (l := free) hl)).aligned
    hoff (fun p hp => (hm.data (hD p hp)).1.aligned) ⟨by omega, ?_⟩
  have := hva.2
  rw [pageSize_eq]
  omega

/-- From `s` to `s'` the current process read `size` bytes through `desc`: they are in its buffer,
    the position is after them, and nothing else changed in memory. -/
structure SliceRead (s : Kernel) (desc buffer size : Nat) (s' : Kernel) : Prop where
  same : s' = { s with ram := { s.ram with mem := s'.ram.mem }, hist := s'.hist }
  bytes : ∀ k < size, s'.userByte s.pc.currentProcess (buffer + k) =
    fileByte s.ram.mem (s.descCluster desc) (s.filePosition desc + k)
  position : s'.filePosition desc = s.filePosition desc + size
  rest : ∀ x, (x < s.userPage s.pc.currentProcess + (buffer - 0x400000) ∨
      s.userPage s.pc.currentProcess + (buffer - 0x400000) + size ≤ x) →
    (x < v2p (descPosition desc) ∨ v2p (descPosition desc) + 4 ≤ x) → s'.ram.mem x = s.ram.mem x

variable (K supplied s i buffer position size) in
/-- `read_raw_data` puts these bytes of the file in the buffer. -/
def DataComes : Prop :=
  ∃ s', readRawData K supplied i buffer position size s = .ok size s' ∧
    s' = { s with ram := { s.ram with mem := s'.ram.mem }, hist := s'.hist } ∧
    ∀ x, s'.ram.mem x =
      if s.userPage s.pc.currentProcess + (buffer - 0x400000) ≤ x ∧
          x < s.userPage s.pc.currentProcess + (buffer - 0x400000) + size then
        fileByte s.ram.mem i
          (position + (x - (s.userPage s.pc.currentProcess + (buffer - 0x400000))))
      else s.ram.mem x

/-- A read inside the file, when the data comes. -/
theorem readFile_data (hm : MemOk K pool free s) (hf : FilesOk s S)
    (hl : s.Live s.pc.currentProcess) (ho : OpenDesc s S fd d c)
    (hlt : s.filePosition (s.desc fd) + size < 2 ^ 32)
    (hfit : s.filePosition (s.desc fd) + size ≤ s.descSize (s.desc fd))
    (hlow : 0x400000 ≤ buffer) (hend : buffer + size ≤ 0x600000)
    (hread : DataComes K s supplied (s.descCluster (s.desc fd)) buffer
      (s.filePosition (s.desc fd)) size) :
    ∃ s', readFile K supplied s.pc.currentProcess fd.val buffer size s = .ok size s' ∧
      FilesOk s' S ∧ Pokes [s.userPage s.pc.currentProcess, v2p s.fileDescTable] InUser s s' ∧
      SliceRead s (s.desc fd) buffer size s' := by
  have hp := hm.tablePages
  have hsum : u32 (s.filePosition (s.desc fd) + size) = s.filePosition (s.desc fd) + size :=
    Nat.mod_eq_of_lt hlt
  obtain ⟨s₁, hread, hsame, hmem⟩ := hread
  -- where the position lies
  have hdend := desc_end (v2p s.fileDescTable) ho.descLt
  have hphys := (ho.positionAt hm).1
  obtain ⟨hal, hoff⟩ := hm.userPage_off_tables hl
  have happart : ∀ x, InPage (s.userPage s.pc.currentProcess) x → ¬ InPage (v2p s.fileDescTable) x := by
    intro x hx' hx
    refine hoff ?_
    rw [inPage_inj hal hp.desc.aligned hx' hx]
    exact List.mem_cons_of_mem _ List.mem_cons_self
  have hat : ∀ x, v2p s.fileDescTable ≤ x → x < v2p s.fileDescTable + pageSize →
      s₁.ram.mem x = s.ram.mem x := by
    intro x h1 h2
    rw [hmem, if_neg fun hx => happart x ⟨by omega, by rw [pageSize_eq]; omega⟩ ⟨h1, h2⟩]
  have hpos : ∀ x, ¬ InPage (v2p s.fileDescTable) x →
      x < v2p s.fileDescTable + fileDescSize * d + 8 ∨
        v2p s.fileDescTable + fileDescSize * d + 8 + 4 ≤ x := by
    intro x hx
    unfold InPage at hx
    unfold fileDescSize at hdend ⊢
    omega
  have hload : load s₁.ram.mem (v2p s.fileDescTable + fileDescSize * d + 8) 4 =
      s.filePosition (s.desc fd) := by
    unfold Kernel.filePosition
    rw [hphys]
    unfold fileDescSize at hdend ⊢
    exact load_congr fun x h1 h2 => hat x (by omega) (by omega)
  have hadd : addField (descPosition (s.desc fd)) (size : Nat) s₁.ram = .ok () { s₁.ram with
      mem := store s₁.ram.mem (v2p s.fileDescTable + fileDescSize * d + 8) 4
        (s.filePosition (s.desc fd) + size) } := by
    have hval : (((s.filePosition (s.desc fd) : Nat) : Int) + (size : Nat)) % 2 ^ 32 =
        ((s.filePosition (s.desc fd) + size : Nat) : Int) := by omega
    have h := ho.move_run hm size s₁.ram
    rw [hload, hval, Int.toNat_natCast] at h
    exact h
  generalize hstore : store s₁.ram.mem (v2p s.fileDescTable + fileDescSize * d + 8) 4
    (s.filePosition (s.desc fd) + size) = m₂ at hadd
  have hself : load m₂ (v2p s.fileDescTable + fileDescSize * d + 8) 4 =
      s.filePosition (s.desc fd) + size := by
    rw [← hstore, load_store_self]
    exact Nat.mod_eq_of_lt (by omega)
  have hother : ∀ x, (x < v2p s.fileDescTable + fileDescSize * d + 8 ∨
      v2p s.fileDescTable + fileDescSize * d + 8 + 4 ≤ x) → m₂ x = s₁.ram.mem x := by
    intro x hx
    rw [← hstore]
    exact store_of_outside s₁.ram.mem _ 4 _ hx
  have hrun : readFile K supplied s.pc.currentProcess fd.val buffer size s =
      .ok (i32 size) { s₁ with ram := { s₁.ram with mem := m₂ } } := by
    rw [readFile_eq hm ho, if_neg (by omega), bind_run hread, bind_run (ram_run hadd)]
    rfl
  rw [i32_small (by omega)] at hrun
  have hinto : Into supplied buffer size := ⟨by omega, fun _ => ⟨hlow, hend⟩⟩
  obtain ⟨hf', hpokes⟩ := (readFile_ends hf hm hl (by omega) fun _ => Or.inr hinto).ok hrun
  have huser := (hm.still hpokes.still fun p hpm => ?_).userPage _ hl
  swap
  · rcases List.mem_cons.mp hpm with he | hpm
    · exact Or.inr (Or.inr ⟨_, hl, Or.inr he⟩)
    · exact Kernel.tablePages_data (List.mem_cons_of_mem _ hpm)
  refine ⟨_, hrun, hf', hpokes, ⟨by rw [hsame], fun k hk => ?_, ?_, fun x hx hx' => ?_⟩⟩
  · have hin : InPage (s.userPage s.pc.currentProcess)
        (s.userPage s.pc.currentProcess + (buffer + k - 0x400000)) :=
      ⟨by omega, by rw [pageSize_eq]; omega⟩
    have hout := happart _ hin
    unfold Kernel.userByte
    rw [huser]
    refine (hother _ (hpos _ hout)).trans ?_
    rw [hmem, if_pos (by omega)]
    exact congrArg (fileByte _ _) (by omega)
  · change load m₂ (v2p (descPosition (s.desc fd))) 4 = _
    rw [hphys]
    exact hself
  · rw [hphys] at hx'
    refine (hother x hx').trans ?_
    rw [hmem, if_neg (by omega)]

/-- A read inside the file. -/
theorem readFile_slice (supplied : Bool) (hm : MemOk K pool free s) (hf : FilesOk s S)
    (hl : s.Live s.pc.currentProcess) (ho : OpenDesc s S fd d c) (hv : Mounted s.ram.mem)
    (hcs : (volumeAt s.ram.mem).clusterSize ≠ 0)
    (hfile : OnVolume s.ram.mem (s.descCluster (s.desc fd)) (s.descSize (s.desc fd)))
    (hz : s.descSize (s.desc fd) + (volumeAt s.ram.mem).clusterSize ≤ 2 ^ 32) (h0 : 0 < size)
    (hfit : s.filePosition (s.desc fd) + size ≤ s.descSize (s.desc fd))
    (hlow : 0x400000 ≤ buffer) (hend : buffer + size ≤ 0x600000) :
    ∃ s', readFile K supplied s.pc.currentProcess fd.val buffer size s = .ok size s' ∧
      FilesOk s' S ∧ Pokes [s.userPage s.pc.currentProcess, v2p s.fileDescTable] InUser s s' ∧
      SliceRead s (s.desc fd) buffer size s' := by
  have hcs0 := Nat.pos_of_ne_zero hcs
  exact readFile_data hm hf hl ho (by omega) hfit hlow hend
    (readRawData_run supplied (hm.currentSpace hl) hv hcs (hfile.mono hfit) h0 (by omega) hlow hend)

/-- The rest of the user page is as before. -/
theorem SliceRead.userByte {s' : Kernel} (h : SliceRead s (s.desc fd) buffer size s')
    (hm : MemOk K pool free s) (hl : s.Live s.pc.currentProcess) (ho : OpenDesc s S fd d c)
    (hp : Pokes [s.userPage s.pc.currentProcess, v2p s.fileDescTable] InUser s s') {va : Nat}
    (hva : InUser va) (hlow : 0x400000 ≤ buffer) (hout : va < buffer ∨ buffer + size ≤ va) :
    s'.userByte s.pc.currentProcess va = s.userByte s.pc.currentProcess va := by
  have huser := (hm.still hp.still fun p hpm => ?_).userPage _ hl
  swap
  · rcases List.mem_cons.mp hpm with he | hpm
    · exact Or.inr (Or.inr ⟨_, hl, Or.inr he⟩)
    · exact Kernel.tablePages_data (List.mem_cons_of_mem _ hpm)
  obtain ⟨hal, hoff⟩ := hm.userPage_off_tables hl
  have hdend := desc_end (v2p s.fileDescTable) ho.descLt
  have hphys := (ho.positionAt hm).1
  obtain ⟨h1, h2⟩ := hva
  unfold Kernel.userByte
  rw [huser]
  refine h.rest _ (by omega) ?_
  rw [hphys]
  by_contra hin
  refine hoff ?_
  have huserPage : InPage (s.userPage s.pc.currentProcess)
      (s.userPage s.pc.currentProcess + (va - 0x400000)) := ⟨by omega, by rw [pageSize_eq]; omega⟩
  have htable : InPage (v2p s.fileDescTable) (s.userPage s.pc.currentProcess + (va - 0x400000)) := by
    unfold fileDescSize at hdend hin
    exact ⟨by omega, by omega⟩
  rw [inPage_inj hal hm.tablePages.desc.aligned huserPage htable]
  exact List.mem_cons_of_mem _ List.mem_cons_self

/-- Whatever it reads, `read_file` moves its descriptor only. -/
theorem readFile_settled {s' : Kernel} (hm : MemOk K pool free s) (hf : FilesOk s S)
    (hl : s.Live s.pc.currentProcess) {fd : Int} (hs : size < 2 ^ 32)
    (hin : readFits s.pc.currentProcess fd size s = .ok true s → size = 0 ∨ Into supplied buffer size)
    {v : Int} (hrun : readFile K supplied s.pc.currentProcess fd buffer size s = .ok v s') :
    ∃ n d c, fd = (n : Fin 100).val ∧ OpenDesc s S n d c ∧ Settled (fun d' => d' = d) s s' := by
  have hp := hm.tablePages
  obtain ⟨n, rfl, hopen⟩ := readFile_opened hrun
  obtain ⟨d, c, ho⟩ := hf.openDesc hm hopen
  refine ⟨n, d, c, rfl, ho, ?_⟩
  rw [readFile_eq hm ho] at hrun
  split at hrun
  · obtain ⟨-, rfl⟩ := EStateM.Result.ok.inj hrun
    exact (TablesSame.refl _).settled
  · rename_i hfit
    have hfits : readFits s.pc.currentProcess n.val size s = .ok true s := by
      rw [readFits_eq hm ho, decide_eq_true hfit]
    obtain ⟨r, s₁, hread, hrun⟩ := bind_ok.mp hrun
    have hpokes : Pokes [s.userPage s.pc.currentProcess] InUser s s₁ := by
      rcases hin hfits with rfl | hin
      · rw [(readRawData_zero _ _ _ _ s).ok hread]
        exact .refl _ _ _
      · exact (readRawData_ends (hm.currentSpace hl) hin hs).ok hread
    have hF : s₁.fcbTable = s.fcbTable := by rw [hpokes.same]
    have hD : s₁.fileDescTable = s.fileDescTable := by rw [hpokes.same]
    have hsame : TablesSame s s₁ := hm.tablesSame hF hD hpokes.wrote.mem fun p hpm => by
      rw [List.mem_singleton.mp hpm]
      exact ⟨hm.validOf (MemOk.userPage_mem (l := free) hl), (hm.userPage_off_tables hl).2⟩
    rw [bind_run (ram_run (ho.move_run hm r s₁.ram))] at hrun
    obtain ⟨-, rfl⟩ := EStateM.Result.ok.inj hrun
    rw [← hF, ← hD] at hp
    rw [← hD]
    exact hsame.settled.trans (settled_position hp ho.descLt _)

end Reads

end Os64
