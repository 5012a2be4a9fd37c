/-
  read_file on an open descriptor.

  `s.filePosition desc` and `s.fcbFileSize fcb` are what `desc->position` and
  `fcb->file_size` say in `s`, and so on.

  * `readFile_eq`: what is left of `read_file` for a descriptor that is open.
  * `readRawData_stream`: the bytes it stores through the buffer lie among the first ones of
    the buffer, and are at most as many as it was asked for.
  * `readFile_bounded`, `ReadBounded.no_wrap`: it respects the end of the file when
    `position + size` does not wrap, and then only.
-/
import Os64.Files.Transfer

namespace Os64

open Os64.Lib

variable {K : Image}

/-! ## The fields -/

/-- `proc->file[fd]` of the current process. -/
def Kernel.desc (s : Kernel) (fd : Fin 100) : Nat := (s.processTable s.pc.currentProcess).file fd

def Kernel.filePosition (s : Kernel) (desc : Nat) : Nat := load s.ram.mem (v2p (descPosition desc)) 4

def Kernel.fileFcb (s : Kernel) (desc : Nat) : Nat := load s.ram.mem (v2p (descFcb desc)) 8

def Kernel.fcbFileSize (s : Kernel) (fcb : Nat) : Nat := load s.ram.mem (v2p (Os64.fcbFileSize fcb)) 4

def Kernel.fcbCluster (s : Kernel) (fcb : Nat) : Nat := load s.ram.mem (v2p (fcbClusterIndex fcb)) 4

/-- The size of the file behind a descriptor, and its first cluster. -/
def Kernel.descSize (s : Kernel) (desc : Nat) : Nat := s.fcbFileSize (s.fileFcb desc)

def Kernel.descCluster (s : Kernel) (desc : Nat) : Nat := s.fcbCluster (s.fileFcb desc)

/-- An open descriptor of the current process: where it and its control block lie. -/
structure OpenDesc (s : Kernel) (S : Handles) (fd : Fin 100) (d c : Nat) : Prop where
  held : S.held (s.pc.currentProcess, fd) = some d
  object : S.object d = some c
  desc : s.desc fd = descPtr (v2p s.fileDescTable) (some d)
  fcb : s.fileFcb (s.desc fd) = fcbPtr (v2p s.fcbTable) (some c)
  descLt : d < descLimit
  fcbLt : c < fcbLimit

section Reading

variable {pool free : List Nat} {s s' : Kernel} {S : Handles} {supplied : Bool} {fd : Fin 100}
  {d c : Nat} {buffer size : Nat}

/-- A field of a descriptor. -/
theorem descField {p : Nat} (hp : ValidPage K p) (hd : d < descLimit) {o n : Nat}
    (ho : o + n ≤ 16) (hn : 0 < n) (r : Ram) :
    kload (descPtr p (some d) + o) n r =
        .ok (load r.mem (p + fileDescSize * d + o) n) r ∧
      v2p (descPtr p (some d) + o) = p + fileDescSize * d + o := by
  have hend := desc_end p hd
  have hv : descPtr p (some d) + o = p + fileDescSize * d + o + kernelBase := by
    unfold descPtr
    dsimp only
    rw [hp.p2v_eq]
    omega
  have hle : p + fileDescSize * d + o + n ≤ p + pageSize := by
    unfold fileDescSize at hend ⊢
    omega
  exact ⟨kload_page hp hle hn hv r, hp.v2p_at (by omega) hv⟩

/-- A field of a control block. -/
theorem fcbField {p : Nat} (hp : ValidPage K p) (hc : c < fcbLimit) {o n : Nat}
    (ho : o + n ≤ 28) (hn : 0 < n) (r : Ram) :
    kload (fcbPtr p (some c) + o) n r =
        .ok (load r.mem (p + fcbSize * c + o) n) r ∧
      v2p (fcbPtr p (some c) + o) = p + fcbSize * c + o := by
  have hend := fcb_end p hc
  have hv : fcbPtr p (some c) + o = p + fcbSize * c + o + kernelBase := by
    unfold fcbPtr
    dsimp only
    rw [hp.p2v_eq]
    omega
  have hle : p + fcbSize * c + o + n ≤ p + pageSize := by
    unfold fcbSize at hend ⊢
    omega
  exact ⟨kload_page hp hle hn hv r, hp.v2p_at (by omega) hv⟩

/-- What is open is in the tables. -/
theorem FilesOk.openDesc (h : FilesOk s S) (hm : MemOk K pool free s) (hfd : s.desc fd ≠ 0) :
    ∃ d c, OpenDesc s S fd d c := by
  have hp := hm.tablePages
  rcases h.rep.pointer h.ok hp s.pc.currentProcess fd with ⟨hz, -⟩ | ⟨d, c, hptr, hheld, hobj, hd, hc, -⟩
  · exact absurd hz hfd
  · refine ⟨d, c, hheld, hobj, hptr, ?_, hd, hc⟩
    have hphys := (descField (o := 0) hp.desc hd (n := 8) (by omega) (by omega) s.ram).2
    rw [Nat.add_zero, Nat.add_zero] at hphys
    have hobject := h.rep.object d hd
    rw [hobj] at hobject
    unfold Kernel.fileFcb descFcb
    rw [show s.desc fd = descPtr (v2p s.fileDescTable) (some d) from hptr, hphys, hobject]

/-- The loads of `read_file` and of the other calls on an open descriptor. -/
theorem OpenDesc.loads (hm : MemOk K pool free s) (ho : OpenDesc s S fd d c) :
    fileAt s.pc.currentProcess fd.val s = .ok (s.desc fd) s ∧
      kload (descPosition (s.desc fd)) 4 s.ram = .ok (s.filePosition (s.desc fd)) s.ram ∧
      kload (descFcb (s.desc fd)) 8 s.ram = .ok (s.fileFcb (s.desc fd)) s.ram ∧
      kload (Os64.fcbFileSize (s.fileFcb (s.desc fd))) 4 s.ram = .ok (s.descSize (s.desc fd)) s.ram ∧
      kload (fcbClusterIndex (s.fileFcb (s.desc fd))) 4 s.ram =
        .ok (s.descCluster (s.desc fd)) s.ram := by
  have hp := hm.tablePages
  refine ⟨?_, ?_, ?_, ?_, ?_⟩
  · unfold fileAt
    rw [bind_run (get_run s), dif_pos ⟨by omega, by have := fd.isLt; omega⟩]
    rfl
  · have h := descField (o := 8) hp.desc ho.descLt (n := 4) (by omega) (by omega) s.ram
    unfold Kernel.filePosition descPosition
    rw [ho.desc, h.2]
    exact h.1
  · have h := descField (o := 0) hp.desc ho.descLt (n := 8) (by omega) (by omega) s.ram
    rw [Nat.add_zero] at h
    unfold Kernel.fileFcb descFcb
    rw [ho.desc, h.2]
    exact h.1
  · have h := fcbField (o := 20) hp.fcb ho.fcbLt (n := 4) (by omega) (by omega) s.ram
    unfold Kernel.descSize Kernel.fcbFileSize Os64.fcbFileSize
    rw [ho.fcb, h.2]
    exact h.1
  · have h := fcbField (o := 12) hp.fcb ho.fcbLt (n := 4) (by omega) (by omega) s.ram
    unfold Kernel.descCluster Kernel.fcbCluster fcbClusterIndex
    rw [ho.fcb, h.2]
    exact h.1

/-- `read_file` after its loads. -/
theorem readFile_eq (hm : MemOk K pool free s) (ho : OpenDesc s S fd d c) :
    readFile K supplied s.pc.currentProcess fd.val buffer size s =
      if s.descSize (s.desc fd) < u32 (s.filePosition (s.desc fd) + size) then .ok (-1) s
      else (do
        let readSize ← readRawData K supplied (s.descCluster (s.desc fd)) buffer
          (s.filePosition (s.desc fd)) size
        ram (addField (descPosition (s.desc fd)) readSize)
        return i32 readSize : LowM Int) s := by
  obtain ⟨hat, hload, hfcb, hsize, hcluster⟩ := ho.loads hm
  unfold readFile
  rw [bind_run hat, bind_run (ram_run hload), bind_run (ram_run hfcb), bind_run (ram_run hsize)]
  split
  · rfl
  · rw [bind_run (ram_run hcluster)]

/-- Its check. -/
theorem readFits_eq (hm : MemOk K pool free s) (ho : OpenDesc s S fd d c) :
    readFits s.pc.currentProcess fd.val size s =
      .ok (¬ s.descSize (s.desc fd) < u32 (s.filePosition (s.desc fd) + size)) s := by
  obtain ⟨hat, hload, hfcb, hsize, -⟩ := ho.loads hm
  unfold readFits
  rw [bind_run hat, bind_run (ram_run hload), bind_run (ram_run hfcb), bind_run (ram_run hsize)]
  rfl

/-- Where the position of an open descriptor lies. -/
theorem OpenDesc.positionAt (hm : MemOk K pool free s) (ho : OpenDesc s S fd d c) :
    v2p (descPosition (s.desc fd)) = v2p s.fileDescTable + fileDescSize * d + 8 ∧
      descPosition (s.desc fd) = v2p s.fileDescTable + fileDescSize * d + 8 + kernelBase := by
  have hdesc := hm.tablePages.desc
  unfold descPosition
  rw [ho.desc]
  refine ⟨(descField (o := 8) hdesc ho.descLt (n := 4) (by omega) (by omega) s.ram).2, ?_⟩
  unfold descPtr
  dsimp only
  rw [hdesc.p2v_eq]
  omega

/-- Adding to the position of an open descriptor. -/
theorem OpenDesc.move_run (hm : MemOk K pool free s) (ho : OpenDesc s S fd d c) (δ : Int) (r : Ram) :
    addField (descPosition (s.desc fd)) δ r = .ok () { r with
      mem := store r.mem (v2p s.fileDescTable + fileDescSize * d + 8) 4
        ((load r.mem (v2p s.fileDescTable + fileDescSize * d + 8) 4 + δ : Int) % 2 ^ 32).toNat } := by
  have hend := desc_end (v2p s.fileDescTable) ho.descLt
  exact addField_run hm.tablePages.desc (by unfold fileDescSize at hend ⊢; omega)
    (ho.positionAt hm).2 δ r

end Reading

/-! ## Descriptor numbers -/

/-- `fd` names an open descriptor of process `i`. -/
def Kernel.Opened (s : Kernel) (i : Slot) (fd : Int) : Prop :=
  ∃ n : Fin 100, fd = n.val ∧ (s.processTable i).file n ≠ 0

/-- A load at a small offset from the null pointer. -/
theorem kload_low {v n : Nat} (hv : v < kernelBase) {r r' : Ram} {x : Nat} :
    kload v n r ≠ .ok x r' := by
  intro h
  obtain ⟨_, _, hptr, -⟩ := bind_ok.mp h
  exact absurd (ensure_ok.mp hptr).1.1 (by omega)

/-- What is at `proc->file[fd]` is either an open descriptor's pointer or not there at all. -/
theorem fileAt_opened {s s' : Kernel} {i : Slot} {fd : Int} {desc : Nat}
    (h : fileAt i fd s = .ok desc s') : s' = s ∧ (desc = 0 ∨ s.Opened i fd) := by
  unfold fileAt at h
  rw [bind_run (get_run s)] at h
  split at h
  · rename_i hfd
    obtain ⟨rfl, rfl⟩ := EStateM.Result.ok.inj h
    refine ⟨rfl, ?_⟩
    by_cases h0 : (s.processTable i).file ⟨fd.toNat, by omega⟩ = 0
    · exact Or.inl h0
    · exact Or.inr ⟨⟨fd.toNat, by omega⟩, (Int.toNat_of_nonneg hfd.1).symm, h0⟩
  · cases h

/-- A program that begins with a load from the descriptor ends well only on an open one. -/
theorem fileAt_load_ok {α : Type} {s s' : Kernel} {i : Slot} {fd : Int} (field : Nat → Nat) {n : Nat}
    {g : Nat → Nat → LowM α} {v : α} (hfield : field 0 < kernelBase)
    (h : (do
      let desc ← fileAt i fd
      let x ← ram (kload (field desc) n)
      g desc x : LowM α) s = .ok v s') : s.Opened i fd := by
  obtain ⟨desc, s₁, hat, hrest⟩ := bind_ok.mp h
  obtain ⟨rfl, h0 | hopen⟩ := fileAt_opened hat
  · obtain ⟨x, s₂, hload, -⟩ := bind_ok.mp hrest
    obtain ⟨r, hload, -⟩ := onPart_ok.mp hload
    rw [h0] at hload
    exact absurd hload (kload_low hfield)
  · exact hopen

theorem closeFile_opened {s s' : Kernel} {i : Slot} {fd : Int} {u : Unit}
    (h : closeFile i fd s = .ok u s') : s.Opened i fd :=
  fileAt_load_ok descFcb (by decide) h

theorem getFileSize_opened {s s' : Kernel} {i : Slot} {fd : Int} {n : Nat}
    (h : getFileSize i fd s = .ok n s') : s.Opened i fd :=
  fileAt_load_ok descFcb (by decide) h

theorem readFile_opened {s s' : Kernel} {supplied : Bool} {i : Slot} {fd : Int} {buffer size : Nat}
    {v : Int} (h : readFile K supplied i fd buffer size s = .ok v s') : s.Opened i fd :=
  fileAt_load_ok descPosition (by decide) h

/-! ## What is stored -/

section Stream

variable {s s' s₁ : Kernel} {page : Nat}

/-- From `s` to `s'` `x` bytes were stored through a pointer that a user program supplied,
    all of them among the `n` bytes from `dst` on. -/
def Streams (dst n x : Nat) (s s' : Kernel) : Prop :=
  ∃ os, s'.hist = s.hist ++ os ∧ os.length = x ∧ ∀ o ∈ os, ∃ k < n, o = .stored (u64 (dst + k))

/-- No more than the `n` bytes from `dst` on were stored. -/
def Streamed (dst n : Nat) (s s' : Kernel) : Prop := ∃ x ≤ n, Streams dst n x s s'

theorem Streams.of_hist {dst n : Nat} (h : s'.hist = s.hist) : Streams dst n 0 s s' :=
  ⟨[], by rw [h, List.append_nil], rfl, nofun⟩

theorem Streams.trans {dst n x y : Nat} (h : Streams dst n x s s₁) (h' : Streams dst n y s₁ s') :
    Streams dst n (x + y) s s' := by
  obtain ⟨os, ho, rfl, hos⟩ := h
  obtain ⟨os', ho', rfl, hos'⟩ := h'
  refine ⟨os ++ os', by rw [ho', ho, List.append_assoc], List.length_append, fun o hm => ?_⟩
  rcases List.mem_append.mp hm with hm | hm
  · exact hos o hm
  · exact hos' o hm

theorem Streams.mono {dst m n x : Nat} (h : Streams dst m x s s') (hle : m ≤ n) :
    Streams dst n x s s' := by
  obtain ⟨os, ho, hx, hos⟩ := h
  refine ⟨os, ho, hx, fun o hm => ?_⟩
  obtain ⟨k, hk, he⟩ := hos o hm
  exact ⟨k, hk.trans_le hle, he⟩

/-- Bytes of the rest of the buffer. -/
theorem Streams.shift {dst m n x : Nat} (h : Streams (u64 (dst + m)) (n - m) x s s') :
    Streams dst n x s s' := by
  obtain ⟨os, ho, hx, hos⟩ := h
  refine ⟨os, ho, hx, fun o hm => ?_⟩
  obtain ⟨k, hk, he⟩ := hos o hm
  refine ⟨m + k, by omega, ?_⟩
  rw [he]
  unfold u64
  rw [Nat.mod_add_mod, Nat.add_assoc]

theorem Streamed.refl (dst n : Nat) (s : Kernel) : Streamed dst n s s :=
  ⟨0, Nat.zero_le n, .of_hist rfl⟩

theorem Streamed.mono {dst m n : Nat} (h : Streamed dst m s s') (hle : m ≤ n) : Streamed dst n s s' := by
  obtain ⟨x, hx, h⟩ := h
  exact ⟨x, hx.trans hle, h.mono hle⟩

/-- Some of the bytes that follow the first `m`. -/
theorem Streamed.after {dst m n : Nat} (hm : m ≤ n) (h₁ : Streams dst m m s s₁)
    (h : Streamed (u64 (dst + m)) (n - m) s₁ s') : Streamed dst n s s' := by
  obtain ⟨x, hx, h⟩ := h
  exact ⟨m + x, by omega, (h₁.mono hm).trans h.shift⟩

theorem storeVirt_hist (va : Nat) (b : UInt8) (s : Kernel) :
    Ends (storeVirt K va b) s (fun _ s' => s'.hist = s.hist) fun _ s' => s'.hist = s.hist := by
  unfold storeVirt
  rw [ends_bind, ends_get]
  split
  · exact ends_bind.mpr (ends_ensure.mpr ⟨fun _ => ends_set.mpr rfl, fun _ => rfl⟩)
  · exact ends_throw.mpr rfl

/-- A copy stores each byte of its destination, whichever way it goes. -/
theorem memcpyVirt_stream (dst src n : Nat) :
    Ends (memcpyVirt K true dst src n) s (fun _ s' => Streams dst n n s s')
      fun _ s' => Streamed dst n s s' := by
  unfold memcpyVirt
  generalize horder : (if dst ≤ src ∨ u64 (src + n) ≤ dst then List.range n
    else (List.range n).reverse) = order
  have hlt : ∀ k ∈ order, k < n := by
    intro k hk
    rw [← horder] at hk
    split at hk
    · exact List.mem_range.mp hk
    · exact List.mem_range.mp (List.mem_reverse.mp hk)
  have hlen : order.length = n := by
    rw [← horder]
    split
    · exact List.length_range
    · rw [List.length_reverse, List.length_range]
  refine (ends_forM (fun l s' => (∀ k ∈ l, k < n) ∧ ∃ x, x + l.length = n ∧ Streams dst n x s s') ?_
    order s ⟨hlt, 0, by rw [hlen, Nat.zero_add], .of_hist rfl⟩).mono (fun _ s' hI => ?_) fun _ _ he => he
  · rintro k l s₁ ⟨hlt, x, hx, h₁⟩
    rw [List.length_cons] at hx
    refine (reads_loadVirt _).then (fun b _ => ?_) fun _ _ => ⟨x, by omega, h₁⟩
    rw [if_pos rfl, ends_bind]
    refine ends_of_run (observe_run _ s₁) ?_
    have hone : ∀ {s₂ : Kernel}, s₂.hist = s₁.hist ++ [.stored (u64 (dst + k))] →
        Streams dst n (x + 1) s s₂ := fun h₂ =>
      h₁.trans ⟨_, h₂, rfl, fun o ho => ⟨k, hlt k List.mem_cons_self, List.mem_singleton.mp ho⟩⟩
    refine (storeVirt_hist _ b _).mono (fun _ s₂ h₂ => ?_) fun _ s₂ h₂ => ⟨x + 1, by omega, hone h₂⟩
    exact ⟨fun k' hk' => hlt k' (List.mem_cons_of_mem k hk'), x + 1, by omega, hone h₂⟩
  · obtain ⟨-, x, hx, h⟩ := hI
    obtain rfl : x = n := hx
    exact h

/-! ## Something is stored -/

/-- At least one byte, if the count went up. -/
def Grew (v r : Nat) (s s' : Kernel) : Prop :=
  s.hist.length ≤ s'.hist.length ∧ (v ≠ r → s.hist.length < s'.hist.length)

theorem Streams.length {dst n x : Nat} (h : Streams dst n x s s') :
    s'.hist.length = s.hist.length + x := by
  obtain ⟨os, ho, hx, -⟩ := h
  rw [ho, List.length_append, hx]

theorem readClusters_grew {bpb clusterSize size : Nat} (hc : 0 < clusterSize) :
    ∀ (fuel index buffer readSize : Nat) {s : Kernel},
    Ends (readClusters K true bpb clusterSize size fuel index buffer readSize) s
      (fun v s' => Grew v readSize s s') fun _ _ => True := by
  intro fuel
  induction fuel with
  | zero => exact fun _ _ _ _ => ends_throw.mpr trivial
  | succ fuel ih =>
      intro index buffer readSize s
      unfold readClusters
      rw [ends_ite]
      refine ⟨fun hgo => ?_, fun _ => ends_pure.mpr ⟨Nat.le_refl _, fun h => absurd rfl h⟩⟩
      refine (reads_ram (reads_getClusterOffset index)).then (fun offset _ => ?_) fun _ _ => trivial
      rw [ends_ite]
      constructor
      · intro _
        refine (memcpyVirt_stream _ _ _).bind (fun _ s₁ h₁ => ends_pure.mpr ?_) fun _ _ _ => trivial
        have := h₁.length
        exact ⟨by omega, fun _ => by omega⟩
      · intro _
        refine (memcpyVirt_stream _ _ _).bind (fun _ s₁ h₁ => ?_) fun _ _ _ => trivial
        refine (reads_ram (reads_getClusterValue index)).then (fun index' _ => ?_) fun _ _ => trivial
        have := h₁.length
        refine (ih index' _ _).mono (fun v s₂ h₂ => ?_) fun _ _ _ => trivial
        have := h₂.1
        exact ⟨by omega, fun _ => by omega⟩

/-- `read_raw_data` counts no byte that it has not stored. -/
theorem readRawData_grew (cluster buffer position size : Nat) :
    Ends (readRawData K true cluster buffer position size) s (fun v s' => Grew v 0 s s')
      fun _ _ => True := by
  unfold readRawData
  refine (reads_ram reads_getClusterSize).then (fun cs _ => ?_) fun _ _ => trivial
  refine (reads_ensure _ _).then (fun _ hne => ?_) fun _ _ => trivial
  have hcs : 0 < cs := Nat.pos_of_ne_zero (ensure_ok.mp hne).1
  refine (reads_ram (reads_skipClusters _ _)).then (fun index _ => ?_) fun _ _ => trivial
  refine (reads_ram reads_getFsBpb).then (fun bpb _ => ?_) fun _ _ => trivial
  rw [ends_ite]
  refine ⟨fun _ => ?_, fun _ => readClusters_grew hcs _ _ _ _⟩
  refine (reads_ram (reads_getClusterOffset index)).then (fun start _ => ?_) fun _ _ => trivial
  refine (memcpyVirt_stream _ _ _).bind (fun _ s₁ h₁ => ?_) fun _ _ _ => trivial
  refine (reads_ram (reads_getClusterValue index)).then (fun index' _ => ?_) fun _ _ => trivial
  refine (readClusters_grew hcs _ _ _ _).mono (fun v s₂ h₂ => ?_) fun _ _ _ => trivial
  have hlen := h₁.length
  obtain ⟨hle, hgrew⟩ := h₂
  refine ⟨by omega, fun hv => ?_⟩
  rcases Nat.eq_zero_or_pos (if u32 (position % cs + size) ≤ cs then size else cs - position % cs) with
    h0 | hpos
  · rw [h0] at hgrew
    exact (by omega : s.hist.length ≤ s₁.hist.length).trans_lt (hgrew hv)
  · omega

/-! ## No more than was asked for -/

theorem getClusterOffset_lt {i v : Nat} {r r' : Ram} (h : getClusterOffset i r = .ok v r') :
    v < 2 ^ 32 := by
  obtain ⟨_, _, -, h⟩ := bind_ok.mp h
  obtain ⟨_, _, -, h⟩ := bind_ok.mp h
  obtain ⟨_, _, -, h⟩ := bind_ok.mp h
  obtain ⟨_, _, -, h⟩ := bind_ok.mp h
  obtain ⟨_, _, -, h⟩ := bind_ok.mp h
  obtain ⟨_, _, -, h⟩ := bind_ok.mp h
  obtain ⟨_, _, -, h⟩ := bind_ok.mp h
  obtain ⟨_, _, -, h⟩ := bind_ok.mp h
  obtain rfl := (EStateM.Result.ok.inj h).1
  exact Nat.mod_lt _ (by decide)

/-- A place in the volume lies above the lower half of the address space. -/
theorem above_low {bpb o buffer : Nat} (hb : kernelBase ≤ bpb) (hb' : bpb < kernelBase + 2 ^ 32)
    (ho : o < 2 ^ 33) (hbuf : buffer < kernelBase) : buffer ≤ u64 (bpb + o) := by
  unfold u64
  rw [kernelBase_eq] at hb hb' hbuf
  omega

/-- The `readSize` bytes from `start` on are mapped, and the buffer comes after them. -/
structure MappedTo (K : Image) (page start buffer readSize : Nat) (s : Kernel) : Prop where
  space : Space K s.ram.mem s.cr3 page
  buffer : u64 buffer = u64 (start + readSize)
  mapped : ∀ k < readSize, spaceTarget page (u64 (start + k)) ≠ none

namespace MappedTo

variable {start buffer readSize n : Nat}

theorem zero (h : Space K s.ram.mem s.cr3 page) (buffer : Nat) : MappedTo K page buffer buffer 0 s :=
  ⟨h, rfl, nofun⟩

/-- The address of a byte that comes next. -/
theorem address (h : MappedTo K page start buffer readSize s) (k : Nat) :
    u64 (buffer + k) = u64 (start + (readSize + k)) := by
  have hb := h.buffer
  unfold u64 at hb ⊢
  omega

/-- After a copy. -/
theorem copied (h : MappedTo K page start buffer readSize s) (hl : Landed K page buffer n s s') :
    MappedTo K page start (u64 (buffer + n)) (readSize + n) s' := by
  refine ⟨hl.space, ?_, fun k hk => ?_⟩
  · rw [h.address]
    exact Nat.mod_mod _ _
  · by_cases hlt : k < readSize
    · exact h.mapped k hlt
    · have := hl.mapped (k - readSize) (by omega)
      rwa [h.address, Nat.add_sub_cancel' (by omega)] at this

/-- The sum in the loop's condition does not wrap: there is not so much mapped memory. -/
theorem sum (h : MappedTo K page start buffer readSize s) {clusterSize : Nat}
    (hc : clusterSize < 2 ^ 24) : u32 (readSize + clusterSize) = readSize + clusterSize := by
  have := mapped_le h.mapped
  exact Nat.mod_eq_of_lt (by omega)

end MappedTo

/-- The loop over the clusters. -/
theorem readClusters_stream {bpb clusterSize size start : Nat} (hc : clusterSize < 2 ^ 24) :
    ∀ (fuel index buffer readSize : Nat) {s : Kernel}, MappedTo K page start buffer readSize s →
    readSize ≤ size →
    Ends (readClusters K true bpb clusterSize size fuel index buffer readSize) s
      (fun _ s' => Streamed buffer (size - readSize) s s')
      fun _ s' => Streamed buffer (size - readSize) s s' := by
  intro fuel
  induction fuel with
  | zero => exact fun _ _ _ s _ _ => ends_throw.mpr (.refl _ _ _)
  | succ fuel ih =>
      intro index buffer readSize s hmap hr
      unfold readClusters
      rw [ends_ite]
      refine ⟨fun hgo => ?_, fun _ => ends_pure.mpr (.refl _ _ _)⟩
      refine (reads_ram (reads_getClusterOffset index)).then (fun offset _ => ?_)
        fun _ _ => .refl _ _ _
      rw [hmap.sum hc, ends_ite]
      constructor
      · intro _
        refine (memcpyVirt_stream _ _ _).bind (fun _ s₁ h₁ => ?_) fun _ _ he => he
        exact ends_pure.mpr ⟨_, Nat.le_refl _, h₁⟩
      · intro hmore
        refine ((memcpyVirt_stream _ _ _).and (memcpyVirt_into hmap.space true _ _ _)).bind
          (fun _ s₁ hcopy => ?_) fun _ _ he => he.1.mono (by omega)
        obtain ⟨h₁, hland⟩ := hcopy
        refine (reads_ram (reads_getClusterValue index)).then (fun index' _ => ?_)
          fun _ _ => ⟨clusterSize, by omega, h₁.mono (by omega)⟩
        refine (ih index' _ _ (hmap.copied hland) (by omega)).mono (fun _ _ h => ?_) fun _ _ h => ?_
        · exact Streamed.after (by omega) h₁ (h.mono (by omega))
        · exact Streamed.after (by omega) h₁ (h.mono (by omega))

/-- `read_raw_data` stores no more than it was asked for. -/
theorem readRawData_stream {cluster buffer position size : Nat}
    (hsp : Space K s.ram.mem s.cr3 page) (hsize : position + size < 2 ^ 32) :
    Ends (readRawData K true cluster buffer position size) s (fun _ s' => Streamed buffer size s s')
      fun _ s' => Streamed buffer size s s' := by
  unfold readRawData
  refine (reads_ram reads_getClusterSize).then (fun cs hcs => ?_) fun _ _ => .refl _ _ _
  obtain ⟨r₀, hcs, -⟩ := onPart_ok.mp hcs
  have hc := getClusterSize_lt hcs
  refine (reads_ensure _ _).then (fun _ hne => ?_) fun _ _ => .refl _ _ _
  have hne := (ensure_ok.mp hne).1
  refine (reads_ram (reads_skipClusters _ _)).then (fun index _ => ?_) fun _ _ => .refl _ _ _
  refine (reads_ram reads_getFsBpb).then (fun bpb _ => ?_) fun _ _ => .refl _ _ _
  rw [ends_ite]
  refine ⟨fun _ => ?_, fun _ => readClusters_stream hc _ index buffer 0 (.zero hsp _) (Nat.zero_le _)⟩
  have hmod := Nat.mod_lt position (Nat.pos_of_ne_zero hne)
  have hle := Nat.mod_le position cs
  have hsum : u32 (position % cs + size) = position % cs + size := Nat.mod_eq_of_lt (by omega)
  rw [hsum]
  generalize hn : (if position % cs + size ≤ cs then size else cs - position % cs) = n
  have hns : n ≤ size := by split at hn <;> omega
  refine (reads_ram (reads_getClusterOffset index)).then (fun start _ => ?_) fun _ _ => .refl _ _ _
  refine ((memcpyVirt_stream _ _ _).and (memcpyVirt_into hsp true _ _ _)).bind
    (fun _ s₁ ⟨h₁, hland⟩ => ?_) fun _ _ he => he.1.mono hns
  refine (reads_ram (reads_getClusterValue index)).then (fun index' _ => ?_)
    fun _ _ => ⟨n, hns, h₁.mono hns⟩
  have hmap := (MappedTo.zero hsp buffer).copied hland
  rw [Nat.zero_add] at hmap
  exact (readClusters_stream hc _ index' _ _ hmap hns).mono
    (fun _ _ h => h.after hns h₁) fun _ _ h => h.after hns h₁

/-- A loop that returns has filled the user page at most. -/
theorem readClusters_room {supplied : Bool} {bpb clusterSize size page : Nat}
    (hpos : 0 < clusterSize) (hc : clusterSize < 2 ^ 24) (hsize : size < 2 ^ 32)
    (hbpb : kernelBase ≤ bpb) (hbpb' : bpb < kernelBase + 2 ^ 32) :
    ∀ (fuel index r : Nat) {s s' : Kernel} {v : Nat}, Space K s.ram.mem s.cr3 page → r ≤ pageSize →
      readClusters K supplied bpb clusterSize size fuel index (0x400000 + r) r s = .ok v s' →
        v ≤ pageSize := by
  rw [pageSize_eq]
  intro fuel
  induction fuel with
  | zero => exact fun _ _ _ _ _ _ _ h => nomatch h
  | succ fuel ih =>
      intro index r s s' v hsp hr hrun
      unfold readClusters at hrun
      split at hrun
      · rename_i hgo
        obtain ⟨offset, s₁, hoff, hcopies⟩ := bind_ok.mp hrun
        obtain rfl := (reads_ram (reads_getClusterOffset index)).ok hoff
        obtain ⟨r₀, hoffset, -⟩ := onPart_ok.mp hoff
        have hlt := getClusterOffset_lt hoffset
        have hbuf : 0x400000 + r < kernelBase := by
          rw [kernelBase_eq]
          omega
        have hsrc := above_low hbpb hbpb' (show offset < 2 ^ 33 by omega) hbuf
        split at hcopies
        · obtain ⟨_, s₂, hcopy, hlast⟩ := bind_ok.mp hcopies
          obtain ⟨rfl, -⟩ := EStateM.Result.ok.inj hlast
          obtain ⟨hend, -⟩ := memcpyVirt_fits hsp hbuf hsrc (by omega) (by omega) hcopy
          omega
        · obtain ⟨_, s₂, hcopy, hrest⟩ := bind_ok.mp hcopies
          obtain ⟨hend, hpokes⟩ := memcpyVirt_fits hsp hbuf hsrc hpos (by omega) hcopy
          obtain ⟨index', s₃, hnext, hloop⟩ := bind_ok.mp hrest
          obtain rfl := (reads_ram (reads_getClusterValue index)).ok hnext
          have hbuf' : u64 (0x400000 + r + clusterSize) = 0x400000 + (r + clusterSize) := by
            unfold u64
            omega
          have hsum : u32 (r + clusterSize) = r + clusterSize := Nat.mod_eq_of_lt (by omega)
          rw [hbuf', hsum] at hloop
          exact ih index' _ (hpokes.space hsp) (by omega) hloop
      · obtain ⟨rfl, -⟩ := EStateM.Result.ok.inj hrun
        exact hr

/-- So has a read from the start of a file. -/
theorem readRawData_room {supplied : Bool} {cluster size page v : Nat}
    (hsp : Space K s.ram.mem s.cr3 page) (hm : Mounted s.ram.mem) (hsize : size < 2 ^ 32)
    (hrun : readRawData K supplied cluster 0x400000 0 size s = .ok v s') :
    (volumeAt s.ram.mem).clusterSize ≠ 0 ∧ v ≤ pageSize := by
  have hv := volumeStart_lt s.ram.mem
  unfold readRawData at hrun
  rw [bind_run (ram_run (getClusterSize_run hm))] at hrun
  obtain ⟨_, s₁, hensure, hloop⟩ := bind_ok.mp hrun
  obtain ⟨hne, rfl⟩ := ensure_ok.mp hensure
  refine ⟨hne, ?_⟩
  dsimp only at hloop
  rw [Nat.zero_div, Nat.zero_mod, bind_run (ram_run (show skipClusters 0 cluster s.ram = _ from rfl)),
    bind_run (ram_run (getFsBpb_run s.ram)), if_neg (fun h => h rfl)] at hloop
  exact readClusters_room (Nat.pos_of_ne_zero hne) (clusterSize_lt _) hsize (by omega) (by omega) _ _ 0
    hsp (Nat.zero_le _) hloop

end Stream

/-! ## The bounds of a read -/

section Bounds

variable {pool free : List Nat} {s : Kernel} {S : Handles} {fd : Fin 100} {buffer size : Nat}

/-- `read_file` refuses a request that goes past the end of the file, as a whole, and no
    other; of any other it stores no more than is left of the file. -/
structure ReadBounded (K : Image) (s : Kernel) (fd : Fin 100) (buffer size : Nat) : Prop where
  refuses : (∃ s', readFile K true s.pc.currentProcess fd.val buffer size s = .ok (-1) s' ∧
      s'.hist = s.hist ∧ s'.filePosition (s.desc fd) = s.filePosition (s.desc fd)) ↔
    s.descSize (s.desc fd) < s.filePosition (s.desc fd) + size
  within : s.filePosition (s.desc fd) + size ≤ s.descSize (s.desc fd) →
    Ends (readFile K true s.pc.currentProcess fd.val buffer size) s
      (fun _ s' => Streamed buffer (s.descSize (s.desc fd) - s.filePosition (s.desc fd)) s s')
      fun _ s' => Streamed buffer (s.descSize (s.desc fd) - s.filePosition (s.desc fd)) s s'

theorem addField_hist (field : Nat) (d : Int) (s : Kernel) :
    Ends (ram (addField field d)) s (fun _ s' => s'.hist = s.hist) fun _ s' => s'.hist = s.hist :=
  ends_onPart.mpr ⟨fun _ => rfl, fun _ => rfl⟩

/-- A read that goes on past the check does not refuse without having stored a byte. -/
theorem readFile_accepts {d c : Nat} (hm : MemOk K pool free s) (ho : OpenDesc s S fd d c)
    (h : u32 (s.filePosition (s.desc fd) + size) ≤ s.descSize (s.desc fd)) {s' : Kernel}
    (hrun : readFile K true s.pc.currentProcess fd.val buffer size s = .ok (-1) s') :
    s'.hist ≠ s.hist := by
  intro hh
  rw [readFile_eq hm ho, if_neg (by omega)] at hrun
  obtain ⟨v, s₁, hread, hrun⟩ := bind_ok.mp hrun
  obtain ⟨u, s₂, hadd, hrun⟩ := bind_ok.mp hrun
  obtain ⟨hv, rfl⟩ := EStateM.Result.ok.inj hrun
  have hgrew := (readRawData_grew _ _ _ _).ok hread
  have hsame := (addField_hist _ _ _).ok hadd
  by_cases h0 : v = 0
  · rw [h0] at hv
    exact absurd hv (by decide)
  · have := hgrew.2 h0
    rw [← hsame, hh] at this
    omega

/-- A sum that wraps is let through. -/
theorem ReadBounded.no_wrap (hm : MemOk K pool free s) (hf : FilesOk s S) (hfd : s.desc fd ≠ 0)
    (hpos : s.filePosition (s.desc fd) ≤ s.descSize (s.desc fd)) (hsize : size < 2 ^ 32)
    (h : ReadBounded K s fd buffer size) : s.filePosition (s.desc fd) + size < 2 ^ 32 := by
  obtain ⟨d, c, ho⟩ := hf.openDesc hm hfd
  have hz : s.descSize (s.desc fd) < 2 ^ 32 := load_lt _ _ _
  by_contra hwrap
  obtain ⟨s', hrun, hh, -⟩ := h.refuses.mpr (by omega)
  have hsum : u32 (s.filePosition (s.desc fd) + size) ≤ s.descSize (s.desc fd) := by
    unfold u32
    omega
  exact readFile_accepts hm ho hsum hrun hh

/-- Without a wrap, the check is the one on unbounded integers. -/
theorem readFile_bounded (hm : MemOk K pool free s) (hf : FilesOk s S)
    (hl : s.Live s.pc.currentProcess) (hfd : s.desc fd ≠ 0)
    (hlt : s.filePosition (s.desc fd) + size < 2 ^ 32) : ReadBounded K s fd buffer size := by
  obtain ⟨d, c, ho⟩ := hf.openDesc hm hfd
  have hsum : u32 (s.filePosition (s.desc fd) + size) = s.filePosition (s.desc fd) + size :=
    Nat.mod_eq_of_lt hlt
  refine ⟨⟨?_, fun hgt => ⟨s, ?_, rfl, rfl⟩⟩, fun hle => ?_⟩
  · rintro ⟨s', hrun, hh, -⟩
    by_contra hle
    exact readFile_accepts hm ho (by omega) hrun hh
  · rw [readFile_eq hm ho, if_pos (by omega)]
  · rw [ends_congr ((readFile_eq hm ho).trans (if_neg (by omega)))]
    refine (readRawData_stream (hm.currentSpace hl) hlt).bind (fun v s₁ h₁ => ?_) fun _ _ he => he.mono (by omega)
    obtain ⟨x, hx, os, ho, hlen, hos⟩ := h₁.mono (show size ≤ s.descSize (s.desc fd) -
      s.filePosition (s.desc fd) by omega)
    refine (addField_hist _ _ s₁).bind (fun _ s₂ h₂ => ends_pure.mpr ?_) fun _ s₂ h₂ => ?_
    · exact ⟨x, hx, os, h₂.trans ho, hlen, hos⟩
    · exact ⟨x, hx, os, h₂.trans ho, hlen, hos⟩

end Bounds

/-! ## Reads of nothing -/

section Nothing

variable {s : Kernel} {supplied : Bool} {buffer : Nat}

/-- Where no byte is asked for at the start of a file, nothing is looked up. -/
theorem readRawData_none (hm : Mounted s.ram.mem) (hcs : (volumeAt s.ram.mem).clusterSize ≠ 0)
    (cluster : Nat) : readRawData K supplied cluster buffer 0 0 s = .ok 0 s := by
  unfold readRawData
  rw [bind_run (ram_run (getClusterSize_run hm)), bind_run (ensure_run hcs _ _)]
  dsimp only
  rw [Nat.zero_div, Nat.zero_mod, bind_run (ram_run (show skipClusters 0 cluster s.ram = _ from rfl)),
    bind_run (ram_run (getFsBpb_run s.ram)), if_neg (by simp),
    show (2 : Nat) ^ 32 = (2 ^ 32 - 1) + 1 by omega]
  unfold readClusters
  rw [if_neg (by simp)]
  rfl

end Nothing

end Os64
