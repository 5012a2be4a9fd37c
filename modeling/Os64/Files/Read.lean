/-
  read_file and read_root_directory: where the copied bytes go.

  A transfer to the lower half of the address space changes the caller's user page
  only. `Into supplied buffer size` says which transfers do: those of `exec`, to
  `0x400000`, and those whose whole destination a user program may name. Then
  `readFile_ends` and `readRootDirectory_ends` bound what the two functions write.
-/
import Os64.Files.Open
import Os64.Mem.Virtual

namespace Os64

open Os64.Lib

variable {K : Image}

/-- The `size` bytes from `buffer` on lie in the user page. -/
def InsideUser (buffer size : Nat) : Prop :=
  size = 0 ∨ 0x400000 ≤ buffer ∧ buffer + size ≤ 0x600000

instance (buffer size : Nat) : Decidable (InsideUser buffer size) := inferInstanceAs (Decidable (_ ∨ _))

/-- A destination at the start of the user page or, when a user program supplied it,
    inside the user page as a whole. -/
structure Into (supplied : Bool) (buffer size : Nat) : Prop where
  low : buffer ≤ 0x600000
  inside : supplied = true → 0x400000 ≤ buffer ∧ buffer + size ≤ 0x600000

theorem Into.inUser {supplied : Bool} {buffer size n : Nat} (h : Into supplied buffer size)
    (hn : n ≤ size) : supplied = true → ∀ k < n, InUser (buffer + k) := by
  intro hs k hk
  obtain ⟨h1, h2⟩ := h.2 hs
  unfold InUser
  omega

/-- The rest of a transfer, after `n` bytes that the user page took. -/
theorem Into.rest {supplied : Bool} {buffer size n : Nat} (h : Into supplied buffer size)
    (hn : ∀ k < n, InUser (buffer + k)) (hle : supplied = true → n ≤ size) :
    Into supplied (buffer + n) (size - n) := by
  have h0 := h.1
  refine ⟨?_, fun hs => ?_⟩
  · by_cases hz : n = 0
    · omega
    · have hlast := (hn (n - 1) (by omega)).2
      omega
  · obtain ⟨h1, h2⟩ := h.2 hs
    have := hle hs
    omega

section Transfers

variable {s : Kernel} {page : Nat}

theorem getClusterSize_lt {r r' : Ram} {v : Nat} (h : getClusterSize r = .ok v r') : v < 2 ^ 24 := by
  obtain ⟨p, r₁, -, h⟩ := bind_ok.mp h
  obtain ⟨bytes, r₂, hb, h⟩ := bind_ok.mp h
  obtain ⟨sectors, r₃, hs, h⟩ := bind_ok.mp h
  obtain rfl := (EStateM.Result.ok.inj h).1
  have h1 := kload_lt hb
  have h2 := kload_lt hs
  have : bytes * sectors < 256 ^ 2 * 256 ^ 1 := Nat.mul_lt_mul'' h1 h2
  unfold u32
  omega

/-- The loop over the clusters. -/
theorem readClusters_ends {supplied : Bool} {bpb clusterSize size : Nat} (hc : clusterSize < 2 ^ 24)
    (hs : size < 2 ^ 32) : ∀ (fuel index buffer readSize : Nat) {s : Kernel},
    Space K s.ram.mem s.cr3 page → Into supplied buffer (size - readSize) →
    (supplied = true → size ≤ pageSize) →
    Ends (readClusters K supplied bpb clusterSize size fuel index buffer readSize) s
      (fun _ s' => Pokes [page] InUser s s') fun _ s' => Pokes [page] InUser s s' := by
  intro fuel
  induction fuel with
  | zero => exact fun _ _ _ s _ _ _ => ends_throw.mpr (.refl _ _ _)
  | succ fuel ih =>
      intro index buffer readSize s hsp hin hle
      have hbuf := hin.1
      unfold readClusters
      rw [ends_ite]
      refine ⟨fun hgo => ?_, fun _ => ends_pure.mpr (.refl _ _ _)⟩
      refine (reads_ram (reads_getClusterOffset index)).then (fun offset _ => ?_)
        fun _ _ => .refl _ _ _
      rw [ends_ite]
      constructor
      · intro _
        refine (memcpyVirt_ends hsp (by omega) (hin.inUser (Nat.le_refl _))).bind (fun _ s₁ h₁ => ?_)
          fun _ _ he => he
        exact ends_pure.mpr h₁.1
      · intro hmore
        have hchunk : supplied = true → clusterSize ≤ size - readSize := by
          intro hsup
          have := hle hsup
          rw [pageSize_eq] at this
          unfold u32 at hmore
          omega
        have hA : supplied = true → ∀ k < clusterSize, InUser (buffer + k) := fun hsup =>
          hin.inUser (hchunk hsup) hsup
        refine (memcpyVirt_ends hsp (by omega) hA).bind (fun _ s₁ h₁ => ?_) fun _ _ he => he
        refine (reads_ram (reads_getClusterValue index)).then (fun index' _ => ?_) fun _ _ => h₁.1
        have hrest := hin.rest (fun k hk => (h₁.2 k hk).1) hchunk
        have hbuf' : u64 (buffer + clusterSize) = buffer + clusterSize :=
          Nat.mod_eq_of_lt (by omega)
        have hsize : supplied = true → size - u32 (readSize + clusterSize) ≤
            size - readSize - clusterSize := by
          intro hsup
          have := hle hsup
          rw [pageSize_eq] at this
          have := hchunk hsup
          unfold u32
          omega
        rw [hbuf']
        have hinto : Into supplied (buffer + clusterSize) (size - u32 (readSize + clusterSize)) := by
          refine ⟨hrest.1, fun hsup => ?_⟩
          obtain ⟨h1, h2⟩ := hrest.2 hsup
          have := hsize hsup
          exact ⟨h1, by omega⟩
        exact (ih index' _ _ (h₁.1.space hsp) hinto hle).mono (fun _ _ h₂ => h₁.1.trans h₂)
          fun _ _ h₂ => h₁.1.trans h₂

theorem readRawData_ends {supplied : Bool} {cluster buffer position size : Nat}
    (hsp : Space K s.ram.mem s.cr3 page) (hin : Into supplied buffer size) (hs : size < 2 ^ 32) :
    Ends (readRawData K supplied cluster buffer position size) s
      (fun _ s' => Pokes [page] InUser s s') fun _ s' => Pokes [page] InUser s s' := by
  have hle : supplied = true → size ≤ pageSize := by
    intro hsup
    obtain ⟨h1, h2⟩ := hin.2 hsup
    rw [pageSize_eq]
    omega
  have hbuf := hin.1
  unfold readRawData
  refine (reads_ram reads_getClusterSize).then (fun cs hcs => ?_) fun _ _ => .refl _ _ _
  obtain ⟨r₀, hcs, -⟩ := onPart_ok.mp hcs
  have hc := getClusterSize_lt hcs
  refine (reads_ensure _ _).then (fun _ hne => ?_) fun _ _ => .refl _ _ _
  have hne := (ensure_ok.mp hne).1
  refine (reads_ram (reads_skipClusters _ _)).then (fun index _ => ?_) fun _ _ => .refl _ _ _
  refine (reads_ram reads_getFsBpb).then (fun bpb _ => ?_) fun _ _ => .refl _ _ _
  rw [ends_ite]
  constructor
  · intro _
    have hoff : position % cs < cs := Nat.mod_lt _ (by omega)
    -- the part of the first cluster
    have hfirst : ∀ n, n = (if u32 (position % cs + size) ≤ cs then size else cs - position % cs) →
        n < 2 ^ 32 ∧ (supplied = true → n ≤ size) := by
      intro n hn
      refine ⟨by split at hn <;> omega, fun hsup => ?_⟩
      have := hle hsup
      rw [pageSize_eq] at this
      unfold u32 at hn
      split at hn <;> omega
    generalize hread : (if u32 (position % cs + size) ≤ cs then size else cs - position % cs) = n
    obtain ⟨hn, hns⟩ := hfirst n hread.symm
    refine (reads_ram (reads_getClusterOffset index)).then (fun start _ => ?_) fun _ _ => .refl _ _ _
    have hA : supplied = true → ∀ k < n, InUser (buffer + k) := fun hsup =>
      hin.inUser (hns hsup) hsup
    refine (memcpyVirt_ends hsp (by omega) hA).bind (fun _ s₁ h₁ => ?_) fun _ _ he => he
    refine (reads_ram (reads_getClusterValue index)).then (fun index' _ => ?_) fun _ _ => h₁.1
    have hbuf' : u64 (buffer + n) = buffer + n := Nat.mod_eq_of_lt (by omega)
    rw [hbuf']
    exact (readClusters_ends hc hs _ index' _ _ (h₁.1.space hsp)
      (hin.rest (fun k hk => (h₁.2 k hk).1) hns) hle).mono
      (fun _ _ h₂ => h₁.1.trans h₂) fun _ _ h₂ => h₁.1.trans h₂
  · intro _
    exact readClusters_ends hc hs _ index buffer 0 hsp hin hle

/-- A transfer of no bytes writes nothing, wherever it is to go. -/
theorem readRawData_zero (supplied : Bool) (cluster buffer position : Nat) (s : Kernel) :
    Ends (readRawData K supplied cluster buffer position 0) s (fun _ s' => s' = s)
      fun _ s' => s' = s := by
  have hloop : ∀ (bpb cs index buffer : Nat) (s : Kernel), Ends
      (readClusters K supplied bpb cs 0 (2 ^ 32) index buffer 0) s (fun _ s' => s' = s)
      fun _ s' => s' = s := by
    intro bpb cs index buffer s
    rw [show (2 : Nat) ^ 32 = (2 ^ 32 - 1) + 1 by omega]
    unfold readClusters
    rw [if_neg fun hn => absurd hn.1 (Nat.lt_irrefl 0)]
    exact ends_pure.mpr rfl
  unfold readRawData
  refine (reads_ram reads_getClusterSize).then (fun cs _ => ?_) fun _ _ => rfl
  refine (reads_ensure _ _).then (fun _ hne => ?_) fun _ _ => rfl
  have hne := (ensure_ok.mp hne).1
  refine (reads_ram (reads_skipClusters _ _)).then (fun index _ => ?_) fun _ _ => rfl
  refine (reads_ram reads_getFsBpb).then (fun bpb _ => ?_) fun _ _ => rfl
  have hoff : u32 (position % cs + 0) ≤ cs := by
    have := Nat.mod_lt position (Nat.pos_of_ne_zero hne)
    have := Nat.mod_le (position % cs + 0) (2 ^ 32)
    unfold u32
    omega
  rw [ends_ite, if_pos hoff]
  refine ⟨fun _ => ?_, fun _ => hloop _ _ _ _ s⟩
  refine (reads_ram (reads_getClusterOffset index)).then (fun start _ => ?_) fun _ _ => rfl
  rw [ends_bind]
  refine ends_of_run (memcpyVirt_zero _ _ _ s) ?_
  refine (reads_ram (reads_getClusterValue index)).then (fun index' _ => ?_) fun _ _ => rfl
  exact hloop _ _ _ _ s

end Transfers

/-! ## read_file -/

/-- The size check of `read_file`: false when it refuses the call. -/
def readFits (proc : Slot) (fd : Int) (size : Nat) : LowM Bool := do
  let desc ← fileAt proc fd
  let position ← ram (kload (descPosition desc) 4)
  let fcb ← ram (kload (descFcb desc) 8)
  let fileSize ← ram (kload (fcbFileSize fcb) 4)
  return ¬ fileSize < u32 (position + size)

section Files

variable {pool free : List Nat} {s s' : Kernel} {S : Handles}

/-- Stores to the pages in use for data, with the tables as they are. -/
theorem Pokes.still {P : List Nat} {A : Nat → Prop} (h : Pokes P A s s') : Still P s s' := by
  refine ⟨by rw [h.same], by rw [h.same], fun i => ?_, fun i => ?_, fun i => ?_, fun i => ?_,
    h.wrote.freeMemory, h.wrote.mem, fun hl => ?_⟩
  · unfold Kernel.Live
    rw [h.files]
  · rw [h.files]
  · rw [h.files]
  · rw [h.files]
  · unfold Loaded Kernel.current at *
    rw [h.same]
    exact hl

/-- The space of the current process is in CR3. -/
theorem MemOk.currentSpace (h : MemOk K pool free s) (hl : s.Live s.pc.currentProcess) :
    Space K s.ram.mem s.cr3 (s.userPage s.pc.currentProcess) := by
  have hsp := (h.process _ hl).space
  rw [h.loaded.1]
  exact hsp

theorem MemOk.userPage_off_tables (h : MemOk K pool free s) {i : Slot} (hl : s.Live i) :
    s.userPage i % pageSize = 0 ∧ s.userPage i ∉ s.tablePages := by
  have hm := MemOk.userPage_mem (l := free) hl
  refine ⟨(h.validOf hm).aligned, fun hin => ?_⟩
  rcases List.mem_cons.mp hin with he | he
  · exact h.apart (o := .process i) (u := .fcbTable) nofun hm (List.mem_singleton.mpr he)
  · exact h.apart (o := .process i) (u := .fileDescTable) nofun hm he

/-- `read_file` for the current process writes its user page and the descriptor's
    position. -/
theorem readFile_ends (h : FilesOk s S) (hm : MemOk K pool free s)
    (hl : s.Live s.pc.currentProcess) {supplied : Bool} {fd : Int} {buffer size : Nat}
    (hs : size < 2 ^ 32)
    (hin : readFits s.pc.currentProcess fd size s = .ok true s → size = 0 ∨ Into supplied buffer size) :
    Ends (readFile K supplied s.pc.currentProcess fd buffer size) s
      (fun _ s' => FilesOk s' S ∧
        Pokes [s.userPage s.pc.currentProcess, v2p s.fileDescTable] InUser s s')
      fun _ s' => FilesOk s' S ∧
        Pokes [s.userPage s.pc.currentProcess, v2p s.fileDescTable] InUser s s' := by
  have hp := hm.tablePages
  have hrefl : FilesOk s S ∧
      Pokes [s.userPage s.pc.currentProcess, v2p s.fileDescTable] InUser s s := ⟨h, .refl _ _ _⟩
  unfold readFile
  refine (reads_fileAt _ _).then (fun desc hdesc => ?_) fun _ _ => hrefl
  refine (reads_ram (reads_kload _ _)).then (fun position hpos => ?_) fun _ _ => hrefl
  refine (reads_ram (reads_kload _ _)).then (fun fcb hfcb => ?_) fun _ _ => hrefl
  refine (reads_ram (reads_kload _ _)).then (fun fileSize hsize => ?_) fun _ _ => hrefl
  rw [ends_ite]
  refine ⟨fun _ => ends_pure.mpr hrefl, fun hfit => ?_⟩
  have hfits : readFits s.pc.currentProcess fd size s = .ok true s := by
    unfold readFits
    rw [bind_run hdesc, bind_run hpos, bind_run hfcb, bind_run hsize]
    have : decide (¬ fileSize < u32 (position + size)) = true := decide_eq_true hfit
    rw [this]
    rfl
  refine (reads_ram (reads_kload _ _)).then (fun cluster _ => ?_) fun _ _ => hrefl
  -- the transfer
  have hraw : Ends (readRawData K supplied cluster buffer position size) s
      (fun _ s' => Pokes [s.userPage s.pc.currentProcess] InUser s s')
      fun _ s' => Pokes [s.userPage s.pc.currentProcess] InUser s s' := by
    rcases hin hfits with rfl | hin
    · exact (readRawData_zero _ _ _ _ s).mono (fun _ _ he => he ▸ .refl _ _ _)
        fun _ _ he => he ▸ .refl _ _ _
    · exact readRawData_ends (hm.currentSpace hl) hin hs
  have hkeep : ∀ {s₁ : Kernel}, Pokes [s.userPage s.pc.currentProcess] InUser s s₁ →
      FilesOk s₁ S ∧
        Pokes [s.userPage s.pc.currentProcess, v2p s.fileDescTable] InUser s s₁ := by
    intro s₁ h₁
    refine ⟨h.off hm h₁.still (by unfold Kernel.files; rw [h₁.files]) fun p hpm => ?_,
      h₁.mono (fun p hpm => ?_) fun _ hva => hva⟩
    · rw [List.mem_singleton.mp hpm]
      exact hm.userPage_off_tables hl
    · rw [List.mem_singleton.mp hpm]
      exact List.mem_cons_self
  refine hraw.bind (fun n s₁ h₁ => ?_) fun _ _ he => hkeep he
  obtain ⟨hf₁, hk₁⟩ := hkeep h₁
  -- the position
  have hdesc' : ∃ n : Fin 100, desc = s.files s.pc.currentProcess n := by
    unfold fileAt at hdesc
    obtain ⟨_, _, hget, hd⟩ := bind_ok.mp hdesc
    obtain ⟨rfl, rfl⟩ := EStateM.Result.ok.inj hget
    split at hd
    · exact ⟨_, (EStateM.Result.ok.inj hd).1.symm⟩
    · cases hd
  obtain ⟨m, rfl⟩ := hdesc'
  rcases h.rep.pointer h.ok hp s.pc.currentProcess m with ⟨hz, -⟩ | ⟨d, c, hptr, -, -, hd, -, -⟩
  · -- the null pointer was not readable
    rw [hz] at hpos
    obtain ⟨r, hpos, -⟩ := onPart_ok.mp hpos
    obtain ⟨_, _, hens, -⟩ := bind_ok.mp hpos
    exact absurd (ensure_ok.mp hens).1 (by decide)
  · have hend := desc_end (v2p s.fileDescTable) hd
    have hat : v2p s.fileDescTable + fileDescSize * d + 8 + 4 ≤ v2p s.fileDescTable + pageSize := by
      unfold fileDescSize at *
      omega
    have hadd := addField_run hp.desc (a := v2p s.fileDescTable + fileDescSize * d + 8) hat
      (v := descPosition (s.files s.pc.currentProcess m)) (by
        rw [hptr]
        unfold descPosition descPtr
        dsimp only
        rw [hp.desc.p2v_eq]
        omega) n s₁.ram
    have hw := wrote_store (p := v2p s.fileDescTable) s₁.ram
      ((load s₁.ram.mem (v2p s.fileDescTable + fileDescSize * d + 8) 4 + (n : Int)) % 2 ^ 32).toNat
      (by omega) hat
    rw [ends_bind]
    refine ends_of_run (ram_run hadd) (ends_pure.mpr ⟨?_, hk₁.trans ((pokes_ram InUser hw).mono
      (fun p hpm => List.mem_cons_of_mem _ hpm) fun _ hva => hva)⟩)
    refine .of_tables (s := s) (by rw [← hk₁.still.fcbTable]) (by rw [← hk₁.still.fileDescTable]) ?_
      hf₁.ok hf₁.blank
    have hrep := hf₁.rep
    rw [hk₁.still.fcbTable, hk₁.still.fileDescTable] at hrep
    exact hrep.setPosition hp hd _

/-- `read_root_directory` for the current process writes its user page. -/
theorem readRootDirectory_ends (hm : MemOk K pool free s) (hl : s.Live s.pc.currentProcess)
    {buffer : Nat} (hin : ∀ count, getRootDirectoryCount s.ram = .ok count s.ram →
      InsideUser buffer (count * dirEntrySize)) :
    Ends (readRootDirectory K buffer) s
      (fun _ s' => Pokes [s.userPage s.pc.currentProcess] InUser s s')
      fun _ s' => Pokes [s.userPage s.pc.currentProcess] InUser s s' := by
  unfold readRootDirectory
  refine (reads_ram reads_getRootDirectory).then (fun dir _ => ?_) fun _ _ => .refl _ _ _
  refine (reads_ram reads_getRootDirectoryCount).then (fun count hcount => ?_) fun _ _ => .refl _ _ _
  obtain ⟨r, hcount, -⟩ := onPart_ok.mp hcount
  have hr := reads_getRootDirectoryCount.ok hcount
  subst hr
  rcases hin count hcount with hz | ⟨h1, h2⟩
  · rw [hz, ends_bind]
    exact ends_of_run (memcpyVirt_zero true buffer dir s) (ends_pure.mpr (.refl _ _ _))
  · refine (memcpyVirt_ends (hm.currentSpace hl) (by omega) fun _ k hk => ?_).bind
      (fun _ s₁ h₁ => ends_pure.mpr h₁.1) fun _ _ he => he
    unfold InUser
    omega

end Files

end Os64
