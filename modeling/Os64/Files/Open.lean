/-
  open_file, close_file and the descriptor loops of fork and wait on the kernel.

  `FilesOk s S`: the tables and the processes of `s` represent the sharing structure `S`
  with right counts, and slots without a process hold nothing.

  * `openFile_ends`: a failed open changes nothing, a successful one is `Sharing.opened`.
  * `closeFile_ends`: closing is `Sharing.dropped`, and the assertion of `put_fcb` holds.
  * `shareFiles_ends`, `closeAll_ends`: the loops.
-/
import Os64.Files.Counts
import Os64.Files.Volume
import Os64.Mem.Owners
import Os64.Sched.Quiet

namespace Os64

open Os64.Lib

variable {K : Image}

/-- The descriptors of all processes. -/
def Kernel.files (s : Kernel) : Slot → Fin 100 → Nat := fun i => (s.processTable i).file

structure FilesOk (s : Kernel) (S : Handles) : Prop where
  rep : FileRep s.ram.mem (v2p s.fcbTable) (v2p s.fileDescTable) s.files S
  ok : S.Ok
  blank : ∀ i, ¬ s.Live i → ∀ fd, (s.processTable i).file fd = 0

/-- The tables are where they were. -/
theorem FilesOk.of_tables {s s' : Kernel} {S : Handles} (hF : s'.fcbTable = s.fcbTable)
    (hD : s'.fileDescTable = s.fileDescTable)
    (rep : FileRep s'.ram.mem (v2p s.fcbTable) (v2p s.fileDescTable) s'.files S) (ok : S.Ok)
    (blank : ∀ i, ¬ s'.Live i → ∀ fd, (s'.processTable i).file fd = 0) : FilesOk s' S := by
  refine ⟨?_, ok, blank⟩
  rw [hF, hD]
  exact rep

section Files

variable {pool free : List Nat} {s s' : Kernel} {S : Handles}

theorem MemOk.tablePages (h : MemOk K pool free s) :
    TablePages K (v2p s.fcbTable) (v2p s.fileDescTable) := by
  refine ⟨h.fcbValid, h.descValid, fun he => ?_⟩
  refine h.apart (o := .fcbTable) (u := .fileDescTable) (by decide) List.mem_cons_self ?_
  exact List.mem_singleton.mpr he

/-- The pages of the two tables. -/
def Kernel.tablePages (s : Kernel) : List Nat := [v2p s.fcbTable, v2p s.fileDescTable]

theorem Kernel.tablePages_data {p : Nat} (hp : p ∈ s.tablePages) : s.Data p := by
  rcases List.mem_cons.mp hp with hp | hp
  · exact Or.inl hp
  · exact Or.inr (Or.inl (List.mem_singleton.mp hp))

/-- A quiet change that writes to the pages `D` only. -/
theorem Quiet.still {b : Bool} {D : List Nat} (h : Quiet b s s') (hw : Wrote D s.ram s'.ram) :
    Still D s s' := by
  refine ⟨h.fcbTable, h.fileDescTable, fun i => ?_, fun i => ?_, fun i => ?_, fun i => ?_,
    hw.freeMemory, hw.mem, h.loaded⟩
  · obtain ⟨f, hf⟩ := h.process i
    unfold Kernel.Live
    rw [hf]
  · obtain ⟨f, hf⟩ := h.process i
    rw [hf]
  · obtain ⟨f, hf⟩ := h.process i
    rw [hf]
  · obtain ⟨f, hf⟩ := h.process i
    rw [hf]

/-- Only memory off the tables changed. -/
theorem FilesOk.off {D : List Nat} (h : FilesOk s S) (hm : MemOk K pool free s)
    (hs : Still D s s') (hfile : s'.files = s.files)
    (hD : ∀ p ∈ D, p % pageSize = 0 ∧ p ∉ s.tablePages) : FilesOk s' S := by
  refine ⟨?_, h.ok, fun i hl fd => ?_⟩
  · rw [hs.fcbTable, hs.fileDescTable, hfile]
    refine h.rep.off hm.tablePages hs.mem fun p hp => ?_
    obtain ⟨hal, hnot⟩ := hD p hp
    exact ⟨hal, fun he => hnot (he ▸ List.mem_cons_self),
      fun he => hnot (he ▸ List.mem_cons_of_mem _ List.mem_cons_self)⟩
  · have : (s'.processTable i).file = (s.processTable i).file := congrFun hfile i
    rw [this]
    exact h.blank i (fun hl' => hl ((hs.live i).mpr hl')) fd

/-- The tables keep their contents, and the processes their descriptors. -/
theorem FilesOk.same (h : FilesOk s S) (hF : s'.fcbTable = s.fcbTable)
    (hD : s'.fileDescTable = s.fileDescTable) (hfile : s'.files = s.files)
    (hm : ∀ p ∈ s.tablePages, ∀ x, InPage p x → s'.ram.mem x = s.ram.mem x)
    (hblank : ∀ i, ¬ s'.Live i → ∀ fd, (s'.processTable i).file fd = 0) : FilesOk s' S := by
  refine .of_tables hF hD ?_ h.ok hblank
  rw [hfile]
  refine h.rep.congr (fun d hd => load_congr fun x h1 h2 => ?_)
    (fun d hd => load_congr fun x h1 h2 => ?_) fun c hc => load_congr fun x h1 h2 => ?_
  · have := desc_end (v2p s.fileDescTable) hd
    unfold fileDescSize at *
    exact hm _ (List.mem_cons_of_mem _ List.mem_cons_self) x ⟨by omega, by omega⟩
  · have := desc_end (v2p s.fileDescTable) hd
    unfold fileDescSize at *
    exact hm _ (List.mem_cons_of_mem _ List.mem_cons_self) x ⟨by omega, by omega⟩
  · have := fcb_end (v2p s.fcbTable) hc
    unfold fcbSize at *
    exact hm _ List.mem_cons_self x ⟨by omega, by omega⟩

theorem ram_run {α : Type} {x : RamM α} {r : Ram} {v : α} (h : x s.ram = .ok v r) :
    ram x s = .ok v { s with ram := r } := onPart_run h

/-- A pointer of a represented row is null or leads to a descriptor and its control block. -/
theorem FileRep.pointer {m : Mem} {F D : Nat} {file : Slot → Fin 100 → Nat}
    (rep : FileRep m F D file S) (hS : S.Ok) (hp : TablePages K F D) (i : Slot) (fd : Fin 100) :
    (file i fd = 0 ∧ S.held (i, fd) = none) ∨
      ∃ d c, file i fd = descPtr D (some d) ∧ S.held (i, fd) = some d ∧ S.object d = some c ∧
        d < descLimit ∧ c < fcbLimit ∧ file i fd ≠ 0 := by
  have hheld := rep.held i fd
  cases hH : S.held (i, fd) with
  | none =>
      rw [hH] at hheld
      exact Or.inl ⟨hheld, rfl⟩
  | some d =>
      rw [hH] at hheld
      obtain ⟨c, hc⟩ := hS.object_of_held hH
      obtain ⟨hd, hlt⟩ := rep.objectLt d c hc
      refine Or.inr ⟨d, c, hheld, rfl, hc, hd, hlt, ?_⟩
      have hpos := hp.desc.p2v_ne_zero
      rw [hheld]
      unfold descPtr
      dsimp only
      omega

/-! ## open_file -/

/-- Only the description of the file in control block `c` changed. -/
structure Described (F c : Nat) (r r' : Ram) : Prop where
  wrote : Wrote [F] r r'
  others : ∀ x, x < F + fcbSize * c ∨ F + fcbSize * c + 24 ≤ x → r'.mem x = r.mem x

theorem Described.trans {F c : Nat} {r r' r'' : Ram} (h : Described F c r r') (h' : Described F c r' r'') :
    Described F c r r'' :=
  ⟨h.wrote.trans h'.wrote, fun x hx => (h'.others x hx).trans (h.others x hx)⟩

/-- A field of a control block that is not counted is filled in. -/
theorem infoStore_ends {r : Ram} {F D c n x v : Nat} {file : Slot → Fin 100 → Nat}
    (rep : FileRep r.mem F D file S) (hp : TablePages K F D) (hc : c < fcbLimit) (o : Nat)
    (hv : v = p2v F + fcbSize * c + o) (ho : o + n ≤ 24) (hn : 0 < n) :
    Ends (kstore v n x) r
      (fun _ r' => (FileRep r'.mem F D file S ∧ Described F c r r') ∧
        r'.mem = store r.mem (F + fcbSize * c + o) n x) fun _ _ => False := by
  have hend := fcb_end F hc
  have hlt : F + fcbSize * c + o + n ≤ F + pageSize := by
    unfold fcbSize at *
    omega
  have hother : ∀ y, y < F + fcbSize * c ∨ F + fcbSize * c + 24 ≤ y →
      store r.mem (F + fcbSize * c + o) n x y = r.mem y := fun y hy =>
    store_of_outside r.mem _ n x (by omega)
  refine ends_of_run (kstore_page hp.fcb hlt hn (by rw [hv, hp.fcb.p2v_eq]; omega) r x)
    ⟨⟨rep.setInfo hp hc hother, wrote_store r x (by omega) hlt, hother⟩, rfl⟩

theorem infoCopy_ends {r : Ram} {F D c n src v : Nat} {file : Slot → Fin 100 → Nat}
    (rep : FileRep r.mem F D file S) (hp : TablePages K F D) (hc : c < fcbLimit) (o : Nat)
    (hv : v = p2v F + fcbSize * c + o) (ho : o + n ≤ 24) (hn : 0 < n) :
    Ends (kmemcpy v src n) r
      (fun _ r' => (FileRep r'.mem F D file S ∧ Described F c r r') ∧
        r'.mem = copy r.mem (F + fcbSize * c + o) (v2p src) n) fun _ _ => ¬ KernelPtr src n := by
  have hend := fcb_end F hc
  have hlt : F + fcbSize * c + o + n ≤ F + pageSize := by
    unfold fcbSize at *
    omega
  have hv : v = F + fcbSize * c + o + kernelBase := by
    rw [hv, hp.fcb.p2v_eq]
    omega
  have hother : ∀ y, y < F + fcbSize * c ∨ F + fcbSize * c + 24 ≤ y →
      copy r.mem (F + fcbSize * c + o) (v2p src) n y = r.mem y := fun y hy =>
    copy_of_outside r.mem _ _ n (by omega)
  unfold kmemcpy
  rw [ends_bind, ends_ensure]
  refine ⟨fun _ => ?_, fun hno => absurd (hp.fcb.kernelPtr hlt hv) hno⟩
  rw [ends_bind, ends_ensure]
  refine ⟨fun _ => ?_, fun hno => hno⟩
  rw [ends_modify, hp.fcb.v2p_at (a := F + fcbSize * c + o) (by omega) hv]
  exact ⟨⟨rep.setInfo hp hc hother, wrote_copy r _ (by omega) hlt, hother⟩, rfl⟩

/-- Entry `i` of the root directory lies in the memory that the kernel maps. -/
structure EntryMapped (m : Mem) (i : Nat) : Prop where
  mounted : Mounted m
  window : rootStart m + dirEntrySize * i + dirEntrySize ≤ 2 ^ 30

/-- A pointer into a directory entry. -/
theorem entry_ptr (m : Mem) (c : Nat) (hc : c < fcbLimit) {o n : Nat} (ho : o + n ≤ dirEntrySize) :
    v2p (u64 (rootStart m + kernelBase + dirEntrySize * c) + o) = rootStart m + dirEntrySize * c + o ∧
      (KernelPtr (u64 (rootStart m + kernelBase + dirEntrySize * c) + o) n ↔
        rootStart m + dirEntrySize * c + o + n ≤ 2 ^ 30) := by
  have hlt := rootStart_lt m
  have hu : u64 (rootStart m + kernelBase + dirEntrySize * c) =
      rootStart m + dirEntrySize * c + kernelBase := by
    unfold fcbLimit at hc
    unfold u64 dirEntrySize
    rw [kernelBase_eq]
    omega
  rw [hu]
  constructor
  · unfold fcbLimit at hc
    unfold v2p u64 dirEntrySize at *
    rw [kernelBase_eq]
    omega
  · unfold KernelPtr
    omega

theorem kload_ok {v n x : Nat} {r r' : Ram} (h : kload v n r = .ok x r') :
    KernelPtr v n ∧ x = load r.mem (v2p v) n := by
  obtain ⟨_, r₁, hens, hrest⟩ := bind_ok.mp h
  obtain ⟨hptr, rfl⟩ := ensure_ok.mp hens
  exact ⟨hptr, (EStateM.Result.ok.inj hrest).1.symm⟩

/-- What `get_fcb` leaves: a control block in use keeps its file, and one that was not
    describes entry `c`. -/
structure Got (F D c : Nat) (S : Handles) (r r' : Ram) : Prop where
  wrote : Wrote [F, D] r r'
  position : ∀ d < descLimit, ∀ k < 4,
    r'.mem (D + fileDescSize * d + 8 + k) = r.mem (D + fileDescSize * d + 8 + k)
  info : ∀ c' < fcbLimit, c' ≠ c ∨ S.objectCount c ≠ 0 → ∀ k < 24,
    r'.mem (F + fcbSize * c' + k) = r.mem (F + fcbSize * c' + k)
  entry : Mounted r.mem → S.objectCount c = 0 →
    load r'.mem (F + fcbSize * c + 20) 4 = entrySize r.mem c ∧
      load r'.mem (F + fcbSize * c + 12) 4 = entryCluster r.mem c

/-- `get_fcb` counts one more user of the control block. -/
theorem getFcb_ends {r : Ram} {table F D c : Nat} {file : Slot → Fin 100 → Nat}
    (rep : FileRep r.mem F D file S) (hS : S.Ok) (hp : TablePages K F D) (ht : table = p2v F)
    (hc : c < fcbLimit) :
    Ends (getFcb table c) r
      (fun v r' => v = c ∧ FileRep r'.mem F D file
        { S with objectCount := Function.update S.objectCount c (S.objectCount c + 1) } ∧
        Got F D c S r r') fun _ _ => ¬ EntryMapped r.mem c := by
  rw [ht]
  have hap := hp.apart
  have hle := hS.objectCount_le c
  rw [card_holder] at hle
  have hbelow := hp.fcb.below
  -- the count, after the fields are filled in
  have hcount : ∀ r₁ : Ram, FileRep r₁.mem F D file S →
      (∀ r₂, Counted F D r₁ r₂ → Got F D c S r r₂) →
      Ends (do addField (fcbCount (p2v F + fcbSize * c)) 1; return c : RamM Nat) r₁
        (fun v r' => v = c ∧ FileRep r'.mem F D file
          { S with objectCount := Function.update S.objectCount c (S.objectCount c + 1) } ∧
          Got F D c S r r') fun _ _ => ¬ EntryMapped r.mem c := by
    intro r₁ rep₁ hgot
    obtain ⟨r₂, hrun₂, rep₂, hw₂⟩ := addFcbCount_run rep₁ hp hc (δ := 1)
      (x := S.objectCount c + 1) (by omega) (by omega)
    rw [ends_bind]
    exact ends_of_run hrun₂ (ends_pure.mpr ⟨rfl, rep₂, hgot r₂ hw₂⟩)
  have hload := kload_fcbCount rep hp hc
  unfold getFcb
  rw [ends_bind]
  refine ends_of_run hload ?_
  rw [ends_ite]
  constructor
  · intro h0
    refine reads_getRootDirectory.then (fun dir hdir => ?_) fun e he hmap => ?_
    swap
    · rw [getRootDirectory_run hmap.mounted] at he
      cases he
    -- the fields of the entry are where they were, whatever was filled in
    have hkeep : ∀ {r₁ : Ram}, Described F c r r₁ → Mounted r.mem → ∀ o n, o + n ≤ dirEntrySize →
        load r₁.mem (rootStart r.mem + dirEntrySize * c + o) n =
          load r.mem (rootStart r.mem + dirEntrySize * c + o) n := by
      intro r₁ h₁ hm o n _
      refine load_congr fun x hx _ => h₁.others x (Or.inr ?_)
      have hstart := hm.start
      have hend := fcb_end F hc
      unfold fsBase at hstart
      unfold rootStart at hx
      unfold fcbSize at *
      omega
    have hmapped : EntryMapped r.mem c → ∀ o n, o + n ≤ dirEntrySize →
        KernelPtr (u64 (dir + dirEntrySize * c) + o) n := by
      intro hmap o n ho
      rw [getRootDirectory_run hmap.mounted] at hdir
      rw [← (EStateM.Result.ok.inj hdir).1]
      exact (entry_ptr r.mem c hc ho).2.mpr (by have := hmap.window; omega)
    have hno : ∀ {o n : Nat} {r₁ r₂ : Ram} {e : Fault}, o + n ≤ dirEntrySize →
        kload (u64 (dir + dirEntrySize * c) + o) n r₁ = .error e r₂ → ¬ EntryMapped r.mem c := by
      intro o n r₁ r₂ e ho he hmap
      rw [kload_run (hmapped hmap o n ho)] at he
      cases he
    refine (infoStore_ends rep hp hc 16 rfl (by omega) (by omega)).bind (fun _ r₁ h₁ => ?_)
      fun _ _ he => he.elim
    refine (reads_kload _ _).then (fun size hsize => ?_) fun _ he => hno (by decide) he
    refine (infoStore_ends h₁.1.1 hp hc 20 rfl (by omega) (by omega)).bind (fun _ r₂ h₂ => ?_)
      fun _ _ he => he.elim
    refine (reads_kload _ _).then (fun cluster hcluster => ?_) fun _ he => hno (by decide) he
    refine (infoStore_ends h₂.1.1 hp hc 12 rfl (by omega) (by omega)).bind (fun _ r₃ h₃ => ?_)
      fun _ _ he => he.elim
    refine (infoCopy_ends h₃.1.1 hp hc 0 (Nat.add_zero _).symm (by omega) (by omega)).bind
      (fun _ r₄ h₄ => ?_) fun _ _ he hmap => he ?_
    swap
    · have := hmapped hmap 0 8 (by decide)
      rwa [Nat.add_zero] at this
    refine (infoCopy_ends h₄.1.1 hp hc 8 rfl (by omega) (by omega)).bind (fun _ r₅ h₅ => ?_)
      fun _ _ he hmap => he (hmapped hmap 8 3 (by decide))
    have hfill : Described F c r r₅ :=
      (((h₁.1.2.trans h₂.1.2).trans h₃.1.2).trans h₄.1.2).trans h₅.1.2
    refine hcount r₅ h₅.1.1 fun r₆ h₆ => ⟨(hfill.wrote.mono (by simp)).trans h₆.wrote,
      fun d hd k hk => ?_, fun c' hc' hne k hk => ?_, fun hm _ => ?_⟩
    · rw [h₆.position d hd k hk]
      refine hfill.others _ ?_
      have := fcb_end F hc
      rw [descLimit_eq] at hd
      rw [pageSize_eq] at hap this
      unfold fcbSize fileDescSize at *
      omega
    · rw [h₆.info c' hc' k hk]
      refine hfill.others _ ?_
      have := hne.resolve_right fun h => h h0
      unfold fcbSize
      omega
    · -- what was loaded, and where it is now
      rw [getRootDirectory_run hm] at hdir
      obtain rfl := (EStateM.Result.ok.inj hdir).1
      have hinfo : ∀ o n, o + n ≤ 24 → load r₆.mem (F + fcbSize * c + o) n =
          load r₅.mem (F + fcbSize * c + o) n := fun o n ho => load_congr fun x hx1 hx2 => by
        obtain ⟨k, rfl⟩ := Nat.exists_eq_add_of_le (show F + fcbSize * c ≤ x by omega)
        exact h₆.info c hc k (by omega)
      have hsize := (kload_ok hsize).2
      have hcluster := (kload_ok hcluster).2
      rw [(entry_ptr r.mem c hc (by decide : 28 + 4 ≤ dirEntrySize)).1,
        hkeep h₁.1.2 hm 28 4 (by decide)] at hsize
      rw [(entry_ptr r.mem c hc (by decide : 26 + 2 ≤ dirEntrySize)).1,
        hkeep (h₁.1.2.trans h₂.1.2) hm 26 2 (by decide)] at hcluster
      have hcopy : ∀ o, 12 ≤ o → o + 4 ≤ 24 → load r₅.mem (F + fcbSize * c + o) 4 =
          load r₃.mem (F + fcbSize * c + o) 4 := fun o h1 h2 => load_congr fun x hx1 hx2 => by
        rw [h₅.2, copy_of_outside _ _ _ _ (by omega), h₄.2, copy_of_outside _ _ _ _ (by omega)]
      constructor
      · rw [hinfo 20 4 (by omega), hcopy 20 (by omega) (by omega), h₃.2,
          load_store_of_disjoint _ _ _ _ (by omega), h₂.2, load_store_self, hsize]
        exact Nat.mod_eq_of_lt (load_lt _ _ _)
      · rw [hinfo 12 4 (by omega), hcopy 12 (by omega) (by omega), h₃.2, load_store_self, hcluster]
        have : entryCluster r.mem c < 256 ^ 2 := load_lt _ _ _
        exact Nat.mod_eq_of_lt (show entryCluster r.mem c < 256 ^ 4 by omega)
  · intro hne
    exact hcount r rep fun r₂ h₂ => ⟨h₂.wrote, h₂.position, fun c' hc' _ => h₂.info c' hc',
      fun _ h0 => absurd h0 hne⟩

/-- Clearing a free descriptor changes nothing that counts. -/
theorem FileRep.clearDesc {m : Mem} {F D d : Nat} {file : Slot → Fin 100 → Nat}
    (rep : FileRep m F D file S) (hp : TablePages K F D) (hd : d < descLimit)
    (ho : S.object d = none) (hcount : S.handleCount d = 0) :
    FileRep (fill m (D + fileDescSize * d) fileDescSize 0) F D file S := by
  have hap := hp.apart
  have hlt := hd
  rw [descLimit_eq] at hlt
  refine rep.congr (fun d' hd' => ?_) (fun d' hd' => ?_) fun c hc => ?_
  · by_cases he : d' = d
    · subst he
      rw [rep.object d' hd', ho]
      exact load_fill_zero m (Nat.le_refl _) (by unfold fileDescSize; omega)
    · refine load_congr fun x h1 h2 => fill_of_outside m _ _ 0 ?_
      unfold fileDescSize at *
      omega
  · by_cases he : d' = d
    · subst he
      rw [rep.count d' hd', hcount]
      exact load_fill_zero m (by omega) (by unfold fileDescSize; omega)
    · refine load_congr fun x h1 h2 => fill_of_outside m _ _ 0 ?_
      unfold fileDescSize at *
      omega
  · refine load_congr fun x h1 h2 => fill_of_outside m _ _ 0 ?_
    unfold fcbLimit at hc
    rw [pageSize_eq] at hap
    unfold fileDescSize fcbSize at *
    omega

/-- A process's row of descriptors is set in the table and in the structure. -/
theorem setProcess_files (s : Kernel) (i : Slot) (f : Process → Process) :
    (s.setProcess i f).files = Function.update s.files i (f (s.processTable i)).file := by
  funext j
  by_cases hj : j = i
  · subst hj
    simp [Kernel.files, Kernel.setProcess]
  · simp [Kernel.files, Kernel.setProcess, Function.update_of_ne hj]

/-- Slots without a process still hold nothing after a live process's row changed. -/
theorem blank_setProcess {f : Process → Process} {i : Slot} (hl : s.Live i)
    (hf : (f (s.processTable i)).state = (s.processTable i).state)
    (hb : ∀ j, ¬ s.Live j → ∀ fd, (s.processTable j).file fd = 0) :
    ∀ j, ¬ (s.setProcess i f).Live j → ∀ fd, ((s.setProcess i f).processTable j).file fd = 0 := by
  intro j hj fd
  by_cases hji : j = i
  · subst hji
    refine absurd ?_ hj
    unfold Kernel.Live Kernel.setProcess at *
    dsimp only
    rw [Function.update_self, hf]
    exact hl
  · unfold Kernel.Live Kernel.setProcess at *
    dsimp only at *
    rw [Function.update_of_ne hji] at *
    exact hb j hj fd

theorem descPtr_eq {table D : Nat} (ht : table = p2v D) (d : Nat) :
    table + fileDescSize * d = descPtr D (some d) := by
  rw [ht]
  rfl

theorem fcbPtr_eq {table F : Nat} (ht : table = p2v F) (c : Nat) :
    table + fcbSize * c = fcbPtr F (some c) := by
  rw [ht]
  rfl

/-- What the stores to a fresh descriptor leave. -/
structure Placed (F D d : Nat) (r r' : Ram) : Prop where
  wrote : Wrote [F, D] r r'
  position : ∀ d' < descLimit, d' ≠ d → ∀ k < 4,
    r'.mem (D + fileDescSize * d' + 8 + k) = r.mem (D + fileDescSize * d' + 8 + k)
  start : load r'.mem (D + fileDescSize * d + 8) 4 = 0
  info : ∀ c < fcbLimit, ∀ k < 24, r'.mem (F + fcbSize * c + k) = r.mem (F + fcbSize * c + k)

/-- The stores of `open_file` after `get_fcb`. -/
theorem openDesc_run {r : Ram} {F D d c : Nat} {file : Slot → Fin 100 → Nat}
    (rep : FileRep r.mem F D file S) (hp : TablePages K F D) (hd : d < descLimit)
    (hc : c < fcbLimit) (ho : S.object d = none) (hcount : S.handleCount d = 0) :
    ∃ r', (do
        kmemset (descPtr D (some d)) 0 fileDescSize
        kstore (descFcb (descPtr D (some d))) 8 (fcbPtr F (some c))
        kstore (descCount (descPtr D (some d))) 4 1 : RamM Unit) r = .ok () r' ∧
      FileRep r'.mem F D file
        { S with
          object := Function.update S.object d (some c)
          handleCount := Function.update S.handleCount d 1 } ∧
      Placed F D d r r' := by
  have hap := hp.apart
  have hend := desc_end D hd
  have hv : descPtr D (some d) = D + fileDescSize * d + kernelBase := by
    unfold descPtr
    dsimp only
    rw [hp.desc.p2v_eq]
    omega
  have hset : kmemset (descPtr D (some d)) 0 fileDescSize r = .ok ()
      { r with mem := fill r.mem (D + fileDescSize * d) fileDescSize 0 } := by
    rw [kmemset_run (hp.desc.kernelPtr hend hv),
      hp.desc.v2p_at (a := D + fileDescSize * d) (by unfold fileDescSize at hend ⊢; omega) hv]
  have hw₁ : Wrote [D] r { r with mem := fill r.mem (D + fileDescSize * d) fileDescSize 0 } :=
    wrote_fill r 0 (by omega) hend
  obtain ⟨r₂, hrun₂, rep₂, hw₂⟩ := setDescFcb_run
    (r := { r with mem := fill r.mem (D + fileDescSize * d) fileDescSize 0 })
    (rep.clearDesc hp hd ho hcount) hp hd
    (o := some c) fun c' hc' => Option.some.inj hc' ▸ hc
  have hend₃ : D + fileDescSize * d + 12 + 4 ≤ D + pageSize := by
    unfold fileDescSize at *
    omega
  have hw₃ := hw₂.trans (counted_desc hp hd (o := 12) (n := 4) (Or.inr ⟨by omega, by omega⟩) r₂ 1)
  refine ⟨_, ?_, rep₂.setHandleCount hp hd (x := 1) (by omega), (hw₁.mono (by simp)).trans hw₃.wrote,
    fun d' hd' hne k hk => ?_, ?_, fun c' hc' k hk => ?_⟩
  · rw [bind_run hset, bind_run hrun₂]
    refine kstore_page hp.desc hend₃ (by omega) ?_ r₂ 1
    unfold descCount
    rw [hv]
    omega
  · rw [hw₃.position d' hd' k hk]
    refine fill_of_outside r.mem _ _ 0 ?_
    unfold fileDescSize
    omega
  · refine (load_congr fun x hx1 hx2 => ?_).trans
      (load_fill_zero r.mem (show D + fileDescSize * d ≤ D + fileDescSize * d + 8 by omega)
        (show D + fileDescSize * d + 8 + 4 ≤ D + fileDescSize * d + fileDescSize by
          unfold fileDescSize
          omega))
    obtain ⟨k, rfl⟩ := Nat.exists_eq_add_of_le hx1
    exact hw₃.position d hd k (by omega)
  · rw [hw₃.info c' hc' k hk]
    refine fill_of_outside r.mem _ _ 0 ?_
    have := fcb_end F hc'
    rw [descLimit_eq] at hd
    rw [pageSize_eq] at hap this
    unfold fcbSize fileDescSize at *
    omega

/-- The search for a free descriptor stays in the table. -/
theorem findFileDesc_total {r : Ram} {table F D : Nat} {file : Slot → Fin 100 → Nat}
    (rep : FileRep r.mem F D file S) (hp : TablePages K F D) (ht : table = p2v D) :
    ∀ n i, i + n ≤ descLimit → ∃ o, findFileDesc table n i r = .ok o r := by
  intro n
  induction n with
  | zero => exact fun i _ => ⟨none, rfl⟩
  | succ n ih =>
      intro i hi
      have hload := kload_descFcb rep hp (d := i) (by omega)
      rw [← descPtr_eq ht] at hload
      obtain ⟨o, ho⟩ := ih (i + 1) (by omega)
      unfold findFileDesc
      rw [bind_run hload]
      split
      · exact ⟨some i, rfl⟩
      · exact ⟨o, ho⟩

/-- Whether `open_file` gets as far as to look for the name. -/
def Kernel.CanOpen (s : Kernel) (i : Slot) : Prop :=
  (∃ fd, (s.processTable i).file fd = 0) ∧ ∃ r d,
    findFileDesc s.fileDescTable (pageSize / fileDescSize) 0 s.ram = .ok (some d) r

/-- From `s` to `s'` descriptor `d` was taken for entry `c` of the directory. -/
structure Opens (S : Handles) (d c : Nat) (s s' : Kernel) : Prop where
  wrote : Wrote s.tablePages s.ram s'.ram
  position : ∀ d' < descLimit, d' ≠ d → ∀ k < 4,
    s'.ram.mem (v2p s.fileDescTable + fileDescSize * d' + 8 + k) =
      s.ram.mem (v2p s.fileDescTable + fileDescSize * d' + 8 + k)
  start : load s'.ram.mem (v2p s.fileDescTable + fileDescSize * d + 8) 4 = 0
  info : ∀ c' < fcbLimit, c' ≠ c ∨ S.objectCount c ≠ 0 → ∀ k < 24,
    s'.ram.mem (v2p s.fcbTable + fcbSize * c' + k) = s.ram.mem (v2p s.fcbTable + fcbSize * c' + k)
  entry : Mounted s.ram.mem → S.objectCount c = 0 →
    load s'.ram.mem (v2p s.fcbTable + fcbSize * c + 20) 4 = entrySize s.ram.mem c ∧
      load s'.ram.mem (v2p s.fcbTable + fcbSize * c + 12) 4 = entryCluster s.ram.mem c

/-- `open_file` fails and changes nothing, or gives the caller a fresh descriptor for the entry
    that it found. It stops where a search stops, or at an entry that is not mapped. -/
theorem openFile_ends (h : FilesOk s S) (hm : MemOk K pool free s) {i : Slot} (hl : s.Live i)
    (path : Nat) :
    Ends (openFile i path) s
      (fun v s' => v = -1 ∧ s' = s ∧ (s.CanOpen i → searchFile path s = .ok 0xffffffff s) ∨
        ∃ fd : Fin 100, ∃ d c, v = fd.val ∧ S.held (i, fd) = none ∧ S.object d = none ∧
          FilesOk s' (S.opened (i, fd) d c) ∧ Opens S d c s s' ∧ s.CanOpen i ∧
          searchFile path s = .ok c s ∧ c ≠ 0xffffffff)
      fun _ _ => s.CanOpen i ∧ ∀ c, searchFile path s = .ok c s →
        c ≠ 0xffffffff ∧ ¬ EntryMapped s.ram.mem c := by
  have hp := hm.tablePages
  unfold openFile
  rw [ends_bind, ends_get]
  cases hfind : (List.finRange 100).find? fun fd => (s.processTable i).file fd = 0 with
  | none =>
      refine ends_pure.mpr (Or.inl ⟨rfl, rfl, ?_⟩)
      rintro ⟨⟨fd, hfd⟩, -⟩
      exact absurd hfd (by simpa using List.find?_eq_none.mp hfind fd (List.mem_finRange fd))
  | some fd =>
      have hfd : (s.processTable i).file fd = 0 := by simpa using List.find?_some hfind
      have hheld : S.held (i, fd) = none := by
        rcases h.rep.pointer h.ok hp i fd with hn | ⟨d, c, -, -, -, -, -, hne⟩
        · exact hn.2
        · exact absurd hfd hne
      obtain ⟨o, hrun⟩ := findFileDesc_total h.rep hp hm.fileDescTable (pageSize / fileDescSize) 0
        (Nat.le_of_eq (Nat.zero_add _))
      rw [ends_bind]
      refine ends_of_run (ram_run hrun) ?_
      cases o with
      | none =>
          refine ends_pure.mpr (Or.inl ⟨rfl, rfl, ?_⟩)
          rintro ⟨-, r, d, hd⟩
          cases hrun.symm.trans hd
      | some d =>
          have hfree := hrun
          have hcan : s.CanOpen i := ⟨⟨fd, hfd⟩, s.ram, d, hrun⟩
          obtain ⟨-, hd, hload⟩ := findFileDesc_ok _ _ _ _ _ hfree
          have hd : d < descLimit := by
            rw [Nat.zero_add] at hd
            exact hd
          have hobj : S.object d = none := by
            rw [descPtr_eq hm.fileDescTable, kload_descFcb h.rep hp hd] at hload
            have hz := (EStateM.Result.ok.inj hload).1
            cases hS : S.object d with
            | none => rfl
            | some c =>
                rw [hS] at hz
                have := hp.fcb.p2v_ne_zero
                unfold fcbPtr at hz
                dsimp only at hz
                omega
          refine (reads_searchFile path).then (fun c hc => ?_) fun e he => ⟨hcan, fun c hc => ?_⟩
          swap
          · cases hc.symm.trans he
          rw [ends_ite]
          refine ⟨fun h1 => ends_pure.mpr (Or.inl ⟨rfl, rfl, fun _ => h1 ▸ hc⟩), fun hne => ?_⟩
          have hclt : c < fcbLimit := by
            have := searchFile_range hc hne
            unfold fcbLimit
            omega
          -- from here on the call succeeds, unless the kernel faults
          rw [ends_bind, ram, ends_onPart]
          refine (getFcb_ends h.rep h.ok hp hm.fcbTable hclt).mono (fun v r₁ hv => ?_)
            fun e r₁ hno => ⟨hcan, fun c' hc' => ?_⟩
          swap
          · rw [(EStateM.Result.ok.inj (hc'.symm.trans hc)).1]
            exact ⟨hne, hno⟩
          obtain ⟨rfl, rep₁, hw₁⟩ := hv
          obtain ⟨r₂, hrun₂, rep₂, hw₂⟩ := openDesc_run rep₁ hp hd hclt hobj
            ((h.ok.null d).mp hobj)
          rw [descPtr_eq hm.fileDescTable, fcbPtr_eq hm.fcbTable]
          obtain ⟨_, r₃, hset, hrun₂⟩ := bind_ok.mp hrun₂
          obtain ⟨_, r₄, hfcb, hcount⟩ := bind_ok.mp hrun₂
          rw [ends_bind]
          refine ends_of_run (ram_run hset) ?_
          rw [ends_bind]
          refine ends_of_run (ram_run hfcb) ?_
          rw [ends_bind]
          refine ends_of_run (ram_run hcount) ?_
          rw [ends_bind]
          refine ends_of_run (setProcess_run i _ _) (ends_pure.mpr (Or.inr ⟨fd, d, v, rfl, hheld,
            hobj, .of_tables rfl rfl ?_ (h.ok.opened hheld hobj)
              (blank_setProcess hl rfl h.blank), ?_, hcan, hc, hne⟩))
          · rw [setProcess_files]
            exact rep₂.setHeld i fd (o := some d) fun d' hd' => Option.some.inj hd' ▸ hd
          · refine ⟨hw₁.wrote.trans hw₂.wrote, fun d' hd' hne' k hk => ?_, hw₂.start,
              fun c' hc' hne' k hk => ?_, fun hmount h0 => ?_⟩
            · exact (hw₂.position d' hd' hne' k hk).trans (hw₁.position d' hd' k hk)
            · exact (hw₂.info c' hc' k hk).trans (hw₁.info c' hc' hne' k hk)
            · have hsame : ∀ o, o + 4 ≤ 24 → load r₂.mem (v2p s.fcbTable + fcbSize * v + o) 4 =
                  load r₁.mem (v2p s.fcbTable + fcbSize * v + o) 4 := fun o ho =>
                load_congr fun x hx1 hx2 => by
                  obtain ⟨k, rfl⟩ := Nat.exists_eq_add_of_le
                    (show v2p s.fcbTable + fcbSize * v ≤ x by omega)
                  exact hw₂.info v hclt k (by omega)
              obtain ⟨hsize, hcluster⟩ := hw₁.entry hmount h0
              exact ⟨(hsame 20 (by omega)).trans hsize, (hsame 12 (by omega)).trans hcluster⟩

/-! ## close_file -/

theorem i32_small {n : Nat} (h : n < 2 ^ 31) : i32 n = n := by
  unfold i32
  rw [Nat.mod_eq_of_lt (by omega), if_pos h]

/-- `close_file` drops an open descriptor. -/
theorem closeFile_run (h : FilesOk s S) (hm : MemOk K pool free s) {i : Slot} (hl : s.Live i)
    {n : Fin 100} {d c : Nat} (hheld : S.held (i, n) = some d) (hobj : S.object d = some c) :
    ∃ s', closeFile i n.val s = .ok () s' ∧ FilesOk s' (S.dropped (i, n) d c) ∧
      Counted (v2p s.fcbTable) (v2p s.fileDescTable) s.ram s'.ram := by
  have hp := hm.tablePages
  have hd := h.rep.heldLt _ d hheld
  have hc := (h.rep.objectLt d c hobj).2
  have hptr : (s.processTable i).file n = descPtr (v2p s.fileDescTable) (some d) := by
    rw [← hheld]
    exact h.rep.held i n
  have hat : fileAt i n.val s = .ok (descPtr (v2p s.fileDescTable) (some d)) s := by
    unfold fileAt
    rw [bind_run (get_run s), dif_pos ⟨by omega, by omega⟩, ← hptr]
    rfl
  have hload := kload_descFcb h.rep hp hd
  rw [hobj] at hload
  have hcount := kload_fcbCount h.rep hp hc
  have hpos := h.ok.objectCount_pos hheld hobj
  have hle := h.ok.objectCount_le c
  rw [card_holder] at hle
  have hassert : 0 < i32 (S.objectCount c) := by
    rw [i32_small (by omega)]
    omega
  obtain ⟨r₂, hrun, rep, hw⟩ := release_run h.rep h.ok hp hheld hobj
  obtain ⟨_, r₁, hadd, hdrop⟩ := bind_ok.mp hrun
  have hput : putFcb (fcbPtr (v2p s.fcbTable) (some c)) s.ram = .ok () r₁ := by
    unfold putFcb assertFile
    rw [bind_run hcount, bind_run (ensure_run hassert _ _)]
    exact hadd
  have hclose : closeFile i n.val s = .ok () (({ s with ram := r₂ }).setProcess i fun p =>
      { p with file := fun m => if (m.val : Int) = n.val then 0 else p.file m }) := by
    unfold closeFile
    rw [bind_run hat, bind_run (ram_run hload), bind_run (ram_run hput), bind_run (ram_run hdrop)]
    exact setProcess_run i _ _
  refine ⟨_, hclose, .of_tables rfl rfl ?_ (h.ok.dropped hheld hobj)
    (blank_setProcess hl rfl h.blank), hw⟩
  rw [setProcess_files]
  have hrow : (fun m : Fin 100 => if (m.val : Int) = n.val then 0 else (s.processTable i).file m) =
      Function.update (s.files i) n 0 := by
    funext m
    by_cases hmn : m = n
    · rw [hmn, Function.update_self, if_pos rfl]
    · rw [Function.update_of_ne hmn, if_neg fun he => hmn (Fin.ext (by omega))]
      rfl
  dsimp only
  rw [hrow]
  exact rep

/-- A descriptor the caller has open is dropped; the assertion of `put_fcb` holds. -/
theorem closeFile_ends (h : FilesOk s S) (hm : MemOk K pool free s) {i : Slot} (hl : s.Live i)
    (fd : Int) :
    Ends (closeFile i fd) s
      (fun _ s' => ∃ n : Fin 100, ∃ d c, fd = n.val ∧ S.held (i, n) = some d ∧
        S.object d = some c ∧ FilesOk s' (S.dropped (i, n) d c) ∧
        Counted (v2p s.fcbTable) (v2p s.fileDescTable) s.ram s'.ram)
      fun e s' => e ≠ .assertion "file.c" 169 ∧ s' = s := by
  by_cases hfd : 0 ≤ fd ∧ fd < 100
  · have hval : fd = ((⟨fd.toNat, by omega⟩ : Fin 100).val : Int) := by
      rw [Int.toNat_of_nonneg hfd.1]
    rcases h.rep.pointer h.ok hm.tablePages i ⟨fd.toNat, by omega⟩ with
      ⟨hz, -⟩ | ⟨d, c, -, hheld, hobj, -, -, -⟩
    · -- no descriptor: the null pointer is not mapped
      unfold closeFile fileAt
      rw [ends_bind, ends_bind, ends_get, dif_pos hfd, ends_pure]
      change (s.processTable i).file ⟨fd.toNat, _⟩ = 0 at hz
      rw [hz, ends_bind]
      refine ends_of_error (e := .exception) (t := s) ?_ ⟨by simp, rfl⟩
      refine onPart_error.mpr ⟨.exception, s.ram, ?_, rfl, rfl⟩
      exact bind_error.mpr (Or.inl (ensure_error.mpr ⟨by decide, rfl, rfl⟩))
    · obtain ⟨s', hrun, hf, hw⟩ := closeFile_run h hm hl hheld hobj
      rw [← hval] at hrun
      exact ends_of_run hrun ⟨_, d, c, hval, hheld, hobj, hf, hw⟩
  · unfold closeFile fileAt
    rw [ends_bind, ends_bind, ends_get, dif_neg hfd]
    exact ends_throw.mpr ⟨by simp, rfl⟩

/-! ## The loops of fork and wait -/

/-- A row of descriptors of which only those in `l` are there. -/
def rowOn (l : List (Fin 100)) (g : Fin 100 → Nat) : Fin 100 → Nat := fun fd =>
  if fd ∈ l then g fd else 0

/-- A row without those in `l`. -/
def rowOff (l : List (Fin 100)) (g : Fin 100 → Nat) : Fin 100 → Nat := fun fd =>
  if fd ∈ l then 0 else g fd

theorem rowOn_cons {l : List (Fin 100)} {g : Fin 100 → Nat} {fd : Fin 100} (hfd : fd ∉ l) :
    Function.update (rowOn (fd :: l) g) fd 0 = rowOn l g := by
  funext x
  by_cases hx : x = fd
  · subst hx
    simp [rowOn, hfd]
  · simp [rowOn, hx]

theorem rowOff_cons {l : List (Fin 100)} {g : Fin 100 → Nat} {fd : Fin 100} (hfd : fd ∉ l) :
    Function.update (rowOff (fd :: l) g) fd (g fd) = rowOff l g := by
  funext x
  by_cases hx : x = fd
  · subst hx
    simp [rowOff, hfd]
  · simp [rowOff, hx]

/-- A null pointer makes no difference. -/
theorem rowOn_null {l : List (Fin 100)} {g : Fin 100 → Nat} {fd : Fin 100} (h : g fd = 0) :
    rowOn (fd :: l) g = rowOn l g := by
  funext x
  by_cases hx : x = fd
  · subst hx
    simp [rowOn, h]
  · simp [rowOn, hx]

theorem rowOff_null {l : List (Fin 100)} {g : Fin 100 → Nat} {fd : Fin 100} (h : g fd = 0) :
    rowOff (fd :: l) g = rowOff l g := by
  funext x
  by_cases hx : x = fd
  · subst hx
    simp [rowOff, h]
  · simp [rowOff, hx]

theorem rowOn_all (g : Fin 100 → Nat) : rowOn (List.finRange 100) g = g := by
  funext x
  simp [rowOn, List.mem_finRange]

theorem rowOff_all (g : Fin 100 → Nat) : rowOff (List.finRange 100) g = fun _ => 0 := by
  funext x
  simp [rowOff, List.mem_finRange]

/-- Only memory changed from `s` to `s'`: the tables, for a structure in which the
    process `i` has the pointers `row`. -/
structure RowChange (F D : Nat) (i : Slot) (S : Handles) (s s' : Kernel) (row : Fin 100 → Nat)
    (S' : Handles) : Prop where
  same : s' = { s with ram := s'.ram }
  rep : FileRep s'.ram.mem F D (Function.update s.files i row) S'
  ok : S'.Ok
  counted : Counted F D s.ram s'.ram
  others : ∀ h, h.1 ≠ i → S'.held h = S.held h
  link : ∀ d, S'.object d = S.object d ∨ S'.object d = none
  used : ∀ c, S'.objectCount c ≠ 0 → S.objectCount c ≠ 0

theorem RowChange.wrote {F D : Nat} {i : Slot} {row : Fin 100 → Nat} {S' : Handles}
    (h : RowChange F D i S s s' row S') : Wrote [F, D] s.ram s'.ram := h.counted.wrote

/-- A dropped handle keeps its object or has none. -/
theorem dropped_link (S : Handles) (d d' : Nat) {h : Holder} {c : Nat} :
    (S.dropped h d c).object d' = S.object d' ∨ (S.dropped h d c).object d' = none := by
  unfold Sharing.dropped
  dsimp only
  split
  · by_cases hd : d' = d
    · rw [hd, Function.update_self]
      exact Or.inr rfl
    · rw [Function.update_of_ne hd]
      exact Or.inl rfl
  · exact Or.inl rfl

/-- One round of the loop of `wait`. -/
theorem closeRound_ends {F D : Nat} (hp : TablePages K F D) {i : Slot} {fd : Fin 100}
    {l : List (Fin 100)} {s₁ : Kernel} (hfd : fd ∉ l)
    (hI : ∃ S', RowChange F D i S s s₁ (rowOn (fd :: l) (s.files i)) S') :
    Ends (if s.files i fd ≠ 0 then do
        let fcb ← ram (kload (descFcb (s.files i fd)) 8)
        ram (addField (fcbCount fcb) (-1))
        ram (dropDesc (s.files i fd))
      else pure () : LowM Unit) s₁
      (fun _ s' => ∃ S', RowChange F D i S s s' (rowOn l (s.files i)) S') fun _ _ => False := by
  obtain ⟨S₁, hI⟩ := hI
  have hself : Function.update s.files i (rowOn (fd :: l) (s.files i)) i fd = s.files i fd := by
    simp [rowOn]
  rw [ends_ite]
  rcases hI.rep.pointer hI.ok hp i fd with ⟨hz, -⟩ | ⟨d, c, hptr, hheld, hobj, hd, hc, hne⟩
  · rw [hself] at hz
    refine ⟨fun hn => absurd hz hn, fun _ => ends_pure.mpr ⟨S₁, hI.same, ?_, hI.ok, hI.counted,
      hI.others, hI.link, hI.used⟩⟩
    rw [← rowOn_null hz]
    exact hI.rep
  · rw [hself] at hptr hne
    refine ⟨fun _ => ?_, fun hn => absurd hne hn⟩
    have hload := kload_descFcb hI.rep hp hd
    rw [hobj] at hload
    obtain ⟨r₂, hrun, rep₂, hw⟩ := release_run hI.rep hI.ok hp hheld hobj
    obtain ⟨_, r₁, hadd, hdrop⟩ := bind_ok.mp hrun
    rw [hptr, ends_bind]
    refine ends_of_run (ram_run hload) ?_
    rw [ends_bind]
    refine ends_of_run (ram_run hadd) (ends_of_run (ram_run hdrop) ⟨S₁.dropped (i, fd) d c, ?_, ?_,
      hI.ok.dropped hheld hobj, hI.counted.trans hw, fun h hne' => ?_, fun d' => ?_, fun c' hc' => ?_⟩)
    · rw [hI.same]
    · rw [Function.update_self, Function.update_idem, rowOn_cons hfd] at rep₂
      exact rep₂
    · have hh : h ≠ (i, fd) := fun he => hne' (by rw [he])
      rw [← hI.others h hne']
      exact Function.update_of_ne hh _ _
    · exact (dropped_link (h := (i, fd)) (c := c) S₁ d d').elim (fun he => he ▸ hI.link d') Or.inr
    · refine hI.used c' fun h0 => hc' ?_
      by_cases hcc : c' = c
      · subst hcc
        simp [Sharing.dropped, h0]
      · simpa [Sharing.dropped, hcc] using h0

/-- `wait` drops every descriptor of the process it reaps. -/
theorem closeAll_ends {F D : Nat} (rep : FileRep s.ram.mem F D s.files S) (hS : S.Ok)
    (hp : TablePages K F D) (i : Slot) :
    Ends (closeAll i) s (fun _ s' => ∃ S', RowChange F D i S s s' (fun _ => 0) S')
      fun _ _ => False := by
  have hloop : Ends (closeAll i) s (fun _ s' => ([] : List (Fin 100)).Nodup ∧
      ∃ S', RowChange F D i S s s' (rowOn [] (s.files i)) S') fun _ _ => False := by
    unfold closeAll
    rw [ends_bind, ends_get]
    refine ends_forM (fun l s' => l.Nodup ∧ ∃ S', RowChange F D i S s s' (rowOn l (s.files i)) S')
      (fun fd l s₁ hI => ?_) _ s ⟨List.nodup_finRange 100, S, rfl, ?_, hS, .refl _ _ _,
      fun _ _ => rfl, fun _ => Or.inl rfl, fun _ => id⟩
    · obtain ⟨hfd, hnd⟩ := List.nodup_cons.mp hI.1
      exact (closeRound_ends hp hfd hI.2).mono (fun _ _ h => ⟨hnd, h⟩) fun _ _ h => h
    · rw [rowOn_all, Function.update_eq_self]
      exact rep
  exact hloop.mono (fun _ _ h => h.2) fun _ _ h => h

/-- One round of the loop of `fork`. -/
theorem shareRound_ends {F D : Nat} (hp : TablePages K F D) {i p : Slot} {fd : Fin 100}
    {l : List (Fin 100)} {s₁ : Kernel} (hfd : fd ∉ l) (hne : p ≠ i) (hrow : s.files i = s.files p)
    (hI : ∃ S', RowChange F D i S s s₁ (rowOff (fd :: l) (s.files i)) S') :
    Ends (if s.files i fd ≠ 0 then do
        ram (addField (descCount (s.files i fd)) 1)
        let fcb ← ram (kload (descFcb (s.files i fd)) 8)
        ram (addField (fcbCount fcb) 1)
      else pure () : LowM Unit) s₁
      (fun _ s' => ∃ S', RowChange F D i S s s' (rowOff l (s.files i)) S') fun _ _ => False := by
  obtain ⟨S₁, hI⟩ := hI
  have hparent : Function.update s.files i (rowOff (fd :: l) (s.files i)) p fd = s.files i fd := by
    rw [Function.update_of_ne hne, hrow]
  rw [ends_ite]
  rcases hI.rep.pointer hI.ok hp p fd with ⟨hz, -⟩ | ⟨d, c, hptr, hheld, hobj, hd, hc, hpos⟩
  · rw [hparent] at hz
    refine ⟨fun hn => absurd hz hn, fun _ => ends_pure.mpr ⟨S₁, hI.same, ?_, hI.ok, hI.counted,
      hI.others, hI.link, hI.used⟩⟩
    rw [← rowOff_null hz]
    exact hI.rep
  · rw [hparent] at hptr hpos
    refine ⟨fun _ => ?_, fun hn => absurd hpos hn⟩
    have hfree : S₁.held (i, fd) = none := by
      rcases hI.rep.pointer hI.ok hp i fd with ⟨-, hn⟩ | ⟨_, _, -, -, -, -, -, hpos'⟩
      · exact hn
      · exact absurd (by simp [rowOff]) hpos'
    obtain ⟨r₂, hrun, rep₂, hw⟩ := retain_run (i := i) (f := fd) hI.rep hI.ok hp hd hobj
    obtain ⟨_, r₁, hadd, hrun⟩ := bind_ok.mp hrun
    obtain ⟨fcb, r₁', hload, hadd'⟩ := bind_ok.mp hrun
    rw [hptr, ends_bind]
    refine ends_of_run (ram_run hadd) ?_
    rw [ends_bind]
    refine ends_of_run (ram_run hload) (ends_of_run (ram_run hadd') ⟨S₁.shared (i, fd) d c, ?_, ?_,
      hI.ok.shared hfree hobj, hI.counted.trans hw, fun h hne' => ?_, hI.link, fun c' hc' => ?_⟩)
    · rw [hI.same]
    · rw [Function.update_self, Function.update_idem, ← hptr, rowOff_cons hfd] at rep₂
      exact rep₂
    · have hh : h ≠ (i, fd) := fun he => hne' (by rw [he])
      rw [← hI.others h hne']
      exact Function.update_of_ne hh _ _
    · refine hI.used c' ?_
      by_cases hcc : c' = c
      · -- its control block was in use by the holder it is shared with
        subst hcc
        have := hI.ok.objectCount_pos (h := (p, fd)) (d := d) (c := c') hheld hobj
        omega
      · simpa [Sharing.shared, hcc] using hc'

/-- `fork` shares the descriptors of process `p` with its child `i`. -/
theorem shareFiles_ends {F D : Nat} {i p : Slot}
    (rep : FileRep s.ram.mem F D (Function.update s.files i fun _ => 0) S) (hS : S.Ok)
    (hp : TablePages K F D) (hne : p ≠ i) (hrow : s.files i = s.files p) :
    Ends (shareFiles i) s (fun _ s' => ∃ S', RowChange F D i S s s' (s.files i) S')
      fun _ _ => False := by
  have hloop : Ends (shareFiles i) s (fun _ s' => ([] : List (Fin 100)).Nodup ∧
      ∃ S', RowChange F D i S s s' (rowOff [] (s.files i)) S') fun _ _ => False := by
    unfold shareFiles
    rw [ends_bind, ends_get]
    refine ends_forM (fun l s' => l.Nodup ∧ ∃ S', RowChange F D i S s s' (rowOff l (s.files i)) S')
      (fun fd l s₁ hI => ?_) _ s ⟨List.nodup_finRange 100, S, rfl, ?_, hS, .refl _ _ _,
      fun _ _ => rfl, fun _ => Or.inl rfl, fun _ => id⟩
    · obtain ⟨hfd, hnd⟩ := List.nodup_cons.mp hI.1
      exact (shareRound_ends hp hfd hne hrow hI.2).mono (fun _ _ h => ⟨hnd, h⟩) fun _ _ h => h
    · rw [rowOff_all]
      exact rep
  exact hloop.mono (fun _ _ h => h.2) fun _ _ h => h

end Files

end Os64
