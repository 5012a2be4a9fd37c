/-
  exec: all or nothing?

  * `exec_refused`, `exec_starts`, `exec_returns`: the calls that find no file, those whose file is
    in order, and what a call that returns says about its file.
  * `run_exec_iff`: in a run `exec` ends its caller or starts the whole program exactly when there
    is no file of that name to open and the caller can exit, or the file fits the user page and
    its chain covers its size.
-/
import Os64.Sched.Ended
import Os64.Sys.Opened
import Os64.Sys.Counts

namespace Os64

open Os64.Lib

variable {K : Image}

/-! ## The program that exec starts -/

/-- The frame with which a program starts. -/
def entryTrap : TrapFrame :=
  ⟨0, 0, 0, 0, 0, 0, 0, 0, 0, 0, 0, 0, 0, 0, 0, 0, 0, 0x400000, 0x10 ||| 3, 0x202,
    0x400000 + pageSize, 0x18 ||| 3⟩

theorem frameAt_entry (m : Mem) (a : Nat) :
    frameAt (entryFrame (fill m a trapFrameSize 0) a) a = entryTrap := by
  have hzero : ∀ o, o + 8 ≤ 136 →
      load (entryFrame (fill m a trapFrameSize 0) a) (a + o) 8 = 0 := by
    intro o ho
    unfold entryFrame trapFrameSize
    rw [load_store_of_disjoint _ _ _ _ (by omega), load_store_of_disjoint _ _ _ _ (by omega),
      load_store_of_disjoint _ _ _ _ (by omega), load_store_of_disjoint _ _ _ _ (by omega),
      load_store_of_disjoint _ _ _ _ (by omega), load_fill_zero m (by omega) (by omega)]
  have hrip : load (entryFrame (fill m a trapFrameSize 0) a) (a + 136) 8 = 0x400000 := by
    unfold entryFrame
    rw [load_store_of_disjoint _ _ _ _ (by omega), load_store_of_disjoint _ _ _ _ (by omega),
      load_store_of_disjoint _ _ _ _ (by omega), load_store_self, Nat.mod_eq_of_lt (by decide)]
  have hcs : load (entryFrame (fill m a trapFrameSize 0) a) (a + 144) 8 = 0x10 ||| 3 := by
    unfold entryFrame
    rw [load_store_of_disjoint _ _ _ _ (by omega), load_store_of_disjoint _ _ _ _ (by omega),
      load_store_of_disjoint _ _ _ _ (by omega), load_store_of_disjoint _ _ _ _ (by omega),
      load_store_self, Nat.mod_eq_of_lt (by decide)]
  have hflags : load (entryFrame (fill m a trapFrameSize 0) a) (a + 152) 8 = 0x202 := by
    unfold entryFrame
    rw [load_store_self, Nat.mod_eq_of_lt (by decide)]
  have hrsp : load (entryFrame (fill m a trapFrameSize 0) a) (a + 160) 8 = 0x400000 + pageSize := by
    unfold entryFrame
    rw [load_store_of_disjoint _ _ _ _ (by omega), load_store_self, pageSize_eq,
      Nat.mod_eq_of_lt (by decide)]
  have hss : load (entryFrame (fill m a trapFrameSize 0) a) (a + 168) 8 = 0x18 ||| 3 := by
    unfold entryFrame
    rw [load_store_of_disjoint _ _ _ _ (by omega), load_store_of_disjoint _ _ _ _ (by omega),
      load_store_self, Nat.mod_eq_of_lt (by decide)]
  have hfirst := hzero 0 (by omega)
  rw [Nat.add_zero] at hfirst
  unfold frameAt entryTrap
  rw [hfirst, hzero 8 (by omega), hzero 16 (by omega), hzero 24 (by omega), hzero 32 (by omega),
    hzero 40 (by omega), hzero 48 (by omega), hzero 56 (by omega), hzero 64 (by omega),
    hzero 72 (by omega), hzero 80 (by omega), hzero 88 (by omega), hzero 96 (by omega),
    hzero 104 (by omega), hzero 112 (by omega), hzero 120 (by omega), hzero 128 (by omega),
    hrip, hcs, hflags, hrsp, hss]

/-- From `s` to `s'` the current process became the program of entry `c`: all bytes of its file are
    in the user page, with zeros behind them, the trap frame enters it, and the descriptors of all
    processes and the counts in the tables are as before. -/
structure Started (s : Kernel) (c : Nat) (s' : Kernel) : Prop where
  size : entrySize s.ram.mem c ≤ pageSize
  covers : (volumeAt s.ram.mem).Covers (entryCluster s.ram.mem c) (entrySize s.ram.mem c)
  bytes : ∀ k < entrySize s.ram.mem c, s'.userByte s.pc.currentProcess (0x400000 + k) =
    fileByte s.ram.mem (entryCluster s.ram.mem c) k
  zeros : ∀ k, entrySize s.ram.mem c ≤ k → k < pageSize →
    s'.userByte s.pc.currentProcess (0x400000 + k) = 0
  frame : s'.frame s.pc.currentProcess = entryTrap
  current : s'.pc = s.pc
  files : s'.files = s.files
  links : ∀ d < descLimit, s'.descLink d = s.descLink d
  handles : ∀ d < descLimit, s'.descCount d = s.descCount d
  blocks : ∀ c' < fcbLimit, s'.blockCount c' = s.blockCount c'

/-- Whatever file is read, it goes to the user page of the current process only, as the zeros
    before it do. -/
structure LoadsInside (K : Image) (s : Kernel) (name : Nat) : Prop where
  clear : ∀ fd s₁, openFile s.pc.currentProcess name s = .ok fd s₁ → fd ≠ -1 →
    Ends (clearUserPage K) s₁
      (fun _ s' => ∀ x, ¬ InPage (s.userPage s.pc.currentProcess) x → s'.ram.mem x = s₁.ram.mem x)
      fun _ s' => ∀ x, ¬ InPage (s.userPage s.pc.currentProcess) x → s'.ram.mem x = s₁.ram.mem x
  read : ∀ fd s₁ u s₂ size, openFile s.pc.currentProcess name s = .ok fd s₁ → fd ≠ -1 →
    clearUserPage K s₁ = .ok u s₂ → getFileSize s.pc.currentProcess fd s₂ = .ok size s₂ →
      ∀ cluster, Ends (readRawData K false cluster 0x400000 0 size) s₂
        (fun _ s' => ∀ x, ¬ InPage (s.userPage s.pc.currentProcess) x → s'.ram.mem x = s₂.ram.mem x)
        fun _ s' => ∀ x, ¬ InPage (s.userPage s.pc.currentProcess) x → s'.ram.mem x = s₂.ram.mem x

variable (K) in
/-- `exec` of the file with the name `p` ends its caller, or starts the program whole. -/
structure AllOrNothing (s : Kernel) (name : Nat) (p : List UInt8) : Prop where
  ends : ∃ v s', exec K s.pc.currentProcess name s = .ok v s' ∧
    (v = none ∧ Gone K s.pc.currentProcess s' ∨
      v = some 0 ∧ ∃ c, (kernelDirectory s.ram.mem).First (fields p).1 (fields p).2 c ∧
        Started s c s')
  inside : LoadsInside K s name

/-- There is a file with the name `p`, and a descriptor for it. -/
def Kernel.Finds (s : Kernel) (p : List UInt8) : Prop :=
  s.CanOpen s.pc.currentProcess ∧ Short p ∧
    ∃ c, (kernelDirectory s.ram.mem).First (fields p).1 (fields p).2 c

/-- The file with the name `p` fits the user page, and its chain covers its size. -/
def Fits (m : Mem) (p : List UInt8) : Prop :=
  (volumeAt m).clusterSize ≠ 0 ∧ ∃ c, (kernelDirectory m).First (fields p).1 (fields p).2 c ∧
    entrySize m c ≤ pageSize ∧ (volumeAt m).Covers (entryCluster m c) (entrySize m c)

/-- The volume lies in the memory that the kernel maps: its tables, its root directory, and the
    clusters of the file with the name `p`, as far as its chain leads. -/
structure VolumeMapped (m : Mem) (p : List UInt8) : Prop where
  mounted : Mounted m
  root : RootMapped m
  chain : ∀ c, (kernelDirectory m).First (fields p).1 (fields p).2 c →
    ∀ k, k * (volumeAt m).clusterSize < entrySize m c →
      (∀ j ≤ k, Volume.IsData ((volumeAt m).cluster (entryCluster m c) j)) →
        volumeStart m + clusterStart m ((volumeAt m).cluster (entryCluster m c) k) +
          (volumeAt m).clusterSize ≤ 2 ^ 30

/-! ## The file is open and the old image gone -/

section Exec

variable {pool free : List Nat} {a : Sched} {S : Handles} {s s₁ s₂ s' : Kernel} {name c d e : Nat}
  {n : Fin 100} {p : List UInt8}

/-- In `s₂` the `exec` that began in `s` has opened entry `c` and cleared the user page. -/
structure Cleared (K : Image) (pool free : List Nat) (a : Sched) (S : Handles) (s : Kernel)
    (name c : Nat) (n : Fin 100) (d e : Nat) (s₁ s₂ : Kernel) : Prop where
  held : S.held (s.pc.currentProcess, n) = none
  unused : S.object d = none
  opens : openFile s.pc.currentProcess name s = .ok n.val s₁
  clears : clearUserPage K s₁ = .ok () s₂
  whole : ∃ os, Whole K pool free { a with hist := a.hist ++ os }
    (S.opened (s.pc.currentProcess, n) d e) s₂
  pc : s₂.pc = s.pc
  file : OpenAt s₂ n (entrySize s.ram.mem c) (entryCluster s.ram.mem c) 0
  image : ∀ x, fsBase ≤ x → s₂.ram.mem x = s.ram.mem x
  zero : ∀ k < pageSize, s₂.userByte s.pc.currentProcess (0x400000 + k) = 0

/-- A name that is found is opened. -/
theorem exec_opens (h : Whole K pool free a S s) (hent : EntriesOk s) (hc : a.current ≠ 0)
    (hvol : VolumeMapped s.ram.mem p) (ht : Text loadVirt s name p) (hfind : s.Finds p) :
    ∃ c n d e s₁ s₂, (kernelDirectory s.ram.mem).First (fields p).1 (fields p).2 c ∧
      Cleared K pool free a S s name c n d e s₁ s₂ := by
  have hl := h.live hc
  obtain ⟨hcan, hshort, c, hfirst⟩ := hfind
  obtain ⟨v, s₁, hopen, hv⟩ := openFile_opens h.mem h.files hl hvol.mounted hvol.root ht hcan hshort
    hfirst
  obtain ⟨n, os₁, d, e, rfl, hfree, hnull, h₁, hpc, hfirst', hat⟩ :=
    openFile_fields h hent hl hvol.mounted ht hopen hv
  have hl₁ := h₁.live hc
  have hkept := (openFile_kept h hl hopen).1
  -- the old image goes
  obtain ⟨s₂, hs₂⟩ : ∃ s₂ : Kernel, s₂ = { s₁ with
      ram := { s₁.ram with
        mem := fill s₁.ram.mem (s₁.userPage s₁.pc.currentProcess) pageSize 0 } } := ⟨_, rfl⟩
  have hclear : clearUserPage K s₁ = .ok () s₂ := by
    rw [hs₂]
    exact clearUserPage_run (s := s₁) (h₁.mem.currentSpace hl₁)
  have hmem : s₂.ram.mem = fill s₁.ram.mem (s₁.userPage s₁.pc.currentProcess) pageSize 0 := by
    rw [hs₂]
  have hpokes := (clearUserPage_ends (h₁.mem.currentSpace hl₁) InUser).ok hclear
  have same₂ := h₁.mem.tablesSame_user hl₁ hpokes
  obtain ⟨os₂, _, h₂'⟩ := (h₁.poked_user hl₁ hpokes).whole
  have hf₂ : FilesOk s₂ (S.opened (s.pc.currentProcess, n) d e) :=
    h₁.files.off h₁.mem hpokes.still (by unfold Kernel.files; rw [hpokes.files]) fun p hp => by
      rw [List.mem_singleton.mp hp]
      exact h₁.mem.userPage_off_tables hl₁
  have h₂ : Whole K pool free { a with hist := a.hist ++ (os₁ ++ os₂) }
      (S.opened (s.pc.currentProcess, n) d e) s₂ := by
    rw [← List.append_assoc]
    exact ⟨h₂'.rep, h₂'.sane, h₂'.mem, hf₂⟩
  have hpc₂ : s₂.pc = s₁.pc := by rw [hpokes.same]
  have huser : s₂.userPage s₁.pc.currentProcess = s₁.userPage s₁.pc.currentProcess :=
    (h₁.mem.still hpokes.still fun p hp => Or.inr (Or.inr ⟨_, hl₁,
      Or.inr (List.mem_singleton.mp hp)⟩)).userPage _ hl₁
  refine ⟨e, n, d, e, s₁, s₂, hfirst', hfree, hnull, hopen, hclear, ⟨_, h₂⟩, hpc₂.trans hpc,
    hat.same h₁ h₂ same₂ hpc₂ hpokes.files,
    fun x hx => (same₂.image x hx).trans (hkept.image x hx), fun k hk => ?_⟩
  unfold Kernel.userByte
  rw [← hpc, huser, hmem, Nat.add_sub_cancel_left]
  exact fill_of_inside _ _ (Nat.le_add_right _ _) (Nat.add_lt_add_left hk _)

/-- What is left to do. -/
theorem Cleared.exec (h : Cleared K pool free a S s name c n d e s₁ s₂) :
    Os64.exec K s.pc.currentProcess name s = (do
      let read ← low (readFile K false s.pc.currentProcess n.val 0x400000 (entrySize s.ram.mem c))
      if read = -1 then do
        Os64.exit
        return none
      else do
        low (closeFile s.pc.currentProcess n.val)
        let t ← get
        let tf := (t.processTable s.pc.currentProcess).tf
        low (ram (kmemset tf 0 trapFrameSize))
        low (ram (setEntryFrame tf))
        return some 0 : KernelM (Option Int)) s₂ := by
  obtain ⟨os, hw⟩ := h.whole
  obtain ⟨d', e', ho⟩ := hw.files.openDesc hw.mem h.file.opened
  obtain ⟨hat, -, hfcb, hsize, -⟩ := ho.loads hw.mem
  have hget : getFileSize s.pc.currentProcess n.val s₂ = .ok (entrySize s.ram.mem c) s₂ := by
    unfold getFileSize
    rw [← h.pc, bind_run hat, bind_run (ram_run hfcb), ← h.file.size]
    exact ram_run hsize
  unfold Os64.exec
  rw [bind_run (low_run h.opens), if_neg (by omega), bind_run (low_run h.clears),
    bind_run (low_run hget)]

/-- A read of the whole file that returns has not failed. -/
theorem Cleared.read (h : Cleared K pool free a S s name c n d e s₁ s₂) (hc : a.current ≠ 0)
    (hm : Mounted s.ram.mem) {v : Int}
    (hrun : readFile K false s.pc.currentProcess n.val 0x400000 (entrySize s.ram.mem c) s₂ = .ok v s') :
    v ≠ -1 ∧ (volumeAt s.ram.mem).clusterSize ≠ 0 := by
  obtain ⟨os, hw⟩ := h.whole
  have hl := hw.live hc
  obtain ⟨d', e', ho⟩ := hw.files.openDesc hw.mem h.file.opened
  have hsize : entrySize s.ram.mem c < 2 ^ 32 := load_lt _ _ _
  rw [← h.pc, readFile_eq hw.mem ho, h.file.position, h.file.size, Nat.zero_add,
    if_neg (by rw [u32, Nat.mod_eq_of_lt hsize]; omega)] at hrun
  obtain ⟨r, s₃, hread, hadd⟩ := bind_ok.mp hrun
  obtain ⟨hcs, hle⟩ := readRawData_room (hw.mem.currentSpace hl) (hm.congr h.image) hsize hread
  rw [(volumeAt_congr h.image hm).2] at hcs
  obtain ⟨_, s₄, -, hlast⟩ := bind_ok.mp hadd
  obtain ⟨rfl, -⟩ := EStateM.Result.ok.inj hlast
  rw [pageSize_eq] at hle
  rw [i32_small (by omega)]
  exact ⟨by omega, hcs⟩

/-- What `read_raw_data` returns, `read_file` returns. -/
theorem Cleared.passes (h : Cleared K pool free a S s name c n d e s₁ s₂) {r : Nat} {t : Kernel}
    (hread : readRawData K false (entryCluster s.ram.mem c) 0x400000 0 (entrySize s.ram.mem c) s₂ =
      .ok r t) (hr : r < 2 ^ 31) :
    ∃ t', readFile K false s.pc.currentProcess n.val 0x400000 (entrySize s.ram.mem c) s₂ =
      .ok r t' := by
  obtain ⟨os, hw⟩ := h.whole
  obtain ⟨d', e', ho⟩ := hw.files.openDesc hw.mem h.file.opened
  have hsize : entrySize s.ram.mem c < 2 ^ 32 := load_lt _ _ _
  have hmove := ram_run (ho.move_run hw.mem r t.ram)
  rw [← h.pc, readFile_eq hw.mem ho, h.file.position, h.file.size, h.file.cluster, Nat.zero_add,
    if_neg (by rw [u32, Nat.mod_eq_of_lt hsize]; omega)]
  rw [← i32_small hr]
  exact ⟨_, (bind_run hread).trans (bind_run hmove)⟩

/-- When exec returns, it returns 0. -/
theorem Cleared.returns (h : Cleared K pool free a S s name c n d e s₁ s₂) (hc : a.current ≠ 0)
    (hm : Mounted s.ram.mem) {v : Option Int}
    (hrun : Os64.exec K s.pc.currentProcess name s = .ok v s') :
    v = some 0 ∧ (volumeAt s.ram.mem).clusterSize ≠ 0 := by
  rw [h.exec] at hrun
  obtain ⟨r, s₃, hread, hrest⟩ := bind_ok.mp hrun
  obtain ⟨hne, hcs⟩ := h.read hc hm (low_ok hread)
  rw [if_neg hne] at hrest
  obtain ⟨_, s₄, -, hrest⟩ := bind_ok.mp hrest
  obtain ⟨t, s₅, -, hrest⟩ := bind_ok.mp hrest
  obtain ⟨_, s₆, -, hrest⟩ := bind_ok.mp hrest
  obtain ⟨_, s₇, -, hlast⟩ := bind_ok.mp hrest
  exact ⟨(EStateM.Result.ok.inj hlast).1.symm, hcs⟩

/-- A file that fits the page and its chain. -/
structure FitsPage (s : Kernel) (c : Nat) : Prop where
  mounted : Mounted s.ram.mem
  clusters : (volumeAt s.ram.mem).clusterSize ≠ 0
  size : entrySize s.ram.mem c ≤ pageSize
  onVolume : OnVolume s.ram.mem (entryCluster s.ram.mem c) (entrySize s.ram.mem c)

/-- Such a file is read. -/
theorem Cleared.reads (h : Cleared K pool free a S s name c n d e s₁ s₂) (hc : a.current ≠ 0)
    (hfit : FitsPage s c) :
    ∃ s₃, readFile K false s.pc.currentProcess n.val 0x400000 (entrySize s.ram.mem c) s₂ =
        .ok (entrySize s.ram.mem c) s₃ ∧
      (∀ k < entrySize s.ram.mem c, s₃.userByte s.pc.currentProcess (0x400000 + k) =
        fileByte s.ram.mem (entryCluster s.ram.mem c) k) ∧
      ∀ k, entrySize s.ram.mem c ≤ k → k < pageSize →
        s₃.userByte s.pc.currentProcess (0x400000 + k) = 0 := by
  obtain ⟨os, hw⟩ := h.whole
  have hl := hw.live hc
  obtain ⟨d', e', ho⟩ := hw.files.openDesc hw.mem h.file.opened
  have hm := hfit.mounted.congr h.image
  obtain ⟨-, hV⟩ := volumeAt_congr h.image hfit.mounted
  have hcs : (volumeAt s₂.ram.mem).clusterSize ≠ 0 := by
    rw [hV]
    exact hfit.clusters
  have hsize := hfit.size
  rw [pageSize_eq] at hsize
  have hcs24 := clusterSize_lt s₂.ram.mem
  -- the data
  have hdata : DataComes K s₂ false (s₂.descCluster (s₂.desc n)) 0x400000
      (s₂.filePosition (s₂.desc n)) (entrySize s.ram.mem c) := by
    rw [h.file.cluster, h.file.position]
    rcases Nat.eq_zero_or_pos (entrySize s.ram.mem c) with h0 | h0
    · rw [h0]
      exact ⟨s₂, readRawData_none hm hcs _, rfl, fun x => (if_neg (by omega)).symm⟩
    · have hfile : OnVolume s₂.ram.mem (entryCluster s.ram.mem c) (0 + entrySize s.ram.mem c) := by
        rw [Nat.zero_add]
        exact hfit.onVolume.congr hfit.mounted h.image
      exact readRawData_run false (hw.mem.currentSpace hl) hm hcs hfile h0 (by omega) (by omega)
        (by omega)
  obtain ⟨s₃, hread, -, hpokes, hslice⟩ := readFile_data hw.mem hw.files hl ho
    (by rw [h.file.position]; omega) (by rw [h.file.position, h.file.size, Nat.zero_add])
    (by omega) (by omega) hdata
  rw [h.pc] at hread
  refine ⟨s₃, hread, fun k hk => ?_, fun k hk hkp => ?_⟩
  · rw [← h.pc, hslice.bytes k hk, h.file.cluster, h.file.position, Nat.zero_add,
      fileByte_congr hfit.mounted h.image]
  · rw [pageSize_eq] at hkp
    rw [← h.pc, hslice.userByte hw.mem hl ho hpokes ⟨by omega, by omega⟩ (by omega) (by omega), h.pc]
    exact h.zero k (by rw [pageSize_eq]; omega)

/-- The tables of file.c say what their handles say. -/
theorem FilesOk.same_tables (h : FilesOk s S) (h' : FilesOk s' S) (hF : s'.fcbTable = s.fcbTable)
    (hD : s'.fileDescTable = s.fileDescTable) :
    s'.files = s.files ∧ (∀ d < descLimit, s'.descLink d = s.descLink d) ∧
      (∀ d < descLimit, s'.descCount d = s.descCount d) ∧
      ∀ c < fcbLimit, s'.blockCount c = s.blockCount c := by
  refine ⟨?_, fun d hd => ?_, fun d hd => ?_, fun c hc => ?_⟩
  · funext i fd
    rw [h.rep.held i fd, h'.rep.held i fd, hD]
  · rw [h.descLink hd, h'.descLink hd, hF]
  · rw [h.descCount hd, h'.descCount hd]
  · rw [h.blockCount hc, h'.blockCount hc]

/-- Once the read has not failed, `exec` returns 0, whatever was read: the descriptor is given back
    and the frame made. -/
theorem Cleared.finishes (h : Cleared K pool free a S s name c n d e s₁ s₂)
    (hw : Whole K pool free a S s) (hc : a.current ≠ 0) {v : Int} {s₃ : Kernel}
    (hread : readFile K false s.pc.currentProcess n.val 0x400000 (entrySize s.ram.mem c) s₂ = .ok v s₃)
    (hv : v ≠ -1) :
    ∃ s', Os64.exec K s.pc.currentProcess name s = .ok (some 0) s' ∧ s'.pc = s.pc ∧ FilesOk s' S ∧
      s'.frame s.pc.currentProcess = entryTrap ∧ ∀ va, InUser va →
        s'.userByte s.pc.currentProcess va = s₃.userByte s.pc.currentProcess va := by
  obtain ⟨os, hw₂⟩ := h.whole
  have hl₂ := hw₂.live hc
  have hsize : entrySize s.ram.mem c < 2 ^ 32 := load_lt _ _ _
  have hinto : Into false 0x400000 (entrySize s.ram.mem c) :=
    ⟨by decide, fun hf => (Bool.false_ne_true hf).elim⟩
  have hread' : readFile K false s₂.pc.currentProcess n.val 0x400000 (entrySize s.ram.mem c) s₂ =
      .ok v s₃ := by
    rw [h.pc]
    exact hread
  have hf₃ := ((readFile_ends hw₂.files hw₂.mem hl₂ hsize fun _ => Or.inr hinto).ok hread').1
  have hwork₃ := readFile_worked hw₂ hl₂ hsize (fun _ => Or.inr hinto) hread'
  obtain ⟨os₃, _, hw₃'⟩ := hwork₃.whole
  have hw₃ : Whole K pool free { a with hist := a.hist ++ os ++ os₃ }
      (S.opened (s.pc.currentProcess, n) d e) s₃ := ⟨hw₃'.rep, hw₃'.sane, hw₃'.mem, hf₃⟩
  have hpc₃ : s₃.pc = s.pc := hwork₃.pc.trans h.pc
  have hl₃ := hw₃.live hc
  -- the descriptor is given back
  have hheld : (S.opened (s.pc.currentProcess, n) d e).held (s.pc.currentProcess, n) = some d :=
    Function.update_self _ _ _
  have hobj : (S.opened (s.pc.currentProcess, n) d e).object d = some e := Function.update_self _ _ _
  rw [hpc₃] at hl₃
  obtain ⟨s₄, hclose, hf₄, hcounted⟩ := closeFile_run hw₃.files hw₃.mem hl₃ hheld hobj
  rw [hw.files.ok.opened_dropped h.held h.unused] at hf₄
  have hq : Quiet false s₃ s₄ := .of_low (quiet_closeFile _ _) hclose
  have hclose' : closeFile s₃.pc.currentProcess n.val s₃ = .ok () s₄ := by rw [hpc₃]; exact hclose
  have hwork := closeFile_worked hw₃ (hw₃.live hc) hclose'
  obtain ⟨os', _, hw₄'⟩ := hwork.whole
  have hw₄ : Whole K pool free { a with hist := a.hist ++ os ++ os₃ ++ os' } S s₄ :=
    ⟨hw₄'.rep, hw₄'.sane, hw₄'.mem, hf₄⟩
  have hpc₄ : s₄.pc = s.pc := hwork.pc.trans hpc₃
  have hl₄ := hw₄.live hc
  have hkeep : ∀ va, InUser va →
      s₄.userByte s.pc.currentProcess va = s₃.userByte s.pc.currentProcess va := fun va hva =>
    hw₃.mem.userByte_off (hq.still hcounted.wrote) hl₃ (fun p hp => Kernel.tablePages_data hp)
      (hw₃.mem.userPage_off_tables hl₃).2 hva
  -- and the frame made
  obtain ⟨r, hframe, hmem, hwrote⟩ := entryFrame_worked hw₄ hl₄
  have hcur₄ : s₄.pc.currentProcess = s.pc.currentProcess := by rw [hpc₄]
  rw [hcur₄] at hframe hmem hwrote hl₄
  have hw₅ := (hw₄.stack hl₄ hwrote).1
  have huser : ∀ va, InUser va → ({ s₄ with ram := r } : Kernel).userByte s.pc.currentProcess va =
      s₃.userByte s.pc.currentProcess va := fun va hva =>
    (hw₄.userByte_stack hl₄ hwrote hva).trans (hkeep va hva)
  have hexec : Os64.exec K s.pc.currentProcess name s = .ok (some 0) { s₄ with ram := r } := by
    rw [h.exec, bind_run (low_run hread), if_neg hv, bind_run (low_run hclose),
      bind_run (get_run s₄)]
    have hlast : (do
        (do
          low (ram (kmemset (s₄.processTable s.pc.currentProcess).tf 0 trapFrameSize))
          low (ram (setEntryFrame (s₄.processTable s.pc.currentProcess).tf)) : KernelM Unit)
        return some 0 : KernelM (Option Int)) s₄ = .ok (some 0) { s₄ with ram := r } := by
      rw [bind_run hframe]
      rfl
    simp only [bind_assoc] at hlast
    exact hlast
  refine ⟨_, hexec, hpc₄, hw₅.files, ?_, huser⟩
  change frameAt r.mem (s₄.frameAddr s.pc.currentProcess) = entryTrap
  rw [hmem]
  exact frameAt_entry _ _

/-- The program of a file that fits starts. -/
theorem Cleared.starts (h : Cleared K pool free a S s name c n d e s₁ s₂)
    (hw : Whole K pool free a S s) (hc : a.current ≠ 0) (hfit : FitsPage s c) :
    ∃ s', Os64.exec K s.pc.currentProcess name s = .ok (some 0) s' ∧ Started s c s' := by
  obtain ⟨s₃, hread, hbytes, hzeros⟩ := h.reads hc hfit
  obtain ⟨s', hexec, hpc, hfiles, hframe, huser⟩ := h.finishes hw hc hread (by omega)
  have hkept := exec_kept hw hc hexec
  obtain ⟨hsame, hlinks, hhandles, hblocks⟩ :=
    hw.files.same_tables hfiles hkept.fcbTable hkept.fileDescTable
  have hsize := hfit.size
  rw [pageSize_eq] at hsize
  refine ⟨s', hexec, hfit.size, hfit.onVolume.covers, fun k hk => ?_, fun k hk hkp => ?_, hframe, hpc,
    hsame, hlinks, hhandles, hblocks⟩
  · rw [huser _ ⟨by omega, by omega⟩]
    exact hbytes k hk
  · have hkp' := hkp
    rw [pageSize_eq] at hkp'
    rw [huser _ ⟨by omega, by omega⟩]
    exact hzeros k hk hkp

/-! ## Every exec -/

/-- A name that is not found leads to `exit`. -/
theorem exec_refused (h : Whole K pool free a S s) (hc : a.current ≠ 0)
    (hvol : VolumeMapped s.ram.mem p) (ht : Text loadVirt s name p) (hno : ¬ s.Finds p) :
    Os64.exec K s.pc.currentProcess name s = (do
      Os64.exit
      return none : KernelM (Option Int)) s := by
  have hl := h.live hc
  obtain ⟨v, t, hsearch'⟩ := searchFile_total hvol.root ht
  obtain ⟨hts, hfound⟩ := searchFile_found ht hsearch'
  have hsearch : searchFile name s = .ok v s := by
    rw [hts] at hsearch'
    exact hsearch'
  have hopen : openFile s.pc.currentProcess name s = .ok (-1) s := by
    have hends := openFile_ends h.files h.mem hl name
    cases hrun : openFile s.pc.currentProcess name s with
    | ok w s' =>
        rcases hends.ok hrun with ⟨hw, hs', -⟩ | ⟨fd, d, e, hw, -⟩
        · rw [hw, hs']
        · obtain ⟨_, e', -, -, hcan, hshort, hfirst⟩ :=
            openFile_entry h.mem h.files hl ht hrun (by omega)
          exact absurd ⟨hcan, hshort, e', hfirst⟩ hno
    | error e s' =>
        obtain ⟨hcan, hall⟩ := hends.error hrun
        rcases hfound with ⟨hshort, hfirst⟩ | ⟨hnone, -⟩
        · exact absurd ⟨hcan, hshort, _, hfirst⟩ hno
        · exact absurd hnone (hall _ hsearch).1
  unfold Os64.exec
  rw [bind_run (low_run hopen), if_pos rfl]

theorem exec_inside (h : Whole K pool free a S s) (hc : a.current ≠ 0) : LoadsInside K s name := by
  have hl := h.live hc
  have hspace : ∀ {fd s₁}, openFile s.pc.currentProcess name s = .ok fd s₁ →
      Space K s₁.ram.mem s₁.cr3 (s.userPage s.pc.currentProcess) := by
    intro fd s₁ hopen
    have hwork := openFile_worked h hl hopen
    obtain ⟨os, S₁, h₁⟩ := hwork.whole
    have hsp := h₁.mem.currentSpace (h₁.live hc)
    have huser : s₁.userPage s.pc.currentProcess = s.userPage s.pc.currentProcess := by
      rcases (openFile_ends h.files h.mem hl name).ok hopen with ⟨-, rfl, -⟩ | ⟨fd, d, e, -, -, -, -, ho, -⟩
      · rfl
      · have hq : Quiet false s s₁ := .of_low (quiet_openFile _ _) hopen
        exact (h.mem.still (hq.still ho.wrote) fun p hp => Kernel.tablePages_data hp).userPage _ hl
    rw [hwork.pc, huser] at hsp
    exact hsp
  have hoff : ∀ {t t' : Kernel}, Pokes [s.userPage s.pc.currentProcess] InUser t t' →
      ∀ x, ¬ InPage (s.userPage s.pc.currentProcess) x → t'.ram.mem x = t.ram.mem x := by
    intro t t' hp x hx
    refine hp.wrote.mem x fun q hq => ?_
    rw [List.mem_singleton.mp hq]
    exact hx
  refine ⟨fun fd s₁ hopen _ => ?_, fun fd s₁ u s₂ size hopen _ hclear hsize cluster => ?_⟩
  · exact (clearUserPage_ends (hspace hopen) InUser).mono (fun _ _ hp => hoff hp) fun _ _ hp => hoff hp
  · have hpokes := (clearUserPage_ends (hspace hopen) InUser).ok hclear
    have hinto : Into false 0x400000 size := ⟨by decide, fun hf => (Bool.false_ne_true hf).elim⟩
    exact (readRawData_ends (hpokes.space (hspace hopen)) hinto (getFileSize_lt hsize)).mono
      (fun _ _ hp => hoff hp) fun _ _ hp => hoff hp

/-- `exec` is all or nothing exactly when the file is not found and the caller can exit, or the
    file is found and fits. -/
theorem Whole.exec_iff (h : Whole K pool free a S s) (hent : EntriesOk s) (hc : a.current ≠ 0)
    (hvol : VolumeMapped s.ram.mem p) (ht : Text loadVirt s name p) :
    AllOrNothing K s name p ↔
      ¬ s.Finds p ∧ s.CanLeave ∨ s.Finds p ∧ Fits s.ram.mem p := by
  by_cases hfind : s.Finds p
  · obtain ⟨c, n, d, e, s₁, s₂, hfirst, hcl⟩ := exec_opens h hent hc hvol ht hfind
    constructor
    · rintro ⟨⟨v, s', hrun, hcase⟩, -⟩
      obtain ⟨rfl, hcs⟩ := hcl.returns hc hvol.mounted hrun
      obtain ⟨-, c', hfirst', hstart⟩ := hcase.resolve_left fun hno => absurd hno.1 nofun
      exact Or.inr ⟨hfind, hcs, c', hfirst', hstart.size, hstart.covers⟩
    · rintro (⟨hno, -⟩ | ⟨-, hcs, c', hfirst', hsize, hcovers⟩)
      · exact absurd hfind hno
      · obtain rfl := hfirst'.unique hfirst
        have hmapped : OnVolume s.ram.mem (entryCluster s.ram.mem c') (entrySize s.ram.mem c') :=
          ⟨hcovers, fun k hk => hvol.chain c' hfirst k hk fun j hj =>
            hcovers j (Nat.lt_of_le_of_lt (Nat.mul_le_mul_right _ hj) hk)⟩
        obtain ⟨s', hrun, hstart⟩ := hcl.starts h hc ⟨hvol.mounted, hcs, hsize, hmapped⟩
        exact ⟨⟨some 0, s', hrun, Or.inr ⟨rfl, c', hfirst, hstart⟩⟩, exec_inside h hc⟩
  · have hrefused := exec_refused h hc hvol ht hfind
    constructor
    · rintro ⟨⟨v, s', hrun, -⟩, -⟩
      rw [hrefused] at hrun
      obtain ⟨_, t, hexit, -⟩ := bind_ok.mp hrun
      exact Or.inl ⟨hfind, (exit_runs_iff h.rep h.sane).mp ⟨t, hexit⟩⟩
    · rintro (⟨-, hcan⟩ | ⟨hyes, -⟩)
      · obtain ⟨s', hexit⟩ := (exit_runs_iff h.rep h.sane).mpr hcan
        refine ⟨⟨none, s', ?_, Or.inl ⟨rfl, exit_gone h.rep h.sane hc hexit⟩⟩, exec_inside h hc⟩
        rw [hrefused, bind_run hexit]
        rfl
      · exact absurd hyes hfind

end Exec

/-! ## Runs -/

theorem run_exec_iff {m : Mem} {r : Ram} {pool : List Nat} {s₀ s s₁ : Kernel} (hbios : BiosOk m)
    (hinit : initMemory K (bootKernel m).ram = .ok () r) (hpool : FreeList K r pool)
    (h₀ : kMain K (bootKernel m) = .ok () s₀) (h : Run K Confined s₀ s) {f : TrapFrame}
    (he : Enabled s (.syscall f)) (hpush : pushFrame f s = .ok () s₁) {name : Nat} {p : List UInt8}
    (ht : Text loadVirt s₁ name p) (hvol : VolumeMapped s₁.ram.mem p) :
    AllOrNothing K s₁ name p ↔
      ¬ s₁.Finds p ∧ s₁.CanLeave ∨ s₁.Finds p ∧ Fits s₁.ram.mem p := by
  obtain ⟨free₀, hw₀⟩ := boot_whole hbios hinit hpool h₀
  obtain ⟨free, a, S, hw⟩ := run_whole hw₀ (fun _ _ hconf => hconf) h
  obtain ⟨hw₁, -, -⟩ := pushFrame_after hw hpush
  have hc : a.current ≠ 0 := hw.rep.current ▸ he.2.1
  have hsame := pushFrame_same hw hpush
  have hm : Mounted s.ram.mem := hvol.mounted.congr fun x hx => (hsame.image x hx).symm
  have hkept : Kept (fun _ => False) s s₁ := hsame.settled.kept
  have hent := (run_entries hw₀ h hm).kept hkept hm
  exact hw₁.exec_iff hent hc hvol ht

/-- A disk whose chains have one cluster. -/
structure OneCluster (m : Mem) (size : Nat) : Prop where
  disk : Disk m 0x20 size
  clusterSize : (volumeAt m).clusterSize = 512
  next : (volumeAt m).next 2 = 0xffff
  below : volumeStart m + clusterStart m 2 + 512 ≤ 2 ^ 30

section OneCluster

variable {m m' : Mem} {size : Nat}

theorem OneCluster.congr (h : OneCluster m size) (hsame : ∀ x, fsBase ≤ x → m' x = m x) :
    OneCluster m' size := by
  obtain ⟨hstart, hvol⟩ := volumeAt_congr hsame h.disk.mounted
  refine ⟨h.disk.congr hsame, hvol ▸ h.clusterSize, hvol ▸ h.next, ?_⟩
  rw [hstart, clusterStart_congr h.disk.mounted hsame]
  exact h.below

theorem OneCluster.second (h : OneCluster m size) : ¬ Volume.IsData ((volumeAt m).cluster 2 1) := by
  rw [Volume.cluster_succ, Volume.cluster_zero, h.next]
  decide

theorem OneCluster.mapped (h : OneCluster m size) : VolumeMapped m diskPath where
  mounted := h.disk.mounted
  root := h.disk.root
  chain c hc k hk hdata := by
    obtain rfl := hc.unique h.disk.first
    rw [h.disk.cluster] at hdata ⊢
    rw [h.clusterSize]
    rcases Nat.eq_zero_or_pos k with rfl | hpos
    · exact h.below
    · exact absurd (hdata 1 hpos) h.second

/-- A read of more than the cluster copies the cluster, and says so. -/
theorem OneCluster.readRawData {s : Kernel} {page k : Nat} (h : OneCluster s.ram.mem size)
    (hsp : Space K s.ram.mem s.cr3 page) (hk : 512 < k) (hk32 : k < 2 ^ 32) :
    ∃ s', Os64.readRawData K false 2 0x400000 0 k s = .ok 512 s' := by
  have hm := h.disk.mounted
  have hstart := hm.start
  have hbelow := h.below
  have hcs : (volumeAt s.ram.mem).clusterSize ≠ 0 := by
    rw [h.clusterSize]
    decide
  have hplan : (volumeAt s.ram.mem).readRawData (2 ^ 32) 2 0 k =
      ([⟨0, (volumeAt s.ram.mem).offset 2, 512⟩], .ok 512) := by
    have hfirst : ¬ k ≤ u32 (0 + 512) := by
      change ¬ k ≤ 512
      omega
    unfold Volume.readRawData
    rw [Nat.zero_div, Nat.zero_mod]
    change (volumeAt s.ram.mem).readClusters k (2 ^ 32 - 2 + 1 + 1) 2 0 0 = _
    unfold Volume.readClusters
    rw [if_pos ⟨by omega, by decide⟩, if_pos le_rfl, h.clusterSize, if_neg hfirst, h.next]
    unfold Volume.readClusters
    rw [if_neg fun hn => absurd hn.2 (by decide)]
    rfl
  have hrun : Os64.readRawData K false 2 0x400000 0 k s = _ :=
    readRawData_plan hsp hm hcs (by decide) hk32 (by rw [kernelBase_eq]; omega)
  rw [hplan] at hrun
  have hmove : moveCopies K false 0x400000 (volumeStart s.ram.mem + kernelBase)
      [⟨0, (volumeAt s.ram.mem).offset 2, 512⟩] s = .ok () (s.moved false 0x400000 page
        (volumeStart s.ram.mem) [⟨0, (volumeAt s.ram.mem).offset 2, 512⟩]) := by
    refine moveCopies_run hsp rfl (fun c hc => ?_) fun c hc j hj => ?_
    · rw [List.mem_singleton.mp hc]
      dsimp only
      omega
    · rw [List.mem_singleton.mp hc] at hj ⊢
      dsimp only at hj ⊢
      rw [offset_eq (by omega)]
      omega
  exact ⟨_, hrun.trans (bind_run hmove)⟩

end OneCluster

theorem oneCluster_file : OneCluster (diskMem 0x20 512) 512 where
  disk := disk_file
  clusterSize := by decide +kernel
  next := by decide +kernel
  below := by decide +kernel

/-- A file of two clusters' size, with a chain of one. -/
theorem oneCluster_short : OneCluster (diskMem 0x20 1024) 1024 where
  disk := {
    mounted := by decide +kernel
    root := ⟨by decide +kernel, by decide +kernel⟩
    first := by
      refine ⟨by decide +kernel, ⟨⟨by decide +kernel, by decide +kernel⟩, by decide +kernel,
        by decide +kernel⟩, fun j hj => absurd hj (Nat.not_lt_zero j)⟩
    attributes := by decide +kernel
    size := by decide +kernel
    cluster := by decide +kernel }
  clusterSize := by decide +kernel
  next := by decide +kernel
  below := by decide +kernel

/-- The first program is about to call `exec` with the name of the file. -/
theorem exec_named {size : Nat} (h : OneCluster (diskMem 0x20 size) size) :
    ∃ pool free s s₁ name, At image (diskMem 0x20 size) Confined pool free userSched noHandles s ∧
      Enabled s (.syscall (s.callFrame 14 name 0x41 0 0)) ∧
      Calling image pool free userSched noHandles (s.callFrame 14 name 0x41 0 0) s s₁ ∧
      arg (s.callFrame 14 name 0x41 0 0).rsi 0 s₁ = .ok name s₁ ∧ Text loadVirt s₁ name diskPath ∧
      OneCluster s₁.ram.mem size := by
  obtain ⟨pool, free, s, s₁, r, he, hcall, harg, ht, -, hoff, -⟩ :=
    file_named (fun _ _ hconf => hconf) 14 (by decide) h.disk
  exact ⟨pool, free, s, s₁, _, r, he, hcall, harg, ht,
    h.congr fun x hx => hoff x fun _ hp => outside_pages hp (Or.inr hx)⟩

theorem run_exec_iff_file : ∃ s s₁ f name, Enabled s (.syscall f) ∧ pushFrame f s = .ok () s₁ ∧
    Text loadVirt s₁ name diskPath ∧ Fits s₁.ram.mem diskPath ∧
      (AllOrNothing image s₁ name diskPath ↔
        ¬ s₁.Finds diskPath ∧ s₁.CanLeave ∨ s₁.Finds diskPath ∧ Fits s₁.ram.mem diskPath) := by
  obtain ⟨pool, free, s, s₁, name, r, he, hcall, -, ht, hone⟩ := exec_named oneCluster_file
  obtain ⟨s₀, h₀, hrun⟩ := r.reached
  obtain ⟨r₀, pool', hinit, hfl, -⟩ := machine_pool (n := 20) (by decide) (diskWords 0x20 512)
  refine ⟨s, s₁, _, name, he, hcall.push, ht, ⟨?_, 0, hone.disk.first, ?_, ?_⟩,
    run_exec_iff (machine_bios (by decide)) hinit hfl h₀ hrun he hcall.push ht hone.mapped⟩
  · rw [hone.clusterSize]
    decide
  · rw [hone.disk.size]
    decide
  · intro k hk
    rw [hone.clusterSize, hone.disk.size] at hk
    have h0 : k = 0 := by omega
    rw [h0, Volume.cluster_zero, hone.disk.cluster]
    decide

/-- `exec` of a file whose chain is shorter than its size starts half of it. -/
theorem exec_half_loaded : ∃ s f s₁ name, Reached image (diskMem 0x20 1024) Confined s ∧
    Enabled s (.syscall f) ∧ f.rax = 14 ∧ pushFrame f s = .ok () s₁ ∧
      arg f.rsi 0 s₁ = .ok name s₁ ∧ Text loadVirt s₁ name diskPath ∧
        (∃ s', exec image s₁.pc.currentProcess name s₁ = .ok (some 0) s') ∧
          ¬ AllOrNothing image s₁ name diskPath := by
  obtain ⟨pool, free, s, s₁, name, r, he, hcall, harg, ht, hone⟩ := exec_named oneCluster_short
  have hc : userSched.current ≠ 0 := by decide
  have hw := hcall.whole
  have hfind : s₁.Finds diskPath := ⟨canOpen_none hw _, by decide, 0, hone.disk.first⟩
  have hshort : ¬ Fits s₁.ram.mem diskPath := by
    rintro ⟨-, c, hfirst, -, hcovers⟩
    obtain rfl := hfirst.unique hone.disk.first
    rw [hone.disk.cluster, hone.disk.size] at hcovers
    refine hone.second (hcovers 1 ?_)
    rw [hone.clusterSize]
    decide
  refine ⟨s, _, s₁, name, r.reached, he, rfl, hcall.push, harg, ht, ?_, fun hall => ?_⟩
  · obtain ⟨c, n, d, e, t₁, t₂, hfirst, hcl⟩ :=
      exec_opens hw hw.entries_none hc hone.mapped ht hfind
    obtain rfl := hfirst.unique hone.disk.first
    obtain ⟨os, hw₂⟩ := hcl.whole
    obtain ⟨t₃, hread⟩ := (hone.congr hcl.image).readRawData (k := 1024)
      (hw₂.mem.currentSpace (hw₂.live hc)) (by decide) (by decide)
    have hread' : Os64.readRawData image false (entryCluster s₁.ram.mem 0) 0x400000 0
        (entrySize s₁.ram.mem 0) t₂ = .ok 512 t₃ := by
      rw [hone.disk.cluster, hone.disk.size]
      exact hread
    obtain ⟨t, hfile⟩ := hcl.passes hread' (by decide)
    obtain ⟨s', hexec, -⟩ := hcl.finishes hw hc hfile (by decide)
    exact ⟨s', hexec⟩
  · rcases (hw.exec_iff hw.entries_none hc hone.mapped ht).mp hall with ⟨hno, -⟩ | ⟨-, hfits⟩
    · exact hno hfind
    · exact hshort hfits

end Os64
