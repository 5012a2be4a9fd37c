/-
  open_file and the kind of the entry that it opens.

  `search_file` passes over empty, deleted and long-name entries, and over nothing else; `ls` also
  passes over volume labels, and prints a directory as one.

  * `openFile_entry`: the entry behind a new descriptor is the one that the path names.
  * `openFile_regular`: so it is a file if that entry is.
  * `openFile_opens`: and nothing else keeps the call from opening it.
-/
import Os64.Files.Names
import Os64.Files.Reading

namespace Os64

open Os64.Lib

/-- An entry in use that is neither a volume label nor a directory. -/
structure Directory.Regular (D : Directory) (i : Nat) : Prop where
  live : D.Live i
  label : D.attributes i &&& 0x08 = 0
  directory : D.attributes i &&& 0x10 = 0

/-- `ls` prints the entry, and with a NO in the column for directories. -/
structure Directory.ListedAsFile (D : Directory) (i : Nat) : Prop where
  shown : ¬ (((D.base i).headD 0).toNat = entryEmpty ∨ ((D.base i).headD 0).toNat = entryDeleted ∨
    D.attributes i = 0xf ∨ D.attributes i = 8)
  file : D.attributes i &&& 0x10 ≠ 0x10

theorem Directory.Regular.listed {D : Directory} {i : Nat} (h : D.Regular i) :
    D.ListedAsFile i := by
  refine ⟨fun hs => ?_, by rw [h.directory]; decide⟩
  rcases hs with he | hd | hl | hv
  · exact h.live.1 (Or.inl he)
  · exact h.live.1 (Or.inr hd)
  · exact h.live.2 hl
  · have hlabel := h.label
    rw [hv] at hlabel
    exact absurd hlabel (by decide)

theorem Directory.First.unique {D : Directory} {name ext : List UInt8} {i j : Nat}
    (hi : D.First name ext i) (hj : D.First name ext j) : i = j := by
  rcases Nat.lt_trichotomy i j with h | h | h
  · exact absurd hi.2.1 (hj.2.2 i h)
  · exact h
  · exact absurd hj.2.1 (hi.2.2 j h)

variable {K : Image} {pool free : List Nat} {s s' : Kernel} {S : Handles} {path : Nat}
  {p : List UInt8}

/-- The control block behind descriptor `fd` of the caller is that of entry `c`. -/
def Kernel.Behind (s : Kernel) (fd : Fin 100) (c : Nat) : Prop :=
  s.fileFcb (s.desc fd) = fcbPtr (v2p s.fcbTable) (some c)

/-- Whatever the call opens for the caller is a file, and `ls` lists it as one. -/
def OpensFiles (s : Kernel) (path : Nat) : Prop :=
  ∀ v s', openFile s.pc.currentProcess path s = .ok v s' → v ≠ -1 →
    ∃ fd : Fin 100, ∃ c, v = fd.val ∧ s'.Behind fd c ∧ (kernelDirectory s.ram.mem).Regular c ∧
      (kernelDirectory s.ram.mem).ListedAsFile c

/-- If the caller has room for a descriptor and the path names an entry, that one is neither a
    volume label nor a directory. -/
def NamesFile (s : Kernel) (p : List UInt8) : Prop :=
  s.CanOpen s.pc.currentProcess → Short p →
    ∀ c, (kernelDirectory s.ram.mem).First (fields p).1 (fields p).2 c →
      (kernelDirectory s.ram.mem).attributes c &&& 0x08 = 0 ∧
        (kernelDirectory s.ram.mem).attributes c &&& 0x10 = 0

/-- The entry behind a new descriptor is the first one with the name that the path spells. -/
theorem openFile_entry (hm : MemOk K pool free s) (hf : FilesOk s S)
    (hl : s.Live s.pc.currentProcess) (ht : Text loadVirt s path p) {v : Int}
    (hrun : openFile s.pc.currentProcess path s = .ok v s') (hv : v ≠ -1) :
    ∃ fd : Fin 100, ∃ c, v = fd.val ∧ s'.Behind fd c ∧ s.CanOpen s.pc.currentProcess ∧ Short p ∧
      (kernelDirectory s.ram.mem).First (fields p).1 (fields p).2 c := by
  have hq : Quiet false s s' := ((quiet_openFile _ path).ends s).ok hrun
  rcases (openFile_ends hf hm hl path).ok hrun with ⟨hno, -⟩ |
    ⟨fd, d, c, hfd, -, -, hf', -, hcan, hsearch, hne⟩
  · exact absurd hno hv
  · obtain ⟨-, hfound⟩ := searchFile_found ht hsearch
    refine ⟨fd, c, hfd, ?_, hcan, ?_⟩
    · have hheld : (S.opened (s.pc.currentProcess, fd) d c).held (s.pc.currentProcess, fd) = some d :=
        Function.update_self _ _ _
      have hobj : (S.opened (s.pc.currentProcess, fd) d c).object d = some c :=
        Function.update_self _ _ _
      have hd := hf'.rep.heldLt _ d hheld
      have hptr : s'.desc fd = descPtr (v2p s'.fileDescTable) (some d) := by
        have := hf'.rep.held s.pc.currentProcess fd
        rw [hheld] at this
        unfold Kernel.desc
        rw [hq.pc]
        exact this
      have hphys := (descField (o := 0) hm.tablePages.desc hd (n := 8) (by omega) (by omega) s'.ram).2
      rw [Nat.add_zero, Nat.add_zero, ← hq.fileDescTable] at hphys
      have hobject := hf'.rep.object d hd
      rw [hobj] at hobject
      unfold Kernel.Behind Kernel.fileFcb descFcb
      rw [hptr, hphys, hobject]
    · rcases hfound with h | h
      · exact h
      · exact absurd h.1 hne

/-- A path that names no label and no directory opens files only. -/
theorem openFile_regular (hm : MemOk K pool free s) (hf : FilesOk s S)
    (hl : s.Live s.pc.currentProcess) (ht : Text loadVirt s path p) (hn : NamesFile s p) :
    OpensFiles s path := by
  intro v s' hrun hv
  obtain ⟨fd, c, hfd, hbehind, hcan, hs, hc⟩ := openFile_entry hm hf hl ht hrun hv
  obtain ⟨hlabel, hdir⟩ := hn hcan hs c hc
  have hreg : (kernelDirectory s.ram.mem).Regular c := ⟨hc.2.1.1, hlabel, hdir⟩
  exact ⟨fd, c, hfd, hbehind, hreg, hreg.listed⟩

/-- The entry that the path names is opened, whatever its kind. -/
theorem openFile_opens (hm : MemOk K pool free s) (hf : FilesOk s S)
    (hl : s.Live s.pc.currentProcess) (hmount : Mounted s.ram.mem) (hroot : RootMapped s.ram.mem)
    (ht : Text loadVirt s path p) (hcan : s.CanOpen s.pc.currentProcess) (hs : Short p) {c : Nat}
    (hc : (kernelDirectory s.ram.mem).First (fields p).1 (fields p).2 c) :
    ∃ v s', openFile s.pc.currentProcess path s = .ok v s' ∧ v ≠ -1 := by
  have hcount : c < bpb s.ram.mem 17 2 := hc.1
  have hlt : c < 0xffffffff := Nat.lt_trans (Nat.lt_trans hcount (rootEntryCount_lt _)) (by decide)
  obtain ⟨v, s₁, hsearch⟩ := searchFile_total hroot ht
  obtain ⟨hs₁, hfound⟩ := searchFile_found ht hsearch
  rw [hs₁] at hsearch
  have hv : v = c := by
    rcases hfound with h | h
    · exact h.2.unique hc
    · exact absurd hc.2.1 (h.2 hs c hc.1)
  rw [hv] at hsearch
  have hends := openFile_ends hf hm hl path
  cases hrun : openFile s.pc.currentProcess path s with
  | error e s₂ =>
      refine absurd ⟨hmount, ?_⟩ ((hends.error hrun).2 c hsearch).2
      have hend := hroot.root
      unfold dirEntrySize at *
      omega
  | ok v s₂ =>
      refine ⟨v, s₂, rfl, fun hneg => ?_⟩
      rcases hends.ok hrun with ⟨-, -, hno⟩ | ⟨fd, -, -, hfd, -⟩
      · have := (EStateM.Result.ok.inj (hsearch.symm.trans (hno hcan))).1
        omega
      · omega

/-- When the call opens files only, the path names no label and no directory. -/
theorem OpensFiles.names (h : OpensFiles s path) (hm : MemOk K pool free s) (hf : FilesOk s S)
    (hl : s.Live s.pc.currentProcess) (hmount : Mounted s.ram.mem) (hroot : RootMapped s.ram.mem)
    (ht : Text loadVirt s path p) : NamesFile s p := by
  intro hcan hs c hc
  obtain ⟨v, s', hrun, hv⟩ := openFile_opens hm hf hl hmount hroot ht hcan hs hc
  obtain ⟨fd, c', hfd, hbehind, -, -, hc'⟩ := openFile_entry hm hf hl ht hrun hv
  obtain ⟨fd', c'', hfd', hbehind', hreg, -⟩ := h v s' hrun hv
  have hsame : fd' = fd := Fin.ext (by omega)
  rw [hsame] at hbehind'
  have hptr : fcbPtr (v2p s'.fcbTable) (some c'') = fcbPtr (v2p s'.fcbTable) (some c') :=
    hbehind'.symm.trans hbehind
  have hcc : c'' = c' := by
    unfold fcbPtr fcbSize at hptr
    dsimp only at hptr
    omega
  rw [hcc, hc'.unique hc] at hreg
  exact ⟨hreg.label, hreg.directory⟩

end Os64
