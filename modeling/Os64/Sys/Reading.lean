/-
  Reads of a shared file.

  * `ReadCall`: a read_file call, with its arguments as the kernel finds them.
  * `readStep_slice`: such a call inside the file, into the caller's user page, succeeds, returns the
    size asked for and puts the next bytes of the file in the buffer.
-/
import Os64.Sys.Kept

namespace Os64

open Os64.Lib

variable {K : Image}

/-! ## A call -/

/-- The current process calls read_file with number `n`, and `s₁` is the state in which the call
    begins. -/
structure ReadCall (s : Kernel) (f : TrapFrame) (s₁ : Kernel) (n : Fin 100) (buffer size : Nat) :
    Prop where
  rax : f.rax = 10
  rdi : f.rdi < 2 ^ 63
  push : pushFrame f s = .ok () s₁
  fd : ∃ w, arg f.rsi 0 s₁ = .ok w s₁ ∧ i32 w = n.val
  buffer : arg f.rsi 1 s₁ = .ok buffer s₁
  size : ∃ w, arg f.rsi 2 s₁ = .ok w s₁ ∧ u32 w = size

/-- The file behind a descriptor is on the volume, all of it. -/
structure Readable (s : Kernel) (desc : Nat) : Prop where
  mounted : Mounted s.ram.mem
  clusters : (volumeAt s.ram.mem).clusterSize ≠ 0
  onVolume : OnVolume s.ram.mem (s.descCluster desc) (s.descSize desc)
  small : s.descSize desc + (volumeAt s.ram.mem).clusterSize ≤ 2 ^ 32

theorem Readable.same {s s' : Kernel} {desc : Nat} (h : Readable s desc) (hs : SameFile s s' desc)
    (hm : ∀ x, fsBase ≤ x → s'.ram.mem x = s.ram.mem x) : Readable s' desc := by
  have hvol := (volumeAt_congr hm h.mounted).2
  refine ⟨h.mounted.congr hm, ?_, ?_, ?_⟩
  · rw [hvol]
    exact h.clusters
  · rw [hs.cluster, hs.size]
    exact h.onVolume.congr h.mounted hm
  · rw [hvol, hs.size]
    exact h.small

/-- What the process sees in the `n` bytes from `va` on. -/
def Kernel.userBytes (s : Kernel) (i : Slot) (va n : Nat) : List UInt8 :=
  (List.range n).map fun k => s.userByte i (va + k)

/-- Bytes `p`, …, `p + n - 1` of the file in the clusters from `i` on. -/
def fileBytes (m : Mem) (i p n : Nat) : List UInt8 := (List.range n).map fun k => fileByte m i (p + k)

theorem fileBytes_append (m : Mem) (i p a b : Nat) :
    fileBytes m i p a ++ fileBytes m i (p + a) b = fileBytes m i p (a + b) := by
  unfold fileBytes
  rw [List.range_add, List.map_append, List.map_map]
  congr 1
  exact List.map_congr_left fun k _ => by rw [Function.comp_apply, Nat.add_assoc]

theorem fileBytes_length (m : Mem) (i p n : Nat) : (fileBytes m i p n).length = n := by
  unfold fileBytes
  rw [List.length_map, List.length_range]

section Call

variable {pool free : List Nat} {a : Sched} {S : Handles} {s s₁ s' : Kernel} {f : TrapFrame}
  {n : Fin 100} {buffer size : Nat}

/-- Stores to a process's kernel stack are not in its user page. -/
theorem Whole.userByte_stack (h : Whole K pool free a S s) {c : Slot} (hl : s.Live c) {r : Ram}
    (hw : Wrote [s.stackPage c] s.ram r) {va : Nat} (hva : InUser va) :
    ({ s with ram := r } : Kernel).userByte c va = s.userByte c va :=
  h.mem.userByte_off (still_ram hw) hl
    (fun _ hp => Or.inr (Or.inr ⟨c, hl, Or.inl (List.mem_singleton.mp hp)⟩))
    (fun hin => (h.mem.within hl).1 (List.mem_singleton.mp hin).symm) hva

/-- A read into the caller's user page keeps its bounds. -/
theorem ReadCall.confined (h : ReadCall s f s₁ n buffer size) (hin : InsideUser buffer size) :
    Confined s (.syscall f) := by
  intro s₂ hpush
  obtain ⟨-, rfl⟩ := EStateM.Result.ok.inj (h.push.symm.trans hpush)
  refine ⟨fun _ fd b w _ hb hw => Or.inr ?_, fun h15 => absurd (h.rax.symm.trans h15) (by decide)⟩
  obtain ⟨w', hw', hsize⟩ := h.size
  obtain ⟨rfl, -⟩ := EStateM.Result.ok.inj (h.buffer.symm.trans hb)
  obtain ⟨rfl, -⟩ := EStateM.Result.ok.inj (hw'.symm.trans hw)
  rw [hsize]
  exact hin

/-- A read inside the file. -/
theorem readStep_slice (h : Whole K pool free a S s) (he : Enabled s (.syscall f))
    (hr : ReadCall s f s₁ n buffer size) (hopen : s.desc n ≠ 0) (hread : Readable s (s.desc n))
    (h0 : 0 < size) (hfit : s.filePosition (s.desc n) + size ≤ s.descSize (s.desc n))
    (hlow : 0x400000 ≤ buffer) (hend : buffer + size ≤ 0x600000) :
    ∃ s' os, step K (.syscall f) s = .ok () s' ∧
      Whole K pool free { a with hist := a.hist ++ os } S s' ∧
      (s'.frame s.pc.currentProcess).rax = ofInt size ∧
      s'.userBytes s.pc.currentProcess buffer size =
        fileBytes s.ram.mem (s.descCluster (s.desc n)) (s.filePosition (s.desc n)) size ∧
      s'.filePosition (s.desc n) = s.filePosition (s.desc n) + size ∧
      s'.userPage s.pc.currentProcess = s.userPage s.pc.currentProcess := by
  have hc : a.current ≠ 0 := h.rep.current ▸ he.2.1
  have hrax := hr.rax
  obtain ⟨s₂, hcall⟩ := call_begins (K := K) h hc he.2.2 hr.rdi (by omega)
  obtain ⟨-, rfl⟩ := EStateM.Result.ok.inj (hcall.push.symm.trans hr.push)
  have h₁ := hcall.whole
  have hl₁ := h₁.live hc
  -- the tables at the start of the call
  have same₁ := pushFrame_same h hr.push
  have hcur : s₂.pc.currentProcess = s.pc.currentProcess := by rw [hcall.same]
  have hdesc : s₂.desc n = s.desc n := by
    rw [hcall.same]
    rfl
  obtain ⟨d, c, ho⟩ := h.files.openDesc h.mem hopen
  obtain ⟨d', c', ho₁⟩ := h₁.files.openDesc h₁.mem (show s₂.desc n ≠ 0 from hdesc ▸ hopen)
  obtain ⟨hfile, hpos⟩ := same₁.sameFile h.mem h₁.mem h.files ho
  have hread₁ := hread.same hfile same₁.image
  rw [← hdesc] at hread₁ hfile hpos
  -- the read
  obtain ⟨s₃, hrun, hf₃, hpokes, hslice⟩ := readFile_slice true h₁.mem
    h₁.files hl₁ ho₁ hread₁.mounted hread₁.clusters hread₁.onVolume hread₁.small h0
    (by rw [hpos, hfile.size, hdesc]; exact hfit) hlow hend
  have hwork := h₁.poked hl₁ hpokes (fun p hp => ?_) hf₃
  swap
  · rcases List.mem_cons.mp hp with he | hp
    · rw [he]
      exact List.mem_append_right _ List.mem_cons_self
    · exact tablePages_work (List.mem_cons_of_mem _ hp)
  obtain ⟨os, _, hw⟩ := hwork.whole
  have h₃ : Whole K pool free { a with hist := a.hist ++ os } S s₃ := ⟨hw.rep, hw.sane, hw.mem, hf₃⟩
  have hl₃ := h₃.live hc
  have hcur₃ : s₃.pc.currentProcess = s₂.pc.currentProcess := by rw [hwork.pc]
  have hdesc₃ : s₃.desc n = s₂.desc n := by
    rw [hslice.same]
    rfl
  -- its result
  have htf : s₂.trapFrame = s₃.trapFrame := by
    rw [hslice.same]
    rfl
  obtain ⟨s₄, hset, h₄, he₄, hw₄, hret⟩ := h₃.answer hc htf size
  have same₄ : TablesSame s₃ s₄ := he₄ ▸ h₃.mem.tablesSame_stack hl₃ hw₄
  obtain ⟨d₃, c₃, ho₃⟩ := h₃.files.openDesc h₃.mem
    (show s₃.desc n ≠ 0 by rw [hdesc₃, hdesc]; exact hopen)
  have hpos₄ := (same₄.sameFile h₃.mem h₄.mem h₃.files ho₃).2
  have hargs : systemCalls K f.rax f.rsi s₂ = .ok (some size) s₃ := by
    obtain ⟨fd, hfd, hn⟩ := hr.fd
    obtain ⟨w, hw, hsize⟩ := hr.size
    rw [hrax]
    change sysReadFile K f.rsi s₂ = _
    unfold sysReadFile
    rw [bind_run (get_run s₂), bind_run (low_run hfd), bind_run (low_run hr.buffer),
      bind_run (low_run hw), hn, hsize, bind_run (low_run hrun)]
    rfl
  refine ⟨s₄, os, ?_, h₄, ?_, ?_, ?_, ?_⟩
  · rw [hcall.run, bind_run hargs]
    exact hset
  · rw [← hcur, ← hcur₃]
    exact hret
  · unfold Kernel.userBytes fileBytes
    refine List.map_congr_left fun k hk => ?_
    have hk := List.mem_range.mp hk
    have hsame : s₄.userByte s₃.pc.currentProcess (buffer + k) =
        s₃.userByte s₃.pc.currentProcess (buffer + k) := by
      rw [he₄]
      exact h₃.userByte_stack hl₃ hw₄ ⟨by omega, by omega⟩
    rw [← hcur, ← hcur₃, hsame, hcur₃, hslice.bytes k hk, hpos, hfile.cluster,
      fileByte_congr hread.mounted same₁.image, hdesc]
  · rw [← hdesc, ← hdesc₃, hpos₄, hdesc₃, hslice.position, hpos]
  · have hl := h.live hc
    have st₁ : Still [s.stackPage s.pc.currentProcess] s s₂ := by
      obtain ⟨r, hp, -, hw⟩ := pushFrame_run h.mem hl f
      obtain ⟨-, rfl⟩ := EStateM.Result.ok.inj (hp.symm.trans hcall.push)
      exact still_ram hw
    have st₄ : Still [s₃.stackPage s₃.pc.currentProcess] s₃ s₄ := he₄ ▸ still_ram hw₄
    have hown : ∀ (t : Kernel) (c : Slot), t.Live c → ∀ p ∈ [t.stackPage c], t.Data p :=
      fun t c hlc p hp => Or.inr (Or.inr ⟨c, hlc, Or.inl (List.mem_singleton.mp hp)⟩)
    have hdata : ∀ p ∈ [s₂.userPage s₂.pc.currentProcess, v2p s₂.fileDescTable], s₂.Data p := by
      intro p hp
      rcases List.mem_cons.mp hp with he | hp
      · exact Or.inr (Or.inr ⟨_, hl₁, Or.inr he⟩)
      · exact Kernel.tablePages_data (List.mem_cons_of_mem _ hp)
    have page₁ := (h.mem.still st₁ (hown s _ hl)).userPage _ hl
    have page₃ := (h₁.mem.still hpokes.still hdata).userPage _ hl₁
    have page₄ := (h₃.mem.still st₄ (hown s₃ _ hl₃)).userPage _ hl₃
    rw [hcur₃] at page₄
    rw [← page₁, ← hcur, ← page₃, ← page₄]

end Call

end Os64
