/-
  Reads of a file that processes share.

  * `ReadRun`: runs in which processes read through one descriptor, with what the reads put in the
    buffers.
  * `run_slices`: the buffers of such a run, in the order of the calls, are a stretch of the file,
    and the next call reads on from there.
-/
import Os64.Sys.Reach
import Os64.Sys.Wild

namespace Os64

open Os64.Lib

variable {K : Image}

/-- The step is a `read_file` through the descriptor at `p`. -/
def ReadsDesc (s : Kernel) (e : Event) (p : Nat) : Prop :=
  ∃ f s₁ w, ∃ n : Fin 100, e = .syscall f ∧ f.rax = 10 ∧ pushFrame f s = .ok () s₁ ∧
    arg f.rsi 0 s₁ = .ok w s₁ ∧ i32 w = n.val ∧ s₁.desc n = p

variable (K) in
/-- The call returns the size asked for, the next bytes of the file are in the buffer, and the
    position is after them. -/
def ReadsExactly (s : Kernel) (f : TrapFrame) (n : Fin 100) (buffer size : Nat) : Prop :=
  ∃ s', step K (.syscall f) s = .ok () s' ∧ (s'.frame s.pc.currentProcess).rax = ofInt size ∧
    s'.pc.currentProcess = s.pc.currentProcess ∧
    (∀ k < size, loadVirt (buffer + k) s' = .ok
      (fileByte s.ram.mem (s.descCluster (s.desc n)) (s.filePosition (s.desc n) + k)) s') ∧
    s'.filePosition (s.desc n) = s.filePosition (s.desc n) + size

variable (K) in
/-- A run from `s₀`, with the bytes that came through the descriptor at `p`, which stays open. A
    read through it is one of the rest of the file, into the caller's user page. -/
inductive ReadRun (p : Nat) (s₀ : Kernel) : List UInt8 → Kernel → Prop
  | refl : ReadRun p s₀ [] s₀
  | other {bs : List UInt8} {s s' : Kernel} {e : Event} (h : ReadRun p s₀ bs s) (he : Enabled s e)
      (hconf : Confined s e) (hno : ¬ ReadsDesc s e p) (hstep : step K e s = .ok () s')
      (hopen : ∃ i n, (s'.processTable i).file n = p) : ReadRun p s₀ bs s'
  | read {bs : List UInt8} {s s₁ s' : Kernel} {f : TrapFrame} {n : Fin 100} {buffer size : Nat}
      (h : ReadRun p s₀ bs s) (he : Enabled s (.syscall f)) (hcall : ReadCall s f s₁ n buffer size)
      (hdesc : s.desc n = p) (h0 : 0 < size) (hfit : s.filePosition p + size ≤ s.descSize p)
      (hlow : 0x400000 ≤ buffer) (hend : buffer + size ≤ 0x600000)
      (hstep : step K (.syscall f) s = .ok () s') :
      ReadRun p s₀ (bs ++ s'.userBytes s.pc.currentProcess buffer size) s'

section Runs

variable {pool free : List Nat} {a : Sched} {S : Handles} {s s₁ s' : Kernel} {f : TrapFrame}
  {n : Fin 100} {buffer size p : Nat}

/-- The descriptor of a pointer that some process has. -/
theorem FilesOk.pointer (h : FilesOk s S) (hm : MemOk K pool free s) (h0 : p ≠ 0)
    (hopen : ∃ i n, (s.processTable i).file n = p) :
    ∃ d c, p = descPtr (v2p s.fileDescTable) (some d) ∧ S.object d = some c ∧ d < descLimit ∧
      s.fileFcb p ≠ 0 := by
  obtain ⟨i, n, hfile⟩ := hopen
  rcases h.rep.pointer h.ok hm.tablePages i n with ⟨hnull, -⟩ | ⟨d, c, hd, -, ho, hlt, -, -⟩
  · exact absurd (hfile.symm.trans hnull) h0
  · refine ⟨d, c, hfile.symm.trans hd, ho, hlt, ?_⟩
    rw [← hfile]
    change s.fileFcb (s.files i n) ≠ 0
    rw [hd, (desc_fields hm hlt).2, h.descLink hlt, ho]
    have := hm.tablePages.fcb.p2v_ne_zero
    unfold fcbPtr
    dsimp only
    omega

/-- What a run of reads has done so far. -/
structure Slices (K : Image) (pool : List Nat) (p : Nat) (s : Kernel) (bs : List UInt8)
    (s' : Kernel) : Prop where
  whole : ∃ free a S, Whole K pool free a S s'
  opened : ∃ i n, (s'.processTable i).file n = p
  file : SameFile s s' p
  image : ∀ x, fsBase ≤ x → s'.ram.mem x = s.ram.mem x
  position : s'.filePosition p = s.filePosition p + bs.length
  bytes : bs = fileBytes s.ram.mem (s.descCluster p) (s.filePosition p) bs.length

/-- The file behind a descriptor that stays open, over one step. -/
theorem step_file (h : Whole K pool free a S s) {e : Event} (he : Enabled s e) (hconf : Confined s e)
    (hstep : step K e s = .ok () s') (h0 : p ≠ 0) (hopen : ∃ i n, (s.processTable i).file n = p)
    (hopen' : ∃ i n, (s'.processTable i).file n = p) :
    SameFile s s' p ∧ (∀ x, fsBase ≤ x → s'.ram.mem x = s.ram.mem x) ∧
      (¬ ReadsDesc s e p → s'.filePosition p = s.filePosition p) := by
  obtain ⟨free', a', S', h', -⟩ := step_whole h he hconf hstep
  have hkept := step_kept h he hconf hstep
  obtain ⟨d, c, rfl, -, hd, hfcb⟩ := h.files.pointer h.mem h0 hopen
  have hfcb' := (h'.files.pointer h'.mem h0 hopen').choose_spec.choose_spec.2.2.2
  obtain ⟨hsame, hpos⟩ := hkept.sameFile h.mem h'.mem h.files hd hfcb hfcb'
  refine ⟨hsame, hkept.image, fun hno => hpos fun hreads => hno ?_⟩
  obtain ⟨f, s₁, w, n, rfl, hrax, hpush, hw, hn, hdesc⟩ := hreads
  refine ⟨f, s₁, w, n, rfl, hrax, hpush, hw, hn, hdesc.trans ?_⟩
  rw [(pushFrame_same h hpush).fileDescTable]

theorem Slices.refl (h : Whole K pool free a S s) (hopen : ∃ i n, (s.processTable i).file n = p) :
    Slices K pool p s [] s :=
  ⟨⟨free, a, S, h⟩, hopen, .refl s p, fun _ _ => rfl, rfl, rfl⟩

/-- A step that reads nothing through the descriptor. -/
theorem Slices.other {bs : List UInt8} (h : Slices K pool p s bs s₁) (h0 : p ≠ 0) {e : Event}
    (he : Enabled s₁ e) (hconf : Confined s₁ e) (hno : ¬ ReadsDesc s₁ e p)
    (hstep : step K e s₁ = .ok () s') (hopen : ∃ i n, (s'.processTable i).file n = p) :
    Slices K pool p s bs s' := by
  obtain ⟨free, a, S, h₁⟩ := h.whole
  obtain ⟨free', a', S', h', -⟩ := step_whole h₁ he hconf hstep
  obtain ⟨hsame, himage, hpos⟩ := step_file h₁ he hconf hstep h0 h.opened hopen
  exact ⟨⟨free', a', S', h'⟩, hopen, h.file.trans hsame,
    fun x hx => (himage x hx).trans (h.image x hx), (hpos hno).trans h.position, h.bytes⟩

/-- A read through the descriptor. -/
theorem Slices.read {bs : List UInt8} {s₂ : Kernel} (h : Slices K pool p s bs s₁) (h0 : p ≠ 0)
    (hread : Readable s p) (he : Enabled s₁ (.syscall f)) (hcall : ReadCall s₁ f s₂ n buffer size)
    (hdesc : s₁.desc n = p) (hpos : 0 < size) (hfit : s₁.filePosition p + size ≤ s₁.descSize p)
    (hlow : 0x400000 ≤ buffer) (hend : buffer + size ≤ 0x600000)
    (hstep : step K (.syscall f) s₁ = .ok () s') :
    Slices K pool p s (bs ++ s'.userBytes s₁.pc.currentProcess buffer size) s' := by
  obtain ⟨free, a, S, h₁⟩ := h.whole
  have hconf := hcall.confined (Or.inr ⟨hlow, hend⟩)
  have hread₁ := hread.same h.file h.image
  subst hdesc
  obtain ⟨s'', os, hstep', h', -, hbytes, hmove, -⟩ :=
    readStep_slice h₁ he hcall h0 hread₁ hpos hfit hlow hend
  obtain rfl := (EStateM.Result.ok.inj (hstep'.symm.trans hstep)).2
  -- the handles are the same
  have hopen : ∃ i m, (s''.processTable i).file m = s₁.desc n := by
    refine ⟨s₁.pc.currentProcess, n, ?_⟩
    have hfile := h'.files.rep.held s₁.pc.currentProcess n
    rw [(step_kept h₁ he hconf hstep).fileDescTable, ← h₁.files.rep.held] at hfile
    exact hfile
  obtain ⟨hsame, himage, -⟩ := step_file h₁ he hconf hstep h0 h.opened hopen
  have hlen : (s''.userBytes s₁.pc.currentProcess buffer size).length = size := by
    rw [hbytes, fileBytes_length]
  refine ⟨⟨free, _, S, h'⟩, hopen, h.file.trans hsame,
    fun x hx => (himage x hx).trans (h.image x hx), ?_, ?_⟩
  · rw [hmove, h.position, List.length_append, hlen, Nat.add_assoc]
  · rw [List.length_append, hlen, ← fileBytes_append, ← h.bytes, hbytes, h.position, h.file.cluster]
    congr 1
    unfold fileBytes
    exact List.map_congr_left fun k _ => fileByte_congr hread.mounted h.image _ _

theorem ReadRun.slices {bs : List UInt8} (hr : ReadRun K p s bs s')
    (h : Whole K pool free a S s) (h0 : p ≠ 0) (hopen : ∃ i n, (s.processTable i).file n = p)
    (hread : Readable s p) : Slices K pool p s bs s' := by
  induction hr with
  | refl => exact .refl h hopen
  | other _ he hconf hno hstep hopen' ih => exact ih.other h0 he hconf hno hstep hopen'
  | read _ he hcall hdesc hpos hfit hlow hend hstep ih =>
      exact ih.read h0 hread he hcall hdesc hpos hfit hlow hend hstep

/-- A read into the caller's user page. -/
theorem readsExactly_user (h : Whole K pool free a S s) (he : Enabled s (.syscall f))
    (hcall : ReadCall s f s₁ n buffer size) (hopen : s.desc n ≠ 0) (hread : Readable s (s.desc n))
    (h0 : 0 < size) (hfit : s.filePosition (s.desc n) + size ≤ s.descSize (s.desc n))
    (hlow : 0x400000 ≤ buffer) (hend : buffer + size ≤ 0x600000) :
    ReadsExactly K s f n buffer size := by
  have hc : a.current ≠ 0 := h.rep.current ▸ he.2.1
  obtain ⟨s', os, hstep, h', hrax, hbytes, hpos, -⟩ :=
    readStep_slice h he hcall hopen hread h0 hfit hlow hend
  have hcur : s'.pc.currentProcess = s.pc.currentProcess := h'.rep.current.trans h.rep.current.symm
  refine ⟨s', hstep, hrax, hcur, fun k hk => ?_, hpos⟩
  unfold Kernel.userBytes fileBytes at hbytes
  have hbyte := List.map_inj_left.mp hbytes k (List.mem_range.mpr hk)
  rw [loadVirt_user (h'.mem.currentSpace (h'.live hc)) ⟨by omega, by omega⟩, hcur, ← hbyte]
  rfl

variable (K) in
/-- Between `s` and `s'` the bytes `bs` were read through the descriptor at `p`: they are the next
    ones of the file, and from there the next call reads on. -/
structure ReadsOn (p : Nat) (s : Kernel) (bs : List UInt8) (s' : Kernel) : Prop where
  bytes : bs = fileBytes s.ram.mem (s.descCluster p) (s.filePosition p) bs.length
  position : s'.filePosition p = s.filePosition p + bs.length
  next : ∀ f s₁ n buffer size, Enabled s' (.syscall f) → ReadCall s' f s₁ n buffer size →
    s'.desc n = p → 0 < size → s'.filePosition p + size ≤ s'.descSize p →
    0x400000 ≤ buffer → buffer + size ≤ 0x600000 → ReadsExactly K s' f n buffer size

/-- In a run whose calls keep to the callers' user pages, the reads through a descriptor cut the
    file into consecutive pieces, whoever makes them. -/
theorem run_slices {m : Mem} {r : Ram} {s₀ : Kernel} (hbios : BiosOk m)
    (hinit : initMemory K (bootKernel m).ram = .ok () r) (hpool : FreeList K r pool)
    (h₀ : kMain K (bootKernel m) = .ok () s₀) (h : Run K Confined s₀ s) (h0 : p ≠ 0)
    (hopen : ∃ i n, (s.processTable i).file n = p) (hread : Readable s p) {bs : List UInt8}
    (hr : ReadRun K p s bs s') : ReadsOn K p s bs s' := by
  obtain ⟨free₀, hw₀⟩ := boot_whole hbios hinit hpool h₀
  obtain ⟨free, a, S, hw⟩ := run_whole hw₀ (fun _ _ he => he) h
  have hs := hr.slices hw h0 hopen hread
  refine ⟨hs.bytes, hs.position, fun f s₁ n buffer size he hcall hdesc hpos hfit hlow hend => ?_⟩
  obtain ⟨free', a', S', hw'⟩ := hs.whole
  subst hdesc
  exact readsExactly_user hw' he hcall h0 (hread.same hs.file hs.image) hpos hfit hlow hend

end Runs

theorem run_slices_first : ∃ s s' p bs, ReadRun image p s bs s' ∧ bs.length = 1 ∧
    ReadsOn image p s bs s' := by
  obtain ⟨pool, free, a, S, s, n, ⟨hat, hc, hu, -, ho, himage⟩⟩ :=
    read_machine Confined (fun _ _ he => he) (Nat.zero_le 512)
  obtain ⟨s₀, h₀, hreached⟩ := hat.reached
  obtain ⟨r, pool', hinit, hfl, -⟩ := machine_pool (n := 20) (by decide)
    (diskWords 0x20 512 ++ [(0x30000800, 1, 0x41)])
  have hread := ho.readable fileMem_file himage
  obtain ⟨he, s₁, hcall⟩ := hat.readCall hu hc n (show 0x400000 < 2 ^ 64 by decide)
    (show 1 < 2 ^ 32 by decide)
  have hfit : s.filePosition (s.desc n) + 1 ≤ s.descSize (s.desc n) := by
    rw [ho.position, ho.size]
    decide
  obtain ⟨s', os, hstep, -, -, hbytes, -⟩ := readStep_slice hat.whole he hcall ho.opened hread
    (by decide) hfit (by decide) (by decide)
  have hr : ReadRun image (s.desc n) s ([] ++ s'.userBytes s.pc.currentProcess 0x400000 1) s' :=
    .read .refl he hcall rfl (by decide) hfit (by decide) (by decide) hstep
  refine ⟨s, s', s.desc n, _, hr, ?_, run_slices (machine_bios (by decide)) hinit hfl h₀ hreached
    ho.opened ⟨_, n, rfl⟩ hread hr⟩
  rw [List.nil_append, hbytes, fileBytes_length]

/-- A program reads the first byte of a file over the position of its descriptor. -/
theorem read_over_position : ∃ s f s₁ n, Reached image fileMem Confined s ∧
    Enabled s (.syscall f) ∧ ReadCall s f s₁ n (descPosition (s.desc n)) 1 ∧ s.desc n ≠ 0 ∧
    Readable s (s.desc n) ∧ s.filePosition (s.desc n) + 1 ≤ s.descSize (s.desc n) ∧
      ¬ ReadsExactly image s f n (descPosition (s.desc n)) 1 := by
  obtain ⟨pool, free, a, S, s, n, hr⟩ := read_machine Confined (fun _ _ he => he) (Nat.zero_le 512)
  have ho := hr.file
  have h := hr.machine.whole
  obtain ⟨d, c, hd⟩ := h.files.openDesc h.mem ho.opened
  obtain ⟨hphys, hvirt⟩ := hd.positionAt h.mem
  have hend := desc_end (v2p s.fileDescTable) hd.descLt
  have hin : InPage (v2p s.fileDescTable) (v2p s.fileDescTable + fileDescSize * d + 8) := by
    unfold fileDescSize at hend ⊢
    exact ⟨by omega, by omega⟩
  obtain ⟨f, s₁, s', he, hcall, hstep, hwild, -⟩ := hr.wild (k := 1) fileMem_file hd (by decide) (by decide)
    hin.1 hin.2
  rw [← hvirt] at hcall
  have hfit : s.filePosition (s.desc n) + 1 ≤ s.descSize (s.desc n) := by
    rw [ho.position, ho.size]
    decide
  refine ⟨s, f, s₁, n, hr.machine.reached, he, hcall, ho.opened,
    ho.readable fileMem_file hr.volume, hfit, ?_⟩
  rintro ⟨s'', hstep', -, -, -, hpos⟩
  obtain rfl := (EStateM.Result.ok.inj (hstep'.symm.trans hstep)).2
  have hold : load s.ram.mem (v2p s.fileDescTable + fileDescSize * d + 8) 4 = 0 := by
    rw [← hphys]
    exact ho.position
  have hmoved := hwild.position
  rw [hr.patched_letter, load_update, hold] at hmoved
  rw [ho.position] at hpos
  unfold Kernel.filePosition at hpos
  rw [hphys, hmoved] at hpos
  exact absurd hpos (by decide)

end Os64
