/-
  What the kernel does with a pointer that a system call gives it.

  * `setResult_rax`: the result of a call, whatever the call has done to memory.
  * `run_isolated_iff`: a call keeps the caller's stores in its page and refuses a buffer outside it
    exactly when it asks for nothing outside that the kernel would not refuse for another reason.
-/
import Os64.Sys.Reach
import Os64.Sys.Wild

namespace Os64

open Os64.Lib

variable {K : Image}

/-- The call asks the kernel to write outside the caller's user page. -/
def AsksOutside (s : Kernel) (i argptr : Nat) : Prop :=
  (i = 10 ∧ ∃ fd buffer size, arg argptr 0 s = .ok fd s ∧ arg argptr 1 s = .ok buffer s ∧
    arg argptr 2 s = .ok size s ∧ ¬ InsideUser buffer (u32 size)) ∨
  (i = 15 ∧ ∃ buffer count, arg argptr 0 s = .ok buffer s ∧
    getRootDirectoryCount s.ram = .ok count s.ram ∧ ¬ InsideUser buffer (count * dirEntrySize))

/-- The call returns -1 and changes nothing but the caller's kernel stack. -/
def Refused (K : Image) (s : Kernel) (f : TrapFrame) : Prop :=
  ∃ s', step K (.syscall f) s = .ok () s' ∧ (s'.frame s.pc.currentProcess).rax = ofInt (-1) ∧
    s' = { s with ram := s'.ram } ∧ Wrote [s.stackPage s.pc.currentProcess] s.ram s'.ram

/-- The kernel writes inside the caller's user page only, what other processes own is as it was, and
    a request for more is refused. -/
structure Isolated (K : Image) (s : Kernel) (f : TrapFrame) : Prop where
  inside : ∀ s', step K (.syscall f) s = .ok () s' →
    ∃ os, s'.hist = s.hist ++ os ∧ ∀ va, .stored va ∈ os → InUser va
  others : ∀ s', step K (.syscall f) s = .ok () s' → ∀ j, j ≠ s.pc.currentProcess → s.Live j →
    s'.Live j → Undisturbed j s s'
  refuses : ∀ s₁, pushFrame f s = .ok () s₁ → AsksOutside s₁ f.rax f.rsi → Refused K s f

section Results

variable {pool free : List Nat} {a : Sched} {S : Handles} {s s₁ s₂ s' : Kernel} {f : TrapFrame}

theorem i32_range (n : Nat) : -2 ^ 31 ≤ i32 n ∧ i32 n < 2 ^ 31 := by
  unfold i32
  split <;> omega

theorem ofInt_eq_neg {v : Int} (h : -2 ^ 31 ≤ v ∧ v < 2 ^ 31) (he : ofInt v = ofInt (-1)) :
    v = -1 := by
  unfold ofInt at he
  omega

/-- The result of a call is in its frame, whatever the call did to memory. -/
theorem setResult_rax (h : Whole K pool free a S s) (hl : s.Live s.pc.currentProcess) {b : Bool}
    (hq : Quiet b s s₁) {v : Int} {u : Unit} (hrun : setResult s.trapFrame (some v) s₁ = .ok u s') :
    (s'.frame s.pc.currentProcess).rax = ofInt v ∧ s'.hist = s₁.hist := by
  have hv := h.mem.stackValid hl
  obtain ⟨-, h2⟩ := frameAddr_end s s.pc.currentProcess
  unfold trapFrameSize at h2
  have htf := (h.mem.trapFrame_eq hl).trans (h.mem.tf_eq hl)
  have hstore := kstore_page hv (a := s.frameAddr s.pc.currentProcess + 112) (n := 8)
    (v := s.trapFrame + tfRax) (by omega) (by omega) (by unfold tfRax; omega) s₁.ram (ofInt v)
  have hset : setResult s.trapFrame (some v) s₁ = _ := low_run (ram_run hstore)
  obtain ⟨-, rfl⟩ := EStateM.Result.ok.inj (hset.symm.trans hrun)
  refine ⟨?_, rfl⟩
  have hstack : s₁.frameAddr s.pc.currentProcess = s.frameAddr s.pc.currentProcess := by
    unfold Kernel.frameAddr Kernel.stackPage
    rw [hq.stack]
  have hlt : ofInt v < 2 ^ 64 := by
    unfold ofInt
    omega
  change load _ (s₁.frameAddr s.pc.currentProcess + 112) 8 = _
  rw [hstack]
  exact (load_store_self _ _ _ _).trans (Nat.mod_eq_of_lt hlt)

/-- The result -1, after a call that did nothing. -/
theorem answer_refused (h : Whole K pool free a S s) (hc : a.current ≠ 0)
    (hpush : pushFrame f s = .ok () s₁)
    (hstep : step K (.syscall f) s = setResult s₁.trapFrame (some (-1)) s₁) : Refused K s f := by
  obtain ⟨r, hrun, -, hw⟩ := pushFrame_run h.mem (h.live hc) f
  obtain ⟨-, rfl⟩ := EStateM.Result.ok.inj (hrun.symm.trans hpush)
  obtain ⟨h₁, -, -⟩ := pushFrame_after h hpush
  obtain ⟨s₂, hset, -, he₂, hw₂, hrax⟩ := h₁.answer hc rfl (-1)
  refine ⟨s₂, hstep.trans hset, hrax, ?_, hw.trans hw₂⟩
  rw [he₂]

/-- What the two calls that take a buffer return when they end well. -/
theorem readCall_ok (hrax : f.rax = 10) {result : Option Int}
    (hrun : systemCalls K f.rax f.rsi s = .ok result s') {fd buffer size : Nat}
    (h0 : arg f.rsi 0 s = .ok fd s) (h1 : arg f.rsi 1 s = .ok buffer s)
    (h2 : arg f.rsi 2 s = .ok size s) : ∃ v, result = some v ∧
      readFile K true s.pc.currentProcess (i32 fd) buffer (u32 size) s = .ok v s' := by
  rw [hrax] at hrun
  change sysReadFile K f.rsi s = _ at hrun
  unfold sysReadFile at hrun
  rw [bind_run (get_run s), bind_run (low_run h0), bind_run (low_run h1), bind_run (low_run h2)] at hrun
  obtain ⟨v, s₁, hread, hrun⟩ := bind_ok.mp hrun
  obtain ⟨rfl, rfl⟩ := EStateM.Result.ok.inj hrun
  exact ⟨v, rfl, low_ok hread⟩

theorem listCall_ok (hrax : f.rax = 15) {result : Option Int}
    (hrun : systemCalls K f.rax f.rsi s = .ok result s') {buffer count : Nat}
    (h0 : arg f.rsi 0 s = .ok buffer s)
    (hcount : getRootDirectoryCount s.ram = .ok count s.ram) : result = some (count : Int) ∧
      readRootDirectory K buffer s = .ok count s' := by
  rw [hrax] at hrun
  change sysReadRootDirectory K f.rsi s = _ at hrun
  unfold sysReadRootDirectory at hrun
  rw [bind_run (low_run h0)] at hrun
  obtain ⟨v, s₁, hlow, hres⟩ := bind_ok.mp hrun
  obtain ⟨rfl, rfl⟩ := EStateM.Result.ok.inj hres
  have hread := low_ok hlow
  have hrest := hread
  unfold readRootDirectory at hrest
  obtain ⟨dir, s₂, hdir, hrest₁⟩ := bind_ok.mp hrest
  obtain rfl := (reads_ram reads_getRootDirectory).ok hdir
  rw [bind_run (ram_run hcount)] at hrest₁
  obtain ⟨_, s₃, -, hend⟩ := bind_ok.mp hrest₁
  obtain ⟨rfl, -⟩ := EStateM.Result.ok.inj hend
  exact ⟨rfl, hread⟩

theorem getRootDirectoryCount_lt {r r' : Ram} {count : Nat}
    (h : getRootDirectoryCount r = .ok count r') : count < 2 ^ 16 := by
  unfold getRootDirectoryCount at h
  obtain ⟨p, r₁, -, h⟩ := bind_ok.mp h
  obtain ⟨-, rfl⟩ := kload_ok h
  exact load_lt _ _ _

theorem readFile_range {supplied : Bool} {i : Slot} {fd : Int} {buffer size : Nat} {v : Int}
    (hrun : readFile K supplied i fd buffer size s = .ok v s') : -2 ^ 31 ≤ v ∧ v < 2 ^ 31 := by
  unfold readFile at hrun
  obtain ⟨_, _, -, hrun⟩ := bind_ok.mp hrun
  obtain ⟨_, _, -, hrun⟩ := bind_ok.mp hrun
  obtain ⟨_, _, -, hrun⟩ := bind_ok.mp hrun
  obtain ⟨_, _, -, hrun⟩ := bind_ok.mp hrun
  split at hrun
  · obtain ⟨rfl, -⟩ := EStateM.Result.ok.inj hrun
    omega
  · obtain ⟨_, _, -, hrun⟩ := bind_ok.mp hrun
    obtain ⟨_, _, -, hrun⟩ := bind_ok.mp hrun
    obtain ⟨_, _, -, hrun⟩ := bind_ok.mp hrun
    obtain ⟨rfl, -⟩ := EStateM.Result.ok.inj hrun
    exact i32_range _

/-- Past the end of the file. -/
theorem readFile_refused {supplied : Bool} {i : Slot} {fd : Int} {buffer size : Nat}
    (h : readFits i fd size s = .ok false s') : readFile K supplied i fd buffer size s = .ok (-1) s' := by
  unfold readFits at h
  obtain ⟨desc, s₁, hdesc, h⟩ := bind_ok.mp h
  obtain ⟨position, s₂, hpos, h⟩ := bind_ok.mp h
  obtain ⟨fcb, s₃, hfcb, h⟩ := bind_ok.mp h
  obtain ⟨z, s₄, hz, h⟩ := bind_ok.mp h
  obtain ⟨hfits, rfl⟩ := EStateM.Result.ok.inj h
  unfold readFile
  rw [bind_run hdesc, bind_run hpos, bind_run hfcb, bind_run hz,
    if_pos (not_not.mp (of_decide_eq_false hfits))]
  rfl

/-! ## Both directions -/

/-- A read that is not refused, and does not keep to the page, is not isolated. -/
theorem Isolated.read (hI : Isolated K s f) (h : Whole K pool free a S s)
    (he : Enabled s (.syscall f)) (hrdi : f.rdi < 2 ^ 63) (hrax : f.rax = 10)
    (hpush : pushFrame f s = .ok () s₁) {fd buffer size : Nat} (h0 : arg f.rsi 0 s₁ = .ok fd s₁)
    (h1 : arg f.rsi 1 s₁ = .ok buffer s₁) (h2 : arg f.rsi 2 s₁ = .ok size s₁)
    (hout : ¬ InsideUser buffer (u32 size)) :
    readFits s₁.pc.currentProcess (i32 fd) (u32 size) s₁ = .ok false s₁ := by
  have hc : a.current ≠ 0 := h.rep.current ▸ he.2.1
  obtain ⟨s', hstep, hres, hsame, -⟩ :=
    hI.refuses s₁ hpush (Or.inl ⟨hrax, fd, buffer, size, h0, h1, h2, hout⟩)
  obtain ⟨s₂, hcall⟩ := call_begins (K := K) h hc he.2.2 hrdi (by omega)
  obtain ⟨-, rfl⟩ := EStateM.Result.ok.inj (hcall.push.symm.trans hpush)
  have h₁ := hcall.whole
  have hl₁ := h₁.live hc
  rw [hcall.run] at hstep
  obtain ⟨result, s₃, hsys, hset⟩ := bind_ok.mp hstep
  obtain ⟨v, rfl, hread⟩ := readCall_ok hrax hsys h0 h1 h2
  obtain ⟨hv, hhist⟩ := setResult_rax h₁ hl₁ (((quiet_readFile true _ _ _ _).ends s₂).ok hread) hset
  -- it returned -1 and stored nothing
  have hcur : s₂.pc.currentProcess = s.pc.currentProcess := by rw [hcall.same]
  rw [hcur] at hv
  have hneg := ofInt_eq_neg (readFile_range hread) (hv.symm.trans hres)
  have hquiet : s₃.hist = s₂.hist := by rw [← hhist, hsame, hcall.same]
  obtain ⟨n, hn, hopen⟩ := readFile_opened hread
  obtain ⟨d, c, ho⟩ := h₁.files.openDesc h₁.mem hopen
  rw [hn, hneg] at hread
  rw [hn, readFits_eq h₁.mem ho]
  by_cases hfit : s₂.descSize (s₂.desc n) < u32 (s₂.filePosition (s₂.desc n) + u32 size)
  · rw [decide_eq_false (not_not.mpr hfit)]
  · exact absurd hquiet (readFile_accepts h₁.mem ho (Nat.le_of_not_lt hfit) hread)

/-- So is a listing: it is never refused. -/
theorem Isolated.list (hI : Isolated K s f) (h : Whole K pool free a S s)
    (he : Enabled s (.syscall f)) (hrdi : f.rdi < 2 ^ 63) (hrax : f.rax = 15)
    (hpush : pushFrame f s = .ok () s₁) {buffer count : Nat} (h0 : arg f.rsi 0 s₁ = .ok buffer s₁)
    (hcount : getRootDirectoryCount s₁.ram = .ok count s₁.ram) :
    InsideUser buffer (count * dirEntrySize) := by
  by_contra hout
  have hc : a.current ≠ 0 := h.rep.current ▸ he.2.1
  obtain ⟨s', hstep, hres, -⟩ :=
    hI.refuses s₁ hpush (Or.inr ⟨hrax, buffer, count, h0, hcount, hout⟩)
  obtain ⟨s₂, hcall⟩ := call_begins (K := K) h hc he.2.2 hrdi (by omega)
  obtain ⟨-, rfl⟩ := EStateM.Result.ok.inj (hcall.push.symm.trans hpush)
  have h₁ := hcall.whole
  rw [hcall.run] at hstep
  obtain ⟨result, s₃, hsys, hset⟩ := bind_ok.mp hstep
  obtain ⟨rfl, hlist⟩ := listCall_ok hrax hsys h0 hcount
  obtain ⟨hv, -⟩ := setResult_rax h₁ (h₁.live hc) (((quiet_readRootDirectory _).ends s₂).ok hlist) hset
  have hcur : s₂.pc.currentProcess = s.pc.currentProcess := by rw [hcall.same]
  rw [hcur] at hv
  have hlt := getRootDirectoryCount_lt hcount
  have := ofInt_eq_neg ⟨by omega, by omega⟩ (hv.symm.trans hres)
  omega

/-- A request outside the page that keeps its bounds is past the end of the file. -/
theorem asksOutside_refused (h : Whole K pool free a S s) (he : Enabled s (.syscall f))
    (hconf : Confined s (.syscall f)) (hpush : pushFrame f s = .ok () s₁)
    (hout : AsksOutside s₁ f.rax f.rsi) : Refused K s f := by
  have hc : a.current ≠ 0 := h.rep.current ▸ he.2.1
  have hconf₁ := hconf s₁ hpush
  rcases hout with ⟨hrax, fd, buffer, size, h0, h1, h2, hout⟩ | ⟨hrax, buffer, count, h0, hcount, hout⟩
  swap
  · exact absurd (hconf₁.list hrax buffer count h0 hcount) hout
  have hfits := (hconf₁.read hrax fd buffer size h0 h1 h2).resolve_right hout
  obtain ⟨s₂, hpush', h₁, -, hsame, -, heq⟩ := syscall_eq (K := K) h he.2.1 he.2.2.2.2.2
  obtain ⟨-, rfl⟩ := EStateM.Result.ok.inj (hpush'.symm.trans hpush)
  refine answer_refused h hc hpush (heq.trans ?_)
  split
  · rfl
  have hread : readFile K true s₂.pc.currentProcess (i32 fd) buffer (u32 size) s₂ = .ok (-1) s₂ :=
    readFile_refused hfits
  have hsys : systemCalls K f.rax f.rsi s₂ = .ok (some (-1)) s₂ := by
    rw [hrax]
    change sysReadFile K f.rsi s₂ = _
    unfold sysReadFile
    rw [bind_run (get_run s₂), bind_run (low_run h0), bind_run (low_run h1), bind_run (low_run h2),
      bind_run (low_run hread)]
    rfl
  exact bind_run hsys

theorem isolated_iff (h : Whole K pool free a S s) (he : Enabled s (.syscall f)) :
    Isolated K s f ↔ (f.rdi < 2 ^ 63 → Confined s (.syscall f)) := by
  constructor
  · intro hI hrdi s₁ hpush
    refine ⟨fun hrax fd buffer size h0 h1 h2 => ?_, fun hrax buffer count h0 hcount =>
      hI.list h he hrdi hrax hpush h0 hcount⟩
    by_cases hin : InsideUser buffer (u32 size)
    · exact Or.inr hin
    · exact Or.inl (hI.read h he hrdi hrax hpush h0 h1 h2 hin)
  · intro hconf
    have hc : a.current ≠ 0 := h.rep.current ▸ he.2.1
    by_cases hrdi : f.rdi < 2 ^ 63
    · have hconf := hconf hrdi
      refine ⟨fun s' hstep => ?_, fun s' hstep j hj hl hl' => ?_, fun s₁ hpush hout =>
        asksOutside_refused h he hconf hpush hout⟩
      · obtain ⟨free', a', S', -, hst⟩ := step_whole h he hconf hstep
        obtain ⟨os, hos, hin, -⟩ := hst.hist
        exact ⟨os, hos, hin⟩
      · obtain ⟨free', a', S', -, hst⟩ := step_whole h he hconf hstep
        exact hst.others j hj hl hl'
    · -- a negative number of parameters
      obtain ⟨s₁, hpush, -, -, -, -, heq⟩ := syscall_eq (K := K) h he.2.1 he.2.2.2.2.2
      rw [if_pos (Or.inl (Nat.le_of_not_lt hrdi))] at heq
      have href : Refused K s f := answer_refused h hc hpush heq
      obtain ⟨s₂, hstep₂, -, hsame, hw⟩ := href
      refine ⟨fun s' hstep => ?_, fun s' hstep j hj hl hl' => ?_, fun _ _ _ =>
        answer_refused h hc hpush heq⟩
      · obtain rfl := (EStateM.Result.ok.inj (hstep₂.symm.trans hstep)).2
        exact ⟨[], by rw [hsame, List.append_nil], fun _ hno => by cases hno⟩
      · obtain rfl := (EStateM.Result.ok.inj (hstep₂.symm.trans hstep)).2
        have hst := (h.stack (h.live hc) hw).2
        rw [← hsame] at hst
        exact hst.others j hj hl

/-- In a run whose calls keep to the callers' user pages, a call is isolated exactly when it does so
    too, or has a negative number of parameters. -/
theorem run_isolated_iff {m : Mem} {r : Ram} {s₀ : Kernel} (hbios : BiosOk m)
    (hinit : initMemory K (bootKernel m).ram = .ok () r) (hpool : FreeList K r pool)
    (h₀ : kMain K (bootKernel m) = .ok () s₀) (h : Run K Confined s₀ s)
    (he : Enabled s (.syscall f)) :
    Isolated K s f ↔ (f.rdi < 2 ^ 63 → Confined s (.syscall f)) := by
  obtain ⟨free₀, hw₀⟩ := boot_whole hbios hinit hpool h₀
  obtain ⟨free, a, S, hw⟩ := run_whole hw₀ (fun _ _ he => he) h
  exact isolated_iff hw he

theorem run_isolated_iff_read : ∃ s f, Reached image fileMem Confined s ∧ f.rax = 10 ∧
    (Isolated image s f ↔ (f.rdi < 2 ^ 63 → Confined s (.syscall f))) := by
  obtain ⟨pool, free, a, S, s, n, hr⟩ := read_machine Confined (fun _ _ he => he) (Nat.zero_le 512)
  obtain ⟨he, s₁, hcall⟩ := hr.machine.readCall hr.user hr.running n
    (show 0x400000 < 2 ^ 64 by decide) (show 512 < 2 ^ 32 by decide)
  obtain ⟨s₀, h₀, hreached⟩ := hr.machine.reached
  obtain ⟨r, pool', hinit, hfl, -⟩ := machine_pool (n := 20) (by decide)
    (diskWords 0x20 512 ++ [(0x30000800, 1, 0x41)])
  exact ⟨s, _, hr.machine.reached, hcall.rax,
    run_isolated_iff (machine_bios (by decide)) hinit hfl h₀ hreached he⟩

/-- A program has the kernel write the first byte of a file into the descriptor table. -/
theorem read_into_kernel : ∃ s f s₁ n buffer, Reached image fileMem Confined s ∧
    Enabled s (.syscall f) ∧ ReadCall s f s₁ n buffer 1 ∧ s.desc n ≠ 0 ∧ ¬ Isolated image s f := by
  obtain ⟨pool, free, a, S, s, n, hr⟩ := read_machine Confined (fun _ _ he => he) (Nat.zero_le 512)
  have h := hr.machine.whole
  obtain ⟨d, c, hd⟩ := h.files.openDesc h.mem hr.file.opened
  obtain ⟨f, s₁, s', he, hcall, hstep, hwild, -⟩ := hr.wild (k := 1) fileMem_file hd (by decide) (by decide)
    (Nat.le_refl (v2p s.fileDescTable)) (by rw [pageSize_eq]; omega)
  refine ⟨s, f, s₁, n, _, hr.machine.reached, he, hcall, hr.file.opened, fun hI => ?_⟩
  obtain ⟨os, hos, hin⟩ := hI.inside s' hstep
  rw [hwild.same] at hos
  have hmem := hin (v2p s.fileDescTable + kernelBase) (by
    rw [← List.append_cancel_left hos, storedBytes_succ, Nat.add_zero]
    exact List.mem_append_right _ (List.mem_singleton_self _))
  have := hmem.2
  rw [kernelBase_eq] at this
  omega

end Results

end Os64
