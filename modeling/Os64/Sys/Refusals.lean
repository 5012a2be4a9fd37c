/-
  System calls that cannot do what they are asked for.

  * `fd_call_iff`: the calls that take a descriptor number have no check of it. They follow what
    `proc->file[fd]` holds, inside the table and around it, so that they refuse bad numbers only
    where there is none to refuse.
  * `run_fork_clean`: `fork` has an assertion where it should report a failure. It does what
    it should exactly when a slot and seven pages are free.
-/
import Os64.Files.Reading
import Os64.Sys.Moves
import Os64.Sys.Reach

namespace Os64

open Os64.Lib

variable {K : Image}

/-! ## Descriptor numbers -/

section Calls

variable (K : Image)

/-- `read_file`, `get_file_size` and `close_file` after the read of `proc->file[fd]`. -/
def readOpen (supplied : Bool) (desc buffer size : Nat) : LowM Int := do
  let position ← ram (kload (descPosition desc) 4)
  let fcb ← ram (kload (descFcb desc) 8)
  let fileSize ← ram (kload (fcbFileSize fcb) 4)
  if fileSize < u32 (position + size) then
    return -1
  else
    let clusterIndex ← ram (kload (fcbClusterIndex fcb) 4)
    let readSize ← readRawData K supplied clusterIndex buffer position size
    ram (addField (descPosition desc) readSize)
    return i32 readSize

def sizeOpen (desc : Nat) : LowM Nat := do
  let fcb ← ram (kload (descFcb desc) 8)
  ram (kload (fcbFileSize fcb) 4)

def closeOpen (proc : Slot) (fd : Int) (desc : Nat) : LowM Unit := do
  let fcb ← ram (kload (descFcb desc) 8)
  ram (putFcb fcb)
  ram (dropDesc desc)
  setProcess proc fun p =>
    { p with file := fun i => if (i.val : Int) = fd then 0 else p.file i }

/-- The three calls, with `look` for the read of `proc->file[fd]`. -/
def fdCall (look : Slot → Int → LowM Nat) (i argptr : Nat) : KernelM (Option Int) := do
  let s ← get
  let fd ← low (arg argptr 0)
  match i with
  | 10 => do
      let buffer ← low (arg argptr 1)
      let size ← low (arg argptr 2)
      let n ← low (do
        let desc ← look s.pc.currentProcess (i32 fd)
        readOpen K true desc buffer (u32 size))
      return some n
  | 11 => do
      let n ← low (do
        let desc ← look s.pc.currentProcess (i32 fd)
        sizeOpen desc)
      return some (i32 n)
  | _ => do
      low (do
        let desc ← look s.pc.currentProcess (i32 fd)
        closeOpen s.pc.currentProcess (i32 fd) desc)
      return some 0

/-- The system calls are `fdCall` with the table of the process. -/
theorem fdCall_fileAt {i : Nat} (hi : i = 10 ∨ i = 11 ∨ i = 12) (argptr : Nat) :
    fdCall K fileAt i argptr = systemCalls K i argptr := by
  rcases hi with rfl | rfl | rfl <;> rfl

end Calls

/-- A number that names no open descriptor is refused: the call reports -1, and the processes,
    descriptors and control blocks are as before. It does the same whatever an index outside the
    table would read there, and it does not fault on the null pointer of an empty entry. -/
structure RefusesBadFd (K : Image) (s : Kernel) (i argptr : Nat) (fd : Int) : Prop where
  refuses : ¬ s.Opened s.pc.currentProcess fd →
    ∃ s', systemCalls K i argptr s = .ok (some (-1)) s' ∧ s'.processTable = s.processTable ∧
      ∀ p ∈ s.tablePages, ∀ x, InPage p x → s'.ram.mem x = s.ram.mem x
  inside : ∀ look, (∀ n : Fin 100, look s.pc.currentProcess n.val = fileAt s.pc.currentProcess n.val) →
    fdCall K look i argptr s = systemCalls K i argptr s
  null : ∀ n : Fin 100, fd = n.val → s.desc n = 0 →
    ∀ s', systemCalls K i argptr s ≠ .error (.fault .exception) s'

/-- A call with a descriptor number that returns had an open one. -/
theorem fd_call_opened {s s' : Kernel} {i argptr w : Nat} {v : Option Int}
    (hi : i = 10 ∨ i = 11 ∨ i = 12) (harg : arg argptr 0 s = .ok w s)
    (hrun : systemCalls K i argptr s = .ok v s') : s.Opened s.pc.currentProcess (i32 w) := by
  have hfd : ∀ {n : Nat} {s₁ : Kernel}, low (arg argptr 0) s = .ok n s₁ → n = w ∧ s₁ = s := by
    intro n s₁ hn
    obtain ⟨rfl, rfl⟩ := EStateM.Result.ok.inj ((low_ok hn).symm.trans harg)
    exact ⟨rfl, rfl⟩
  rcases hi with rfl | rfl | rfl
  · change sysReadFile K argptr s = _ at hrun
    unfold sysReadFile at hrun
    rw [bind_run (get_run s)] at hrun
    obtain ⟨fd, s₁, hn, hrun⟩ := bind_ok.mp hrun
    obtain ⟨rfl, rfl⟩ := hfd hn
    obtain ⟨buffer, -, hrun⟩ := arg_then hrun
    obtain ⟨size, -, hrun⟩ := arg_then hrun
    obtain ⟨v, s₂, hread, -⟩ := bind_ok.mp hrun
    exact readFile_opened (low_ok hread)
  · change sysGetFileSize argptr s = _ at hrun
    unfold sysGetFileSize at hrun
    rw [bind_run (get_run s)] at hrun
    obtain ⟨fd, s₁, hn, hrun⟩ := bind_ok.mp hrun
    obtain ⟨rfl, rfl⟩ := hfd hn
    obtain ⟨n, s₂, hget, -⟩ := bind_ok.mp hrun
    exact getFileSize_opened (low_ok hget)
  · change sysCloseFile argptr s = _ at hrun
    unfold sysCloseFile at hrun
    rw [bind_run (get_run s)] at hrun
    obtain ⟨fd, s₁, hn, hrun⟩ := bind_ok.mp hrun
    obtain ⟨rfl, rfl⟩ := hfd hn
    obtain ⟨u, s₂, hclose, -⟩ := bind_ok.mp hrun
    exact closeFile_opened (low_ok hclose)

/-- A call that returns has read `proc->file[fd]`. -/
theorem fdCall_looks {look : Slot → Int → LowM Nat} {s s' : Kernel} {i argptr w : Nat}
    {v : Option Int} (hi : i = 10 ∨ i = 11 ∨ i = 12) (harg : arg argptr 0 s = .ok w s)
    (hrun : fdCall K look i argptr s = .ok v s') :
    ∃ desc s₁, look s.pc.currentProcess (i32 w) s = .ok desc s₁ := by
  have hlook : ∀ {α : Type} {g : Nat → LowM α} {n : α} {s₁ : Kernel}, low (do
      let desc ← look s.pc.currentProcess (i32 w)
      g desc) s = .ok n s₁ → ∃ desc s₂, look s.pc.currentProcess (i32 w) s = .ok desc s₂ := by
    intro α g n s₁ h
    obtain ⟨desc, s₂, hlook, -⟩ := bind_ok.mp (low_ok h)
    exact ⟨desc, s₂, hlook⟩
  unfold fdCall at hrun
  rw [bind_run (get_run s), bind_run (low_run harg)] at hrun
  rcases hi with rfl | rfl | rfl
  · obtain ⟨buffer, -, hrun⟩ := arg_then hrun
    obtain ⟨size, -, hrun⟩ := arg_then hrun
    obtain ⟨n, s₁, hread, -⟩ := bind_ok.mp hrun
    exact hlook hread
  · obtain ⟨n, s₁, hget, -⟩ := bind_ok.mp hrun
    exact hlook hget
  · obtain ⟨n, s₁, hclose, -⟩ := bind_ok.mp hrun
    exact hlook hclose

/-- With the number of an open descriptor a call does not depend on what lies around the table. -/
theorem fdCall_inside {look : Slot → Int → LowM Nat} {s : Kernel} {i argptr w : Nat}
    (hi : i = 10 ∨ i = 11 ∨ i = 12) (harg : arg argptr 0 s = .ok w s)
    (hlook : look s.pc.currentProcess (i32 w) = fileAt s.pc.currentProcess (i32 w)) :
    fdCall K look i argptr s = systemCalls K i argptr s := by
  rw [← fdCall_fileAt K hi]
  unfold fdCall
  rw [bind_run (get_run s), bind_run (get_run s), bind_run (low_run harg), bind_run (low_run harg),
    hlook]

/-- The calls with a descriptor number refuse a bad one, and keep to the table, exactly when the
    number is good. -/
theorem fd_call_iff {s : Kernel} {i argptr w : Nat} (hi : i = 10 ∨ i = 11 ∨ i = 12)
    (harg : arg argptr 0 s = .ok w s) :
    RefusesBadFd K s i argptr (i32 w) ↔ s.Opened s.pc.currentProcess (i32 w) := by
  constructor
  · intro h
    by_contra hbad
    obtain ⟨s', hrun, -⟩ := h.refuses hbad
    by_cases hin : 0 ≤ i32 w ∧ i32 w < 100
    · exact hbad (fd_call_opened hi harg hrun)
    · -- what lies around the table may as well not be mapped
      have hinside := h.inside (fun proc fd => if 0 ≤ fd ∧ fd < 100 then fileAt proc fd
        else throw .exception) fun n => if_pos ⟨by omega, by have := n.isLt; omega⟩
      rw [hrun] at hinside
      obtain ⟨desc, s₁, hlook⟩ := fdCall_looks hi harg hinside
      rw [if_neg hin] at hlook
      cases hlook
  · rintro ⟨n, hn, hopen⟩
    refine ⟨fun hbad => absurd ⟨n, hn, hopen⟩ hbad, fun look hlook => ?_, fun n' hn' hnull => ?_⟩
    · refine fdCall_inside hi harg ?_
      rw [hn]
      exact hlook n
    · obtain rfl : n' = n := Fin.ext (by omega)
      exact absurd hnull hopen

/-- The first program, with no file open, asks for the size of descriptor 0. -/
theorem size_asked : ∃ pool free s f s₁, At image (machineMem 20 []) (fun _ _ => True) pool free
    userSched noHandles s ∧ Enabled s (.syscall f) ∧ f.rax = 11 ∧
      Calling image pool free userSched noHandles f s s₁ ∧ arg f.rsi 0 s₁ = .ok 0 s₁ ∧
        ∀ n, (s₁.processTable s₁.pc.currentProcess).file n = 0 := by
  obtain ⟨pool, free, s, r, -, -, -⟩ := reached_user (n := 20) (by decide) (by decide) []
    (fun _ _ => True) fun _ _ _ => trivial
  have hc : userSched.current ≠ 0 := by decide
  have he := r.enabled_call (by decide) hc 11 (by decide) At.zero_lt At.zero_lt At.zero_lt
    At.zero_lt
  obtain ⟨s₁, hcall⟩ := call_begins (K := image) r.whole hc he.2.2 At.rdi_lt (show 11 ≤ 15 by decide)
  exact ⟨pool, free, s, _, s₁, r, he, rfl, hcall, hcall.arg hc rfl (by decide),
    fun n => hcall.whole.files.rep.held _ n⟩

theorem fd_call_iff_machine : ∃ s f s₁, Reached image (machineMem 20 []) (fun _ _ => True) s ∧
    Enabled s (.syscall f) ∧ f.rax = 11 ∧ pushFrame f s = .ok () s₁ ∧
      (RefusesBadFd image s₁ 11 f.rsi (i32 0) ↔ s₁.Opened s₁.pc.currentProcess (i32 0)) := by
  obtain ⟨pool, free, s, f, s₁, r, he, hrax, hcall, harg, -⟩ := size_asked
  exact ⟨s, f, s₁, r.reached, he, hrax, hcall.push, fd_call_iff (Or.inr (Or.inl rfl)) harg⟩

/-- A first program that asks for the size of descriptor 0, with no file open, stops the
    kernel. -/
theorem fd_call_null : ∃ s f s₁ s', Reached image (machineMem 20 []) (fun _ _ => True) s ∧
    Enabled s (.syscall f) ∧ f.rax = 11 ∧ pushFrame f s = .ok () s₁ ∧ arg f.rsi 0 s₁ = .ok 0 s₁ ∧
      ¬ RefusesBadFd image s₁ 11 f.rsi (i32 0) ∧
        step image (.syscall f) s = .error (.fault .exception) s' := by
  obtain ⟨pool, free, s, f, s₁, r, he, hrax, hcall, harg, hzero⟩ := size_asked
  have hbad : ¬ s₁.Opened s₁.pc.currentProcess (i32 0) := by
    rintro ⟨n, -, hn⟩
    exact hn (hzero n)
  have hat : fileAt s₁.pc.currentProcess (i32 0) s₁ = .ok 0 s₁ := by
    unfold fileAt
    rw [bind_run (get_run s₁), dif_pos (by decide)]
    exact congrArg (fun v => EStateM.Result.ok v s₁) (hzero _)
  have hnull : ram (kload (descFcb 0) 8) s₁ = .error .exception s₁ :=
    onPart_error.mpr ⟨_, _, bind_error.mpr (Or.inl (ensure_error.mpr ⟨by decide, rfl, rfl⟩)), rfl, rfl⟩
  have hget : low (getFileSize s₁.pc.currentProcess (i32 0)) s₁ =
      .error (.fault .exception) s₁ :=
    onPart_error.mpr ⟨_, _, bind_error.mpr (Or.inr ⟨0, s₁, hat, bind_error.mpr (Or.inl hnull)⟩), rfl, rfl⟩
  have herr : sysGetFileSize f.rsi s₁ = .error (.fault .exception) s₁ := by
    unfold sysGetFileSize
    rw [bind_run (get_run s₁), bind_run (low_run harg)]
    exact bind_error.mpr (Or.inl hget)
  refine ⟨s, f, s₁, s₁, r.reached, he, hrax, hcall.push, harg, ?_, ?_⟩
  · intro href
    obtain ⟨s', hrun, -⟩ := href.refuses hbad
    exact hbad (fd_call_opened (Or.inr (Or.inl rfl)) harg hrun)
  · rw [hcall.run, hrax]
    exact bind_error.mpr (Or.inl herr)

/-! ## fork -/

/-- `fork` makes a process and returns its number, or it reports -1 and the process table, the
    lists, the descriptors, the control blocks and the free pages are as before. -/
def ForkClean (K : Image) (s : Kernel) (f : TrapFrame) : Prop :=
  ∃ s', step K (.syscall f) s = .ok () s' ∧
    ((∃ i, ¬ s.Live i ∧ s'.Live i ∧
        (s'.frame s.pc.currentProcess).rax = ofInt (s'.processTable i).pid) ∨
      (s'.frame s.pc.currentProcess).rax = ofInt (-1) ∧ s'.processTable = s.processTable ∧
        s'.pc = s.pc ∧ (∀ p ∈ s.tablePages, ∀ x, InPage p x → s'.ram.mem x = s.ram.mem x) ∧
        ∀ free, FreeList K s.ram free → FreeList K s'.ram free)

section Fork

variable {pool free : List Nat} {a : Sched} {S : Handles} {s : Kernel} {i : Slot}

/-- `fork` succeeds exactly with a free slot and seven free pages; it never reports a failure. -/
theorem fork_clean_iff (h : Whole K pool free a S s) (hc : a.current ≠ 0) {f : TrapFrame}
    (hf : f.ofUser 0x80) (hrdi : f.rdi < 2 ^ 63) (hrax : f.rax = 13) :
    ForkClean K s f ↔ findUnusedProcess s ≠ none ∧ 7 ≤ free.length := by
  constructor
  · rintro ⟨s', hstep, -⟩
    obtain ⟨s₁, hcall⟩ := call_begins (K := K) h hc hf hrdi (by omega)
    have h₁ := hcall.whole
    rw [hcall.run, hrax] at hstep
    obtain ⟨r, s₂, hfork, -⟩ := bind_ok.mp hstep
    obtain ⟨pid, s₃, hfork, -⟩ := bind_ok.mp hfork
    have hsame : findUnusedProcess s₁ = findUnusedProcess s := by
      rw [h₁.rep.findUnused, h.rep.findUnused]
    rcases fork_run h₁.rep h₁.sane h₁.mem h₁.files hc with
      ⟨-, hno⟩ | ⟨i, s₄, free', S', -, hi, -, -, hm, -, -, -, hperm, hl, -⟩
    · exact absurd hfork (hno _ _)
    · refine ⟨by rw [← hsame, hi]; simp, ?_⟩
      have h7 := hm.seven_le hl (l := [])
      have hlen := hperm.length_eq
      rw [List.length_append] at hlen
      omega
  · rintro ⟨hslot, h7⟩
    obtain ⟨i, hi⟩ := Option.ne_none_iff_exists'.mp hslot
    rw [h.rep.findUnused] at hi
    obtain ⟨s', free', S', hstep, h', -, -, hret⟩ := fork_move h hc hf hrdi hrax h7 hi
    have hu : a.state i = .unused := by simpa using List.find?_some hi
    have hi0 := h.sane.unused_ne hu
    refine ⟨s', hstep, Or.inl ⟨i, fun hl => hl.2 (by rw [h.rep.state, hu]), ⟨hi0, ?_⟩, ?_⟩⟩
    · rw [h'.rep.state]
      simp [Sched.create]
    · rw [hret, h'.rep.pid]
      simp [Sched.create]

end Fork

/-- In every state reached, `fork` is clean exactly when a slot and seven pages are free. -/
theorem run_fork_clean {m : Mem} {r : Ram} {pool : List Nat} {s₀ s : Kernel} (hbios : BiosOk m)
    (hinit : initMemory K (bootKernel m).ram = .ok () r) (hpool : FreeList K r pool)
    (h₀ : kMain K (bootKernel m) = .ok () s₀) (h : Run K Confined s₀ s) {f : TrapFrame}
    (he : Enabled s (.syscall f)) (hrdi : f.rdi < 2 ^ 63) (hrax : f.rax = 13) :
    ForkClean K s f ↔
      findUnusedProcess s ≠ none ∧ ∃ free, FreeList K s.ram free ∧ 7 ≤ free.length := by
  obtain ⟨free₀, hw₀⟩ := boot_whole hbios hinit hpool h₀
  obtain ⟨free, a, S, hw⟩ := run_whole hw₀ (fun _ _ hc => hc) h
  rw [fork_clean_iff hw (hw.rep.current ▸ he.2.1) he.2.2 hrdi hrax]
  refine and_congr_right fun _ => ⟨fun h7 => ⟨free, hw.mem.freeList, h7⟩, ?_⟩
  rintro ⟨free', hfl, h7⟩
  rwa [← hfl.unique hw.mem.freeList]

theorem run_fork_clean_machine : ∃ s f, Reached image (machineMem 20 []) Confined s ∧
    Enabled s (.syscall f) ∧ f.rax = 13 ∧ (ForkClean image s f ↔
      findUnusedProcess s ≠ none ∧ ∃ free, FreeList image s.ram free ∧ 7 ≤ free.length) := by
  obtain ⟨r, pool, hinit, hfl, -⟩ := machine_pool (n := 20) (by decide) []
  obtain ⟨pool', free, s, h, -, -, -⟩ := reached_user (n := 20) (by decide) (by decide) []
    Confined fun s e he => by rcases he with ⟨f, rfl⟩ | rfl <;> trivial
  have he := h.enabled_call (by decide) (by decide) 13 (by decide) At.zero_lt At.zero_lt
    At.zero_lt At.zero_lt
  obtain ⟨s₀, h₀, hrun⟩ := h.reached
  exact ⟨s, _, ⟨s₀, h₀, hrun⟩, he, rfl,
    run_fork_clean (machine_bios (by decide)) hinit hfl h₀ hrun he At.rdi_lt rfl⟩

/-- With twelve pages the kernel boots, and the first `fork` stops it. -/
theorem fork_not_clean : ∃ s f, Reached image (machineMem 12 []) Confined s ∧
    Enabled s (.syscall f) ∧ f.rdi < 2 ^ 63 ∧ f.rax = 13 ∧ ¬ ForkClean image s f := by
  obtain ⟨pool, free, s, h, hpool, -, -⟩ := reached_user (n := 12) (by decide) (by decide) []
    Confined fun s e he => by rcases he with ⟨f, rfl⟩ | rfl <;> trivial
  have hc : userSched.current ≠ 0 := by decide
  have he := h.enabled_call (by decide) hc 13 (by decide) At.zero_lt At.zero_lt At.zero_lt
    At.zero_lt
  refine ⟨s, _, h.reached, he, At.rdi_lt, rfl, ?_⟩
  rw [fork_clean_iff h.whole hc he.2.2 At.rdi_lt rfl]
  rintro ⟨-, h7⟩
  have := h.whole.mem.free_le (h.whole.live hc)
  omega

end Os64
