/-
  What fork copies.

  * `run_fork_copies`: in a run whose calls keep to the callers' user pages, a `fork` that succeeds
    copies its caller and leaves the caller as it was.
  * `fork_forged`: when the link of the only descriptor leads into the caller's page, `fork` counts
    up there and not in a control block.
  * `fork_counts_up`: a program that makes that happen, with a read over the link.
-/
import Os64.Sys.Resumed
import Os64.Sys.Wild

namespace Os64

open Os64.Lib

variable {K : Image} {pool free : List Nat} {a : Sched} {S : Handles} {s s₁ s' : Kernel}

/-! ## What fork promises -/

variable (K) in
/-- The `fork` of process `p`, called with the registers `f`, turned `s` into `s₁` and copied `p` to
    slot `i`; from then on the stores of one process do not change the page of another. -/
structure ForkCopies (f : TrapFrame) (p i : Slot) (s s₁ : Kernel) : Prop where
  page : ∀ va, InUser va → s₁.userByte i va = s.userByte p va
  apart : s₁.userPage i ≠ s.userPage p
  frame : s₁.frame i = { f with rax := 0 }
  file : (s₁.processTable i).file = (s.processTable p).file
  pid : s₁.frame p = { f with rax := ofInt (s₁.processTable i).pid }
  last : ∃ L, ReadyList s₁ (L ++ [i])
  memory : s₁.userPage p = s.userPage p ∧ ∀ va, InUser va → s₁.userByte p va = s.userByte p va
  tables : s₁.root p = s.root p ∧ ∀ t ∈ tables (entries s.ram.mem) (s.root p), ∀ x, InPage t x →
    s₁.ram.mem x = s.ram.mem x
  own : (s₁.processTable p).file = (s.processTable p).file
  stores : ∀ s₂ s₃, Run K Confined s₁ s₂ → Run K (fun _ e => ∃ va b, e = .store va b) s₂ s₃ →
    ∀ j, j ≠ s₂.pc.currentProcess → s₂.Live j →
      s₃.userPage j = s₂.userPage j ∧ ∀ va, InUser va → s₃.userByte j va = s₂.userByte j va

section Copies

variable {f : TrapFrame} {j : Slot}

/-- Stores of the current program, one after the other. -/
theorem stores_undisturbed (h : Whole K pool free a S s)
    (hrun : Run K (fun _ e => ∃ va b, e = .store va b) s s') (hj : j ≠ s.pc.currentProcess)
    (hl : s.Live j) : Undisturbed j s s' ∧ s'.pc = s.pc ∧ s'.Live j ∧
      ∃ free' a' S', Whole K pool free' a' S' s' := by
  induction hrun with
  | refl => exact ⟨.refl j s, rfl, hl, free, a, S, h⟩
  | step _ he hok hs ih =>
      obtain ⟨hund, hpc, hl₁, free₁, a₁, S₁, h₁⟩ := ih
      obtain ⟨va, b, rfl⟩ := hok
      rw [← hpc] at hj
      have hcur := h₁.live (h₁.rep.current ▸ he.2.1)
      have hva : va < 2 ^ 47 := by
        have := (store_inUser h₁ he).2
        omega
      have hp := ((storeVirt_ends (h₁.mem.currentSpace hcur) hva InUser b).ok (low_ok hs)).2
      obtain ⟨free₂, a₂, S₂, h₂, -⟩ := step_whole h₁ he trivial hs
      refine ⟨hund.trans (store_undisturbed h₁ he hs hj hl₁), ?_, (hp.still.live j).mpr hl₁, free₂, a₂,
        S₂, h₂⟩
      rw [← hpc, hp.same]

theorem fork_copies (h : Whole K pool free a S s) (he : Enabled s (.syscall f))
    (hrdi : f.rdi < 2 ^ 63) (hrax : f.rax = 13) (hrun : step K (.syscall f) s = .ok () s₁) :
    ∃ i, ForkCopies K f s.pc.currentProcess i s s₁ := by
  obtain ⟨i, hf⟩ := fork_step h he hrdi hrax hrun
  obtain ⟨free', S', h₁, -⟩ := hf.whole
  have hc : a.current ≠ 0 := h.rep.current ▸ he.2.1
  have hu : a.state i = .unused := (h.rep.state i).symm.trans hf.unused.2
  have hne : i ≠ s.pc.currentProcess := fun hi => (h.live hc).2 (hi ▸ hf.unused.2)
  have hcur : s₁.pc.currentProcess = s.pc.currentProcess := by
    rw [h₁.rep.current, h.rep.current]
    rfl
  have hlp : s₁.Live s.pc.currentProcess := hcur ▸ h₁.live hc
  have hli : s₁.Live i := by
    refine ⟨h.sane.unused_ne hu, ?_⟩
    rw [h₁.rep.state]
    change Function.update a.state i .ready i ≠ .unused
    rw [Function.update_self]
    exact nofun
  have hpid : (s₁.processTable i).pid = s.pidNum := by
    rw [h₁.rep.pid, hf.unused.1]
    exact Function.update_self _ _ _
  refine ⟨i, fun va hva => (hf.bytes va hva).2, fun hpage => ?_, hf.frame.2, hf.file.1, ?_,
    ⟨a.queue .ready, ?_⟩, ⟨hf.userPage, fun va hva => (hf.bytes va hva).1⟩, ⟨hf.root, hf.tables⟩,
    hf.file.2, fun s₂ s₃ hrun₂ hstores j hj hl => ?_⟩
  · rw [← hf.userPage] at hpage
    have hout := h₁.mem.apart (o := .process i) (u := .process s.pc.currentProcess)
      (fun ho => hne (Owner.process.inj ho)) (MemOk.userPage_mem (l := free') hli)
    rw [hpage] at hout
    exact hout (MemOk.userPage_mem hlp)
  · rw [hpid]
    exact hf.frame.1
  · have hready := h₁.rep.readyList
    change ReadyList s₁ (Function.update a.queue .ready (a.queue .ready ++ [i]) .ready) at hready
    rw [Function.update_self] at hready
    exact hready
  · obtain ⟨free₂, a₂, S₂, h₂⟩ := run_whole h₁ (fun _ _ hconf => hconf) hrun₂
    obtain ⟨hund, -⟩ := stores_undisturbed h₂ hstores hj hl
    exact ⟨hund.userPage, fun va hva => hund.userByte hl hva⟩

/-- In a run whose calls keep to the callers' user pages, a `fork` that succeeds copies its caller. -/
theorem run_fork_copies {m : Mem} {r : Ram} {s₀ : Kernel} (hbios : BiosOk m)
    (hinit : initMemory K (bootKernel m).ram = .ok () r) (hpool : FreeList K r pool)
    (h₀ : kMain K (bootKernel m) = .ok () s₀) (h : Run K Confined s₀ s)
    (he : Enabled s (.syscall f)) (hrdi : f.rdi < 2 ^ 63) (hrax : f.rax = 13)
    (hrun : step K (.syscall f) s = .ok () s₁) :
    ∃ i, ForkCopies K f s.pc.currentProcess i s s₁ := by
  obtain ⟨free₀, hw₀⟩ := boot_whole hbios hinit hpool h₀
  obtain ⟨free, a, S, hw⟩ := run_whole hw₀ (fun _ _ hconf => hconf) h
  exact fork_copies hw he hrdi hrax hrun

theorem run_fork_copies_file : ∃ s n f s₁ i, Reached image fileMem Confined s ∧ s.desc n ≠ 0 ∧
    Enabled s (.syscall f) ∧ f.rax = 13 ∧ step image (.syscall f) s = .ok () s₁ ∧
      ForkCopies image f s.pc.currentProcess i s s₁ := by
  obtain ⟨pool, free, a, S, s, n, hr⟩ :=
    read_machine Confined (fun _ _ he => he) (show 1 ≤ 512 by decide)
  obtain ⟨s₀, h₀, hrun⟩ := hr.machine.reached
  obtain ⟨r₀, pool', hinit, hfl, -⟩ :=
    machine_pool (n := 20) (by decide) (diskWords 0x20 512 ++ [(0x30000800, 1, 0x41)])
  have he := hr.machine.enabled_call hr.user hr.running 13 (by decide) At.zero_lt At.zero_lt At.zero_lt
    At.zero_lt
  obtain ⟨s₁, free', S', hstep, -⟩ := fork_move (i := 2) hr.machine.whole hr.running he.2.2 At.rdi_lt
    rfl hr.room hr.slot
  obtain ⟨i, hi⟩ := run_fork_copies (machine_bios (by decide)) hinit hfl h₀ hrun he At.rdi_lt rfl hstep
  exact ⟨s, n, _, s₁, i, ⟨s₀, h₀, hrun⟩, hr.file.opened, he, rfl, hstep, hi⟩

end Copies

/-! ## A descriptor that leads into the caller's page -/

section Forged

variable {i : Slot} {n : Fin 100} {d u : Nat}

/-- The loop of `fork` over a row with one descriptor. -/
theorem shareFiles_one {desc fcb : Nat} {r₁ r₂ : Ram}
    (hdesc : (s.processTable i).file n = desc) (h0 : desc ≠ 0)
    (hrow : ∀ m, m ≠ n → (s.processTable i).file m = 0)
    (hcount : addField (descCount desc) 1 s.ram = .ok () r₁)
    (hlink : kload (descFcb desc) 8 r₁ = .ok fcb r₁)
    (hblock : addField (fcbCount fcb) 1 r₁ = .ok () r₂) :
    shareFiles i s = .ok () { s with ram := r₂ } := by
  unfold shareFiles
  rw [bind_run (get_run s)]
  refine forM_single_run (List.nodup_finRange 100) (List.mem_finRange n) (fun m hm t => ?_) ?_
  · rw [hrow m hm, if_neg (not_not.mpr rfl)]
    rfl
  · rw [hdesc, if_pos h0, bind_run (ram_run hcount)]
    exact (bind_run (ram_run (s := { s with ram := r₁ }) hlink)).trans
      (ram_run (s := { s with ram := r₁ }) hblock)

/-- The same when the link of the descriptor is the address of page `u`. -/
theorem shareFiles_forged {D : Nat} (hv : ValidPage K D) (hu : ValidPage K u) (hne : u ≠ D)
    (hd : d < descLimit) (hdesc : (s.processTable i).file n = descPtr D (some d))
    (hrow : ∀ m, m ≠ n → (s.processTable i).file m = 0)
    (hlink : load s.ram.mem (D + fileDescSize * d) 8 = u + kernelBase) :
    ∃ r, shareFiles i s = .ok () { s with ram := r } ∧ Wrote [D, u] s.ram r ∧
      load r.mem (u + 24) 4 = (load s.ram.mem (u + 24) 4 + 1) % 2 ^ 32 := by
  have hend := desc_end D hd
  unfold fileDescSize at hend
  have hpage := pageSize_eq
  have hq : descPtr D (some d) = D + fileDescSize * d + kernelBase := by
    unfold descPtr
    dsimp only
    rw [hv.p2v_eq]
    omega
  have hcount := addField_run hv (a := D + fileDescSize * d + 12) (v := descCount (descPtr D (some d)))
    (by unfold fileDescSize; omega) (by unfold descCount; omega) 1 s.ram
  generalize ((load s.ram.mem (D + fileDescSize * d + 12) 4 + 1 : Int) % 2 ^ 32).toNat = v at hcount
  have hwrote : Wrote [D] s.ram { s.ram with mem := store s.ram.mem (D + fileDescSize * d + 12) 4 v } :=
    wrote_store s.ram v (by omega) (by unfold fileDescSize; omega)
  generalize hr : ({ s.ram with mem := store s.ram.mem (D + fileDescSize * d + 12) 4 v } : Ram) = r₁ at *
  have hld := kload_page hv (a := D + fileDescSize * d) (n := 8) (v := descFcb (descPtr D (some d)))
    (by unfold fileDescSize; omega) (by omega) (by unfold descFcb; omega) r₁
  have hsame : load r₁.mem (D + fileDescSize * d) 8 = u + kernelBase := by
    rw [← hr, ← hlink]
    exact load_store_of_disjoint _ _ _ _ (by omega)
  rw [hsame] at hld
  have hblock := addField_run hu (a := u + 24) (v := fcbCount (u + kernelBase)) (by omega)
    (by unfold fcbCount; omega) 1 r₁
  have hold : load r₁.mem (u + 24) 4 = load s.ram.mem (u + 24) 4 :=
    hwrote.mem.load_eq hu.aligned (fun hin => hne (List.mem_singleton.mp hin))
      (fun p hp => List.mem_singleton.mp hp ▸ hv.aligned) (by omega) (by omega)
  have hlt := load_lt s.ram.mem (u + 24) 4
  refine ⟨_, shareFiles_one hdesc (by rw [hq, kernelBase_eq]; omega) hrow hcount hld hblock,
    (hwrote.mono (by simp)).trans ((wrote_store r₁ _ (show u ≤ u + 24 by omega)
      (show u + 24 + 4 ≤ u + pageSize by omega)).mono (by simp)), ?_⟩
  rw [load_store_self, hold]
  omega

/-- The only descriptor of the current process is `d`, and the control block that it names begins
    with the user page of the process. -/
structure Forges (s : Kernel) (n : Fin 100) (d : Nat) : Prop where
  descLt : d < descLimit
  desc : s.desc n = descPtr (v2p s.fileDescTable) (some d)
  row : ∀ m, m ≠ n → s.desc m = 0
  link : s.descLink d = s.userPage s.pc.currentProcess + kernelBase

/-- The field that `fork` takes for the count of the control block. -/
def Kernel.forged (s : Kernel) : Nat := load s.ram.mem (s.userPage s.pc.currentProcess + 24) 4

/-- A child that gets its pages changes neither the links nor that field. -/
theorem Fledged.untouched {free₂ : List Nat} {s₂ : Kernel} (h : Fledged K pool free free₂ a i s s₂)
    (hl : s.Live s.pc.currentProcess) (hd : d < descLimit) :
    load s₂.ram.mem (v2p s.fileDescTable + fileDescSize * d) 8 = s.descLink d ∧
      load s₂.ram.mem (s.userPage s.pc.currentProcess + 24) 4 = s.forged := by
  have hown : Owner.process s.pc.currentProcess ≠ .process i := fun he =>
    (h.lives _ hl).1 (Owner.process.inj he)
  have hend := desc_end (v2p s.fileDescTable) hd
  have hpage := pageSize_eq
  unfold fileDescSize at hend
  constructor
  · refine load_congr fun x h1 h2 => h.handed.mem .fileDescTable nofun nofun _ List.mem_cons_self x ?_
    unfold fileDescSize at h1 h2
    exact ⟨by omega, by omega⟩
  · exact load_congr fun x h1 h2 => h.handed.mem (.process s.pc.currentProcess) nofun hown _
      (MemOk.userPage_mem hl) x ⟨by omega, by omega⟩

theorem fork_forged (hr : Rep s a) (ha : a.Sane) (h : MemOk K pool free s) (hc : a.current ≠ 0)
    (hf : Forges s n d) (hfree : 7 ≤ free.length) (hslot : findUnusedProcess s = some i) :
    ∃ s' free', fork K s = .ok a.pidNum s' ∧ MemOk K pool free' s' ∧
      s'.Live s.pc.currentProcess ∧ s'.pc.currentProcess = s.pc.currentProcess ∧
      s'.userPage s.pc.currentProcess = s.userPage s.pc.currentProcess ∧
      (s'.processTable s.pc.currentProcess).tf = (s.processTable s.pc.currentProcess).tf ∧
      s'.forged = (s.forged + 1) % 2 ^ 32 := by
  have hl : s.Live s.pc.currentProcess := by
    refine ⟨hr.current ▸ hc, ?_⟩
    rw [hr.state, hr.current, ha.current_running]
    exact nofun
  rcases fork_fledges hr ha h hc (K := K) with ⟨hno, -⟩ | ⟨j, s₂, free₂, hfl⟩
  · rcases hno with hlt | hnone
    · omega
    · rw [hslot] at hnone
      cases hnone
  have hj := hfl.found
  rw [hslot] at hj
  obtain rfl := Option.some.inj hj
  have h₂ := hfl.handed.memOk
  obtain ⟨hpi, hl₂⟩ := hfl.lives _ hl
  have hown : Owner.process s.pc.currentProcess ≠ .process i := fun he => hpi (Owner.process.inj he)
  have huser := hfl.handed.userPage _ hpi hl
  have hrow := hfl.other _ hpi
  have hD : s₂.fileDescTable = s.fileDescTable := by rw [hfl.same]
  have hv := h.tablePages.desc
  have hu : ValidPage K (s.userPage s.pc.currentProcess) :=
    h.validOf (o := .process s.pc.currentProcess) (MemOk.userPage_mem (l := free) hl)
  have hne : s.userPage s.pc.currentProcess ≠ v2p s.fileDescTable := fun he =>
    (h.userPage_off_tables hl).2 (he ▸ List.mem_cons_of_mem _ List.mem_cons_self)
  have hpage := pageSize_eq
  obtain ⟨htable, hcount⟩ := hfl.untouched hl hf.descLt
  -- the descriptors
  have hfile : ((s₂.setProcess i fun q =>
      { q with file := (s₂.processTable s.pc.currentProcess).file }).processTable i).file =
        (s.processTable s.pc.currentProcess).file := by
    simp [Kernel.setProcess, hrow]
  obtain ⟨r, hshare, hw, hnew⟩ := shareFiles_forged (n := n) hv hu hne hf.descLt
    ((congrFun hfile n).trans hf.desc) (fun m hm => (congrFun hfile m).trans (hf.row m hm))
    (htable.trans hf.link)
  have hdata : ∀ q ∈ [v2p s.fileDescTable, s.userPage s.pc.currentProcess], s₂.Data q := by
    intro q hq
    rcases List.mem_cons.mp hq with he | hq
    · rw [he, ← hD]
      exact Or.inr (Or.inl rfl)
    · rw [List.mem_singleton.mp hq, ← huser]
      exact Or.inr (Or.inr ⟨_, hl₂, Or.inr rfl⟩)
  have hq : ∀ q, i ∉ (a.newborn i).queue q := fun q =>
    Sched.Sane.unused_free (a := a) ha.toListed hfl.unused q
  obtain ⟨s', hrun, hr', hd⟩ := dressChild_shared hfl.rep hq h₂ hl₂ hfl.live hdata hw hshare a.pidNum
  have hdata' : ∀ q ∈ [v2p s.fileDescTable, s.userPage s.pc.currentProcess] ++ [s₂.stackPage i],
      s₂.Data q := by
    intro q hq
    rcases List.mem_append.mp hq with hq | hq
    · exact hdata q hq
    · exact Or.inr (Or.inr ⟨i, hfl.live, Or.inl (List.mem_singleton.mp hq)⟩)
  have hstays := h₂.still hd.still hdata'
  have hcur : s'.pc.currentProcess = s.pc.currentProcess := hr'.current.trans hr.current.symm
  have hpage' : s'.userPage s.pc.currentProcess = s.userPage s.pc.currentProcess :=
    (hstays.userPage _ hl₂).trans huser
  refine ⟨s', free₂, hfl.run.trans hrun, hstays.memOk, (hd.still.live _).mpr hl₂, hcur, hpage',
    by rw [hd.still.tf, hrow], ?_⟩
  have hstack : ValidPage K (s₂.stackPage i) := h₂.stackValid hfl.live
  have happart : s.userPage s.pc.currentProcess ≠ s₂.stackPage i := by
    rw [← huser]
    intro he
    exact h₂.apart hown (MemOk.userPage_mem (l := free₂) hl₂) (he ▸ MemOk.stackPage_mem hfl.live)
  unfold Kernel.forged
  rw [hcur, hpage', hd.mem.load_eq hu.aligned (fun hin => happart (List.mem_singleton.mp hin))
    (fun p hp => List.mem_singleton.mp hp ▸ hstack.aligned) (by omega) (by omega), hnew]
  exact congrArg (fun x => (x + 1) % 2 ^ 32) hcount

/-- Stores to the stack of the process change none of this. -/
theorem Forges.stack (h : MemOk K pool free s) (hl : s.Live s.pc.currentProcess) {r : Ram}
    (hw : Wrote [s.stackPage s.pc.currentProcess] s.ram r) :
    ({ s with ram := r } : Kernel).userPage s.pc.currentProcess = s.userPage s.pc.currentProcess ∧
      ({ s with ram := r } : Kernel).forged = s.forged ∧
      (Forges s n d → Forges { s with ram := r } n d) := by
  have hdata : ∀ q ∈ [s.stackPage s.pc.currentProcess], s.Data q := fun q hq =>
    Or.inr (Or.inr ⟨_, hl, Or.inl (List.mem_singleton.mp hq)⟩)
  have hpage := pageSize_eq
  have hv := h.stackValid hl
  have hal : ∀ q ∈ [s.stackPage s.pc.currentProcess], q % pageSize = 0 := fun q hq =>
    List.mem_singleton.mp hq ▸ hv.aligned
  have huser := (h.still (still_ram hw) hdata).userPage _ hl
  have hcount : load r.mem (s.userPage s.pc.currentProcess + 24) 4 = s.forged :=
    hw.mem.load_eq (h.userPage_off_tables hl).1
      (fun hin => (h.within hl).1 (List.mem_singleton.mp hin).symm) hal (by omega) (by omega)
  refine ⟨huser, ?_, fun hf => ⟨hf.descLt, hf.desc, hf.row, ?_⟩⟩
  · unfold Kernel.forged at hcount ⊢
    rw [huser]
    exact hcount
  · have hend := desc_end (v2p s.fileDescTable) hf.descLt
    unfold fileDescSize at hend
    have hlink : load r.mem (v2p s.fileDescTable + fileDescSize * d) 8 = s.descLink d :=
      hw.mem.load_eq h.tablePages.desc.aligned (fun hin => (h.tables_off_stack hl _
        (List.mem_cons_of_mem _ List.mem_cons_self)).2 (List.mem_singleton.mp hin)) hal (by omega)
        (by unfold fileDescSize; omega)
    rw [huser]
    exact hlink.trans hf.link

/-- The call. -/
theorem fork_move_forged (hr : Rep s a) (ha : a.Sane) (h : MemOk K pool free s) {f : TrapFrame}
    (he : Enabled s (.syscall f)) (hrdi : f.rdi < 2 ^ 63) (hrax : f.rax = 13) (hf : Forges s n d)
    (hfree : 7 ≤ free.length) (hslot : findUnusedProcess s = some i) :
    ∃ s', step K (.syscall f) s = .ok () s' ∧
      s'.userPage s.pc.currentProcess = s.userPage s.pc.currentProcess ∧
      load s'.ram.mem (s.userPage s.pc.currentProcess + 24) 4 = (s.forged + 1) % 2 ^ 32 := by
  have hc : a.current ≠ 0 := hr.current ▸ he.2.1
  have hl : s.Live s.pc.currentProcess := by
    refine ⟨he.2.1, ?_⟩
    rw [hr.state, hr.current, ha.current_running]
    exact nofun
  obtain ⟨r, -, hw, -, hstep⟩ := syscall_run (K := K) h hl he.2.2.2.2.2
  rw [if_neg (by omega), hrax] at hstep
  obtain ⟨page₁, count₁, hf₁⟩ := Forges.stack (n := n) (d := d) h hl hw
  have h₁ : MemOk K pool free { s with ram := r } := (h.still (still_ram hw) fun q hq =>
    Or.inr (Or.inr ⟨_, hl, Or.inl (List.mem_singleton.mp hq)⟩)).memOk
  obtain ⟨s₂, free₂, hfork, h₂, hl₂, hcur, page₂, htf, count₂⟩ :=
    fork_forged (hr.setRam r) ha h₁ hc (hf₁ hf) hfree hslot
  rw [← hcur] at hl₂
  have htf₂ : s.trapFrame = (s₂.processTable s₂.pc.currentProcess).tf := by
    rw [hcur, htf]
    exact h.trapFrame_eq hl
  obtain ⟨r₃, hset, -, hw₃⟩ := setResult_run h₂ hl₂ htf₂ a.pidNum
  obtain ⟨page₃, count₃, -⟩ := Forges.stack (n := n) (d := d) h₂ hl₂ hw₃
  have hsys : systemCalls K 13 f.rsi { s with ram := r } = .ok (some a.pidNum) s₂ := bind_run hfork
  rw [hcur] at page₃
  have hpage : ({ s₂ with ram := r₃ } : Kernel).userPage s.pc.currentProcess =
      s.userPage s.pc.currentProcess := page₃.trans (page₂.trans page₁)
  refine ⟨{ s₂ with ram := r₃ }, ?_, hpage, ?_⟩
  · rw [hstep, bind_run hsys]
    exact hset
  · rw [← count₁, ← count₂, ← count₃, ← hpage]
    unfold Kernel.forged
    rw [hcur]

end Forged

/-! ## A machine for it -/

/-- The kernel's addresses of the pages, from byte 8 of the file on. -/
def forgedWords : List Word :=
  (List.range 20).map fun i => (0x30000808 + 8 * i, 8, kernelBase + (0x400000 + i * pageSize))

def forgedMem : Mem := machineMem 20 (diskWords 0x20 512 ++ forgedWords)

theorem forgedMem_file : FileDisk forgedMem := by
  refine .of_words ⟨by decide +kernel, ⟨by decide +kernel, by decide +kernel⟩, ?_, by decide +kernel,
    by decide +kernel, by decide +kernel⟩ (by decide +kernel) (by decide +kernel) (by decide +kernel)
    (by decide +kernel)
  exact ⟨by decide +kernel, ⟨⟨by decide +kernel, by decide +kernel⟩, by decide +kernel,
    by decide +kernel⟩, fun j hj => absurd hj (Nat.not_lt_zero j)⟩

theorem forgedMem_at : volumeStart forgedMem + (volumeAt forgedMem).offset 2 = 0x30000800 := by
  decide +kernel

theorem forgedMem_word : ∀ i < 20,
    load forgedMem (0x30000808 + 8 * i) 8 = kernelBase + (0x400000 + i * pageSize) := by
  decide +kernel

/-- The user page of a process is one of the machine's pages. -/
theorem Reached.userPage {ws : List Word} (h : Reached image (machineMem 20 ws) Confined s)
    (hc : s.pc.currentProcess ≠ 0) :
    ∃ i < 20, s.userPage s.pc.currentProcess = 0x400000 + i * pageSize := by
  obtain ⟨s₀, h₀, hrun⟩ := h
  obtain ⟨r, pool', hinit, hfl, hperm⟩ := machine_pool (n := 20) (by decide) ws
  obtain ⟨free₀, hw₀⟩ := boot_whole (machine_bios (by decide)) hinit hfl h₀
  obtain ⟨free', a', S', hw⟩ := run_whole hw₀ (fun _ _ hconf => hconf) hrun
  have hl := hw.live (hw.rep.current ▸ hc)
  have hmem := hw.mem.pages.mem_pool (Owner.process s.pc.currentProcess).mem_all
    (MemOk.userPage_mem (l := free') hl)
  obtain ⟨i, hi, he⟩ := List.mem_map.mp (hperm.mem_iff.mp hmem)
  exact ⟨i, List.mem_range.mp hi, he.symm⟩

/-- The first program reads a word of its file over the link of its descriptor. -/
theorem Reader.forges {n : Fin 100} {i : Nat}
    (hr : Reader forgedMem Confined (8 + 8 * i) pool free a S s n) (hi : i < 20)
    (hpage : s.userPage s.pc.currentProcess = 0x400000 + i * pageSize) :
    ∃ b d s', Reached image forgedMem (fun _ _ => True) s' ∧ Rep s' b ∧ b.Sane ∧
      b.current ≠ 0 ∧ b.kont b.current = .user ∧ findUnusedProcess s' = some 2 ∧
      MemOk image pool free s' ∧ Forges s' n d := by
  have h := hr.machine.whole
  obtain ⟨d, c, hd⟩ := h.files.openDesc h.mem hr.file.opened
  have hend := desc_end (v2p s.fileDescTable) hd.descLt
  unfold fileDescSize at hend
  obtain ⟨f, s₁, s', he, hcall, hstep, hwild, hm⟩ := hr.wild (k := 8)
    (x := v2p s.fileDescTable + fileDescSize * d) forgedMem_file hd (by decide) (by omega) (by omega)
    (by unfold fileDescSize; omega)
  obtain ⟨os, hos⟩ : ∃ os, s'.hist = s.hist ++ os := ⟨_, by rw [hwild.same]⟩
  have hrep : Rep s' { a with hist := a.hist ++ os } :=
    h.rep.of_eq os (by rw [hwild.same]) (by rw [hwild.same]) (by rw [hwild.same]) (by rw [hwild.same])
      hos
  have hD : s'.fileDescTable = s.fileDescTable := by rw [hwild.same]
  have hcur : s'.pc.currentProcess = s.pc.currentProcess := by rw [hwild.same]
  have huser : s'.userPage s.pc.currentProcess = s.userPage s.pc.currentProcess := by
    have hl := h.live hr.running
    refine (h.mem.still hwild.still fun q hq => ?_).userPage _ hl
    rcases List.mem_cons.mp hq with he | hq
    · exact Or.inr (Or.inl he)
    · exact Or.inr (Or.inr ⟨_, hl, Or.inl (List.mem_singleton.mp hq)⟩)
  have hlink : s'.descLink d = load forgedMem (0x30000808 + 8 * i) 8 := by
    have hsrc : volumeStart forgedMem + ((volumeAt forgedMem).offset 2 + (8 + 8 * i)) =
        0x30000808 + 8 * i := by
      rw [← Nat.add_assoc, forgedMem_at]
      omega
    calc s'.descLink d = load (s.patched n (v2p s.fileDescTable + fileDescSize * d) 8)
          (v2p s.fileDescTable + fileDescSize * d) 8 := by
            unfold Kernel.descLink
            rw [hD]
            refine load_congr fun y h1 h2 => hwild.others y ?_ (Or.inl (by omega))
            unfold fileDescSize at h1 h2
            exact ⟨by omega, by omega⟩
      _ = load s.ram.mem (0x30000808 + 8 * i) 8 := by
            rw [hr.patched forgedMem_file (by omega), load_copy _ (Nat.le_refl _) (Nat.le_refl _),
              Nat.sub_self, Nat.add_zero, hsrc]
      _ = load forgedMem (0x30000808 + 8 * i) 8 :=
            load_congr fun y h1 _ => hr.volume y (by unfold fsBase; omega)
  have hdesc : ∀ m, s'.desc m = s.desc m := fun m => by
    rw [hwild.same]
    rfl
  refine ⟨_, d, s', (hr.machine.reached.mono fun _ _ _ => trivial).step he trivial hstep, hrep,
    h.sane.congr rfl rfl rfl rfl rfl, hr.running, hr.user, hrep.findUnused.trans hr.slot, hm,
    hd.descLt, ?_, fun m hne => ?_, ?_⟩
  · rw [hdesc, hd.desc, hwild.same]
  · -- it is the only one
    obtain ⟨d', c', hS⟩ := hr.handles
    have hfile := h.files.rep.held s.pc.currentProcess m
    have hnone : S.held (s.pc.currentProcess, m) = none := by
      rw [hS]
      exact Function.update_of_ne (fun he => hne (Prod.mk.inj he).2) _ _
    rw [hnone] at hfile
    rw [hdesc]
    exact hfile
  · rw [hlink, forgedMem_word i hi, hcur, huser, hpage, Nat.add_comm]

/-- A program reads the address of its own page over the link of its descriptor, and forks: the
    kernel counts up in that page. -/
theorem fork_counts_up : ∃ s f s₁, Reached image forgedMem (fun _ _ => True) s ∧
    Enabled s (.syscall f) ∧ f.rdi < 2 ^ 63 ∧ f.rax = 13 ∧ step image (.syscall f) s = .ok () s₁ ∧
      ¬ ∃ i, ForkCopies image f s.pc.currentProcess i s s₁ := by
  obtain ⟨pool, free, a, S, t, n, ht⟩ := opened_machine forgedMem_file Confined fun _ _ he => he
  obtain ⟨i, hi, hpage⟩ := ht.machine.reached.userPage (ht.machine.whole.rep.current ▸ ht.running)
  obtain ⟨b, t', hr, huser⟩ := ht.reads forgedMem_file (fun _ _ he => he) (show 8 + 8 * i ≤ 512 by omega)
  obtain ⟨b', d, s, hreached, hrep, hsane, hc, hkont, hslot, hm, hf⟩ := hr.forges hi (huser.trans hpage)
  have he : Enabled s (.syscall (userFrame 0x80 13 0 0 0 0 0)) := by
    refine ⟨?_, hrep.current ▸ hc, userFrame_ofUser (by decide) (by decide) (by decide) (by decide)
      (by decide) (by decide) (by decide)⟩
    unfold Kernel.current
    rw [hrep.kont, hrep.current]
    exact hkont
  obtain ⟨s₁, hstep, hpage₁, hcount⟩ :=
    fork_move_forged hrep hsane hm he (by decide) rfl hf hr.room hslot
  refine ⟨s, _, s₁, hreached, he, by decide, rfl, hstep, ?_⟩
  rintro ⟨j, hcopy⟩
  have hsame : load s₁.ram.mem (s.userPage s.pc.currentProcess + 24) 4 = s.forged := by
    refine load_congr fun y h1 h2 => ?_
    obtain ⟨k, rfl⟩ := Nat.exists_eq_add_of_le (show s.userPage s.pc.currentProcess ≤ y by omega)
    have hbyte := hcopy.memory.2 (0x400000 + k) ⟨by omega, by omega⟩
    unfold Kernel.userByte at hbyte
    rw [hpage₁, Nat.add_sub_cancel_left] at hbyte
    exact hbyte
  have hlt : s.forged < 256 ^ 4 := load_lt _ _ _
  omega

end Os64
