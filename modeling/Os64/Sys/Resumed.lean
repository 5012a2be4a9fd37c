/-
  Interrupted programs.

  * `Rested j s s'`: between `s` and `s'` process `j` has kept its pages with their contents, its
    number, and where it goes on.
  * `run_rested`: so it is in every run in which it does not become current.
  * `run_unnoticed`: a program that a timer interrupt takes the processor from goes on with its
    registers and its memory as they were.
  * `run_duplicated`: the two processes that return from `fork`.
-/
import Os64.Sched.Resting
import Os64.Files.Slices
import Os64.Sys.Moves
import Os64.Sys.Reach

namespace Os64

open Os64.Lib

variable {K : Image}

structure Rested (j : Slot) (s s' : Kernel) : Prop where
  alive : s'.Alive j
  kont : (s'.processTable j).kont = (s.processTable j).kont
  pid : (s'.processTable j).pid = (s.processTable j).pid
  undisturbed : Undisturbed j s s'

variable (K) in
/-- A run in which process `j` is never current, up to the last state. -/
def RunsWithout (j : Slot) : Kernel → Kernel → Prop :=
  Run K fun s e => Confined s e ∧ s.pc.currentProcess ≠ j

/-- Slot `j` runs a program in user mode with the registers `f`, and finds the bytes `page` in its
    user page; nothing else is open to it. -/
structure Continues (j : Slot) (f : TrapFrame) (pid : Int) (page : Nat → UInt8) (s : Kernel) :
    Prop where
  current : s.pc.currentProcess = j
  mode : s.current.kont = .user
  pid : s.current.pid = pid
  frame : s.frame j = f
  rsp0 : s.trapFrame = s.current.tf
  bytes : ∀ va, InUser va → ∃ t, s.translate va = some t ∧ t.user = true ∧ t.writable = true ∧
    s.ram.mem t.phys = page va
  rest : ∀ va t, s.translate va = some t → t.user = true → InUser va

section Resting

variable {pool free : List Nat} {a : Sched} {S : Handles} {s s₁ s₂ s' : Kernel} {j : Slot}

theorem Kernel.Alive.live (h : s.Alive j) : s.Live j := ⟨h.1, h.2.1⟩

theorem Rested.refl (h : s.Alive j) : Rested j s s := ⟨h, rfl, rfl, .refl j s⟩

theorem Rested.trans (h : Rested j s s₁) (h' : Rested j s₁ s') : Rested j s s' :=
  ⟨h'.alive, h'.kont.trans h.kont, h'.pid.trans h.pid, h.undisturbed.trans h'.undisturbed⟩

theorem Undisturbed.stackPage (h : Undisturbed j s s') (hl : s.Live j) (hl' : s'.Live j) :
    s'.stackPage j = s.stackPage j := by
  have hp := h.pages
  rw [Kernel.pagesOf_live hl, Kernel.pagesOf_live hl'] at hp
  exact (List.cons.inj hp).1

/-- The frame is in the stack page. -/
theorem Undisturbed.frame (h : Undisturbed j s s') (hl : s.Live j) (hl' : s'.Live j) :
    s'.frame j = s.frame j := by
  obtain ⟨h1, h2⟩ := frameAddr_end s j
  have haddr : s'.frameAddr j = s.frameAddr j := by
    unfold Kernel.frameAddr
    rw [h.stackPage hl hl']
  unfold Kernel.frame
  rw [haddr]
  exact frameAt_congr fun x hx1 hx2 => h.mem _ (MemOk.stackPage_mem hl) x ⟨by omega, by omega⟩

theorem Undisturbed.userByte (h : Undisturbed j s s') (hl : s.Live j) {va : Nat} (hva : InUser va) :
    s'.userByte j va = s.userByte j va := by
  obtain ⟨h1, h2⟩ := hva
  unfold Kernel.userByte
  rw [h.userPage]
  exact h.mem _ (MemOk.userPage_mem hl) _ ⟨by omega, by rw [pageSize_eq]; omega⟩

/-- A step of another process. -/
theorem step_rested (h : Whole K pool free a S s) {e : Event} (he : Enabled s e)
    (hconf : Confined s e) (hrun : step K e s = .ok () s') (hj : s.pc.currentProcess ≠ j)
    (hal : s.Alive j) : Rested j s s' := by
  obtain ⟨hal', hkont, hpid⟩ := step_alive h.rep h.sane he hrun hj.symm hal
  obtain ⟨_, _, _, -, hstep⟩ := step_whole h he hconf hrun
  exact ⟨hal', hkont, hpid, hstep.others j hj.symm hal.live hal'.live⟩

/-- A run without the process. -/
theorem run_rested (h : Whole K pool free a S s) (hal : s.Alive j) (hrun : RunsWithout K j s s') :
    Rested j s s' ∧ ∃ free' a' S', Whole K pool free' a' S' s' := by
  induction hrun with
  | refl => exact ⟨.refl hal, free, a, S, h⟩
  | step _ he hok hs ih =>
      obtain ⟨hrest, free₁, a₁, S₁, h₁⟩ := ih
      obtain ⟨free₂, a₂, S₂, h₂, -⟩ := step_whole h₁ he hok.1 hs
      exact ⟨hrest.trans (step_rested h₁ he hok.1 hs hok.2 hrest.alive), free₂, a₂, S₂, h₂⟩

/-! ## Back in user mode -/

/-- What the page map of the current process opens to it. -/
theorem Whole.translate_user (h : Whole K pool free a S s) (hl : s.Live s.pc.currentProcess) {va : Nat}
    (hva : InUser va) :
    s.translate va = some ⟨s.userPage s.pc.currentProcess + (va - 0x400000), true, true⟩ := by
  obtain ⟨h1, h2⟩ := hva
  unfold Kernel.translate
  rw [(h.mem.currentSpace hl).walk]
  exact if_pos ⟨h1, by rw [pageSize_eq]; omega⟩

theorem Whole.translate_inUser (h : Whole K pool free a S s) (hl : s.Live s.pc.currentProcess)
    {va : Nat} {t : Target} (ht : s.translate va = some t) (hu : t.user = true) : InUser va := by
  unfold Kernel.translate at ht
  rw [(h.mem.currentSpace hl).walk] at ht
  unfold spaceTarget at ht
  split at ht
  · rename_i hva
    rw [pageSize_eq] at hva
    exact ⟨hva.1, by omega⟩
  · unfold kernelTarget at ht
    split at ht
    · rw [← Option.some.inj ht] at hu
      cases hu
    · cases ht

theorem Whole.continues (h : Whole K pool free a S s) (hc : a.current ≠ 0)
    (hk : s.current.kont = .user) {page : Nat → UInt8}
    (hpage : ∀ va, InUser va → s.userByte s.pc.currentProcess va = page va) :
    Continues s.pc.currentProcess (s.frame s.pc.currentProcess) s.current.pid page s := by
  have hl := h.live hc
  exact ⟨rfl, hk, rfl, rfl, h.mem.trapFrame_eq hl, fun va hva =>
    ⟨_, h.translate_user hl hva, rfl, rfl, hpage va hva⟩, fun va t ht hu => h.translate_inUser hl ht hu⟩

/-- A process that was switched away from, and goes on at `TrapReturn`. -/
theorem Rested.continues {page : Nat → UInt8} (h : Rested j s s') (hw : Whole K pool free a S s')
    (hl : s.Live j) (hk : (s.processTable j).kont = .trapReturn)
    (hpage : ∀ va, InUser va → s.userByte j va = page va) (hcur : s'.pc.currentProcess = j) :
    (∀ e, Enabled s' e → e = .resume) ∧ ∃ s₃, step K .resume s' = .ok () s₃ ∧
      Continues j (s.frame j) (s.processTable j).pid page s₃ := by
  have hkont : s'.current.kont = .trapReturn := by
    unfold Kernel.current
    rw [hcur, h.kont, hk]
  have hnot : s'.current.kont ≠ .user := by
    rw [hkont]
    decide
  refine ⟨fun e he => ?_, ?_⟩
  · cases e with
    | resume => rfl
    | timer f => exact absurd he.1 hnot
    | keyboard code f => exact absurd he.1 hnot
    | spurious f => exact absurd he.1 hnot
    | syscall f => exact absurd he.1 hnot
    | exception f => exact absurd he.1 hnot
    | store va b => exact absurd he.1 hnot
  · have hc : a.current ≠ 0 := by
      rw [← hw.rep.current, hcur]
      exact h.alive.1
    obtain ⟨s₃, hs₃⟩ : ∃ s₃, s₃ = s'.setProcess j fun p => { p with kont := .user } := ⟨_, rfl⟩
    have hstep : step K .resume s' = .ok () s₃ := by
      change resume K s' = _
      unfold resume
      rw [bind_run (get_run s'), hkont, hcur, hs₃]
      rfl
    have hw₃ := hw.resumed
    rw [hcur, ← hs₃] at hw₃
    have hpc : s₃.pc.currentProcess = j := by
      rw [hs₃]
      exact hcur
    have hprocess : s₃.processTable j = { s'.processTable j with kont := .user } := by
      rw [hs₃]
      exact Function.update_self _ _ _
    have hrest : Still [] s' s₃ := by
      rw [hs₃]
      exact still_setProcess s' j Iff.rfl rfl rfl rfl
    have hstays := hw.mem.still hrest nofun
    have hlive := h.alive.live
    have hframe : s₃.frame j = s.frame j :=
      (hrest.frame hw.mem hlive nofun).trans (h.undisturbed.frame hl hlive)
    have hpage₃ : ∀ va, InUser va → s₃.userByte s₃.pc.currentProcess va = page va := by
      intro va hva
      rw [hpc, hw.mem.userByte_off hrest hlive nofun nofun hva, h.undisturbed.userByte hl hva,
        hpage va hva]
    have hcont := hw₃.continues hc (by unfold Kernel.current; rw [hpc, hprocess]) hpage₃
    unfold Kernel.current at hcont
    rw [hpc, hframe, hprocess] at hcont
    exact ⟨s₃, hstep, h.pid ▸ hcont⟩

/-- The first program of a machine with 20 pages. -/
theorem first_program : ∃ pool free s, 7 ≤ free.length ∧
    At image (machineMem 20 []) Confined pool free userSched noHandles s := by
  obtain ⟨pool, free, s, r, -, hfree, -⟩ := reached_user (n := 20) (by decide) (by decide) [] Confined
    fun s e he => by
      rcases he with ⟨f, rfl⟩ | rfl
      · trivial
      · trivial
  exact ⟨pool, free, s, by omega, r⟩

/-! ## The timer -/

variable (K) in
/-- The timer interrupt that turns `s` into `s₁` is not seen by the program that it interrupts:
    the program goes on at once, or whatever runs in between, it goes on when it is current
    again. -/
structure Unnoticed (f : TrapFrame) (s s₁ : Kernel) : Prop where
  stays : s₁.pc.currentProcess = s.pc.currentProcess →
    Continues s.pc.currentProcess f s.current.pid (s.userByte s.pc.currentProcess) s₁
  returns : s₁.pc.currentProcess ≠ s.pc.currentProcess →
    ∀ s₂, RunsWithout K s.pc.currentProcess s₁ s₂ → s₂.pc.currentProcess = s.pc.currentProcess →
      (∀ e, Enabled s₂ e → e = .resume) ∧ ∃ s₃, step K .resume s₂ = .ok () s₃ ∧
        Continues s.pc.currentProcess f s.current.pid (s.userByte s.pc.currentProcess) s₃

/-- What the timer interrupt leaves of the process it interrupts. -/
theorem timer_leaves (h : Whole K pool free a S s) (hc : a.current ≠ 0) {f : TrapFrame}
    (hf : ∀ w ∈ f.words, w < 2 ^ 64) (hrun : step K (.timer f) s = .ok () s₁) :
    Whole K pool free (a.wake (-1)).yield S s₁ ∧ s₁.Live s.pc.currentProcess ∧
      s₁.frame s.pc.currentProcess = f ∧
      ∀ va, InUser va → s₁.userByte s.pc.currentProcess va = s.userByte s.pc.currentProcess va := by
  have hl := h.live hc
  obtain ⟨r, hp, -, hw⟩ := pushFrame_run h.mem hl f
  obtain ⟨h₁, -, -⟩ := pushFrame_after h hp
  have hframe := systemCall_frame h.mem hl hf hp
  have hstill : Still [s.stackPage s.pc.currentProcess] s { s with ram := r } := still_ram hw
  have hdata : ∀ p ∈ [s.stackPage s.pc.currentProcess], s.Data p := fun p hp =>
    Or.inr (Or.inr ⟨_, hl, Or.inl (List.mem_singleton.mp hp)⟩)
  obtain ⟨s₂, hrun₂, hr, hk⟩ := timerHandler_run h₁
  obtain rfl : s₂ = s₁ := by
    have hstep : step K (.timer f) s = .ok () s₂ := (bind_run hp).trans hrun₂
    rw [hrun] at hstep
    exact (EStateM.Result.ok.inj hstep).2.symm
  have hw₂ := h₁.scheduled hr hk (timer_sane h).1 (timer_sane h).2
  have hlive : ∀ i, s₂.Live i ↔ ({ s with ram := r } : Kernel).Live i :=
    (timer_sane h).2.live h₁.rep hr
  have hkeeps : Still [] { s with ram := r } s₂ := hk.still hlive
  have hl₁ : ({ s with ram := r } : Kernel).Live s.pc.currentProcess := hl
  refine ⟨hw₂, (hlive _).mpr hl₁, (hkeeps.frame h₁.mem hl₁ nofun).trans hframe, fun va hva => ?_⟩
  rw [h₁.mem.userByte_off hkeeps hl₁ nofun nofun hva]
  exact h.mem.userByte_off hstill hl hdata
    (fun hm => (h.mem.within hl).1 (List.mem_singleton.mp hm).symm) hva

theorem timer_unnoticed (h : Whole K pool free a S s) {f : TrapFrame} (he : Enabled s (.timer f))
    (hc : s.pc.currentProcess ≠ 0) (hrun : step K (.timer f) s = .ok () s₁) : Unnoticed K f s s₁ := by
  have hca : a.current ≠ 0 := h.rep.current ▸ hc
  obtain ⟨h₁, hl₁, hframe, hbytes⟩ := timer_leaves h hca he.2.2.2.2 hrun
  have hpid : s.current.pid = a.pid a.current := by
    rw [← h.rep.current]
    exact h.rep.pid _
  have hcurrent : s₁.pc.currentProcess = s.pc.currentProcess ↔
      (a.wake (-1)).yield.current = (a.wake (-1)).current := by
    rw [h₁.rep.current, h.rep.current]
    rfl
  constructor
  · intro hcur
    have hsame := Sched.yield_keeps (Sched.wake_sane h.sane (-1)) (hcurrent.mp hcur)
    rw [hsame] at h₁
    have hkont : s₁.current.kont = .user := by
      have hk : s.current.kont = a.kont a.current := h.kont
      unfold Kernel.current
      rw [h₁.rep.kont, h₁.rep.current, ← he.1, hk]
      rfl
    have hnum : s₁.current.pid = s.current.pid := by
      rw [hpid]
      unfold Kernel.current
      rw [h₁.rep.pid, h₁.rep.current]
      rfl
    have hcont := h₁.continues hca hkont fun va hva => (hcur ▸ hbytes va hva :)
    rw [hcur, hframe, hnum] at hcont
    exact hcont
  · intro haway s₂ hwithout hback
    obtain ⟨hk, hnum, hstate⟩ := Sched.yield_leaves (a := a.wake (-1)) fun hcur =>
      haway (hcurrent.mpr hcur)
    have hkont : (s₁.processTable s.pc.currentProcess).kont = .trapReturn := by
      rw [h₁.rep.kont, h.rep.current]
      exact hk
    have hpid₁ : (s₁.processTable s.pc.currentProcess).pid = s.current.pid := by
      rw [h₁.rep.pid, h.rep.current, hpid]
      exact hnum
    have hal : s₁.Alive s.pc.currentProcess := by
      refine ⟨hc, hl₁.2, ?_⟩
      rw [h₁.rep.state, h.rep.current]
      refine fun hkilled => ?_
      rw [show (a.wake (-1)).yield.state a.current = .ready from hstate] at hkilled
      cases hkilled
    obtain ⟨hrest, free₂, a₂, S₂, h₂⟩ := run_rested h₁ hal hwithout
    have hcont := hrest.continues h₂ hl₁ hkont hbytes hback
    rw [hframe, hpid₁] at hcont
    exact hcont

theorem run_unnoticed {m : Mem} {r : Ram} {s₀ : Kernel} (hbios : BiosOk m)
    (hinit : initMemory K (bootKernel m).ram = .ok () r) (hpool : FreeList K r pool)
    (h₀ : kMain K (bootKernel m) = .ok () s₀) (h : Run K Confined s₀ s) {f : TrapFrame}
    (he : Enabled s (.timer f)) (hc : s.pc.currentProcess ≠ 0)
    (hrun : step K (.timer f) s = .ok () s₁) : Unnoticed K f s s₁ := by
  obtain ⟨free₀, hw₀⟩ := boot_whole hbios hinit hpool h₀
  obtain ⟨free, a, S, hw⟩ := run_whole hw₀ (fun _ _ hconf => hconf) h
  exact timer_unnoticed hw he hc hrun

/-- After a `fork` the timer interrupt takes the processor from the parent. -/
theorem run_unnoticed_fork : ∃ s f s₁, Reached image (machineMem 20 []) Confined s ∧
    Enabled s (.timer f) ∧ step image (.timer f) s = .ok () s₁ ∧
      s₁.pc.currentProcess ≠ s.pc.currentProcess ∧ Unnoticed image f s s₁ := by
  obtain ⟨pool, free, s', hfree, r'⟩ := first_program
  obtain ⟨s, free', S, r, -⟩ := r'.fork (i := 2) (by decide) (by decide) hfree (by decide)
    fun s₁ _ => ⟨fun (h10 : 13 = 10) => absurd h10 (by decide),
      fun (h15 : 13 = 15) => absurd h15 (by decide)⟩
  obtain ⟨s₀, h₀, hrun⟩ := r.reached
  obtain ⟨r₀, pool', hinit, hfl, -⟩ := machine_pool (n := 20) (by decide) []
  obtain ⟨s₁, hstep, h₁, -⟩ := timer_move r.whole (irqFrame 32)
  have he : Enabled s (.timer (irqFrame 32)) :=
    ⟨r.whole.kont.trans (by decide), irqFrame_ofUser (by decide)⟩
  have hc : s.pc.currentProcess = 1 := r.whole.rep.current
  have hc₁ : s₁.pc.currentProcess = 2 := h₁.rep.current
  refine ⟨s, _, s₁, ⟨s₀, h₀, hrun⟩, he, hstep, by rw [hc, hc₁]; decide,
    run_unnoticed (machine_bios (by decide)) hinit hfl h₀ hrun he (by rw [hc]; decide) hstep⟩

/-! ## fork -/

variable (K) in
/-- `fork` of process `p`, called with the registers `f`, turned `s` into `s₁`: from there the
    parent goes on, and so does the child in slot `i` when it first becomes current, with the
    memory that the parent had at the call. -/
structure Duplicated (f : TrapFrame) (p i : Slot) (s s₁ : Kernel) : Prop where
  unused : (s.processTable i).state = .unused
  pid : (s₁.processTable i).pid = s.pidNum
  parent : Continues p { f with rax := ofInt s.pidNum } s.current.pid (s.userByte p) s₁
  child : s₁.frame i = { f with rax := 0 } ∧
    ∀ va, InUser va → s₁.userByte i va = s.userByte p va
  apart : ∀ q ∈ s₁.pagesOf [] (.process i), ∀ j, s.Live j → q ∉ s.pagesOf [] (.process j)
  file : (s₁.processTable i).file = (s.processTable p).file ∧
    (s₁.processTable p).file = (s.processTable p).file
  others : ∀ j, j ≠ p → s.Live j → Undisturbed j s s₁
  last : ∃ L, ReadyList s L ∧ ReadyList s₁ (L ++ [i])
  starts : ∀ s₂, RunsWithout K i s₁ s₂ → s₂.pc.currentProcess = i →
    (∀ e, Enabled s₂ e → e = .resume) ∧ ∃ s₃, step K .resume s₂ = .ok () s₃ ∧
      Continues i { f with rax := 0 } s.pidNum (s.userByte p) s₃
  stores : ∀ s₂ s₃ va b, Run K Confined s₁ s₂ → Enabled s₂ (.store va b) →
    step K (.store va b) s₂ = .ok () s₃ →
      ∀ j, j ≠ s₂.pc.currentProcess → s₂.Live j → Undisturbed j s₂ s₃

theorem copy_self (m : Mem) (x n : Nat) : copy m x x n = m := by
  funext y
  unfold copy
  split
  · exact congrArg m (by omega)
  · rfl

/-- A result in a frame. -/
theorem frameAt_result (m : Mem) (x v : Nat) (hv : v < 2 ^ 64) :
    frameAt (store m (x + 112) 8 v) x = { frameAt m x with rax := v } := by
  have hcopy := frameAt_copy m x x v hv
  rwa [copy_self] at hcopy

/-- A store of the current program is to its own page. -/
theorem store_undisturbed (h : Whole K pool free a S s) {va : Nat} {b : UInt8}
    (he : Enabled s (.store va b)) (hrun : step K (.store va b) s = .ok () s')
    (hj : j ≠ s.pc.currentProcess) (hl : s.Live j) : Undisturbed j s s' := by
  have hcur := h.live (h.rep.current ▸ he.2.1)
  have hva : va < 2 ^ 47 := by
    have := (store_inUser h he).2
    omega
  have hp := ((storeVirt_ends (h.mem.currentSpace hcur) hva InUser b).ok (low_ok hrun)).2
  exact (h.poked_user hcur hp).steady.others j hj hl

theorem ofInt_lt (v : Int) : ofInt v < 2 ^ 64 := by
  unfold ofInt
  omega

/-- A `fork` that succeeded, with slot `i` for the child. -/
structure ForkStep (K : Image) (pool free : List Nat) (a : Sched) (f : TrapFrame) (i : Slot)
    (s s₁ : Kernel) : Prop where
  unused : s.pidNum = a.pidNum ∧ (s.processTable i).state = .unused
  whole : ∃ free' S', Whole K pool free' (a.create i) S' s₁ ∧
    (free' ++ s₁.pagesOf [] (.process i)).Perm free
  kont : s₁.current.kont = .user
  frame : s₁.frame s.pc.currentProcess = { f with rax := ofInt s.pidNum } ∧
    s₁.frame i = { f with rax := 0 }
  bytes : ∀ va, InUser va →
    s₁.userByte s.pc.currentProcess va = s.userByte s.pc.currentProcess va ∧
      s₁.userByte i va = s.userByte s.pc.currentProcess va
  file : (s₁.processTable i).file = (s.processTable s.pc.currentProcess).file ∧
    (s₁.processTable s.pc.currentProcess).file = (s.processTable s.pc.currentProcess).file
  userPage : s₁.userPage s.pc.currentProcess = s.userPage s.pc.currentProcess
  root : s₁.root s.pc.currentProcess = s.root s.pc.currentProcess
  tables : ∀ t ∈ tables (entries s.ram.mem) (s.root s.pc.currentProcess), ∀ x, InPage t x →
    s₁.ram.mem x = s.ram.mem x

theorem fork_step (h : Whole K pool free a S s) {f : TrapFrame} (he : Enabled s (.syscall f))
    (hrdi : f.rdi < 2 ^ 63) (hrax : f.rax = 13) (hrun : step K (.syscall f) s = .ok () s₁) :
    ∃ i, ForkStep K pool free a f i s s₁ := by
  have hc : a.current ≠ 0 := h.rep.current ▸ he.2.1
  have hl := h.live hc
  obtain ⟨r, hp, -, hw⟩ := pushFrame_run h.mem hl f
  obtain ⟨t₁, hcall⟩ := call_begins (K := K) h hc he.2.2 hrdi (by omega)
  obtain rfl : { s with ram := r } = t₁ := (EStateM.Result.ok.inj (hp.symm.trans hcall.push)).2
  have h₁ := hcall.whole
  have hstep := hcall.run
  rw [hrun, hrax] at hstep
  rcases fork_run h₁.rep h₁.sane h₁.mem h₁.files hc with
    ⟨-, hno⟩ | ⟨i, t₂, free', S', hfork, hfind, hu, hr, hm, hfl, hforked, -, hperm, hl₂, -⟩
  · obtain ⟨result, t₂, hsys, -⟩ := bind_ok.mp hstep.symm
    obtain ⟨pid, _, hfork, -⟩ := bind_ok.mp hsys
    exact absurd hfork (hno pid _)
  · have hsys : systemCalls K 13 f.rsi { s with ram := r } = .ok (some a.pidNum) t₂ := bind_run hfork
    have h₂ : Whole K pool free' (a.create i) S' t₂ := ⟨hr, Sched.create_sane h.sane hu, hm, hfl⟩
    have hne : s.pc.currentProcess ≠ i := fun hi => hl.2 ((h.rep.state _).trans (hi ▸ hu))
    have hcur : t₂.pc.currentProcess = s.pc.currentProcess := by
      rw [h₂.rep.current, h.rep.current]
      rfl
    have hlp : t₂.Live s.pc.currentProcess := hcur ▸ h₂.live hc
    have htf : ({ s with ram := r } : Kernel).trapFrame = t₂.trapFrame := by
      rw [h₁.mem.trapFrame_eq (h₁.live hc), h₂.mem.trapFrame_eq (h₂.live hc)]
      unfold Kernel.current
      rw [hcur, (hforked.other _ hne).2.2.2]
    -- the result in the parent's frame
    obtain ⟨r₃, hset, hr₃, hw₃⟩ := setResult_run h₂.mem (h₂.live hc)
      (htf.trans (h₂.mem.trapFrame_eq (h₂.live hc))) a.pidNum
    obtain rfl : { t₂ with ram := r₃ } = s₁ := by
      rw [bind_run hsys, hset] at hstep
      exact (EStateM.Result.ok.inj hstep).2.symm
    have h₃ := (h₂.stack (h₂.live hc) hw₃).1
    have hst₃ : Still [t₂.stackPage t₂.pc.currentProcess] t₂ { t₂ with ram := r₃ } := still_ram hw₃
    have hdata₃ : ∀ q ∈ [t₂.stackPage t₂.pc.currentProcess], t₂.Data q := fun q hq =>
      Or.inr (Or.inr ⟨_, h₂.live hc, Or.inl (List.mem_singleton.mp hq)⟩)
    have hstill : Still [s.stackPage s.pc.currentProcess] s { s with ram := r } := still_ram hw
    have hdata : ∀ q ∈ [s.stackPage s.pc.currentProcess], s.Data q := fun q hq =>
      Or.inr (Or.inr ⟨_, hl, Or.inl (List.mem_singleton.mp hq)⟩)
    -- the parent in between
    have hparent : Undisturbed s.pc.currentProcess { s with ram := r } t₂ := by
      obtain ⟨-, hmap, hstack, -⟩ := hforked.other _ hne
      exact h₁.mem.undisturbed_of_mem (h₁.live hc) hlp hmap hstack (hforked.mem _ (h₁.live hc))
    have hbytes : ∀ va, InUser va → ({ s with ram := r } : Kernel).userByte s.pc.currentProcess va =
        s.userByte s.pc.currentProcess va := fun va hva =>
      h.mem.userByte_off hstill hl hdata
        (fun hin => (h.mem.within hl).1 (List.mem_singleton.mp hin).symm) hva
    have hpages₃ : ∀ j, t₂.Live j → t₂.userPage j ∉ [t₂.stackPage t₂.pc.currentProcess] := by
      intro j hj hin
      by_cases hjp : j = t₂.pc.currentProcess
      · rw [hjp] at hin
        exact (h₂.mem.within (h₂.live hc)).1 (List.mem_singleton.mp hin).symm
      · refine h₂.mem.apart (o := .process j) (u := .process t₂.pc.currentProcess)
          (fun ho => hjp (Owner.process.inj ho)) (MemOk.userPage_mem (l := free') hj) ?_
        rw [List.mem_singleton.mp hin]
        exact MemOk.stackPage_mem (h₂.live hc)
    refine ⟨i, ⟨h.rep.pidNum, (h.rep.state i).trans hu⟩, ⟨free', S', h₃, ?_⟩, ?_, ⟨?_, ?_⟩,
      fun va hva => ⟨?_, ?_⟩, ⟨hforked.file, (hforked.other _ hne).1⟩, ?_, ?_, fun t ht x hx => ?_⟩
    · rw [(h₂.mem.still hst₃ hdata₃).pagesOf_held (k := []) (by simp)]
      exact hperm
    · unfold Kernel.current
      rw [h₃.rep.kont, h₃.rep.current, ← he.1]
      unfold Kernel.current
      rw [h.rep.kont, h.rep.current]
      refine Function.update_of_ne ?_ _ _
      exact h.rep.current ▸ hne
    · have hframe : t₂.frame s.pc.currentProcess = f :=
        (hparent.frame (h₁.live hc) hlp).trans hcall.frame
      unfold Kernel.frame at hframe ⊢
      change frameAt r₃.mem (t₂.frameAddr s.pc.currentProcess) = _
      rw [hr₃, hcur, frameAt_result _ _ _ (ofInt_lt _), hframe, h.rep.pidNum]
    · have hframe : t₂.frame i = { ({ s with ram := r } : Kernel).frame s.pc.currentProcess with
          rax := 0 } := hforked.frame
      refine (hst₃.frame h₂.mem hl₂ fun q hq => ?_).trans ?_
      · rw [List.mem_singleton.mp hq]
        refine ⟨(h₂.mem.stackValid (h₂.live hc)).aligned, fun hstack => ?_⟩
        refine h₂.mem.apart (o := .process i) (u := .process t₂.pc.currentProcess)
          (fun ho => hne ?_) (MemOk.stackPage_mem (l := free') hl₂) ?_
        · rw [Owner.process.inj ho, hcur]
        · rw [← hstack]
          exact MemOk.stackPage_mem (h₂.live hc)
      · rw [hframe]
        exact congrArg (fun g : TrapFrame => { g with rax := 0 }) hcall.frame
    · rw [h₂.mem.userByte_off hst₃ hlp hdata₃ (hpages₃ _ hlp) hva,
        hparent.userByte (h₁.live hc) hva, hbytes va hva]
    · rw [h₂.mem.userByte_off hst₃ hl₂ hdata₃ (hpages₃ _ hl₂) hva, ← hbytes va hva]
      exact hforked.page _ (by obtain ⟨h1, h2⟩ := hva; rw [pageSize_eq]; omega)
    · exact ((h₂.mem.still hst₃ hdata₃).userPage _ hlp).trans
        (hparent.userPage.trans ((h.mem.still hstill hdata).userPage _ hl))
    · unfold Kernel.root
      exact congrArg v2p (hforked.other _ hne).2.1
    · -- the tables are not the stack
      have hv := h.mem.stackValid hl
      have ht₁ : t ∈ ({ s with ram := r } : Kernel).pagesOf [] (.process s.pc.currentProcess) := by
        rw [(h.mem.still hstill hdata).pagesOf_held (o := .process s.pc.currentProcess) (k := free) nofun]
        exact MemOk.table_mem hl ht
      have hval := (h.mem.validOf (o := .process s.pc.currentProcess) (MemOk.table_mem hl ht)).aligned
      have hoff : t ∉ [s.stackPage s.pc.currentProcess] := fun hin =>
        (h.mem.within hl).2.1 (List.mem_singleton.mp hin ▸ ht)
      have hal : ∀ q ∈ [s.stackPage s.pc.currentProcess], q % pageSize = 0 := fun q hq =>
        List.mem_singleton.mp hq ▸ hv.aligned
      have hstack : t₂.stackPage t₂.pc.currentProcess = s.stackPage s.pc.currentProcess := by
        unfold Kernel.stackPage
        rw [hcur]
        exact congrArg v2p (hforked.other _ hne).2.2.1
      rw [hstack] at hw₃
      refine (hw₃.mem.page hval hoff hal hx).trans ?_
      exact (hforked.mem _ (h₁.live hc) t ht₁ x hx).trans (hw.mem.page hval hoff hal hx)

theorem fork_duplicates (h : Whole K pool free a S s) {f : TrapFrame} (he : Enabled s (.syscall f))
    (hrdi : f.rdi < 2 ^ 63) (hrax : f.rax = 13) (hrun : step K (.syscall f) s = .ok () s₁) :
    ∃ i, Duplicated K f s.pc.currentProcess i s s₁ := by
  have hc : a.current ≠ 0 := h.rep.current ▸ he.2.1
  have hl := h.live hc
  have hconf : Confined s (.syscall f) := fun t _ =>
    ⟨fun h10 => absurd (hrax.symm.trans h10) (by decide), fun h15 => absurd (hrax.symm.trans h15) (by decide)⟩
  obtain ⟨i, hf⟩ := fork_step h he hrdi hrax hrun
  obtain ⟨free', S', h₁, hperm⟩ := hf.whole
  obtain ⟨_, _, _, -, hstepped⟩ := step_whole h he hconf hrun
  have hu : a.state i = .unused := (h.rep.state i).symm.trans hf.unused.2
  have hne : s.pc.currentProcess ≠ i := fun hi => hl.2 (hi ▸ hf.unused.2)
  have hcur : s₁.pc.currentProcess = s.pc.currentProcess := by
    rw [h₁.rep.current, h.rep.current]
    rfl
  have hpid : ∀ j, j ≠ i → (s₁.processTable j).pid = (s.processTable j).pid := by
    intro j hj
    rw [h₁.rep.pid, h.rep.pid]
    exact Function.update_of_ne hj _ _
  have hlive : ∀ j, s.Live j → s₁.Live j := by
    intro j hj
    refine ⟨hj.1, ?_⟩
    rw [h₁.rep.state]
    change Function.update a.state i .ready j ≠ .unused
    have hji : j ≠ i := fun hji => hj.2 (hji ▸ hf.unused.2)
    rw [Function.update_of_ne hji, ← h.rep.state]
    exact hj.2
  have hchild : s₁.Alive i := by
    have hstate : (s₁.processTable i).state = .ready :=
      (h₁.rep.state i).trans (Function.update_self _ _ _)
    refine ⟨h.sane.unused_ne hu, ?_, ?_⟩
    · rw [hstate]
      decide
    · rw [hstate]
      decide
  have hnum : (s₁.processTable i).pid = s.pidNum := by
    rw [h₁.rep.pid, hf.unused.1]
    exact Function.update_self _ _ _
  have hkont : (s₁.processTable i).kont = .trapReturn :=
    (h₁.rep.kont i).trans (Function.update_self _ _ _)
  refine ⟨i, hf.unused.2, hnum, ?_, ⟨hf.frame.2, fun va hva => (hf.bytes va hva).2⟩,
    fun q hq j hj hin => ?_, hf.file, fun j hj hlj => hstepped.others j hj hlj (hlive j hlj),
    ⟨a.queue .ready, h.rep.readyList, ?_⟩, fun s₂ hwithout hback => ?_,
    fun s₂ s₃ va b hrun₂ he₂ hs₃ j hj hlj => ?_⟩
  · have hcont := h₁.continues hc hf.kont fun va hva => (hcur ▸ (hf.bytes va hva).1 :)
    have hp : s₁.current.pid = s.current.pid := by
      unfold Kernel.current
      rw [hcur, hpid _ hne]
    rw [hcur, hf.frame.1, hp] at hcont
    exact hcont
  · have hfree : q ∈ free := hperm.mem_iff.mp (List.mem_append_right _ hq)
    rw [Kernel.pagesOf_held (l := free) (by simp)] at hin
    exact h.mem.apart (o := .free) (u := .process j) nofun hfree hin
  · have hready := h₁.rep.readyList
    change ReadyList s₁ (Function.update a.queue .ready (a.queue .ready ++ [i]) .ready) at hready
    rw [Function.update_self] at hready
    exact hready
  · obtain ⟨hrest, free₂, a₂, S₂, h₂⟩ := run_rested h₁ hchild hwithout
    have hcont := hrest.continues h₂ hchild.live hkont (fun va hva => (hf.bytes va hva).2) hback
    rw [hf.frame.2, hnum] at hcont
    exact hcont
  · obtain ⟨free₂, a₂, S₂, h₂⟩ := run_whole h₁ (fun _ _ hconf => hconf) hrun₂
    exact store_undisturbed h₂ he₂ hs₃ hj hlj

theorem run_duplicated {m : Mem} {r : Ram} {s₀ : Kernel} (hbios : BiosOk m)
    (hinit : initMemory K (bootKernel m).ram = .ok () r) (hpool : FreeList K r pool)
    (h₀ : kMain K (bootKernel m) = .ok () s₀) (h : Run K Confined s₀ s) {f : TrapFrame}
    (he : Enabled s (.syscall f)) (hrdi : f.rdi < 2 ^ 63) (hrax : f.rax = 13)
    (hrun : step K (.syscall f) s = .ok () s₁) :
    ∃ i, Duplicated K f s.pc.currentProcess i s s₁ := by
  obtain ⟨free₀, hw₀⟩ := boot_whole hbios hinit hpool h₀
  obtain ⟨free, a, S, hw⟩ := run_whole hw₀ (fun _ _ hconf => hconf) h
  exact fork_duplicates hw he hrdi hrax hrun

theorem run_duplicated_first : ∃ s f s₁ i, Reached image (machineMem 20 []) Confined s ∧
    Enabled s (.syscall f) ∧ f.rax = 13 ∧ step image (.syscall f) s = .ok () s₁ ∧
      Duplicated image f s.pc.currentProcess i s s₁ := by
  obtain ⟨pool, free, s, hfree, r⟩ := first_program
  obtain ⟨s₀, h₀, hrun⟩ := r.reached
  obtain ⟨r₀, pool', hinit, hfl, -⟩ := machine_pool (n := 20) (by decide) []
  have he := r.enabled_call (by decide) (by decide) 13 (by decide) At.zero_lt At.zero_lt At.zero_lt
    At.zero_lt
  obtain ⟨s₁, free', S', hstep, -⟩ := fork_move (i := 2) r.whole (by decide) he.2.2 At.rdi_lt rfl hfree
    (by decide)
  obtain ⟨i, hi⟩ := run_duplicated (machine_bios (by decide)) hinit hfl h₀ hrun he At.rdi_lt rfl hstep
  exact ⟨s, _, s₁, i, ⟨s₀, h₀, hrun⟩, he, rfl, hstep, hi⟩

end Resting

end Os64
