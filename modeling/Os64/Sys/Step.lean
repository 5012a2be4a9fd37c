/-
  One step of the system keeps the invariant of the whole kernel.

  `Confined s e`: where the step `e` is a system call with a destination, the destination
  lies in the user page, or the size check of `read_file` refuses the call.

  * `exec_after`, `fork_after`, `wait_after`: the calls that make, fill and reap processes.
  * `systemCalls_after`: each of the sixteen calls.
  * `step_whole`: a confined step keeps `Whole`, and changes other processes as `Stepped`
    allows.
  * `run_whole`: so every state of a confined run from boot has the invariant.
-/
import Os64.Sys.Boot

namespace Os64

open Os64.Lib

variable {K : Image}

/-- The destination of call `i`, if it has one, is the user's to write, or the call is
    refused. -/
structure CallConfined (s : Kernel) (i argptr : Nat) : Prop where
  read : i = 10 → ∀ fd buffer size, arg argptr 0 s = .ok fd s → arg argptr 1 s = .ok buffer s →
    arg argptr 2 s = .ok size s →
    readFits s.pc.currentProcess (i32 fd) (u32 size) s = .ok false s ∨ InsideUser buffer (u32 size)
  list : i = 15 → ∀ buffer count, arg argptr 0 s = .ok buffer s →
    getRootDirectoryCount s.ram = .ok count s.ram → InsideUser buffer (count * dirEntrySize)

/-- A step whose call is confined, once the frame of its trap is stored. -/
def Confined (s : Kernel) : Event → Prop
  | .syscall f => ∀ s₁, pushFrame f s = .ok () s₁ → CallConfined s₁ f.rax f.rsi
  | _ => True

section Works

variable {pool free : List Nat} {a b : Sched} {S S' : Handles} {s s' s₁ : Kernel} {c : Slot}

/-- Work of the current process: the scheduler is as it was, and the others are alone. -/
structure Worked (K : Image) (pool free : List Nat) (a : Sched) (s s' : Kernel) : Prop where
  whole : ∃ os S', Whole K pool free { a with hist := a.hist ++ os } S' s'
  steady : Steady s.pc.currentProcess s s'
  pc : s'.pc = s.pc
  tf : ∀ i, (s'.processTable i).tf = (s.processTable i).tf

theorem Worked.refl (h : Whole K pool free a S s) : Worked K pool free a s s :=
  ⟨⟨[], S, by rw [List.append_nil]; exact h⟩, .refl _ s, rfl, fun _ => rfl⟩

theorem Worked.then {os : List Obs} (h : Worked K pool free a s s₁)
    (h' : Worked K pool free { a with hist := a.hist ++ os } s₁ s') : Worked K pool free a s s' := by
  obtain ⟨os', S', hw⟩ := h'.whole
  have hst := h'.steady
  rw [h.pc] at hst
  refine ⟨⟨os ++ os', S', ?_⟩, h.steady.trans hst, h'.pc.trans h.pc,
    fun i => (h'.tf i).trans (h.tf i)⟩
  rw [← List.append_assoc]
  exact hw

theorem Quiet.hist_eq (h : Quiet false s s') : s'.hist = s.hist := by
  obtain ⟨os, ho, hos⟩ := h.hist
  cases os with
  | nil => rw [ho, List.append_nil]
  | cons o os => exact absurd (hos o List.mem_cons_self).1 (by decide)

theorem Quiet.weaken (h : Quiet false s s') : Quiet true s s' :=
  ⟨h.process, h.pc, h.pidNum, h.keyBuffer, h.fcbTable, h.fileDescTable, h.cr3, h.rsp0, [],
    by rw [h.hist_eq, List.append_nil], nofun⟩

/-- Work that shows nothing. -/
theorem Whole.worked (h : Whole K pool free a S s) {D : List Nat} (hq : Quiet false s s')
    (hw : Wrote D s.ram s'.ram) (hl : D = [] ∨ s.Live s.pc.currentProcess)
    (hD : ∀ p ∈ D, p ∈ s.workPages s.pc.currentProcess) (hf : FilesOk s' S') :
    Worked K pool free a s s' := by
  obtain ⟨os, hw', hst, hpc⟩ := h.works hq.weaken hw hl hD hf
    ⟨[], by rw [hq.hist_eq, List.append_nil], nofun⟩
  exact ⟨⟨os, S', hw'⟩, hst, hpc, hq.tf⟩

/-- Stores through the page map of the current process. -/
theorem Whole.poked (h : Whole K pool free a S s) (hl : s.Live s.pc.currentProcess) {P : List Nat}
    (hp : Pokes P InUser s s') (hP : ∀ p ∈ P, p ∈ s.workPages s.pc.currentProcess)
    (hf : FilesOk s' S') : Worked K pool free a s s' := by
  have hq : Quiet true s s' := by
    obtain ⟨os, ho, hos⟩ := hp.hist
    refine ⟨fun i => ⟨_, by rw [hp.files]⟩, by rw [hp.same], by rw [hp.same], by rw [hp.same],
      by rw [hp.same], by rw [hp.same], by rw [hp.same], by rw [hp.same], os, ho, fun o hm => ?_⟩
    obtain ⟨va, -, rfl⟩ := hos o hm
    exact ⟨rfl, va, rfl⟩
  obtain ⟨os, hw, hst, hpc⟩ := h.works hq hp.wrote (Or.inr hl) hP hf hp.hist
  exact ⟨⟨os, S', hw⟩, hst, hpc, hq.tf⟩

theorem Worked.live (h : Worked K pool free a s s') : s'.Live s'.pc.currentProcess ↔
    s.Live s.pc.currentProcess := by
  rw [h.pc]
  exact h.steady.live _

/-- Stores to the current process's kernel stack. -/
theorem Whole.framed (h : Whole K pool free a S s) (hl : s.Live s.pc.currentProcess) {r : Ram}
    (hw : Wrote [s.stackPage s.pc.currentProcess] s.ram r) :
    Worked K pool free a s { s with ram := r } := by
  obtain ⟨hw', hst⟩ := h.stack hl hw
  exact ⟨⟨[], S, by rw [List.append_nil]; exact hw'⟩, hst, rfl, fun _ => rfl⟩

end Works

section Calls

variable {pool free : List Nat} {a b : Sched} {S S' : Handles} {s s' s₁ : Kernel} {c : Slot}

/-- What a call of the current process leaves, and whether it returns to it. -/
def Called (K : Image) (pool free : List Nat) (s : Kernel) (v : Option Int) (s' : Kernel) : Prop :=
  ∃ free' a' S', Whole K pool free' a' S' s' ∧ Stepped s.pc.currentProcess free free' s s' ∧
    (v ≠ none → s'.Live s.pc.currentProcess ∧
      (s'.processTable s.pc.currentProcess).tf = (s.processTable s.pc.currentProcess).tf)

theorem Worked.called (h : Worked K pool free a s s') (hl : s.Live s.pc.currentProcess)
    (v : Option Int) : Called K pool free s v s' := by
  obtain ⟨os, S', hw⟩ := h.whole
  exact ⟨free, _, S', hw, h.steady.stepped, fun _ => ⟨(h.steady.live _).mpr hl, h.tf _⟩⟩

/-- A scheduling operation on the way of a call that has worked before. -/
theorem Worked.called_keeps {os : List Obs} (h : Worked K pool free a s s₁)
    (hw : Whole K pool free { a with hist := a.hist ++ os } S s₁) (hl : s.Live s.pc.currentProcess)
    (hr : Rep s' b) (hk : Keeps s₁ s') (hb : b.Sane)
    (hm : Sched.Mute { a with hist := a.hist ++ os } b) (v : Option Int) : Called K pool free s v s' := by
  obtain ⟨hw', hst⟩ := hw.keeps hr hk hb hm s.pc.currentProcess
  have hst := h.steady.trans hst
  exact ⟨free, b, S, hw', hst.stepped, fun _ => ⟨(hst.live _).mpr hl, (hk.tf _).trans (h.tf _)⟩⟩

theorem Whole.live (h : Whole K pool free a S s) (hc : a.current ≠ 0) :
    s.Live s.pc.currentProcess := by
  refine ⟨h.rep.current ▸ hc, ?_⟩
  rw [h.rep.state, h.rep.current, h.sane.current_running]
  exact nofun

/-- `exit` on the way of a call. -/
theorem Worked.called_exit (h : Worked K pool free a s s₁) (hc : a.current ≠ 0)
    (hl : s.Live s.pc.currentProcess) {u : Unit} (hrun : exit s₁ = .ok u s') (v : Option Int) :
    Called K pool free s v s' := by
  obtain ⟨os, S', hw⟩ := h.whole
  obtain ⟨hr, hk⟩ := exit_ok hw.rep hw.sane.current_free hrun
  exact h.called_keeps hw hl hr hk (Sched.exit_sane hw.sane hc) (Sched.exit_mute hw.sane hc) v

theorem Quiet.of_low {α : Type} {x : LowM α} {v : α} (hx : QuietOp false x)
    (hrun : x s = .ok v s') : Quiet false s s' := (hx.ends s).ok hrun

theorem low_ok {α : Type} {x : LowM α} {v : α} (h : low x s = .ok v s') : x s = .ok v s' := by
  obtain ⟨t, ht, rfl⟩ := onPart_ok.mp h
  exact ht

theorem tablePages_work {p : Nat} (hp : p ∈ s.tablePages) : p ∈ s.workPages c :=
  List.mem_append_left _ hp

theorem openFile_worked (h : Whole K pool free a S s) (hl : s.Live s.pc.currentProcess) {path : Nat}
    {v : Int} (hrun : openFile s.pc.currentProcess path s = .ok v s') : Worked K pool free a s s' := by
  rcases (openFile_ends h.files h.mem hl path).ok hrun with
    ⟨-, rfl, -⟩ | ⟨fd, d, c, -, -, -, hf, hw, -⟩
  · exact .refl h
  · exact h.worked (.of_low (quiet_openFile _ _) hrun) hw.wrote (Or.inr hl)
      (fun p hp => tablePages_work hp) hf

theorem closeFile_worked (h : Whole K pool free a S s) (hl : s.Live s.pc.currentProcess) {fd : Int}
    {u : Unit} (hrun : closeFile s.pc.currentProcess fd s = .ok u s') :
    Worked K pool free a s s' := by
  obtain ⟨n, d, c, -, -, -, hf, hw⟩ := (closeFile_ends h.files h.mem hl fd).ok hrun
  exact h.worked (.of_low (quiet_closeFile _ _) hrun) hw.wrote (Or.inr hl)
    (fun p hp => tablePages_work hp) hf

theorem readFile_worked (h : Whole K pool free a S s) (hl : s.Live s.pc.currentProcess)
    {supplied : Bool} {fd : Int} {buffer size : Nat} (hs : size < 2 ^ 32)
    (hin : readFits s.pc.currentProcess fd size s = .ok true s →
      size = 0 ∨ Into supplied buffer size) {v : Int}
    (hrun : readFile K supplied s.pc.currentProcess fd buffer size s = .ok v s') :
    Worked K pool free a s s' := by
  obtain ⟨hf, hp⟩ := (readFile_ends h.files h.mem hl hs hin).ok hrun
  refine h.poked hl hp (fun p hp => ?_) hf
  rcases List.mem_cons.mp hp with rfl | hp
  · exact List.mem_append_right _ List.mem_cons_self
  · exact tablePages_work (List.mem_cons_of_mem _ hp)

/-- Stores to the user page alone leave the tables of file.c alone. -/
theorem Whole.poked_user (h : Whole K pool free a S s) (hl : s.Live s.pc.currentProcess)
    (hp : Pokes [s.userPage s.pc.currentProcess] InUser s s') : Worked K pool free a s s' := by
  refine h.poked hl hp (fun p hp => ?_) (h.files.off h.mem hp.still ?_ fun p hp => ?_)
  · exact List.mem_append_right _ (List.mem_singleton.mp hp ▸ List.mem_cons_self)
  · unfold Kernel.files
    rw [hp.files]
  · rw [List.mem_singleton.mp hp]
    exact h.mem.userPage_off_tables hl

theorem getFileSize_lt {proc : Slot} {fd : Int} {n : Nat}
    (hrun : getFileSize proc fd s = .ok n s') : n < 2 ^ 32 := by
  obtain ⟨desc, s₁, -, hrun⟩ := bind_ok.mp hrun
  obtain ⟨fcb, s₂, -, hrun⟩ := bind_ok.mp hrun
  obtain ⟨r, hrun, -⟩ := onPart_ok.mp hrun
  exact kload_lt hrun

/-- The fresh frame that a successful `exec` leaves. -/
theorem entryFrame_worked (h : Whole K pool free a S s) (hl : s.Live s.pc.currentProcess) :
    ∃ r, (do
        low (ram (kmemset (s.processTable s.pc.currentProcess).tf 0 trapFrameSize))
        low (ram (setEntryFrame (s.processTable s.pc.currentProcess).tf)) : KernelM Unit) s =
        .ok () { s with ram := r } ∧
      r.mem = entryFrame (fill s.ram.mem (s.frameAddr s.pc.currentProcess) trapFrameSize 0)
        (s.frameAddr s.pc.currentProcess) ∧
      Wrote [s.stackPage s.pc.currentProcess] s.ram r := by
  have hv := h.mem.stackValid hl
  have htf := h.mem.tf_eq hl
  obtain ⟨h1, h2⟩ := frameAddr_end s s.pc.currentProcess
  have hend : s.frameAddr s.pc.currentProcess + trapFrameSize ≤
      s.stackPage s.pc.currentProcess + pageSize := by omega
  have hptr : KernelPtr (s.processTable s.pc.currentProcess).tf trapFrameSize := by
    rw [htf]
    exact hv.kernelPtr (a := s.frameAddr s.pc.currentProcess) hend rfl
  have hphys : v2p (s.processTable s.pc.currentProcess).tf = s.frameAddr s.pc.currentProcess :=
    hv.v2p_at (by unfold trapFrameSize at hend; omega) htf
  have hrun₁ := kmemset_run hptr 0 s.ram
  rw [hphys] at hrun₁
  obtain ⟨hrun₂, hw₂⟩ := setEntryFrame_run hv h1 hend htf
    { s.ram with mem := fill s.ram.mem (s.frameAddr s.pc.currentProcess) trapFrameSize 0 }
  refine ⟨_, ?_, ?_, (wrote_fill s.ram 0 h1 hend).trans hw₂⟩
  rotate_left
  · rfl
  rw [bind_run (low_run (ram_run hrun₁))]
  exact low_run (ram_run (s := { s with
    ram := { s.ram with mem := fill s.ram.mem (s.frameAddr s.pc.currentProcess) trapFrameSize 0 } })
    hrun₂)

/-- `exec` fills the caller's pages, or the caller exits. -/
theorem exec_after (h : Whole K pool free a S s) (hc : a.current ≠ 0) {name : Nat} {v : Option Int}
    (hrun : exec K s.pc.currentProcess name s = .ok v s') : Called K pool free s v s' := by
  have hl := h.live hc
  unfold exec at hrun
  obtain ⟨fd, s₁, ho, hrun⟩ := bind_ok.mp hrun
  have hw₁ := openFile_worked h hl (low_ok ho)
  split at hrun
  · obtain ⟨_, s₂, he, hrun⟩ := bind_ok.mp hrun
    obtain ⟨rfl, rfl⟩ := EStateM.Result.ok.inj hrun
    exact hw₁.called_exit hc hl he none
  · obtain ⟨os₁, S₁, h₁⟩ := hw₁.whole
    have hl₁ := hw₁.live.mpr hl
    rw [← hw₁.pc] at hrun
    -- the old image goes
    obtain ⟨_, s₂, hclear, hrun⟩ := bind_ok.mp hrun
    have hp₂ := (clearUserPage_ends (h₁.mem.currentSpace hl₁) InUser).ok (low_ok hclear)
    have hw₂ := hw₁.then (h₁.poked_user hl₁ hp₂)
    obtain ⟨os₂, S₂, h₂⟩ := hw₂.whole
    have hl₂ := hw₂.live.mpr hl
    rw [hw₁.pc, ← hw₂.pc] at hrun
    obtain ⟨size, s₃, hsize, hrun⟩ := bind_ok.mp hrun
    have hlt := getFileSize_lt (low_ok hsize)
    obtain rfl := (reads_getFileSize _ _).ok (low_ok hsize)
    -- the new one comes
    have hinto : Into false 0x400000 size := ⟨by decide, fun hf => (Bool.false_ne_true hf).elim⟩
    obtain ⟨n, s₄, hread, hrun⟩ := bind_ok.mp hrun
    have hw₄' := readFile_worked h₂ hl₂ hlt (fun _ => Or.inr hinto) (low_ok hread)
    have hw₄ := hw₂.then hw₄'
    obtain ⟨os₄, S₄, h₄⟩ := hw₄.whole
    have hl₄ := hw₄.live.mpr hl
    split at hrun
    · obtain ⟨_, s₅, he, hrun⟩ := bind_ok.mp hrun
      obtain ⟨rfl, rfl⟩ := EStateM.Result.ok.inj hrun
      exact hw₄.called_exit hc hl he none
    · rw [hw₂.pc, ← hw₄.pc] at hrun
      obtain ⟨_, s₅, hclose, hrun⟩ := bind_ok.mp hrun
      have hw₅ := hw₄.then (closeFile_worked h₄ hl₄ (low_ok hclose))
      obtain ⟨os₅, S₅, h₅⟩ := hw₅.whole
      have hl₅ := hw₅.live.mpr hl
      rw [hw₄.pc, ← hw₅.pc] at hrun
      rw [bind_run (get_run s₅)] at hrun
      obtain ⟨r, hrun₆, -, hwr⟩ := entryFrame_worked h₅ hl₅
      have hrun : (do
          (do
            low (ram (kmemset (s₅.processTable s₅.pc.currentProcess).tf 0 trapFrameSize))
            low (ram (setEntryFrame (s₅.processTable s₅.pc.currentProcess).tf)) : KernelM Unit)
          return some 0 : KernelM (Option Int)) s₅ = .ok v s' := by
        rw [← hrun]
        simp only [bind_assoc]
      rw [bind_run hrun₆] at hrun
      obtain ⟨rfl, rfl⟩ := EStateM.Result.ok.inj hrun
      exact (hw₅.then (h₅.framed hl₅ hwr)).called hl _

/-! ## Scheduling calls -/

theorem Whole.called_keeps (h : Whole K pool free a S s) (hl : s.Live s.pc.currentProcess)
    (hr : Rep s' b) (hk : Keeps s s') (hb : b.Sane) (hm : Sched.Mute a b) (v : Option Int) :
    Called K pool free s v s' := by
  obtain ⟨hw, hst⟩ := h.keeps hr hk hb hm s.pc.currentProcess
  exact ⟨free, b, S, hw, hst.stepped, fun _ => ⟨(hst.live _).mpr hl, hk.tf _⟩⟩

theorem sleep_called (h : Whole K pool free a S s) (hc : a.current ≠ 0) {w : Int} {k : Kont}
    {u : Unit} (hrun : sleep w k s = .ok u s') (v : Option Int) : Called K pool free s v s' := by
  obtain ⟨hr, hk⟩ := sleep_ok h.rep h.sane.current_free hrun
  exact h.called_keeps (h.live hc) hr hk (Sched.sleep_sane h.sane hc _ _)
    (Sched.sleep_mute h.sane hc _ _) v

theorem sleepLoop_after (h : Whole K pool free a S s) (hc : a.current ≠ 0) {old n : Nat}
    {v : Option Int} (hrun : sleepLoop old n s = .ok v s') : Called K pool free s v s' := by
  unfold sleepLoop at hrun
  rw [bind_run (get_run s)] at hrun
  split at hrun
  · obtain ⟨u, s₁, hs, hrun⟩ := bind_ok.mp hrun
    obtain ⟨rfl, rfl⟩ := EStateM.Result.ok.inj hrun
    exact sleep_called h hc hs none
  · obtain ⟨rfl, rfl⟩ := EStateM.Result.ok.inj hrun
    exact (Worked.refl h).called (h.live hc) _

theorem takeKey_after (h : Whole K pool free a S s) (hc : a.current ≠ 0) {front : Nat} {n : Int}
    (hrun : takeKey front s = .ok n s') (v : Option Int) : Called K pool free s v s' := by
  obtain ⟨s₁, hrun', hr⟩ := takeKey_rep h.rep front
  obtain ⟨-, rfl⟩ := EStateM.Result.ok.inj (hrun'.symm.trans hrun)
  have hk : Keeps s s₁ := by
    obtain ⟨-, rfl⟩ := EStateM.Result.ok.inj hrun
    exact ⟨rfl, rfl, rfl, fun _ => rfl, fun _ => rfl, fun _ => rfl, fun _ => rfl, id⟩
  exact h.called_keeps (h.live hc) hr hk (h.sane.congr rfl rfl rfl rfl rfl)
    (Sched.takeKey_mute a front) v

theorem readKeyBuffer_after (h : Whole K pool free a S s) (hc : a.current ≠ 0) {v : Option Int}
    (hrun : readKeyBuffer s = .ok v s') : Called K pool free s v s' := by
  unfold readKeyBuffer at hrun
  rw [bind_run (get_run s)] at hrun
  split at hrun
  · obtain ⟨u, s₁, hs, hrun⟩ := bind_ok.mp hrun
    obtain ⟨rfl, rfl⟩ := EStateM.Result.ok.inj hrun
    exact sleep_called h hc hs none
  · obtain ⟨n, s₁, ht, hrun⟩ := bind_ok.mp hrun
    obtain ⟨rfl, rfl⟩ := EStateM.Result.ok.inj hrun
    exact takeKey_after h hc ht _

/-! ## wait and fork -/

/-- A round of `wait` reaps a process of the number or sleeps. -/
theorem wait_after (h : Whole K pool free a S s) (hc : a.current ≠ 0) {p : Int} {v : Option Int}
    (hrun : waitResult K p s = .ok v s') : Called K pool free s v s' := by
  obtain ⟨o, s₁, hwait, hrun⟩ := bind_ok.mp hrun
  obtain ⟨rfl, rfl⟩ := EStateM.Result.ok.inj hrun
  cases hfind : (a.queue .kill).find? fun j => a.wait j = p with
  | none =>
      rw [waitLoop_sleep h.rep hfind] at hwait
      obtain ⟨u, s₂, hs, hwait⟩ := bind_ok.mp hwait
      obtain ⟨rfl, rfl⟩ := EStateM.Result.ok.inj hwait
      exact sleep_called h hc hs _
  | some x =>
      obtain ⟨s₂, free', S', hwait', hr, hm, hf, hreap, -⟩ :=
        waitLoop_reap (K := K) h.rep h.sane h.mem h.files hfind
      obtain ⟨-, rfl⟩ := EStateM.Result.ok.inj (hwait'.symm.trans hwait)
      have hmem := (Sched.find?_kill hfind).1
      obtain ⟨hx0, hkill⟩ := h.sane.member .kill x hmem
      have hkill : a.state x = .killed := hkill
      have hlx : s.Live x := ⟨hx0, by rw [h.rep.state, hkill]; exact nofun⟩
      have hxc : x ≠ s.pc.currentProcess := by
        rw [h.rep.current]
        rintro rfl
        exact h.sane.current_free .kill hmem
      have hlive : ∀ j, j ≠ x → s.Live j → s₂.Live j := by
        intro j hj hl
        refine ⟨hl.1, ?_⟩
        rw [hr.state, Sched.reap_state a hj, ← h.rep.state]
        exact hl.2
      have hl := h.live hc
      refine ⟨free', _, S', ⟨hr, Sched.reap_sane h.sane hmem, hm, hf⟩, ⟨fun j _ hlj hlj' => ?_, ?_⟩,
        fun _ => ⟨hlive _ hxc.symm hl, (hreap.other _ hxc.symm).2.2⟩⟩
      · have hj : j ≠ x := by
          rintro rfl
          exact hlj'.2 (by rw [hreap.zero]; rfl)
        exact h.mem.undisturbed_of_mem hlj hlj' (hreap.other j hj).1 (hreap.other j hj).2.1
          (hreap.mem j hj hlj)
      · refine ⟨[.waited (a.pid a.current) (a.pid x)], by rw [hr.hist, h.rep.hist]; rfl,
          fun va hv => ?_, Or.inr ⟨x, hxc, hlx, ?_, ⟨?_, hreap.free, hreap.zero, hreap.files⟩, hlive⟩⟩
        · cases List.mem_singleton.mp hv
        · rw [h.rep.pid, h.rep.pid, h.rep.current]
          rfl
        · rw [h.rep.state, hkill]

theorem fork_after (h : Whole K pool free a S s) (hc : a.current ≠ 0) {pid : Int}
    (hrun : fork K s = .ok pid s') : Called K pool free s (some pid) s' := by
  rcases fork_run h.rep h.sane h.mem h.files hc with
    ⟨-, hno⟩ | ⟨i, s₁, free', S', hrun', -, hu, hr, hm, hf, hfork, -⟩
  · exact absurd hrun (hno _ _)
  · obtain ⟨-, rfl⟩ := EStateM.Result.ok.inj (hrun'.symm.trans hrun)
    have hl := h.live hc
    have hdead : ¬ s.Live i := fun hli => hli.2 (by rw [h.rep.state, hu])
    have hne : ∀ j, s.Live j → j ≠ i := fun j hj he => hdead (he ▸ hj)
    have hlive : ∀ j, s.Live j → s₁.Live j := by
      intro j hj
      refine ⟨hj.1, ?_⟩
      rw [hr.state]
      change Function.update a.state i .ready j ≠ .unused
      rw [Function.update_of_ne (hne j hj), ← h.rep.state]
      exact hj.2
    refine ⟨free', _, S', ⟨hr, Sched.create_sane h.sane hu, hm, hf⟩, ⟨fun j _ hlj hlj' => ?_, ?_⟩,
      fun _ => ⟨hlive _ hl, (hfork.other _ (hne _ hl)).2.2.2⟩⟩
    · obtain ⟨-, hmap, hstack, -⟩ := hfork.other j (hne j hlj)
      exact h.mem.undisturbed_of_mem hlj hlj' hmap hstack (hfork.mem j hlj)
    · refine ⟨[.created a.pidNum], by rw [hr.hist, h.rep.hist]; rfl, fun va hv => ?_,
        Or.inl ⟨rfl, hlive⟩⟩
      cases List.mem_singleton.mp hv

/-! ## The sixteen calls -/

theorem arg_then {α : Type} {argptr k : Nat} {f : Nat → KernelM α} {v : α}
    (hrun : (low (arg argptr k) >>= f) s = .ok v s') :
    ∃ n, arg argptr k s = .ok n s ∧ f n s = .ok v s' := by
  obtain ⟨n, s₁, ha, hrest⟩ := bind_ok.mp hrun
  have hs := (reads_arg _ _).ok (low_ok ha)
  subst hs
  exact ⟨n, low_ok ha, hrest⟩

/-- A call that only reads. -/
theorem Whole.called_reads (h : Whole K pool free a S s) (hc : a.current ≠ 0)
    {x : KernelM (Option Int)} (hx : Reads x) {v : Option Int} (hrun : x s = .ok v s') :
    Called K pool free s v s' := by
  obtain rfl := hx.ok hrun
  exact (Worked.refl h).called (h.live hc) v

theorem reads_sysWrite (argptr : Nat) : Reads (sysWrite argptr) :=
  (reads_low (reads_arg _ _)).bind fun _ => (reads_low (reads_arg _ _)).bind fun _ =>
    (reads_low (reads_arg _ _)).bind fun _ => (reads_low (reads_forM (fun _ =>
      (reads_loadVirt _).bind fun _ => reads_pure _) _)).bind fun _ => reads_pure _

theorem reads_sysGetFileSize (argptr : Nat) : Reads (sysGetFileSize argptr) :=
  reads_get.bind fun _ => (reads_low (reads_arg _ _)).bind fun _ =>
    (reads_low (reads_getFileSize _ _)).bind fun _ => reads_pure _

/-- A destination that the user page holds as a whole. -/
theorem InsideUser.into {buffer size : Nat} (h : InsideUser buffer size) :
    size = 0 ∨ Into true buffer size :=
  h.imp_right fun h => ⟨by omega, fun _ => h⟩

theorem systemCalls_after (h : Whole K pool free a S s) (hc : a.current ≠ 0) {i argptr : Nat}
    (hconf : CallConfined s i argptr) {v : Option Int} (hrun : systemCalls K i argptr s = .ok v s') :
    Called K pool free s v s' := by
  have hl := h.live hc
  unfold systemCalls at hrun
  split at hrun
  · exact h.called_reads hc (reads_sysWrite _) hrun
  · obtain ⟨n, -, hrun⟩ := arg_then hrun
    rw [bind_run (get_run s)] at hrun
    exact sleepLoop_after h hc hrun
  · obtain ⟨u, s₁, he, hrun⟩ := bind_ok.mp hrun
    obtain ⟨rfl, rfl⟩ := EStateM.Result.ok.inj hrun
    exact (Worked.refl h).called_exit hc hl he none
  · obtain ⟨n, -, hrun⟩ := arg_then hrun
    exact wait_after h hc hrun
  · exact readKeyBuffer_after h hc hrun
  · exact h.called_reads hc (reads_get.bind fun _ => reads_pure _) hrun
  · exact h.called_reads hc (reads_get.bind fun _ => reads_pure _) hrun
  · exact h.called_reads hc (reads_get.bind fun _ => reads_pure _) hrun
  · exact h.called_reads hc (reads_pure _) hrun
  · unfold sysOpenFile at hrun
    rw [bind_run (get_run s)] at hrun
    obtain ⟨n, -, hrun⟩ := arg_then hrun
    obtain ⟨fd, s₁, ho, hrun⟩ := bind_ok.mp hrun
    obtain ⟨rfl, rfl⟩ := EStateM.Result.ok.inj hrun
    exact (openFile_worked h hl (low_ok ho)).called hl _
  · -- a refused call reads only, and another writes the user page
    unfold sysReadFile at hrun
    rw [bind_run (get_run s)] at hrun
    obtain ⟨fd, hfd, hrun⟩ := arg_then hrun
    obtain ⟨buffer, hbuffer, hrun⟩ := arg_then hrun
    obtain ⟨size, hsize, hrun⟩ := arg_then hrun
    obtain ⟨n, s₁, hr, hrun⟩ := bind_ok.mp hrun
    obtain ⟨rfl, rfl⟩ := EStateM.Result.ok.inj hrun
    have hlt : u32 size < 2 ^ 32 := Nat.mod_lt _ (by decide)
    refine (readFile_worked h hl hlt (fun hfits => ?_) (low_ok hr)).called hl _
    rcases hconf.read rfl fd buffer size hfd hbuffer hsize with hno | hin
    · rw [hno] at hfits
      cases hfits
    · exact hin.into
  · exact h.called_reads hc (reads_sysGetFileSize _) hrun
  · unfold sysCloseFile at hrun
    rw [bind_run (get_run s)] at hrun
    obtain ⟨fd, -, hrun⟩ := arg_then hrun
    obtain ⟨u, s₁, hclose, hrun⟩ := bind_ok.mp hrun
    obtain ⟨rfl, rfl⟩ := EStateM.Result.ok.inj hrun
    exact (closeFile_worked h hl (low_ok hclose)).called hl _
  · obtain ⟨pid, s₁, hfork, hrun⟩ := bind_ok.mp hrun
    obtain ⟨rfl, rfl⟩ := EStateM.Result.ok.inj hrun
    exact fork_after h hc hfork
  · unfold sysExec at hrun
    rw [bind_run (get_run s)] at hrun
    obtain ⟨name, -, hrun⟩ := arg_then hrun
    exact exec_after h hc hrun
  · unfold sysReadRootDirectory at hrun
    obtain ⟨buffer, hbuffer, hrun⟩ := arg_then hrun
    obtain ⟨n, s₁, hr, hrun⟩ := bind_ok.mp hrun
    obtain ⟨rfl, rfl⟩ := EStateM.Result.ok.inj hrun
    refine (h.poked_user hl ((readRootDirectory_ends h.mem hl fun count hcount => ?_).ok
      (low_ok hr))).called hl _
    exact hconf.list rfl buffer count hbuffer hcount
  · cases hrun

/-- The result of a call goes to the caller's frame. -/
theorem setResult_after {r : Option Int} (h : Called K pool free s r s₁) {tf : Nat}
    (htf : tf = (s.processTable s.pc.currentProcess).tf) {u : Unit}
    (hrun : setResult tf r s₁ = .ok u s') :
    ∃ free' a' S', Whole K pool free' a' S' s' ∧
      Stepped s.pc.currentProcess free free' s s' := by
  obtain ⟨free', a', S', hw, hst, hret⟩ := h
  cases r with
  | none =>
      obtain ⟨-, rfl⟩ := EStateM.Result.ok.inj hrun
      exact ⟨free', a', S', hw, hst⟩
  | some v =>
      obtain ⟨hl, htf'⟩ := hret nofun
      obtain ⟨r, hrun', -, hwr⟩ := setResult_run hw.mem hl (htf.trans htf'.symm) v
      obtain ⟨-, rfl⟩ := EStateM.Result.ok.inj (hrun'.symm.trans hrun)
      exact ⟨free', a', S', (hw.stack hl hwr).1, hst.then_stack hw hl hwr⟩

end Calls

/-! ## The steps -/

section Steps

variable {pool free free' : List Nat} {a b : Sched} {S S' : Handles} {s s' s₁ : Kernel} {c : Slot}

/-- The frame of a trap goes to the stack of the current process; the idle process's
    frames are not modelled. -/
theorem pushFrame_after (h : Whole K pool free a S s) {f : TrapFrame} {u : Unit}
    (hrun : pushFrame f s = .ok u s₁) :
    Whole K pool free a S s₁ ∧ Steady s.pc.currentProcess s s₁ ∧ s₁ = { s with ram := s₁.ram } := by
  by_cases hc : s.pc.currentProcess = 0
  · rw [pushFrame_idle hc] at hrun
    obtain ⟨-, rfl⟩ := EStateM.Result.ok.inj hrun
    exact ⟨h, .refl _ s, rfl⟩
  · have hl := h.live (h.rep.current ▸ hc)
    obtain ⟨r, hrun', -, hw⟩ := pushFrame_run h.mem hl f
    obtain ⟨-, rfl⟩ := EStateM.Result.ok.inj (hrun'.symm.trans hrun)
    obtain ⟨hw', hst⟩ := h.stack hl hw
    exact ⟨hw', hst, rfl⟩

theorem Stepped.after_frame (hst : Steady c s s₁) (he : s₁ = { s with ram := s₁.ram })
    (h : Stepped c free free' s₁ s') : Stepped c free free' s s' := by
  refine h.after hst ?_ ?_ (fun i => ?_) fun i => ?_
  · rw [he]
  · unfold Kernel.files
    rw [he]
  · rw [he]
  · rw [he]

/-- Scheduling after the frame of a trap. -/
theorem Whole.trap (h : Whole K pool free a S s) {f : TrapFrame} {u : Unit}
    (hrun : pushFrame f s = .ok u s₁) (hr : Rep s' b) (hk : Keeps s₁ s') (hb : b.Sane)
    (hm : Sched.Mute a b) :
    ∃ free' a' S', Whole K pool free' a' S' s' ∧
      Stepped s.pc.currentProcess free free' s s' := by
  obtain ⟨h₁, hst, he⟩ := pushFrame_after h hrun
  obtain ⟨hw, hst'⟩ := h₁.keeps hr hk hb hm s.pc.currentProcess
  exact ⟨free, b, S, hw, hst'.stepped.after_frame hst he⟩

/-- The timer wakes the sleepers and ends the turn. -/
theorem timerHandler_run (h : Whole K pool free a S s) :
    ∃ s', (do low timerHandler; yield : KernelM Unit) s = .ok () s' ∧ Rep s' (a.wake (-1)).yield ∧
      Keeps s s' := by
  let s₂ : Kernel := { s with ticks := u64 (s.ticks + 1) }
  have hr₂ : Rep s₂ a := h.rep.of_same rfl rfl rfl rfl rfl
  have hk₂ : Keeps s s₂ :=
    ⟨rfl, rfl, rfl, fun _ => rfl, fun _ => rfl, fun _ => rfl, fun _ => rfl, id⟩
  obtain ⟨s₃, hrun₃, hr₃, hk₃⟩ := wakeUp_run hr₂ (-1)
  obtain ⟨s₄, hrun₄, hr₄, hk₄⟩ := yield_run hr₃ (Sched.wake_sane h.sane (-1)).current_free
  have htimer : timerHandler s = .ok () s₃ := by
    unfold timerHandler
    exact hrun₃
  exact ⟨s₄, (bind_run (low_run htimer)).trans hrun₄, hr₄, (hk₂.trans hk₃).trans hk₄⟩

theorem timer_sane (h : Whole K pool free a S s) :
    (a.wake (-1)).yield.Sane ∧ Sched.Mute a (a.wake (-1)).yield := by
  have hw := Sched.wake_sane h.sane (-1)
  exact ⟨Sched.yield_sane hw, (Sched.wake_mute h.sane.toListed _).trans (Sched.yield_mute hw)⟩

theorem timer_after (h : Whole K pool free a S s) {f : TrapFrame}
    (hrun : step K (.timer f) s = .ok () s') :
    ∃ free' a' S', Whole K pool free' a' S' s' ∧
      Stepped s.pc.currentProcess free free' s s' := by
  obtain ⟨u, s₁, hp, hrun⟩ := bind_ok.mp hrun
  obtain ⟨h₁, -, -⟩ := pushFrame_after h hp
  obtain ⟨s₂, hrun₂, hr, hk⟩ := timerHandler_run h₁
  obtain ⟨-, rfl⟩ := EStateM.Result.ok.inj (hrun₂.symm.trans hrun)
  exact h.trap hp hr hk (timer_sane h).1 (timer_sane h).2

theorem writeKeyBuffer_keeps {ch : Nat} {u : Unit} (hrun : writeKeyBuffer ch s = .ok u s') :
    Keeps s s' := by
  unfold writeKeyBuffer at hrun
  rw [bind_run (get_run s)] at hrun
  split at hrun
  · obtain ⟨-, rfl⟩ := EStateM.Result.ok.inj hrun
    exact .refl s
  · obtain ⟨-, rfl⟩ := EStateM.Result.ok.inj hrun
    exact ⟨rfl, rfl, rfl, fun _ => rfl, fun _ => rfl, fun _ => rfl, fun _ => rfl, id⟩

/-- A scan code changes `flag`, and one that yields a character goes to the key buffer. -/
theorem keyboardHandler_run (h : Whole K pool free a S s) (code : Nat) :
    ∃ s', low (keyboardHandler code) s = .ok () s' ∧ Keeps s s' ∧
      (0 < (decodeScanCode s.flag code).2 →
        Rep s' ((a.acceptKey (decodeScanCode s.flag code).2).wake (-2))) ∧
      ((decodeScanCode s.flag code).2 = 0 →
        Rep s' a ∧ s'.flag = (decodeScanCode s.flag code).1) := by
  have hread : keyboardRead code s = .ok (decodeScanCode s.flag code).2
    { s with flag := (decodeScanCode s.flag code).1 } := rfl
  let s₂ : Kernel := { s with flag := (decodeScanCode s.flag code).1 }
  have hr₂ : Rep s₂ a := h.rep.of_same rfl rfl rfl rfl rfl
  have hk₂ : Keeps s s₂ :=
    ⟨rfl, rfl, rfl, fun _ => rfl, fun _ => rfl, fun _ => rfl, fun _ => rfl, id⟩
  by_cases hch : 0 < (decodeScanCode s.flag code).2
  · obtain ⟨s₃, hrun₃, hr₃⟩ := writeKeyBuffer_rep hr₂ (decodeScanCode s.flag code).2
    have hk₃ := writeKeyBuffer_keeps hrun₃
    obtain ⟨s₄, hrun₄, hr₄, hk₄⟩ := wakeUp_run hr₃ (-2)
    refine ⟨s₄, low_run ?_, (hk₂.trans hk₃).trans hk₄, fun _ => hr₄, fun h0 => by omega⟩
    unfold keyboardHandler
    rw [bind_run hread, if_pos hch, bind_run hrun₃, hrun₄]
  · refine ⟨s₂, low_run ?_, hk₂, fun hpos => absurd hpos hch, fun _ => ⟨hr₂, rfl⟩⟩
    unfold keyboardHandler
    rw [bind_run hread, if_neg hch]
    rfl

theorem key_sane (h : Whole K pool free a S s) (ch : Nat) :
    ((a.acceptKey ch).wake (-2)).Sane ∧ Sched.Mute a ((a.acceptKey ch).wake (-2)) := by
  have hs := Sched.acceptKey_sane h.sane ch
  exact ⟨Sched.wake_sane hs _, (Sched.acceptKey_mute a ch).trans (Sched.wake_mute hs.toListed _)⟩

theorem keyboard_after (h : Whole K pool free a S s) {code : Nat} {f : TrapFrame}
    (hrun : step K (.keyboard code f) s = .ok () s') :
    ∃ free' a' S', Whole K pool free' a' S' s' ∧
      Stepped s.pc.currentProcess free free' s s' := by
  obtain ⟨u, s₁, hp, hrun⟩ := bind_ok.mp hrun
  obtain ⟨h₁, -, -⟩ := pushFrame_after h hp
  obtain ⟨s₂, hrun₂, hk, hkey, hmute⟩ := keyboardHandler_run h₁ code
  obtain ⟨-, rfl⟩ := EStateM.Result.ok.inj (hrun₂.symm.trans hrun)
  rcases Nat.eq_zero_or_pos (decodeScanCode s₁.flag code).2 with h0 | hpos
  · exact h.trap hp (hmute h0).1 hk h.sane (.refl a)
  · exact h.trap hp (hkey hpos) hk (key_sane h _).1 (key_sane h _).2

/-- A user program stores to its own page. -/
theorem store_inUser (h : Whole K pool free a S s) {va : Nat} {b : UInt8}
    (he : Enabled s (.store va b)) : InUser va := by
  obtain ⟨-, hc, t, ht, -, hu⟩ := he
  have hsp := h.mem.currentSpace (h.live (h.rep.current ▸ hc))
  unfold Kernel.translate at ht
  rw [hsp.walk] at ht
  unfold spaceTarget at ht
  split at ht
  · rename_i hva
    rw [pageSize_eq] at hva
    unfold InUser
    omega
  · unfold kernelTarget at ht
    split at ht
    · obtain rfl := Option.some.inj ht
      cases hu
    · cases ht

theorem store_after (h : Whole K pool free a S s) {va : Nat} {b : UInt8}
    (he : Enabled s (.store va b)) (hrun : step K (.store va b) s = .ok () s') :
    ∃ free' a' S', Whole K pool free' a' S' s' ∧
      Stepped s.pc.currentProcess free free' s s' := by
  have hl := h.live (h.rep.current ▸ he.2.1)
  have hva : va < 2 ^ 47 := by
    have := (store_inUser h he).2
    omega
  have hp := ((storeVirt_ends (h.mem.currentSpace hl) hva InUser b).ok (low_ok hrun)).2
  have hw := h.poked_user hl hp
  obtain ⟨os, S', hw'⟩ := hw.whole
  exact ⟨free, _, S', hw', hw.steady.stepped⟩

/-- A process that `swap` returned to goes on. -/
theorem resume_after (h : Whole K pool free a S s) (he : s.current.kont ≠ .user)
    (hrun : resume K s = .ok () s') :
    ∃ free' a' S', Whole K pool free' a' S' s' ∧
      Stepped s.pc.currentProcess free free' s s' := by
  let s₁ := s.setProcess s.pc.currentProcess fun p => { p with kont := .user }
  have hk₁ : Keeps s s₁ := keeps_setProcess s _ fun _ => ⟨rfl, rfl, rfl, rfl⟩
  have hr₁ : Rep s₁ a.runOn := by
    have hon : a.setKont s.pc.currentProcess .user = a.runOn := by
      unfold Sched.runOn
      rw [h.rep.current]
    exact hon ▸ h.rep.setKontRun s.pc.currentProcess .user
  obtain ⟨h₁, hst₁⟩ := h.keeps hr₁ hk₁ (Sched.runOn_sane h.sane) (Sched.runOn_mute a)
    s.pc.currentProcess
  have hkont : a.kont a.current = s.current.kont := by
    unfold Kernel.current
    rw [h.rep.kont, h.rep.current]
  -- what the rest of the call does, it does from `s₁`
  have hfrom : ∀ {free' : List Nat}, Stepped s.pc.currentProcess free free' s₁ s' →
      Stepped s.pc.currentProcess free free' s s' := by
    intro free' hstep
    have hfield : ∀ {β : Type} (g : Process → β), (∀ p, g { p with kont := .user } = g p) →
        ∀ i, g (s₁.processTable i) = g (s.processTable i) := by
      intro β g hg i
      by_cases hi : i = s.pc.currentProcess
      · rw [hi]
        exact (congrArg g (Function.update_self _ _ _)).trans (hg _)
      · exact congrArg g (Function.update_of_ne hi _ _)
    exact hstep.after hst₁ rfl (funext (hfield Process.file fun _ => rfl))
      (hfield Process.pid fun _ => rfl) (hfield Process.state fun _ => rfl)
  have hcall : ∀ {r : Option Int} {s₂ : Kernel} {u : Unit}, s.pc.currentProcess ≠ 0 →
      Called K pool free s₁ r s₂ → setResult s.trapFrame r s₂ = .ok u s' →
      ∃ free' a' S', Whole K pool free' a' S' s' ∧
        Stepped s.pc.currentProcess free free' s s' := by
    intro r s₂ u hc hcalled hset
    have hl := h.live (h.rep.current ▸ hc)
    have htf : s.trapFrame = (s₁.processTable s₁.pc.currentProcess).tf := by
      rw [h.mem.trapFrame_eq hl]
      exact (hk₁.tf _).symm
    obtain ⟨free', a', S', hw, hstep⟩ := setResult_after hcalled htf hset
    exact ⟨free', a', S', hw, hfrom hstep⟩
  have hcur : ∀ k, s.current.kont = k → k ≠ .user → k ≠ .trapReturn → a.current ≠ 0 :=
    fun k hk hu ht => h.sane.current_ne (hkont.trans hk ▸ hu) (hkont.trans hk ▸ ht)
  unfold resume at hrun
  rw [bind_run (get_run s)] at hrun
  cases hk : s.current.kont with
  | user => exact absurd hk he
  | trapReturn =>
      rw [hk] at hrun
      obtain ⟨-, rfl⟩ := EStateM.Result.ok.inj hrun
      exact ⟨free, _, S, h₁, hst₁.stepped⟩
  | sleeping old n =>
      have hc := hcur _ hk nofun nofun
      rw [hk] at hrun
      dsimp only at hrun
      rw [bind_run (setProcess_run _ _ s)] at hrun
      obtain ⟨r, s₂, hloop, hset⟩ := bind_ok.mp hrun
      exact hcall (h.rep.current ▸ hc) (sleepLoop_after h₁ hc hloop) hset
  | waiting p =>
      have hc := hcur _ hk nofun nofun
      rw [hk] at hrun
      dsimp only at hrun
      rw [bind_run (setProcess_run _ _ s)] at hrun
      obtain ⟨r, s₂, hwait, hset⟩ := bind_ok.mp hrun
      exact hcall (h.rep.current ▸ hc) (wait_after h₁ hc hwait) hset
  | readingKey front =>
      have hc := hcur _ hk nofun nofun
      rw [hk] at hrun
      dsimp only at hrun
      rw [bind_run (setProcess_run _ _ s)] at hrun
      obtain ⟨r, s₂, htake, hset⟩ := bind_ok.mp hrun
      exact hcall (h.rep.current ▸ hc) (takeKey_after h₁ hc htake _) hset
  | exited =>
      rw [hk] at hrun
      cases hrun

/-- The registers that `systemCall` finds in the frame of its trap. -/
theorem systemCall_frame (h : MemOk K pool free s) (hl : s.Live s.pc.currentProcess)
    {f : TrapFrame} (hf : ∀ w ∈ f.words, w < 2 ^ 64) {u : Unit} (hrun : pushFrame f s = .ok u s₁) :
    s₁.frame s.pc.currentProcess = f := by
  obtain ⟨r, hrun', rfl, -⟩ := pushFrame_run h hl f
  obtain ⟨-, rfl⟩ := EStateM.Result.ok.inj (hrun'.symm.trans hrun)
  exact frameAt_putWords _ _ hf

/-- A load of a word of the current process's frame. -/
theorem loadFrame (h : MemOk K pool free s) (hl : s.Live s.pc.currentProcess) {o : Nat}
    (ho : o + 8 ≤ trapFrameSize) : low (ram (kload (s.trapFrame + o) 8)) s =
      .ok (load s.ram.mem (s.frameAddr s.pc.currentProcess + o) 8) s := by
  have hv := h.stackValid hl
  obtain ⟨h1, h2⟩ := frameAddr_end s s.pc.currentProcess
  have htf := (h.trapFrame_eq hl).trans (h.tf_eq hl)
  have hld := kload_page hv (a := s.frameAddr s.pc.currentProcess + o) (n := 8)
    (v := s.trapFrame + o) (by omega) (by omega) (by omega) s.ram
  exact low_run (ram_run hld)

/-- A system call pushes its frame, dispatches on `rax` and stores the result in the frame. -/
theorem syscall_run (h : MemOk K pool free s) (hl : s.Live s.pc.currentProcess) {f : TrapFrame}
    (hf : ∀ w ∈ f.words, w < 2 ^ 64) : ∃ r, pushFrame f s = .ok () { s with ram := r } ∧
      Wrote [s.stackPage s.pc.currentProcess] s.ram r ∧
      ({ s with ram := r } : Kernel).frame s.pc.currentProcess = f ∧
      step K (.syscall f) s = (if 2 ^ 63 ≤ f.rdi ∨ 15 < f.rax then setResult s.trapFrame (some (-1))
        else do
          let result ← systemCalls K f.rax f.rsi
          setResult s.trapFrame result) { s with ram := r } := by
  obtain ⟨r, hp, -, hw⟩ := pushFrame_run h hl f
  have h₁ : MemOk K pool free { s with ram := r } := (h.still (still_ram hw) fun q hq =>
    Or.inr (Or.inr ⟨_, hl, Or.inl (List.mem_singleton.mp hq)⟩)).memOk
  have hframe := systemCall_frame h hl hf hp
  refine ⟨r, hp, hw, hframe, ?_⟩
  have hrax := loadFrame h₁ hl (o := 112) (by decide)
  have hrdi := loadFrame h₁ hl (o := 72) (by decide)
  have hrsi := loadFrame h₁ hl (o := 80) (by decide)
  refine (bind_run hp).trans ?_
  rw [bind_run (get_run _)]
  unfold systemCall tfRax tfRdi tfRsi
  rw [bind_run hrax, bind_run hrdi, bind_run hrsi, ← hframe]
  rfl

theorem syscall_eq (h : Whole K pool free a S s) (hc : s.pc.currentProcess ≠ 0) {f : TrapFrame}
    (hf : ∀ w ∈ f.words, w < 2 ^ 64) :
    ∃ s₁, pushFrame f s = .ok () s₁ ∧ Whole K pool free a S s₁ ∧
      Steady s.pc.currentProcess s s₁ ∧ s₁ = { s with ram := s₁.ram } ∧
      s₁.frame s₁.pc.currentProcess = f ∧
      step K (.syscall f) s = (if 2 ^ 63 ≤ f.rdi ∨ 15 < f.rax then setResult s₁.trapFrame (some (-1))
        else do
          let result ← systemCalls K f.rax f.rsi
          setResult s₁.trapFrame result) s₁ := by
  obtain ⟨r, hp, -, hframe, heq⟩ :=
    syscall_run (K := K) h.mem (h.live (h.rep.current ▸ hc)) hf
  obtain ⟨h₁, hst₁, he₁⟩ := pushFrame_after h hp
  exact ⟨_, hp, h₁, hst₁, he₁, hframe, heq⟩

theorem syscall_after (h : Whole K pool free a S s) (hc : s.pc.currentProcess ≠ 0) {f : TrapFrame}
    (hf : ∀ w ∈ f.words, w < 2 ^ 64) (hconf : Confined s (.syscall f))
    (hrun : step K (.syscall f) s = .ok () s') :
    ∃ free' a' S', Whole K pool free' a' S' s' ∧
      Stepped s.pc.currentProcess free free' s s' := by
  have hca : a.current ≠ 0 := h.rep.current ▸ hc
  obtain ⟨s₁, hp, h₁, hst₁, he₁, -, heq⟩ := syscall_eq (K := K) h hc hf
  rw [heq] at hrun
  have hl₁ := h₁.live hca
  have hcur : s₁.pc.currentProcess = s.pc.currentProcess := by rw [he₁]
  have htf := h₁.mem.trapFrame_eq hl₁
  have hstep : ∃ free' a' S', Whole K pool free' a' S' s' ∧
      Stepped s₁.pc.currentProcess free free' s₁ s' := by
    split at hrun
    · exact setResult_after ((Worked.refl h₁).called hl₁ _) htf hrun
    · obtain ⟨r, s₂, hcall, hset⟩ := bind_ok.mp hrun
      exact setResult_after (systemCalls_after h₁ hca (hconf s₁ hp) hcall) htf hset
  obtain ⟨free', a', S', hw, hstep⟩ := hstep
  rw [hcur] at hstep
  exact ⟨free', a', S', hw, hstep.after_frame hst₁ he₁⟩

/-- Every confined step keeps the invariant. -/
theorem step_whole (h : Whole K pool free a S s) {e : Event} (he : Enabled s e)
    (hconf : Confined s e) (hrun : step K e s = .ok () s') :
    ∃ free' a' S', Whole K pool free' a' S' s' ∧
      Stepped s.pc.currentProcess free free' s s' := by
  cases e with
  | timer f => exact timer_after h hrun
  | keyboard code f => exact keyboard_after h hrun
  | spurious f =>
      obtain ⟨h₁, hst, hsame⟩ := pushFrame_after h hrun
      exact ⟨free, a, S, h₁, hst.stepped⟩
  | syscall f => exact syscall_after h he.2.1 he.2.2.2.2.2 hconf hrun
  | exception f =>
      have hc : a.current ≠ 0 := h.rep.current ▸ he.2.1
      obtain ⟨u, s₁, hp, hrun⟩ := bind_ok.mp hrun
      obtain ⟨h₁, -, -⟩ := pushFrame_after h hp
      obtain ⟨hr, hk⟩ := exit_ok h₁.rep h.sane.current_free hrun
      exact h.trap hp hr hk (Sched.exit_sane h.sane hc) (Sched.exit_mute h.sane hc)
  | store va b => exact store_after h he hrun
  | resume => exact resume_after h he hrun

/-- Every state of a run of confined steps has the invariant. -/
theorem run_whole {Ok : Kernel → Event → Prop} {s₀ : Kernel} (h₀ : Whole K pool free a S s₀)
    (hOk : ∀ s e, Ok s e → Confined s e) (h : Run K Ok s₀ s) :
    ∃ free' a' S', Whole K pool free' a' S' s := by
  induction h with
  | refl => exact ⟨free, a, S, h₀⟩
  | step hrun he hok hs ih =>
      obtain ⟨free₁, a₁, S₁, h₁⟩ := ih
      obtain ⟨free₂, a₂, S₂, h₂, -⟩ := step_whole h₁ he (hOk _ _ hok) hs
      exact ⟨free₂, a₂, S₂, h₂⟩

end Steps

end Os64
