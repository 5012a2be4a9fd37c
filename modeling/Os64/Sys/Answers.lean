/-
  What a process finds when a system call of it returns.

  * `Answers`: a kernel function answers its caller or leaves it blocked, and its frame is as it was.
    `systemCalls_answers`: so do all calls but `exit` and `exec`.
  * `syscall_inCall`, `resume_inCall`: the two steps of a process that is in a call.
  * `run_inCall`: whatever else runs, it is in the call until it has the answer in `rax`.
-/
import Os64.Sched.Asleep
import Os64.Sys.Reading
import Os64.Sys.Resumed

namespace Os64

open Os64.Lib

variable {K : Image}

/-- Process `c` keeps its frame, and with `keeps` what is in its user page. -/
structure Caller (keeps : Prop) (c : Slot) (s s' : Kernel) : Prop where
  frame : s'.frame c = s.frame c
  bytes : keeps → ∀ va, InUser va → s'.userByte c va = s.userByte c va

/-- A kernel function answers its caller `c`, or leaves it blocked. -/
structure Answers (keeps : Prop) (c : Slot) (v : Option Int) (s s' : Kernel) : Prop
    extends Caller keeps c s s' where
  alive : s'.Alive c
  now : v ≠ none → s'.pc.currentProcess = c ∧ s'.current.kont = .user
  later : v = none → (s'.processTable c).kont.reason ≠ none

section Calls

variable {pool free : List Nat} {a b : Sched} {S : Handles} {s s' s₁ : Kernel} {keeps : Prop} {c : Slot}

theorem Caller.refl (keeps : Prop) (c : Slot) (s : Kernel) : Caller keeps c s s :=
  ⟨rfl, fun _ _ _ => rfl⟩

theorem Undisturbed.caller (h : Undisturbed c s s') (hl : s.Live c) (hl' : s'.Live c) :
    Caller keeps c s s' := ⟨h.frame hl hl', fun _ _ hva => h.userByte hl hva⟩

/-- Work that writes the tables of file.c alone. -/
theorem Whole.caller_tables (h : Whole K pool free a S s) (hl : s.Live c)
    (hq : Quiet false s s') (hw : Wrote s.tablePages s.ram s'.ram) : Caller keeps c s s' := by
  have hst : Still s.tablePages s s' := hq.still hw
  have hdata : ∀ p ∈ s.tablePages, s.Data p := fun p hp => Kernel.tablePages_data hp
  have hnot : ∀ p ∈ s.tablePages, p ∉ s.pagesOf [] (.process c) := by
    intro p hp
    rw [Kernel.pagesOf_held (l := free) (by simp)]
    rcases List.mem_cons.mp hp with he | hp
    · exact h.mem.apart (o := .fcbTable) nofun (he ▸ List.mem_cons_self)
    · exact h.mem.apart (o := .fileDescTable) nofun hp
  exact (h.mem.undisturbed hst hdata hl hnot).caller hl ((hst.live c).mpr hl)

/-- Work that writes the user page and the tables leaves the frame. -/
theorem Whole.caller_pokes (h : Whole K pool free a S s) (hl : s.Live c) {P : List Nat}
    (hp : Pokes P InUser s s') (hP : ∀ p ∈ P, p = s.userPage c ∨ p ∈ s.tablePages)
    (hk : ¬ keeps) : Caller keeps c s s' := by
  refine ⟨hp.still.frame h.mem hl fun p hm => ?_, fun hyes => absurd hyes hk⟩
  rcases hP p hm with rfl | hin
  · exact ⟨(h.mem.userPage_off_tables hl).1, (h.mem.within hl).1.symm⟩
  · exact h.mem.tables_off_stack hl p hin

/-- Scheduling leaves every process its pages. -/
theorem Whole.caller_keeps (h : Whole K pool free a S s) (hl : s.Live c) (hr : Rep s' b)
    (hk : Keeps s s') (hb : b.Sane) (hm : Sched.Mute a b) : Caller keeps c s s' := by
  obtain ⟨-, hst⟩ := h.keeps hr hk hb hm 0
  exact (hst.others c hl.1 hl).caller hl ((hst.live c).mpr hl)

/-- A call that blocks its caller. -/
theorem sleep_answers (h : Whole K pool free a S s) (hc : a.current ≠ 0) {w : Int} {k : Kont}
    (hrun : sleep w k s = .ok () s') (hreason : k.reason ≠ none) :
    Answers keeps s.pc.currentProcess none s s' := by
  obtain ⟨hr, hk⟩ := sleep_ok h.rep h.sane.current_free hrun
  obtain ⟨halive, hkont⟩ := a.sleep_leaves w k
  rw [h.rep.current]
  refine ⟨h.rep.current ▸ h.caller_keeps (h.live hc) hr hk (Sched.sleep_sane h.sane hc _ _)
    (Sched.sleep_mute h.sane hc _ _), hr.alive.mpr ⟨hc, halive⟩, nofun, fun _ => ?_⟩
  rw [hr.kont, hkont]
  exact hreason

/-- A call that changed the scheduler, and answers. -/
theorem Whole.answers (h : Whole K pool free a S s) (hc : a.current ≠ 0) (hr : Rep s' b)
    (hcur : b.current = a.current) (hk : b.kont a.current = .user)
    (hst : b.state a.current = .running) (hcaller : Caller keeps s.pc.currentProcess s s') (v : Int) :
    Answers keeps s.pc.currentProcess (some v) s s' := by
  rw [h.rep.current] at hcaller ⊢
  refine ⟨hcaller, hr.alive.mpr ⟨hc, ?_, ?_⟩, fun _ => ⟨hr.current.trans hcur, ?_⟩, nofun⟩
  · exact fun hno => nomatch hst.symm.trans hno
  · exact fun hno => nomatch hst.symm.trans hno
  · unfold Kernel.current
    rw [hr.kont, hr.current, hcur, hk]

/-- Work that does not schedule. -/
theorem Worked.answers (hw : Worked K pool free a s s') (h : Whole K pool free a S s)
    (hc : a.current ≠ 0) (hu : a.kont a.current = .user)
    (hcaller : Caller keeps s.pc.currentProcess s s') (v : Int) :
    Answers keeps s.pc.currentProcess (some v) s s' := by
  obtain ⟨os, S', hw'⟩ := hw.whole
  exact h.answers hc hw'.rep rfl hu h.sane.current_running hcaller v

theorem sleepLoop_answers (h : Whole K pool free a S s) (hc : a.current ≠ 0)
    (hu : a.kont a.current = .user) {old n : Nat} {v : Option Int}
    (hrun : sleepLoop old n s = .ok v s') : Answers keeps s.pc.currentProcess v s s' := by
  unfold sleepLoop at hrun
  rw [bind_run (get_run s)] at hrun
  split at hrun
  · obtain ⟨u, s₁, hs, hrun⟩ := bind_ok.mp hrun
    obtain ⟨rfl, rfl⟩ := EStateM.Result.ok.inj hrun
    exact sleep_answers h hc hs nofun
  · obtain ⟨rfl, rfl⟩ := EStateM.Result.ok.inj hrun
    exact (Worked.refl h).answers h hc hu (.refl _ _ _) 0

theorem takeKey_answers (h : Whole K pool free a S s) (hc : a.current ≠ 0)
    (hu : a.kont a.current = .user) {front : Nat} {n : Int} (hrun : takeKey front s = .ok n s') :
    Answers keeps s.pc.currentProcess (some n) s s' := by
  obtain ⟨s₁, hrun', hr⟩ := takeKey_rep h.rep front
  obtain ⟨rfl, rfl⟩ := EStateM.Result.ok.inj (hrun.symm.trans hrun')
  have hk : Keeps s s' := by
    obtain ⟨-, rfl⟩ := EStateM.Result.ok.inj hrun
    exact ⟨rfl, rfl, rfl, fun _ => rfl, fun _ => rfl, fun _ => rfl, fun _ => rfl, id⟩
  have hcaller : Caller keeps s.pc.currentProcess s s' :=
    h.caller_keeps (h.live hc) hr hk (h.sane.congr rfl rfl rfl rfl rfl) (Sched.takeKey_mute a front)
  exact h.answers hc hr rfl hu h.sane.current_running hcaller _

theorem readKeyBuffer_answers (h : Whole K pool free a S s) (hc : a.current ≠ 0)
    (hu : a.kont a.current = .user) {v : Option Int} (hrun : readKeyBuffer s = .ok v s') :
    Answers keeps s.pc.currentProcess v s s' := by
  unfold readKeyBuffer at hrun
  rw [bind_run (get_run s)] at hrun
  split at hrun
  · obtain ⟨u, s₁, hs, hrun⟩ := bind_ok.mp hrun
    obtain ⟨rfl, rfl⟩ := EStateM.Result.ok.inj hrun
    exact sleep_answers h hc hs nofun
  · obtain ⟨n, s₁, ht, hrun⟩ := bind_ok.mp hrun
    obtain ⟨rfl, rfl⟩ := EStateM.Result.ok.inj hrun
    exact takeKey_answers h hc hu ht

/-- `wait` frees pages of the process it reaps, not of its caller. -/
theorem waitResult_answers (h : Whole K pool free a S s) (hc : a.current ≠ 0)
    (hu : a.kont a.current = .user) {p : Int} {v : Option Int}
    (hrun : waitResult K p s = .ok v s') : Answers keeps s.pc.currentProcess v s s' := by
  obtain ⟨o, s₁, hwait, hrun⟩ := bind_ok.mp hrun
  obtain ⟨rfl, rfl⟩ := EStateM.Result.ok.inj hrun
  have hl := h.live hc
  cases hfind : (a.queue .kill).find? fun j => a.wait j = p with
  | none =>
      rw [waitLoop_sleep h.rep hfind] at hwait
      obtain ⟨u, s₂, hs, hwait⟩ := bind_ok.mp hwait
      obtain ⟨rfl, rfl⟩ := EStateM.Result.ok.inj hwait
      exact sleep_answers h hc hs nofun
  | some x =>
      obtain ⟨s₂, free', S', hwait', hr, -, -, hreap, -⟩ :=
        waitLoop_reap (K := K) h.rep h.sane h.mem h.files hfind
      obtain ⟨rfl, rfl⟩ := EStateM.Result.ok.inj (hwait.symm.trans hwait')
      have hx : a.current ≠ x := by
        rintro rfl
        exact h.sane.current_free .kill (Sched.find?_kill hfind).1
      have hxc : s.pc.currentProcess ≠ x := h.rep.current ▸ hx
      have hst : (a.reap x).state a.current = .running :=
        (Sched.reap_state a hx).trans h.sane.current_running
      have hl' : s₁.Live s.pc.currentProcess := by
        refine ⟨hl.1, ?_⟩
        rw [hr.state, h.rep.current, hst]
        exact nofun
      have hcaller : Caller keeps s.pc.currentProcess s s₁ :=
        (h.mem.undisturbed_of_mem hl hl' (hreap.other _ hxc).1 (hreap.other _ hxc).2.1
          (hreap.mem _ hxc hl)).caller hl hl'
      exact h.answers hc hr rfl ((Function.update_of_ne hx _ _).trans hu) hst hcaller _

theorem fork_answers (h : Whole K pool free a S s) (hc : a.current ≠ 0)
    (hu : a.kont a.current = .user) {pid : Int} (hrun : fork K s = .ok pid s') :
    Answers keeps s.pc.currentProcess (some pid) s s' := by
  rcases fork_run h.rep h.sane h.mem h.files hc with
    ⟨-, hno⟩ | ⟨i, s₁, free', S', hrun', -, hi, hr, -, -, hfork, -⟩
  · exact absurd hrun (hno _ _)
  · obtain ⟨rfl, rfl⟩ := EStateM.Result.ok.inj (hrun.symm.trans hrun')
    have hl := h.live hc
    have hrunning := h.sane.current_running
    have hne : a.current ≠ i := fun he => nomatch (he ▸ hrunning).symm.trans hi
    have hst : (a.create i).state a.current = .running :=
      (Function.update_of_ne hne _ _).trans hrunning
    have hl' : s'.Live s.pc.currentProcess := by
      refine ⟨hl.1, ?_⟩
      rw [hr.state, h.rep.current, hst]
      exact nofun
    obtain ⟨-, hmap, hstack, -⟩ := hfork.other s.pc.currentProcess (h.rep.current ▸ hne)
    have hcaller : Caller keeps s.pc.currentProcess s s' :=
      (h.mem.undisturbed_of_mem hl hl' hmap hstack (hfork.mem _ hl)).caller hl hl'
    exact h.answers hc hr rfl ((Function.update_of_ne hne _ _).trans hu) hst hcaller _

/-- The calls whose results go to memory of the caller. -/
def Fills (i : Nat) : Prop := i = 10 ∨ i = 15

/-- All calls but `exit` and `exec`. -/
theorem systemCalls_answers (h : Whole K pool free a S s) (hc : a.current ≠ 0)
    (hu : a.kont a.current = .user) {i argptr : Nat} (hconf : CallConfined s i argptr) (h2 : i ≠ 2)
    (h14 : i ≠ 14) {v : Option Int} (hrun : systemCalls K i argptr s = .ok v s') :
    Answers (¬ Fills i) s.pc.currentProcess v s s' := by
  have hl := h.live hc
  unfold systemCalls at hrun
  split at hrun
  · obtain rfl := (reads_sysWrite argptr).ok hrun
    unfold sysWrite at hrun
    obtain ⟨_, -, hrun⟩ := arg_then hrun
    obtain ⟨_, -, hrun⟩ := arg_then hrun
    obtain ⟨_, -, hrun⟩ := arg_then hrun
    obtain ⟨_, _, -, hrun⟩ := bind_ok.mp hrun
    obtain ⟨rfl, -⟩ := EStateM.Result.ok.inj hrun
    exact (Worked.refl h).answers h hc hu (.refl _ _ _) _
  · obtain ⟨n, -, hrun⟩ := arg_then hrun
    rw [bind_run (get_run s)] at hrun
    exact sleepLoop_answers h hc hu hrun
  · exact absurd rfl h2
  · obtain ⟨n, -, hrun⟩ := arg_then hrun
    exact waitResult_answers h hc hu hrun
  · exact readKeyBuffer_answers h hc hu hrun
  · obtain ⟨rfl, rfl⟩ := EStateM.Result.ok.inj hrun
    exact (Worked.refl h).answers h hc hu (.refl _ _ _) _
  · obtain ⟨rfl, rfl⟩ := EStateM.Result.ok.inj hrun
    exact (Worked.refl h).answers h hc hu (.refl _ _ _) _
  · obtain ⟨rfl, rfl⟩ := EStateM.Result.ok.inj hrun
    exact (Worked.refl h).answers h hc hu (.refl _ _ _) _
  · obtain ⟨rfl, rfl⟩ := EStateM.Result.ok.inj hrun
    exact (Worked.refl h).answers h hc hu (.refl _ _ _) _
  · unfold sysOpenFile at hrun
    rw [bind_run (get_run s)] at hrun
    obtain ⟨n, -, hrun⟩ := arg_then hrun
    obtain ⟨fd, s₁, ho, hrun⟩ := bind_ok.mp hrun
    obtain ⟨rfl, rfl⟩ := EStateM.Result.ok.inj hrun
    refine (openFile_worked h hl (low_ok ho)).answers h hc hu ?_ fd
    rcases (openFile_ends h.files h.mem hl n).ok (low_ok ho) with
      ⟨-, rfl, -⟩ | ⟨_, d, c, -, -, -, -, hw, -⟩
    · exact .refl _ _ _
    · exact h.caller_tables hl (.of_low (quiet_openFile _ _) (low_ok ho)) hw.wrote
  · unfold sysReadFile at hrun
    rw [bind_run (get_run s)] at hrun
    obtain ⟨fd, hfd, hrun⟩ := arg_then hrun
    obtain ⟨buffer, hbuffer, hrun⟩ := arg_then hrun
    obtain ⟨size, hsize, hrun⟩ := arg_then hrun
    obtain ⟨n, s₁, hr, hrun⟩ := bind_ok.mp hrun
    obtain ⟨rfl, rfl⟩ := EStateM.Result.ok.inj hrun
    have hlt : u32 size < 2 ^ 32 := Nat.mod_lt _ (by decide)
    have hinto : readFits s.pc.currentProcess (i32 fd) (u32 size) s = .ok true s →
        u32 size = 0 ∨ Into true buffer (u32 size) := fun hfits => by
      rcases hconf.read rfl fd buffer size hfd hbuffer hsize with hno | hin
      · rw [hno] at hfits
        cases hfits
      · exact hin.into
    have hp := ((readFile_ends h.files h.mem hl hlt hinto).ok (low_ok hr)).2
    refine (readFile_worked h hl hlt hinto (low_ok hr)).answers h hc hu ?_ n
    refine h.caller_pokes hl hp (fun p hp => ?_) fun hno => hno (Or.inl rfl)
    exact (List.mem_cons.mp hp).imp_right (List.mem_cons_of_mem _)
  · obtain rfl := (reads_sysGetFileSize argptr).ok hrun
    unfold sysGetFileSize at hrun
    rw [bind_run (get_run _)] at hrun
    obtain ⟨_, -, hrun⟩ := arg_then hrun
    obtain ⟨_, _, -, hrun⟩ := bind_ok.mp hrun
    obtain ⟨rfl, -⟩ := EStateM.Result.ok.inj hrun
    exact (Worked.refl h).answers h hc hu (.refl _ _ _) _
  · unfold sysCloseFile at hrun
    rw [bind_run (get_run s)] at hrun
    obtain ⟨fd, -, hrun⟩ := arg_then hrun
    obtain ⟨u, s₁, hclose, hrun⟩ := bind_ok.mp hrun
    obtain ⟨rfl, rfl⟩ := EStateM.Result.ok.inj hrun
    refine (closeFile_worked h hl (low_ok hclose)).answers h hc hu ?_ 0
    obtain ⟨n, d, c, -, -, -, -, hw⟩ := (closeFile_ends h.files h.mem hl (i32 fd)).ok (low_ok hclose)
    exact h.caller_tables hl (.of_low (quiet_closeFile _ _) (low_ok hclose)) hw.wrote
  · obtain ⟨pid, s₁, hfork, hrun⟩ := bind_ok.mp hrun
    obtain ⟨rfl, rfl⟩ := EStateM.Result.ok.inj hrun
    exact fork_answers h hc hu hfork
  · exact absurd rfl h14
  · unfold sysReadRootDirectory at hrun
    obtain ⟨buffer, hbuffer, hrun⟩ := arg_then hrun
    obtain ⟨n, s₁, hr, hrun⟩ := bind_ok.mp hrun
    obtain ⟨rfl, rfl⟩ := EStateM.Result.ok.inj hrun
    have hp := (readRootDirectory_ends h.mem hl fun count hcount =>
      hconf.list rfl buffer count hbuffer hcount).ok (low_ok hr)
    refine (h.poked_user hl hp).answers h hc hu ?_ n
    refine h.caller_pokes hl hp (fun p hp => Or.inl (List.mem_singleton.mp hp)) fun hno =>
      hno (Or.inr rfl)
  · cases hrun

end Calls

/-! ## In a call -/

/-- Process `j` is blocked in a call that it made with the registers `f`; with `keeps` the bytes
    `page` are in its user page. -/
structure Blocked (keeps : Prop) (j : Slot) (f : TrapFrame) (page : Nat → UInt8) (s : Kernel) :
    Prop where
  alive : s.Alive j
  kont : (s.processTable j).kont.reason ≠ none
  frame : s.frame j = f
  bytes : keeps → ∀ va, InUser va → s.userByte j va = page va

/-- The call was answered, and the process goes on. -/
structure Replied (keeps : Prop) (j : Slot) (f : TrapFrame) (page : Nat → UInt8) (v : Int)
    (s : Kernel) : Prop where
  current : s.pc.currentProcess = j
  kont : s.current.kont = .user
  frame : s.frame j = { f with rax := ofInt v }
  bytes : keeps → ∀ va, InUser va → s.userByte j va = page va

def InCall (keeps : Prop) (j : Slot) (f : TrapFrame) (page : Nat → UInt8) (s : Kernel) : Prop :=
  Blocked keeps j f page s ∨ ∃ v, Replied keeps j f page v s

variable (K) in
/-- Runs in which process `j` does not run its program. -/
def RunsInside (j : Slot) : Kernel → Kernel → Prop :=
  Run K fun s e => Confined s e ∧ (s.pc.currentProcess = j → s.current.kont ≠ .user)

section InCall

variable {pool free : List Nat} {a : Sched} {S : Handles} {s s' s₁ : Kernel} {keeps : Prop}
  {j : Slot} {f : TrapFrame} {page : Nat → UInt8}

/-- The answer goes to the frame. -/
theorem Answers.replied {v : Int} (h : Answers keeps j (some v) s s₁)
    (hcalled : Called K pool free s (some v) s₁) (hj : s.pc.currentProcess = j)
    (hf : s.frame j = f) (hp : keeps → ∀ va, InUser va → s.userByte j va = page va)
    (hrun : setResult (s.processTable j).tf (some v) s₁ = .ok () s') : Replied keeps j f page v s' := by
  obtain ⟨free', a', S', hw, -, hret⟩ := hcalled
  obtain ⟨hl, htf⟩ := hret nofun
  rw [hj] at hl htf
  obtain ⟨r, hrun', hr, hwr⟩ := setResult_run hw.mem hl htf.symm v
  obtain ⟨-, rfl⟩ := EStateM.Result.ok.inj (hrun'.symm.trans hrun)
  obtain ⟨hcur, hkont⟩ := h.now nofun
  refine ⟨hcur, hkont, ?_, fun hk va hva => ?_⟩
  · have hframe := h.frame.trans hf
    unfold Kernel.frame at hframe ⊢
    change frameAt r.mem (s₁.frameAddr j) = _
    rw [hr, frameAt_result _ _ _ (ofInt_lt _), hframe]
  · rw [hw.userByte_stack hl hwr hva, h.bytes hk va hva, hp hk va hva]

theorem Answers.inCall {v : Option Int} (h : Answers keeps j v s s₁)
    (hcalled : Called K pool free s v s₁) (hj : s.pc.currentProcess = j) (hf : s.frame j = f)
    (hp : keeps → ∀ va, InUser va → s.userByte j va = page va)
    (hrun : setResult (s.processTable j).tf v s₁ = .ok () s') : InCall keeps j f page s' := by
  cases v with
  | some v => exact Or.inr ⟨v, h.replied hcalled hj hf hp hrun⟩
  | none =>
      obtain ⟨-, rfl⟩ := EStateM.Result.ok.inj hrun
      exact Or.inl ⟨h.alive, h.later rfl, h.frame.trans hf, fun hk va hva =>
        (h.bytes hk va hva).trans (hp hk va hva)⟩

/-- The step of the call itself. What the kernel function answers at once is the answer. -/
theorem syscall_inCall (h : Whole K pool free a S s) (he : Enabled s (.syscall f))
    (hconf : Confined s (.syscall f)) (hrdi : f.rdi < 2 ^ 63) (hrax : f.rax ≤ 15) (h2 : f.rax ≠ 2)
    (h14 : f.rax ≠ 14) (hpush : pushFrame f s = .ok () s₁) (hrun : step K (.syscall f) s = .ok () s') :
    ∃ v s₂, systemCalls K f.rax f.rsi s₁ = .ok v s₂ ∧
      InCall (¬ Fills f.rax) s.pc.currentProcess f (s.userByte s.pc.currentProcess) s' ∧
        ∀ n, v = some n → Replied (¬ Fills f.rax) s.pc.currentProcess f
          (s.userByte s.pc.currentProcess) n s' := by
  have hc : a.current ≠ 0 := h.rep.current ▸ he.2.1
  have hl := h.live hc
  obtain ⟨s₁', hcall⟩ := call_begins (K := K) h hc he.2.2 hrdi hrax
  obtain ⟨-, rfl⟩ := EStateM.Result.ok.inj (hcall.push.symm.trans hpush)
  have h₁ := hcall.whole
  have hcur : s₁'.pc.currentProcess = s.pc.currentProcess := by rw [hcall.same]
  have hu : a.kont a.current = .user := h.kont.symm.trans he.1
  rw [hcall.run] at hrun
  obtain ⟨v, s₂, hsys, hset⟩ := bind_ok.mp hrun
  have hconf₁ := hconf s₁' hcall.push
  rw [h₁.mem.trapFrame_eq (h₁.live hc)] at hset
  obtain ⟨page, hbytes⟩ : ∃ page, page = s.userByte s.pc.currentProcess := ⟨_, rfl⟩
  have hpage : ¬ Fills f.rax → ∀ va, InUser va →
      s₁'.userByte s₁'.pc.currentProcess va = page va := by
    intro _ va hva
    rw [hbytes]
    obtain ⟨r, hp, -, hw⟩ := pushFrame_run h.mem hl f
    obtain ⟨-, rfl⟩ := EStateM.Result.ok.inj (hp.symm.trans hcall.push)
    exact h.userByte_stack hl hw hva
  have hanswers := systemCalls_answers h₁ hc hu hconf₁ h2 h14 hsys
  have hcalled := systemCalls_after h₁ hc hconf₁ hsys
  rw [← hbytes, ← hcur]
  refine ⟨v, s₂, hsys, ?_, fun n hn => ?_⟩
  · exact hanswers.inCall hcalled rfl hcall.frame hpage hset
  · subst hn
    exact hanswers.replied hcalled rfl hcall.frame hpage hset

/-- A blocked process that gets the processor has its answer, or blocks again. -/
theorem resume_inCall (h : Whole K pool free a S s) (hb : Blocked keeps s.pc.currentProcess f page s)
    (hrun : resume K s = .ok () s') : InCall keeps s.pc.currentProcess f page s' := by
  have hl : s.Live s.pc.currentProcess := hb.alive.live
  have hc : a.current ≠ 0 := h.rep.current ▸ hl.1
  have hl₁ := h.live hc
  obtain ⟨s₁, hs₁⟩ : ∃ s₁, s₁ = s.setProcess s.pc.currentProcess fun p => { p with kont := .user } :=
    ⟨_, rfl⟩
  have h₁ : Whole K pool free a.runOn S s₁ := hs₁ ▸ h.resumed
  have hu₁ : a.runOn.kont a.runOn.current = .user := Function.update_self _ _ _
  have hset : (setProcess s.pc.currentProcess fun p => { p with kont := .user } : KernelM Unit) s =
      .ok () s₁ := by
    rw [hs₁]
    exact setProcess_run _ _ s
  have hcur : s₁.pc.currentProcess = s.pc.currentProcess := by
    rw [hs₁]
    rfl
  have hstill : Still [] s s₁ := by
    rw [hs₁]
    exact still_setProcess s _ Iff.rfl rfl rfl rfl
  have htf : s.trapFrame = (s₁.processTable s₁.pc.currentProcess).tf := by
    rw [h.mem.trapFrame_eq hl, hcur]
    exact (hstill.tf _).symm
  have hframe : s₁.frame s₁.pc.currentProcess = f := by
    rw [hcur, hstill.frame h.mem hl nofun, hb.frame]
  have hbytes : keeps → ∀ va, InUser va → s₁.userByte s₁.pc.currentProcess va = page va := by
    intro hk va hva
    rw [hcur, h.mem.userByte_off hstill hl nofun nofun hva, hb.bytes hk va hva]
  have hreason : s.current.kont.reason ≠ none := hb.kont
  rw [← hcur]
  unfold resume at hrun
  rw [bind_run (get_run s)] at hrun
  cases hk : s.current.kont with
  | user => exact absurd (hk ▸ rfl) hreason
  | trapReturn => exact absurd (hk ▸ rfl) hreason
  | exited => exact absurd (hk ▸ rfl) hreason
  | sleeping old n =>
      rw [hk] at hrun
      dsimp only at hrun
      rw [bind_run hset, htf] at hrun
      obtain ⟨v, s₂, hloop, hres⟩ := bind_ok.mp hrun
      exact (sleepLoop_answers h₁ hc hu₁ hloop).inCall (sleepLoop_after h₁ hc hloop) rfl hframe hbytes
        hres
  | waiting p =>
      rw [hk] at hrun
      dsimp only at hrun
      rw [bind_run hset, htf] at hrun
      obtain ⟨v, s₂, hwait, hres⟩ := bind_ok.mp hrun
      exact (waitResult_answers h₁ hc hu₁ hwait).inCall (wait_after h₁ hc hwait) rfl hframe hbytes hres
  | readingKey front =>
      rw [hk] at hrun
      dsimp only at hrun
      rw [bind_run hset, htf] at hrun
      obtain ⟨v, s₂, htake, hres⟩ := bind_ok.mp hrun
      exact (takeKey_answers h₁ hc hu₁ htake).inCall (takeKey_after h₁ hc htake _) rfl hframe hbytes
        hres

/-- A step of the system, up to the answer. -/
theorem step_inCall (h : Whole K pool free a S s) {e : Event} (he : Enabled s e)
    (hconf : Confined s e) (hin : s.pc.currentProcess = j → s.current.kont ≠ .user)
    (hb : InCall keeps j f page s) (hrun : step K e s = .ok () s') : InCall keeps j f page s' := by
  rcases hb with hb | ⟨v, hv⟩
  · by_cases hj : s.pc.currentProcess = j
    · subst hj
      have hnot := hin rfl
      cases e with
      | resume => exact resume_inCall h hb hrun
      | timer _ => exact absurd he.1 hnot
      | keyboard _ _ => exact absurd he.1 hnot
      | spurious _ => exact absurd he.1 hnot
      | syscall _ => exact absurd he.1 hnot
      | exception _ => exact absurd he.1 hnot
      | store _ _ => exact absurd he.1 hnot
    · have hrest := step_rested h he hconf hrun hj hb.alive
      have hl := hb.alive.live
      refine Or.inl ⟨hrest.alive, ?_, ?_, fun hk va hva => ?_⟩
      · rw [hrest.kont]
        exact hb.kont
      · rw [hrest.undisturbed.frame hl hrest.alive.live, hb.frame]
      · rw [hrest.undisturbed.userByte hl hva, hb.bytes hk va hva]
  · exact absurd hv.kont (hin hv.current)

theorem run_inCall (h : Whole K pool free a S s) (hb : InCall keeps j f page s)
    (hrun : RunsInside K j s s') :
    InCall keeps j f page s' ∧ ∃ free' a' S', Whole K pool free' a' S' s' := by
  induction hrun with
  | refl => exact ⟨hb, free, a, S, h⟩
  | step _ he hok hs ih =>
      obtain ⟨hb₁, free₁, a₁, S₁, h₁⟩ := ih
      obtain ⟨free₂, a₂, S₂, h₂, -⟩ := step_whole h₁ he hok.1 hs
      exact ⟨step_inCall h₁ he hok.1 hok.2 hb₁ hs, free₂, a₂, S₂, h₂⟩

/-- When the process runs its program again, it has the answer. -/
theorem InCall.replied (h : InCall keeps j f page s) (hj : s.pc.currentProcess = j)
    (hk : s.current.kont = .user) : ∃ v, Replied keeps j f page v s := by
  rcases h with hb | hv
  · subst hj
    refine absurd ?_ hb.kont
    change s.current.kont.reason = none
    rw [hk]
    rfl
  · exact hv

/-- A process that has its answer leaves the call. -/
theorem RunsInside.eq (h : RunsInside K j s s') (hj : s.pc.currentProcess = j)
    (hk : s.current.kont = .user) : s' = s := by
  induction h with
  | refl => rfl
  | step _ _ hok _ ih => exact absurd (ih ▸ hk) (hok.2 (ih ▸ hj))

end InCall

end Os64
