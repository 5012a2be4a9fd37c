/-
  The operations of process.c on the scheduler they represent.

  `Rep s a`: the control block and the process table of `s` represent the scheduler
  `a`. Each scheduling function of process.c, run on a state that represents `a`,
  ends in a state that represents the corresponding operation of `Sched` on `a`, and
  leaves memory, tables and page maps alone (`Keeps`).
-/
import Os64.Kernel.Process
import Os64.Sched.Abstract
import Os64.Sched.Queues

namespace Os64

open Os64.Lib

/-- The scheduler in `s`, with `L` for its lists. -/
def Kernel.sched (s : Kernel) (L : ListId → List Slot) : Sched where
  state i := (s.processTable i).state
  pid i := (s.processTable i).pid
  wait i := (s.processTable i).wait
  kont i := (s.processTable i).kont
  current := s.pc.currentProcess
  queue := L
  pidNum := s.pidNum
  keys := s.keyBuffer
  hist := s.hist

structure Rep (s : Kernel) (a : Sched) : Prop where
  lists : ListsOk s a.queue
  view : s.sched a.queue = a

/-- CR3 and `Tss.rsp0` belong to the current process; the idle process runs on the boot
    stack. -/
def Loaded (s : Kernel) : Prop :=
  s.cr3 = v2p s.current.pageMap ∧
    (s.pc.currentProcess ≠ 0 → s.rsp0 = u64 (s.current.stack + stackSize))

/-- What scheduling leaves alone. -/
structure Keeps (s s' : Kernel) : Prop where
  ram : s'.ram = s.ram
  fcbTable : s'.fcbTable = s.fcbTable
  fileDescTable : s'.fileDescTable = s.fileDescTable
  file : ∀ i, (s'.processTable i).file = (s.processTable i).file
  pageMap : ∀ i, (s'.processTable i).pageMap = (s.processTable i).pageMap
  stack : ∀ i, (s'.processTable i).stack = (s.processTable i).stack
  tf : ∀ i, (s'.processTable i).tf = (s.processTable i).tf
  loaded : Loaded s → Loaded s'

theorem Keeps.refl (s : Kernel) : Keeps s s :=
  ⟨rfl, rfl, rfl, fun _ => rfl, fun _ => rfl, fun _ => rfl, fun _ => rfl, id⟩

theorem Keeps.trans {s s' s'' : Kernel} (h : Keeps s s') (h' : Keeps s' s'') : Keeps s s'' where
  ram := h'.ram.trans h.ram
  fcbTable := h'.fcbTable.trans h.fcbTable
  fileDescTable := h'.fileDescTable.trans h.fileDescTable
  file i := (h'.file i).trans (h.file i)
  pageMap i := (h'.pageMap i).trans (h.pageMap i)
  stack i := (h'.stack i).trans (h.stack i)
  tf i := (h'.tf i).trans (h.tf i)
  loaded h₀ := h'.loaded (h.loaded h₀)

theorem SameButLinks.keeps {s s' : Kernel} (h : SameButLinks s s') : Keeps s s' where
  ram := h.ram
  fcbTable := h.fcbTable
  fileDescTable := h.fileDescTable
  file i := by obtain ⟨n, hn⟩ := h.process i; rw [hn]
  pageMap i := by obtain ⟨n, hn⟩ := h.process i; rw [hn]
  stack i := by obtain ⟨n, hn⟩ := h.process i; rw [hn]
  tf i := by obtain ⟨n, hn⟩ := h.process i; rw [hn]
  loaded hl := by
    obtain ⟨n, hn⟩ := h.process s.pc.currentProcess
    have hc : s'.current = { s.current with next := n } := by
      unfold Kernel.current
      rw [h.current, hn]
    unfold Loaded
    rw [hc, h.cr3, h.rsp0, h.current]
    exact hl

section Runs

variable {s : Kernel} {a : Sched} {i : Slot} {q : ListId}

theorem SameButLinks.rep {s' : Kernel} {L : ListId → List Slot} (h : SameButLinks s s')
    (hr : Rep s a) (hl : ListsOk s' L) : Rep s' { a with queue := L } := by
  refine ⟨hl, ?_⟩
  have hv := hr.view
  rw [← hv]
  simp only [Kernel.sched, Sched.mk.injEq]
  exact ⟨funext h.state, funext h.pid, funext h.wait, funext h.kont, h.current, trivial, h.pidNum,
    h.keyBuffer, h.hist⟩

namespace Rep

theorem state (h : Rep s a) (i : Slot) : (s.processTable i).state = a.state i :=
  congrFun (congrArg Sched.state h.view) i

theorem pid (h : Rep s a) (i : Slot) : (s.processTable i).pid = a.pid i :=
  congrFun (congrArg Sched.pid h.view) i

theorem wait (h : Rep s a) (i : Slot) : (s.processTable i).wait = a.wait i :=
  congrFun (congrArg Sched.wait h.view) i

theorem kont (h : Rep s a) (i : Slot) : (s.processTable i).kont = a.kont i :=
  congrFun (congrArg Sched.kont h.view) i

theorem current (h : Rep s a) : s.pc.currentProcess = a.current := congrArg Sched.current h.view

theorem pidNum (h : Rep s a) : s.pidNum = a.pidNum := congrArg Sched.pidNum h.view

theorem keys (h : Rep s a) : s.keyBuffer = a.keys := congrArg Sched.keys h.view

theorem hist (h : Rep s a) : s.hist = a.hist := congrArg Sched.hist h.view

/-- An update of a process that keeps its link. -/
theorem setProcess (h : Rep s a) (i : Slot) {f : Process → Process}
    (hf : (f (s.processTable i)).next = (s.processTable i).next) :
    Rep (s.setProcess i f)
      { a with
        state := Function.update a.state i (f (s.processTable i)).state
        pid := Function.update a.pid i (f (s.processTable i)).pid
        wait := Function.update a.wait i (f (s.processTable i)).wait
        kont := Function.update a.kont i (f (s.processTable i)).kont } := by
  refine ⟨h.lists.setProcess i hf, ?_⟩
  have hv := h.view
  rw [← hv]
  have hup : ∀ {β : Type} (g : Process → β),
      (fun j => g ((s.setProcess i f).processTable j)) =
        Function.update (fun j => g (s.processTable j)) i (g (f (s.processTable i))) := by
    intro β g
    funext j
    by_cases hj : j = i
    · subst hj
      simp [Kernel.setProcess]
    · simp [Kernel.setProcess, Function.update_of_ne hj]
  simp only [Kernel.sched, Sched.mk.injEq, hup]
  exact ⟨trivial, trivial, trivial, trivial, rfl, trivial, rfl, rfl, rfl⟩

theorem becomeRun (h : Rep s a) (i : Slot) (st : ProcState) :
    Rep (s.setProcess i fun p => { p with state := st }) (a.become i st) := by
  have hr := h.setProcess i (f := fun p => { p with state := st }) rfl
  simp only [h.pid, h.wait, h.kont, Function.update_eq_self] at hr
  exact hr

theorem setKontRun (h : Rep s a) (i : Slot) (k : Kont) :
    Rep (s.setProcess i fun p => { p with kont := k }) (a.setKont i k) := by
  have hr := h.setProcess i (f := fun p => { p with kont := k }) rfl
  simp only [h.pid, h.wait, h.state, Function.update_eq_self] at hr
  exact hr

/-- A state with the same process table and control block, and the history extended. -/
theorem of_eq {s' : Kernel} (h : Rep s a) (os : List Obs) (ht : s'.processTable = s.processTable)
    (hp : s'.pc = s.pc) (hn : s'.pidNum = s.pidNum) (hk : s'.keyBuffer = s.keyBuffer)
    (hh : s'.hist = s.hist ++ os) : Rep s' { a with hist := a.hist ++ os } := by
  refine ⟨h.lists.of_eq ht fun q => by rw [hp], ?_⟩
  have hv := h.view
  rw [← hv]
  simp only [Kernel.sched, ht, hp, hn, hk, hh]

/-- The same with the history as it was. -/
theorem of_same {s' : Kernel} (h : Rep s a) (ht : s'.processTable = s.processTable)
    (hp : s'.pc = s.pc) (hn : s'.pidNum = s.pidNum) (hk : s'.keyBuffer = s.keyBuffer)
    (hh : s'.hist = s.hist) : Rep s' a := by
  have := h.of_eq [] ht hp hn hk (by rw [hh, List.append_nil])
  rwa [List.append_nil] at this

end Rep

/-- Fields of a process that scheduling does not read. -/
theorem keeps_setProcess (s : Kernel) (i : Slot) {f : Process → Process}
    (hf : ∀ p, (f p).file = p.file ∧ (f p).pageMap = p.pageMap ∧ (f p).stack = p.stack ∧
      (f p).tf = p.tf) : Keeps s (s.setProcess i f) := by
  have hup : ∀ {β : Type} (g : Process → β), (∀ p, g (f p) = g p) →
      ∀ j, g ((s.setProcess i f).processTable j) = g (s.processTable j) := by
    intro β g hg j
    by_cases hj : j = i
    · subst hj
      simp [Kernel.setProcess, hg]
    · simp [Kernel.setProcess, Function.update_of_ne hj]
  have hm := hup Process.pageMap fun p => (hf p).2.1
  have hs := hup Process.stack fun p => (hf p).2.2.1
  refine ⟨rfl, rfl, rfl, hup _ fun p => (hf p).1, hm, hs, hup _ fun p => (hf p).2.2.2, ?_⟩
  intro hl
  unfold Loaded Kernel.current at *
  rw [hm, hs]
  exact hl

/-! ## Lists -/

theorem appendListTail_rep (h : Rep s a) (hi : ∀ q, i ∉ a.queue q) (q : ListId) :
    ∃ s', appendListTail q i s = .ok () s' ∧ Rep s' (a.enqueue q i) ∧ Keeps s s' := by
  obtain ⟨s', hrun, hl, hsame⟩ := appendListTail_run (q := q) h.lists hi
  exact ⟨s', hrun, hsame.rep h hl, hsame.keeps⟩

theorem isListEmpty_iff (h : Rep s a) (q : ListId) :
    isListEmpty (s.pc.list q) = true ↔ a.queue q = [] := by
  unfold isListEmpty
  rw [Option.isNone_iff_eq_none]
  exact (h.lists.queue q).empty_iff

/-! ## Switching -/

/-- The state after `switch_process`. -/
def switched (s : Kernel) (p j : Slot) (k : Kont) : Kernel :=
  { ({ s with
        rsp0 := u64 ((s.processTable j).stack + stackSize)
        cr3 := v2p (s.processTable j).pageMap }).setProcess p
      fun pr => { pr with kont := k } with
    hist := s.hist ++ [.switched p j] }

theorem switchProcess_run (s : Kernel) (p j : Slot) (k : Kont) :
    switchProcess p j k s = .ok () (switched s p j k) := rfl

theorem switched_rep {p j : Slot} (h : Rep s a) (k : Kont) :
    Rep (switched s p j k) ((a.setKont p k).log (.switched p j)) := by
  have h1 : Rep { s with
      rsp0 := u64 ((s.processTable j).stack + stackSize)
      cr3 := v2p (s.processTable j).pageMap } a := h.of_same rfl rfl rfl rfl rfl
  exact (h1.setKontRun p k).of_eq [.switched p j] rfl rfl rfl rfl rfl

theorem switched_keeps {p j : Slot} (hc : s.pc.currentProcess = j) (k : Kont) :
    Keeps s (switched s p j k) ∧ Loaded (switched s p j k) := by
  have hk := keeps_setProcess s p (f := fun p => { p with kont := k }) fun _ => ⟨rfl, rfl, rfl, rfl⟩
  have hl : Loaded (switched s p j k) := by
    have h1 : (switched s p j k).current = (s.setProcess p fun p => { p with kont := k }).processTable j := by
      unfold Kernel.current
      rw [show (switched s p j k).pc.currentProcess = j from hc]
      rfl
    unfold Loaded
    rw [h1, hk.pageMap j, hk.stack j]
    exact ⟨rfl, fun _ => rfl⟩
  exact ⟨⟨rfl, rfl, rfl, hk.file, hk.pageMap, hk.stack, hk.tf, fun _ => hl⟩, hl⟩

/-- The control block's `current_process` is set. -/
def Kernel.setCurrent (s : Kernel) (i : Slot) : Kernel :=
  { s with pc := { s.pc with currentProcess := i } }

theorem setCurrent_run {ε : Type} (s : Kernel) (i : Slot) :
    (modify fun s : Kernel => { s with pc := { s.pc with currentProcess := i } } :
      EStateM ε Kernel PUnit) s = .ok () (s.setCurrent i) := rfl

theorem Rep.setCurrent (h : Rep s a) (i : Slot) : Rep (s.setCurrent i) { a with current := i } := by
  have hq : ∀ q, (s.setCurrent i).pc.list q = s.pc.list q := fun q => by cases q <;> rfl
  refine ⟨h.lists.of_eq rfl hq, ?_⟩
  have hv := h.view
  rw [← hv]
  rfl

/-- The end of `schedule`: `j` runs. -/
theorem switchTo_run (h : Rep s a) (j : Slot) (k : Kont) :
    let s' := switched ((s.setProcess j fun p => { p with state := .running }).setCurrent j)
      s.pc.currentProcess j k
    Rep s' (a.switchTo j k) ∧ Keeps s s' ∧ Loaded s' := by
  intro s'
  have h1 := (h.becomeRun j .running).setCurrent j
  have hk := keeps_setProcess s j (f := fun p => { p with state := .running })
    fun _ => ⟨rfl, rfl, rfl, rfl⟩
  obtain ⟨hk', hl⟩ := switched_keeps (p := s.pc.currentProcess)
    (s := (s.setProcess j fun p => { p with state := .running }).setCurrent j) (j := j) rfl k
  refine ⟨?_, ⟨?_, ?_, ?_, ?_, ?_, ?_, ?_, fun _ => hl⟩, hl⟩
  · have := switched_rep (p := s.pc.currentProcess) (j := j) h1 k
    rw [h.current] at this
    change Rep (switched _ s.pc.currentProcess j k) _
    rw [h.current]
    exact this
  · exact hk'.ram.trans hk.ram
  · exact hk'.fcbTable.trans hk.fcbTable
  · exact hk'.fileDescTable.trans hk.fileDescTable
  · exact fun i => (hk'.file i).trans (hk.file i)
  · exact fun i => (hk'.pageMap i).trans (hk.pageMap i)
  · exact fun i => (hk'.stack i).trans (hk.stack i)
  · exact fun i => (hk'.tf i).trans (hk.tf i)

theorem low_run {α : Type} {x : LowM α} {s s' : Kernel} {v : α} (h : x s = .ok v s') :
    low x s = .ok v s' := onPart_run h

/-- `schedule` succeeds unless the idle process is the one that blocks. -/
theorem schedule_run (h : Rep s a) (hp : a.queue .ready = [] → a.pid a.current ≠ 0) (k : Kont) :
    ∃ s', schedule k s = .ok () s' ∧ Rep s' (a.schedule k) ∧ Keeps s s' ∧ Loaded s' := by
  cases hq : a.queue .ready with
  | nil =>
      have he : isListEmpty s.pc.readyList = true := (isListEmpty_iff h .ready).mpr hq
      have hpid : (s.processTable s.pc.currentProcess).pid ≠ 0 := by
        rw [h.pid, h.current]
        exact hp hq
      rw [Sched.schedule_nil a k hq]
      refine ⟨_, ?_, switchTo_run h 0 k⟩
      simp only [schedule, bind_apply, get_run, he, if_true, assertProcess, ensure_run hpid,
        pure_run, setProcess_run, setCurrent_run, switchProcess_run]
  | cons j rest =>
      have he : isListEmpty s.pc.readyList = false := by
        rw [Bool.eq_false_iff]
        intro ht
        rw [(isListEmpty_iff h .ready).mp ht] at hq
        cases hq
      obtain ⟨s₁, hrun, hl, hsame⟩ := removeListHead_run (q := .ready) h.lists hq
      have h1 := hsame.rep h hl
      have hcur : s.pc.currentProcess = s₁.pc.currentProcess := hsame.current.symm
      rw [Sched.schedule_cons a j k hq]
      obtain ⟨hr, hk, hl⟩ := switchTo_run h1 j k
      refine ⟨_, ?_, hr, hsame.keeps.trans hk, hl⟩
      simp only [schedule, bind_apply, get_run, he, low_run hrun, setProcess_run, setCurrent_run,
        switchProcess_run, Bool.false_eq_true, if_false, hcur]

/-- When `schedule` returns, nobody is ready only if process 0 was not running. -/
theorem schedule_may (h : Rep s a) {k : Kont} {s' : Kernel} (hrun : schedule k s = .ok () s')
    (hq : a.queue .ready = []) : a.pid a.current ≠ 0 := by
  have he : isListEmpty s.pc.readyList = true := (isListEmpty_iff h .ready).mpr hq
  unfold schedule at hrun
  rw [bind_run (get_run s)] at hrun
  simp only [he, if_true] at hrun
  obtain ⟨_, _, hassert, -⟩ := bind_ok.mp hrun
  have hpid := (ensure_ok.mp hassert).1
  rwa [h.pid, h.current] at hpid

/-- `schedule` halts or switches. -/
theorem schedule_ok (h : Rep s a) {k : Kont} {s' : Kernel} (hrun : schedule k s = .ok () s') :
    Rep s' (a.schedule k) ∧ Keeps s s' := by
  obtain ⟨s₁, hrun₁, hr, hk, -⟩ := schedule_run h (schedule_may h hrun) k
  rw [hrun] at hrun₁
  obtain ⟨-, rfl⟩ := EStateM.Result.ok.inj hrun₁
  exact ⟨hr, hk⟩

/-! ## yield, sleep, wake_up, exit -/

/-- Parking the current process: its new state, then the tail of a list. -/
theorem park_run (h : Rep s a) (hf : ∀ q, a.current ∉ a.queue q) (q : ListId) :
    ∃ s', appendListTail q s.pc.currentProcess
        (s.setProcess s.pc.currentProcess fun p => { p with state := q.state }) = .ok () s' ∧
      Rep s' (a.park q) ∧ Keeps s s' := by
  have hk := keeps_setProcess s s.pc.currentProcess (f := fun p => { p with state := q.state })
    fun _ => ⟨rfl, rfl, rfl, rfl⟩
  have h1 := h.becomeRun s.pc.currentProcess q.state
  obtain ⟨s', hrun, hr, hk'⟩ := appendListTail_rep h1 (i := s.pc.currentProcess)
    (fun q' => by rw [h.current]; exact hf q') q
  refine ⟨s', hrun, ?_, hk.trans hk'⟩
  rw [h.current] at hr
  exact hr

theorem yield_run (h : Rep s a) (hf : ∀ q, a.current ∉ a.queue q) :
    ∃ s', yield s = .ok () s' ∧ Rep s' a.yield ∧ Keeps s s' := by
  by_cases hq : a.queue .ready = []
  · have he : isListEmpty s.pc.readyList = true := (isListEmpty_iff h .ready).mpr hq
    refine ⟨s, ?_, ?_, Keeps.refl s⟩
    · simp only [yield, bind_apply, get_run, he, if_true, pure_run]
    · unfold Sched.yield
      rw [if_pos hq]
      exact h
  · have he : isListEmpty s.pc.readyList = false := by
      rw [Bool.eq_false_iff]
      exact fun ht => hq ((isListEmpty_iff h .ready).mp ht)
    have hpid := h.pid s.pc.currentProcess
    rw [h.current] at hpid
    by_cases hp : a.pid a.current = 0
    · -- the idle process joins no list
      have hp' : ¬ (s.processTable s.pc.currentProcess).pid ≠ 0 := by
        rw [h.current, hpid, hp]
        exact fun hne => hne rfl
      have h1 := h.becomeRun s.pc.currentProcess .ready
      have hk := keeps_setProcess s s.pc.currentProcess
        (f := fun p => { p with state := .ready }) fun _ => ⟨rfl, rfl, rfl, rfl⟩
      obtain ⟨s', hrun, hr, hk', -⟩ := schedule_run h1 (fun hn => absurd hn hq) .trapReturn
      refine ⟨s', ?_, ?_, hk.trans hk'⟩
      · simp only [yield, bind_apply, get_run, he, Bool.false_eq_true, if_false, setProcess_run,
          if_neg hp']
        exact hrun
      · unfold Sched.yield
        rw [if_neg hq, if_pos hp]
        rw [h.current] at hr
        exact hr
    · have hp' : (s.processTable s.pc.currentProcess).pid ≠ 0 := by
        rw [h.current, hpid]
        exact hp
      obtain ⟨s₁, hrun, hr, hk⟩ := park_run h hf .ready
      have hne : (a.park .ready).queue .ready ≠ [] := by
        simp [Sched.park, Sched.enqueue, Sched.become]
      obtain ⟨s', hrun', hr', hk', -⟩ := schedule_run hr (fun hn => absurd hn hne) .trapReturn
      refine ⟨s', ?_, ?_, hk.trans hk'⟩
      · have hrun : appendListTail .ready s.pc.currentProcess
          (s.setProcess s.pc.currentProcess fun p => { p with state := .ready }) = .ok () s₁ := hrun
        simp only [yield, bind_apply, get_run, he, Bool.false_eq_true, if_false, setProcess_run,
          if_pos hp', low_run hrun]
        exact hrun'
      · unfold Sched.yield
        rw [if_neg hq, if_neg hp]
        exact hr'

/-- `sleep` up to its call of `schedule`. -/
theorem sleep_start (h : Rep s a) (hf : ∀ q, a.current ∉ a.queue q) (w : Int) (k : Kont) :
    ∃ s₁, sleep w k s = schedule k s₁ ∧ Rep s₁ ((a.setWait a.current w).park .wait) ∧
      Keeps s s₁ := by
  have hk := keeps_setProcess s s.pc.currentProcess
    (f := fun p => { p with state := .sleep, wait := w }) fun _ => ⟨rfl, rfl, rfl, rfl⟩
  have h1 := h.setProcess s.pc.currentProcess (f := fun p => { p with state := .sleep, wait := w })
    rfl
  simp only [h.pid, h.kont, Function.update_eq_self] at h1
  obtain ⟨s₁, hrun, hr, hk₁⟩ := appendListTail_rep h1 (i := s.pc.currentProcess)
    (fun q => by rw [h.current]; exact hf q) .wait
  rw [h.current] at hr
  refine ⟨s₁, ?_, hr, hk.trans hk₁⟩
  simp only [sleep, bind_apply, get_run, setProcess_run, low_run hrun]

theorem sleep_run (h : Rep s a) (hf : ∀ q, a.current ∉ a.queue q) (hp : a.pid a.current ≠ 0)
    (w : Int) (k : Kont) :
    ∃ s', sleep w k s = .ok () s' ∧ Rep s' (a.sleep w k) ∧ Keeps s s' ∧ Loaded s' := by
  obtain ⟨s₁, hstart, hr, hk⟩ := sleep_start h hf w k
  have hp₁ : ((a.setWait a.current w).park .wait).pid
      ((a.setWait a.current w).park .wait).current ≠ 0 := hp
  obtain ⟨s', hrun', hr', hk', hl⟩ := schedule_run hr (fun _ => hp₁) k
  exact ⟨s', hstart.trans hrun', hr', hk.trans hk', hl⟩

/-- Whatever the caller's process number, `sleep` halts or does what it should. -/
theorem sleep_ok (h : Rep s a) (hf : ∀ q, a.current ∉ a.queue q) {w : Int} {k : Kont} {s' : Kernel}
    (hrun : sleep w k s = .ok () s') : Rep s' (a.sleep w k) ∧ Keeps s s' := by
  obtain ⟨s₁, hstart, hr, hk⟩ := sleep_start h hf w k
  rw [hstart] at hrun
  obtain ⟨hr', hk'⟩ := schedule_ok hr hrun
  exact ⟨hr', hk.trans hk'⟩

/-- One round of `wake_up` leaves less to wake, and what remains wakes as before. -/
theorem wake_cons {x : Slot} {xs ys : List Slot} {w : Int} (hL : a.queue .wait = xs ++ x :: ys)
    (hxs : ∀ i ∈ xs, a.wait i ≠ w) (hx : a.wait x = w) :
    ((({ a with queue := Function.update a.queue .wait (xs ++ ys) }).become x .ready).enqueue
      .ready x).wake w = a.wake w := by
  have hfx : xs.filter (fun i => a.wait i = w) = [] := by
    rw [List.filter_eq_nil_iff]
    intro i hi
    simpa using hxs i hi
  refine Sched.ext ?_ rfl rfl rfl rfl ?_ rfl rfl rfl
  · funext i
    change (if i ∈ xs ++ ys ∧ a.wait i = w then .ready else Function.update a.state x .ready i) =
      if i ∈ a.queue .wait ∧ a.wait i = w then .ready else a.state i
    rw [hL]
    by_cases hi : i = x
    · subst hi
      simp [hx]
    · simp [hi]
  · funext q
    cases q with
    | ready =>
        change (a.queue .ready ++ [x]) ++ (xs ++ ys).filter (fun i => a.wait i = w) =
          a.queue .ready ++ (a.queue .wait).filter fun i => a.wait i = w
        rw [hL]
        simp [hfx, hx]
    | wait =>
        change (xs ++ ys).filter (fun i => a.wait i ≠ w) =
          (a.queue .wait).filter fun i => a.wait i ≠ w
        rw [hL]
        simp [hx]
    | kill => rfl

theorem wake_none {w : Int} (hn : ∀ i ∈ a.queue .wait, a.wait i ≠ w) : a.wake w = a := by
  have hf : (a.queue .wait).filter (fun i => a.wait i = w) = [] := by
    rw [List.filter_eq_nil_iff]
    intro i hi
    simpa using hn i hi
  have hf' : (a.queue .wait).filter (fun i => a.wait i ≠ w) = a.queue .wait := by
    rw [List.filter_eq_self]
    intro i hi
    simpa using hn i hi
  unfold Sched.wake
  rw [hf, hf', List.append_nil]
  refine Sched.ext ?_ rfl rfl rfl rfl ?_ rfl rfl rfl
  · funext i
    exact if_neg fun h => hn i h.1 h.2
  · funext q
    cases q <;> rfl

theorem wakeUpLoop_run (w : Int) : ∀ (fuel : Nat) {s : Kernel} {a : Sched}, Rep s a →
    (a.queue .wait).length < fuel →
    ∃ s', wakeUpLoop w fuel s = .ok () s' ∧ Rep s' (a.wake w) ∧ Keeps s s' := by
  intro fuel
  induction fuel with
  | zero => intro s a _ hf; omega
  | succ n ih =>
      intro s a h hf
      rcases removeList_run h.lists .wait w with ⟨hn, hrun⟩ | ⟨xs, x, ys, s₁, hL, hxs, hx, hrun, hl, hsame⟩
      · refine ⟨s, ?_, ?_, Keeps.refl s⟩
        · simp only [wakeUpLoop, bind_apply, hrun, pure_run]
        · rw [wake_none fun i hi => by rw [← h.wait]; exact hn i hi]
          exact h
      · have hr₁ := (hsame.rep h hl).becomeRun x .ready
        have hk₁ := keeps_setProcess s₁ x (f := fun p => { p with state := .ready })
          fun _ => ⟨rfl, rfl, rfl, rfl⟩
        have hxm : x ∈ a.queue .wait := by rw [hL]; simp
        have hfree : ∀ q, x ∉ (({ a with
            queue := Function.update a.queue .wait (xs ++ ys) } : Sched).become x .ready).queue q := by
          intro q hm
          by_cases hq : q = .wait
          · subst hq
            have hnd := h.lists.nodup .wait
            rw [hL, List.nodup_middle] at hnd
            simp only [Sched.become, Function.update_self] at hm
            exact (List.nodup_cons.mp hnd).1 hm
          · simp only [Sched.become, Function.update_of_ne hq] at hm
            exact hq (h.lists.apart _ _ x hm hxm)
        obtain ⟨s₂, hrun₂, hr₂, hk₂⟩ := appendListTail_rep hr₁ hfree .ready
        have hlen : ((((({ a with queue := Function.update a.queue .wait (xs ++ ys) } :
            Sched).become x .ready).enqueue .ready x)).queue .wait).length < n := by
          simp only [Sched.enqueue, Sched.become]
          rw [Function.update_of_ne (show ListId.wait ≠ ListId.ready by decide), Function.update_self]
          rw [hL] at hf
          simp at hf ⊢
          omega
        obtain ⟨s', hrun', hr', hk'⟩ := ih hr₂ hlen
        refine ⟨s', ?_, ?_, ((hsame.keeps.trans hk₁).trans hk₂).trans hk'⟩
        · simp only [wakeUpLoop, bind_apply, hrun, setProcess_run, hrun₂]
          exact hrun'
        · rw [wake_cons hL (fun i hi => by rw [← h.wait]; exact hxs i hi)
            (by rw [← h.wait]; exact hx)] at hr'
          exact hr'

theorem wakeUp_run (h : Rep s a) (w : Int) :
    ∃ s', wakeUp w s = .ok () s' ∧ Rep s' (a.wake w) ∧ Keeps s s' := by
  have := h.lists.length_le .wait
  exact wakeUpLoop_run w (numProc + 1) h (by omega)

/-- `exit` up to its call of `schedule`. -/
theorem exit_start (h : Rep s a) (hf : ∀ q, a.current ∉ a.queue q) :
    ∃ s₁, exit s = schedule .exited s₁ ∧ Rep s₁ a.die ∧ Keeps s s₁ := by
  have hk := keeps_setProcess s s.pc.currentProcess
    (f := fun p => { p with state := .killed, wait := p.pid }) fun _ => ⟨rfl, rfl, rfl, rfl⟩
  have h1 := h.setProcess s.pc.currentProcess
    (f := fun p => { p with state := .killed, wait := p.pid }) rfl
  simp only [h.pid, h.kont, Function.update_eq_self] at h1
  obtain ⟨s₁, hrun, hr, hk₁⟩ := appendListTail_rep h1 (i := s.pc.currentProcess)
    (fun q => by rw [h.current]; exact hf q) .kill
  rw [h.current] at hr
  have hr₁ : Rep s₁ ((a.setWait a.current (a.pid a.current)).park .kill) := hr
  obtain ⟨s₂, hrun₂, hr₂, hk₂⟩ := wakeUp_run hr₁ (-3)
  have hpid : s.current.pid = a.pid a.current := by
    unfold Kernel.current
    rw [h.pid, h.current]
  have hr₃ : Rep { s₂ with hist := s₂.hist ++ [.exited s.current.pid] } a.die := by
    rw [hpid]
    exact hr₂.of_eq _ rfl rfl rfl rfl rfl
  have hk₃ : Keeps s₂ { s₂ with hist := s₂.hist ++ [.exited s.current.pid] } :=
    ⟨rfl, rfl, rfl, fun _ => rfl, fun _ => rfl, fun _ => rfl, fun _ => rfl, id⟩
  refine ⟨_, ?_, hr₃, ((hk.trans hk₁).trans hk₂).trans hk₃⟩
  simp only [exit, bind_apply, get_run, setProcess_run, low_run hrun, low_run hrun₂, observe_run]

theorem exit_run (h : Rep s a) (hf : ∀ q, a.current ∉ a.queue q) (hp : a.pid a.current ≠ 0) :
    ∃ s', exit s = .ok () s' ∧ Rep s' a.exit ∧ Keeps s s' ∧ Loaded s' := by
  obtain ⟨s₁, hstart, hr, hk⟩ := exit_start h hf
  have hp₁ : a.die.pid a.die.current ≠ 0 := hp
  obtain ⟨s', hrun', hr', hk', hl⟩ := schedule_run hr (fun _ => hp₁) .exited
  exact ⟨s', hstart.trans hrun', hr', hk.trans hk', hl⟩

theorem exit_ok (h : Rep s a) (hf : ∀ q, a.current ∉ a.queue q) {s' : Kernel}
    (hrun : exit s = .ok () s') : Rep s' a.exit ∧ Keeps s s' := by
  obtain ⟨s₁, hstart, hr, hk⟩ := exit_start h hf
  rw [hstart] at hrun
  obtain ⟨hr', hk'⟩ := schedule_ok hr hrun
  exact ⟨hr', hk.trans hk'⟩

end Runs

end Os64
