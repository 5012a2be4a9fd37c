/-
  The kernel refines the scheduler.

  * `step_refines`: a step of the system, from a state that represents a scheduler
    satisfying its invariant, is a step of that scheduler; if the kernel stops, it is
    not at the assertions of `schedule` and `wait`.
  * `run_refines`: so every state of a run represents a scheduler with the invariant.
-/
import Os64.Kernel.Main
import Os64.Sched.Growth
import Os64.Sched.Sane

namespace Os64

open Os64.Lib

variable {K : Image}

/-- The assertions of `schedule` and `wait`. -/
def Harmless (h : Halt) : Prop := h ≠ .process 147 ∧ h ≠ .process 246

/-- How a kernel that represents `a` may stop. After the process numbers have wrapped around, a
    process with number 0 that blocks while nobody is ready stops at the assertion of `schedule`. -/
def Sched.Quits (a : Sched) (e : Halt) : Prop :=
  (a.pid a.current = 0 → a.current = 0) → Harmless e

theorem quits_fault {a : Sched} (f : Fault) : a.Quits (.fault f) := fun _ => ⟨nofun, nofun⟩

theorem Sched.Ok.quits {a : Sched} (h : a.Ok) {e : Halt} (he : a.Quits e) : Harmless e :=
  he h.pid_current.mp

section Refine

variable {s : Kernel} {a b : Sched} {i : Slot}

/-- A quiet program below process.c. -/
theorem ends_low_quiet {α : Type} {x : LowM α} (hx : QuietOp false x) (hr : Rep s a) :
    Ends (low x) s (fun _ s' => Rep s' a) fun e _ => b.Quits e := by
  unfold low
  rw [ends_onPart]
  exact (hx.ends s).mono (fun _ _ hq => hq.rep_same hr) fun e _ _ => quits_fault e

/-- A program below process.c with a specification. -/
theorem ends_low {α : Type} {x : LowM α} {Q : α → Kernel → Prop} {E : Fault → Kernel → Prop}
    (hx : Ends x s Q E) : Ends (low x) s Q fun e _ => b.Quits e := by
  unfold low
  rw [ends_onPart]
  exact hx.mono (fun _ _ h => h) fun e _ _ => quits_fault e

/-- A call that gives up the processor does so, or stops with process number 0. -/
theorem ends_blocking {x : KernelM Unit} {Q : Kernel → Prop} (hc : a.current ≠ 0)
    (hok : ∀ s', x s = .ok () s' → Q s') (hrun : a.pid a.current ≠ 0 → ∃ s', x s = .ok () s') :
    Ends x s (fun _ s' => Q s') fun e _ => a.Quits e := by
  cases hx : x s with
  | ok u s' => exact ends_of_run hx (hok s' hx)
  | error e t =>
      refine ends_of_error hx fun hz => ?_
      obtain ⟨s', hs⟩ := hrun fun h0 => hc (hz h0)
      rw [hx] at hs
      cases hs

theorem ends_sleep (h : Rep s a) (ha : a.Sane) (hc : a.current ≠ 0) (w : Int) (k : Kont) :
    Ends (sleep w k) s (fun _ s' => Rep s' (a.sleep w k)) fun e _ => a.Quits e := by
  refine ends_blocking hc (fun s' hs => (sleep_ok h ha.current_free hs).1) fun hp => ?_
  obtain ⟨s', hrun, -⟩ := sleep_run h ha.current_free hp w k
  exact ⟨s', hrun⟩

theorem ends_exit (h : Rep s a) (ha : a.Sane) (hc : a.current ≠ 0) :
    Ends exit s (fun _ s' => Rep s' a.exit) fun e _ => a.Quits e := by
  refine ends_blocking hc (fun s' hs => (exit_ok h ha.current_free hs).1) fun hp => ?_
  obtain ⟨s', hrun, -⟩ := exit_run h ha.current_free hp
  exact ⟨s', hrun⟩

/-- An update of a process that is on no list. -/
theorem Rep.setFree (h : Rep s a) (hi : ∀ q, i ∉ a.queue q) (f : Process → Process) :
    Rep (s.setProcess i f)
      { a with
        state := Function.update a.state i (f (s.processTable i)).state
        pid := Function.update a.pid i (f (s.processTable i)).pid
        wait := Function.update a.wait i (f (s.processTable i)).wait
        kont := Function.update a.kont i (f (s.processTable i)).kont } := by
  refine ⟨h.lists.setFree hi f, ?_⟩
  -- the view does not read the link, which is all that `f` may change beyond `setProcess`
  let g : Process → Process := fun p => { f p with next := p.next }
  have hg := (h.setProcess i (f := g) rfl).view
  rw [← hg]
  have hup : ∀ {β : Type} (e : Process → β), (∀ p, e (f p) = e (g p)) →
      (fun j => e ((s.setProcess i f).processTable j)) =
        fun j => e ((s.setProcess i g).processTable j) := by
    intro β e he
    funext j
    by_cases hj : j = i
    · subst hj
      simp [Kernel.setProcess, he]
    · simp [Kernel.setProcess, Function.update_of_ne hj]
  simp only [Kernel.sched, Sched.mk.injEq]
  exact ⟨hup _ fun _ => rfl, hup _ fun _ => rfl, hup _ fun _ => rfl, hup _ fun _ => rfl,
    rfl, trivial, rfl, rfl, rfl⟩

/-! ## wait -/

theorem reap_ends (h : Rep s a) (hi : ∀ q, i ∉ a.queue q) (hk : a.state i = .killed) :
    Ends (reap K i) s (fun _ s' => Rep s'
      { a with
        state := Function.update a.state i .unused
        pid := Function.update a.pid i 0
        wait := Function.update a.wait i 0
        kont := Function.update a.kont i .user
        hist := a.hist ++ [.waited (a.pid a.current) (a.pid i)] }) fun e _ => b.Quits e := by
  unfold reap
  rw [ends_bind, ends_get, ends_bind, assertProcess, ends_ensure]
  refine ⟨fun _ => ?_, fun hn => absurd ((h.state i).trans hk) hn⟩
  refine (ends_low_quiet (quietOp_ram _) h).bind (fun _ s₁ h₁ => ?_) fun _ _ he => he
  refine (ends_low_quiet (quietOp_ram _) h₁).bind (fun _ s₂ h₂ => ?_) fun _ _ he => he
  refine (ends_low_quiet (quiet_closeAll i) h₂).bind (fun _ s₃ h₃ => ?_) fun _ _ he => he
  rw [ends_bind, ends_ok_iff (setProcess_run i _ s₃), ends_ok_iff (observe_run _ _)]
  have h₄ := h₃.setFree hi fun _ => Process.zero
  have hcur : s.current.pid = a.pid a.current := by
    unfold Kernel.current
    rw [h.pid, h.current]
  rw [hcur, h.pid i]
  exact h₄.of_eq _ rfl rfl rfl rfl rfl

/-- One round of `wait`. -/
theorem waitLoop_ends (h : Rep s a) (ha : a.Sane) (hc : a.current ≠ 0) (p : Int) :
    Ends (waitLoop K p) s (fun _ s' => Rep s' (a.waitFor p)) fun e _ => a.Quits e := by
  -- nobody to reap: the caller sleeps
  have hsleep : (∀ j ∈ a.queue .kill, a.wait j ≠ p) →
      Ends (do sleep (-3) (.waiting p); return none : KernelM (Option Unit)) s
        (fun _ s' => Rep s' (a.waitFor p)) fun e _ => a.Quits e := by
    intro hn
    have hw : a.waitFor p = a.sleep (-3) (.waiting p) := by
      unfold Sched.waitFor
      rw [List.find?_eq_none.mpr fun j hj => by simpa using hn j hj]
    rw [hw]
    exact (ends_sleep h ha hc _ _).bind (fun _ _ hr => ends_pure.mpr hr) fun _ _ he => he
  unfold waitLoop
  rw [ends_bind, ends_get]
  cases he : isListEmpty s.pc.killList with
  | true =>
      have hq : a.queue .kill = [] := (isListEmpty_iff h .kill).mp he
      simp only [if_true]
      rw [ends_bind, ends_pure]
      exact hsleep fun j hj => by rw [hq] at hj; cases hj
  | false =>
      simp only [Bool.false_eq_true, if_false]
      rcases removeList_run h.lists .kill p with ⟨hn, hrun⟩ | ⟨xs, x, ys, s₁, hL, hxs, hx, hrun, hl, hsame⟩
      · rw [ends_bind]
        refine ends_of_run (low_run hrun) ?_
        exact hsleep fun j hj => by rw [← h.wait]; exact hn j hj
      · rw [ends_bind]
        refine ends_of_run (low_run hrun) ?_
        have hx' : a.wait x = p := by rw [← h.wait]; exact hx
        have hmem : x ∈ a.queue .kill := by rw [hL]; simp
        have hkill := (ha.member .kill x hmem).2
        have hnd := ha.nodup .kill
        rw [hL, List.nodup_middle] at hnd
        have hxn : x ∉ xs ++ ys := (List.nodup_cons.mp hnd).1
        have hfree : ∀ q, x ∉ (Function.update a.queue .kill (xs ++ ys)) q := by
          intro q
          by_cases hq : q = .kill
          · subst hq
            rw [Function.update_self]
            exact hxn
          · rw [Function.update_of_ne hq]
            exact fun hm => hq (ha.toListed.apart hm hmem)
        have hw : a.waitFor p = a.reap x := by
          unfold Sched.waitFor
          rw [hL, List.find?_append, List.find?_eq_none.mpr fun j hj => by
            simpa [h.wait] using hxs j hj]
          simp [hx']
        have herase : (a.queue .kill).erase x = xs ++ ys := by
          rw [hL, List.erase_append_right _ fun hm => hxn (List.mem_append_left _ hm)]
          simp
        rw [ends_bind, hw]
        refine (reap_ends (hsame.rep h hl) hfree hkill).mono (fun _ s' hr => ?_) fun _ _ he => he
        rw [ends_pure]
        unfold Sched.reap
        rw [herase]
        exact hr

/-! ## fork -/

theorem findUnused {i : Slot} (h : Rep s a) (hf : findUnusedProcess s = some i) :
    a.state i = .unused := by
  have := List.find?_some hf
  rw [← h.state]
  simpa using this

/-- A scheduler with a half-made process in slot `i`. -/
def Sched.claim (a : Sched) (i : Slot) : Sched :=
  { a with
    state := Function.update a.state i .init
    pid := Function.update a.pid i a.pidNum
    pidNum := nextPid a.pidNum }

theorem claim_rep (h : Rep s a) (i : Slot) :
    Rep { (s.setProcess i fun p => { p with state := .init, pid := s.pidNum }) with
      pidNum := nextPid s.pidNum } (a.claim i) := by
  have h1 := h.setProcess i (f := fun p => { p with state := .init, pid := s.pidNum }) rfl
  simp only [h.wait, h.kont, h.pidNum, Function.update_eq_self] at h1
  have hv := h1.view
  refine ⟨h1.lists.of_eq (by rw [h.pidNum]) fun q => rfl, ?_⟩
  rw [← h.pidNum] at hv
  unfold Sched.claim
  rw [← h.pidNum]
  simp only [Kernel.sched, Sched.mk.injEq] at hv ⊢
  obtain ⟨h1, h2, h3, h4, h5, -, h6, h7, h8⟩ := hv
  exact ⟨h1, h2, h3, h4, h5, trivial, trivial, h7, h8⟩

/-- A new process, not yet ready. -/
def Sched.newborn (a : Sched) (i : Slot) : Sched :=
  ((a.claim i).setKont i .trapReturn).log (.created a.pidNum)

/-- Fields of a process outside the scheduler. -/
theorem Rep.setOther (h : Rep s a) (i : Slot) {f : Process → Process}
    (hf : ∀ p, (f p).next = p.next ∧ (f p).state = p.state ∧ (f p).pid = p.pid ∧
      (f p).wait = p.wait ∧ (f p).kont = p.kont) : Rep (s.setProcess i f) a := by
  have h1 := h.setProcess i (f := f) (hf _).1
  simp only [(hf _).2.1, (hf _).2.2.1, (hf _).2.2.2.1, (hf _).2.2.2.2, h.state, h.pid, h.wait,
    h.kont, Function.update_eq_self] at h1
  exact h1

theorem allocNewProcess_ends (h : Rep s a) :
    Ends (allocNewProcess K) s
      (fun r s' => ∀ i, r = some i → a.state i = .unused ∧ Rep s' (a.newborn i))
      fun _ _ => True := by
  unfold allocNewProcess
  rw [ends_bind, ends_get]
  cases hf : findUnusedProcess s with
  | none => exact ends_pure.mpr nofun
  | some i =>
      dsimp only
      have hu := findUnused h hf
      rw [ends_bind, ends_ok_iff (setProcess_run i _ _)]
      rw [ends_bind, ends_modify]
      have h₁ := claim_rep h i
      refine ((quietOp_ram (b := false) _).ends _).bind (fun stack s₂ hq => ?_) fun _ _ _ => trivial
      have h₂ := hq.rep_same h₁
      rw [ends_bind, ends_ok_iff (setProcess_run i _ _)]
      have h₃ := h₂.setOther i (f := fun p => { p with stack := stack })
        fun _ => ⟨rfl, rfl, rfl, rfl, rfl⟩
      rw [ends_ite]
      refine ⟨fun _ => ends_pure.mpr nofun, fun _ => ?_⟩
      refine ((quietOp_ram (b := false) _).ends _).bind (fun _ s₄ hq => ?_) fun _ _ _ => trivial
      have h₄ := hq.rep_same h₃
      refine ((quietOp_ram (b := false) _).ends _).bind (fun _ s₅ hq => ?_) fun _ _ _ => trivial
      have h₅ := hq.rep_same h₄
      rw [ends_bind, ends_ok_iff (setProcess_run i _ _)]
      have h₆ := (h₅.setOther i (f := fun p => { p with tf := stack + stackSize - trapFrameSize })
        fun _ => ⟨rfl, rfl, rfl, rfl, rfl⟩).setKontRun i .trapReturn
      have heq : ((s₅.setProcess i fun p => { p with tf := stack + stackSize - trapFrameSize }).setProcess
          i fun p => { p with kont := .trapReturn }) =
          s₅.setProcess i fun p =>
            { p with tf := stack + stackSize - trapFrameSize, kont := .trapReturn } := by
        simp [Kernel.setProcess]
      rw [heq] at h₆
      refine ((quietOp_ram (b := false) _).ends _).bind (fun map s₇ hq => ?_) fun _ _ _ => trivial
      have h₇ := hq.rep_same h₆
      rw [ends_bind, ends_ok_iff (setProcess_run i _ _)]
      have h₈ := h₇.setOther i (f := fun p => { p with pageMap := map })
        fun _ => ⟨rfl, rfl, rfl, rfl, rfl⟩
      rw [ends_ite]
      constructor
      · intro _
        refine ((quietOp_ram (b := false) _).ends _).bind (fun _ s₉ _ => ?_) fun _ _ _ => trivial
        rw [ends_bind, ends_ok_iff (setProcess_run i _ _), ends_pure]
        exact nofun
      · intro _
        rw [ends_bind, ends_ok_iff (observe_run _ _), ends_pure]
        intro j hj
        cases hj
        refine ⟨hu, ?_⟩
        rw [h.pidNum]
        exact h₈.of_eq _ rfl rfl rfl rfl rfl

theorem newborn_ready (a : Sched) (i : Slot) :
    ((a.newborn i).become i .ready).enqueue .ready i = a.create i := by
  simp [Sched.newborn, Sched.claim, Sched.become, Sched.enqueue, Sched.setKont, Sched.log,
    Sched.create]

theorem fork_ends (h : Rep s a) (ha : a.Sane) :
    Ends (fork K) s
      (fun r s' => ∃ i, a.state i = .unused ∧ Rep s' (a.create i) ∧ r = a.pidNum)
      fun e _ => a.Quits e := by
  unfold fork
  rw [ends_bind, ends_get]
  refine (ends_low (allocNewProcess_ends h)).bind (fun r s₁ h₁ => ?_) fun _ _ he => he
  cases r with
  | none => exact ends_throw.mpr fun _ => ⟨by decide, by decide⟩
  | some i =>
      obtain ⟨hu, h₁⟩ := h₁ i rfl
      have hfree : ∀ q, i ∉ a.queue q := Sched.Sane.unused_free ha.toListed hu
      dsimp only
      rw [ends_bind, ends_get]
      refine (ends_low_quiet (quietOp_ram _) h₁).bind (fun copied s₂ h₂ => ?_) fun _ _ he => he
      rw [ends_bind, assertProcess, ends_ensure]
      refine ⟨fun _ => ?_, fun _ => fun _ => ⟨by decide, by decide⟩⟩
      rw [ends_bind, ends_ok_iff (setProcess_run i _ _)]
      have h₃ := h₂.setOther i (f := fun p => { p with
        file := (s₁.processTable s.pc.currentProcess).file }) fun _ => ⟨rfl, rfl, rfl, rfl, rfl⟩
      refine (ends_low_quiet (quiet_shareFiles i) h₃).bind (fun _ s₄ h₄ => ?_) fun _ _ he => he
      refine (ends_low_quiet (quietOp_ram _) h₄).bind (fun _ s₅ h₅ => ?_) fun _ _ he => he
      refine (ends_low_quiet (quietOp_ram _) h₅).bind (fun _ s₆ h₆ => ?_) fun _ _ he => he
      rw [ends_bind, ends_ok_iff (setProcess_run i _ _)]
      obtain ⟨s₇, hrun, hr, -⟩ := appendListTail_rep (h₆.becomeRun i .ready) hfree .ready
      rw [ends_bind]
      refine ends_of_run (low_run hrun) (ends_pure.mpr ?_)
      rw [newborn_ready] at hr
      refine ⟨i, hu, hr, ?_⟩
      rw [h₁.pid]
      simp [Sched.newborn, Sched.claim, Sched.setKont, Sched.log]

/-! ## exec and the other calls -/

theorem exec_ends (h : Rep s a) (ha : a.Sane) (hc : a.current ≠ 0) (proc : Slot) (name : Nat) :
    Ends (exec K proc name) s
      (fun r s' => r = none ∧ Rep s' a.exit ∨ r = some 0 ∧ Rep s' a) fun e _ => a.Quits e := by
  unfold exec
  refine (ends_low_quiet (quiet_openFile _ _) h).bind (fun fd s₁ h₁ => ?_) fun _ _ he => he
  rw [ends_ite]
  constructor
  · intro _
    exact (ends_exit h₁ ha hc).bind (fun _ s₂ h₂ => ends_pure.mpr (Or.inl ⟨rfl, h₂⟩)) fun _ _ he => he
  · intro _
    refine (ends_low_quiet quiet_clearUserPage h₁).bind (fun _ s₂ h₂ => ?_) fun _ _ he => he
    refine (ends_low_quiet (quiet_getFileSize _ _) h₂).bind (fun n s₃ h₃ => ?_) fun _ _ he => he
    refine (ends_low_quiet (quiet_readFile false _ _ _ _) h₃).bind (fun r s₄ h₄ => ?_)
      fun _ _ he => he
    rw [ends_ite]
    constructor
    · intro _
      exact (ends_exit h₄ ha hc).bind (fun _ s₅ h₅ => ends_pure.mpr (Or.inl ⟨rfl, h₅⟩)) fun _ _ he => he
    · intro _
      refine (ends_low_quiet (quiet_closeFile _ _) h₄).bind (fun _ s₅ h₅ => ?_) fun _ _ he => he
      rw [ends_bind, ends_get]
      refine (ends_low_quiet (quietOp_ram _) h₅).bind (fun _ s₆ h₆ => ?_) fun _ _ he => he
      refine (ends_low_quiet (quietOp_ram _) h₆).bind (fun _ s₇ h₇ => ?_) fun _ _ he => he
      exact ends_pure.mpr (Or.inr ⟨rfl, h₇⟩)

theorem sleepLoop_ends (h : Rep s a) (ha : a.Sane) (hc : a.current ≠ 0) (old n : Nat) :
    Ends (sleepLoop old n) s
      (fun _ s' => Rep s' a ∨ Rep s' (a.sleep (-1) (.sleeping old n))) fun e _ => a.Quits e := by
  unfold sleepLoop
  rw [ends_bind, ends_get, ends_ite]
  constructor
  · intro _
    exact (ends_sleep h ha hc _ _).bind (fun _ s₁ h₁ => ends_pure.mpr (Or.inr h₁)) fun _ _ he => he
  · exact fun _ => ends_pure.mpr (Or.inl h)

theorem takeKey_rep (h : Rep s a) (front : Nat) :
    ∃ s', takeKey front s = .ok (a.keys.buffer front : Int) s' ∧ Rep s' (a.takeKey front) := by
  refine ⟨{ s with
      keyBuffer := { s.keyBuffer with front := (s.keyBuffer.front + 1) % s.keyBuffer.size }
      hist := s.hist ++ [.returned (s.keyBuffer.buffer front)] }, ?_, ?_⟩
  · rw [← h.keys]
    rfl
  · refine ⟨h.lists.of_eq rfl fun _ => rfl, ?_⟩
    have hv := h.view
    unfold Sched.takeKey
    rw [← h.keys, ← h.hist]
    simp only [Kernel.sched, Sched.ext_iff] at hv ⊢
    exact ⟨hv.1, hv.2.1, hv.2.2.1, hv.2.2.2.1, hv.2.2.2.2.1, trivial, hv.2.2.2.2.2.2.1, trivial,
      trivial⟩

theorem readKeyBuffer_ends (h : Rep s a) (ha : a.Sane) (hc : a.current ≠ 0) :
    Ends readKeyBuffer s (fun _ s' => Rep s' a.readKey) fun e _ => a.Quits e := by
  unfold readKeyBuffer Sched.readKey
  rw [ends_bind, ends_get, ends_ite, h.keys]
  constructor
  · intro he
    rw [if_pos he]
    exact (ends_sleep h ha hc _ _).bind (fun _ s₁ h₁ => ends_pure.mpr h₁) fun _ _ he => he
  · intro he
    rw [if_neg he]
    obtain ⟨s', hrun, hr⟩ := takeKey_rep h a.keys.front
    rw [ends_bind]
    exact ends_of_run hrun (ends_pure.mpr hr)

/-! ## System calls -/

theorem Sched.Step.same (a : Sched) : Sched.Step a a := by
  have := Sched.Step.quiet (a := a) [] (by simp)
  rwa [List.append_nil] at this

/-- A quiet program below process.c, stores included, is one step. -/
theorem ends_low_step {α : Type} {w : Bool} {x : LowM α} (hx : QuietOp w x) (hr : Rep s a) :
    Ends (low x) s (fun _ s' => ∃ a', Rep s' a' ∧ Sched.Step a a') fun e _ => b.Quits e := by
  unfold low
  rw [ends_onPart]
  refine (hx.ends s).mono (fun _ s' hq => ?_) fun e _ _ => quits_fault e
  obtain ⟨os, hos, -, hr'⟩ := hq.rep hr
  exact ⟨_, hr', .quiet os fun o ho => (hos o ho).2⟩

/-- Fetch the arguments, then call. -/
theorem ends_arg {α : Type} {argptr k : Nat} {f : Nat → KernelM α} {Q : α → Kernel → Prop}
    (h : Rep s a)
    (hf : ∀ v s', Rep s' a → Ends (f v) s' Q fun e _ => b.Quits e) :
    Ends (low (arg argptr k) >>= f) s Q fun e _ => b.Quits e :=
  (ends_low_quiet (quiet_arg argptr k) h).bind hf fun _ _ he => he

/-- Run a call's body and return its value. -/
theorem ends_call {α β : Type} {w : Bool} {x : LowM α} {f : α → KernelM β} (hx : QuietOp w x)
    (hf : ∀ v, ∃ r, f v = pure r) (h : Rep s a) :
    Ends (low x >>= f) s (fun _ s' => ∃ a', Rep s' a' ∧ Sched.Step a a') fun e _ => b.Quits e := by
  refine (ends_low_step hx h).bind (fun v s₁ h₁ => ?_) fun _ _ he => he
  obtain ⟨r, hr⟩ := hf v
  rw [hr, ends_pure]
  exact h₁

theorem systemCalls_ends (h : Rep s a) (ha : a.Sane) (hu : a.kont a.current = .user)
    (hc : a.current ≠ 0) (i argptr : Nat) :
    Ends (systemCalls K i argptr) s (fun _ s' => ∃ a', Rep s' a' ∧ Sched.Step a a')
      fun e _ => a.Quits e := by
  have hsame : ∀ {s'}, Rep s' a → ∃ a', Rep s' a' ∧ Sched.Step a a' := fun hr =>
    ⟨a, hr, .same a⟩
  have hfile : ∀ {s : Kernel} {x : LowM Int} {b : Bool}, QuietOp b x → Rep s a →
      Ends (do let v ← low x; return some v : KernelM (Option Int)) s
        (fun _ s' => ∃ a', Rep s' a' ∧ Sched.Step a a') fun e _ => a.Quits e :=
    fun hx hr => ends_call hx (fun v => ⟨some v, rfl⟩) hr
  unfold systemCalls
  split
  · -- write
    refine ends_arg h fun _ s₁ h₁ => ends_arg h₁ fun _ s₂ h₂ => ends_arg h₂ fun _ s₃ h₃ => ?_
    refine ends_call (w := false) (quietOp_forM fun _ => ?_) (fun _ => ⟨_, rfl⟩) h₃
    exact (quiet_loadVirt _).bind fun _ => quietOp_pure _
  · -- sleep
    refine ends_arg h fun n s₁ h₁ => ?_
    rw [ends_bind, ends_get]
    refine (sleepLoop_ends h₁ ha hc _ _).mono (fun _ s₂ h₂ => ?_) fun _ _ he => he
    rcases h₂ with h₂ | h₂
    · exact hsame h₂
    · exact ⟨_, h₂, .sleep _ _ hu hc⟩
  · -- exit
    exact (ends_exit h ha hc).bind (fun _ s₁ h₁ => ends_pure.mpr ⟨_, h₁, .exit hu hc⟩) fun _ _ he => he
  · -- wait
    refine ends_arg h fun p s₁ h₁ => ?_
    refine (waitLoop_ends h₁ ha hc _).bind (fun _ s₂ h₂ => ?_) fun _ _ he => he
    exact ends_pure.mpr ⟨_, h₂, .wait _ hu hc⟩
  · -- keyboard read
    exact (readKeyBuffer_ends h ha hc).mono (fun _ s₁ h₁ => ⟨_, h₁, .read hu hc⟩) fun _ _ he => he
  · exact ends_of_run rfl (hsame h)
  · exact ends_of_run rfl (hsame h)
  · exact ends_of_run rfl (hsame h)
  · exact ends_of_run rfl (hsame h)
  · -- open
    unfold sysOpenFile
    rw [ends_bind, ends_get]
    exact ends_arg h fun name s₁ h₁ => hfile (quiet_openFile (b := false) _ _) h₁
  · -- read
    unfold sysReadFile
    rw [ends_bind, ends_get]
    exact ends_arg h fun fd s₁ h₁ => ends_arg h₁ fun buf s₂ h₂ => ends_arg h₂ fun n s₃ h₃ =>
      hfile (quiet_readFile true _ _ _ _) h₃
  · -- file size
    unfold sysGetFileSize
    rw [ends_bind, ends_get]
    exact ends_arg h fun fd s₁ h₁ =>
      ends_call (quiet_getFileSize (b := false) _ _) (fun _ => ⟨_, rfl⟩) h₁
  · -- close
    unfold sysCloseFile
    rw [ends_bind, ends_get]
    exact ends_arg h fun fd s₁ h₁ =>
      ends_call (quiet_closeFile (b := false) _ _) (fun _ => ⟨_, rfl⟩) h₁
  · -- fork
    refine (fork_ends h ha).bind (fun pid s₁ h₁ => ?_) fun _ _ he => he
    obtain ⟨i, hi, h₁, -⟩ := h₁
    exact ends_pure.mpr ⟨_, h₁, .fork i hu hc hi⟩
  · -- exec
    unfold sysExec
    rw [ends_bind, ends_get]
    refine ends_arg h fun name s₁ h₁ => (exec_ends h₁ ha hc _ _).mono (fun r s₂ h₂ => ?_)
      fun _ _ he => he
    rcases h₂ with ⟨-, h₂⟩ | ⟨-, h₂⟩
    · exact ⟨_, h₂, .exit hu hc⟩
    · exact hsame h₂
  · -- read the root directory
    exact ends_arg h fun buf s₁ h₁ => hfile (quiet_readRootDirectory _) h₁
  · exact ends_throw.mpr (quits_fault _)

theorem ends_setResult {tf : Nat} {r : Option Int}
    (h : ∃ a', Rep s a' ∧ Sched.Step a a') :
    Ends (setResult tf r) s (fun _ s' => ∃ a', Rep s' a' ∧ Sched.Step a a')
      fun e _ => b.Quits e := by
  obtain ⟨a', hr, hs⟩ := h
  cases r with
  | none => exact ends_pure.mpr ⟨a', hr, hs⟩
  | some v =>
      exact (ends_low_quiet (quietOp_ram _) hr).mono (fun _ _ hr' => ⟨a', hr', hs⟩) fun _ _ he => he

theorem systemCall_ends (h : Rep s a) (ha : a.Sane) (hu : a.kont a.current = .user)
    (hc : a.current ≠ 0) (tf : Nat) :
    Ends (systemCall K tf) s (fun _ s' => ∃ a', Rep s' a' ∧ Sched.Step a a')
      fun e _ => a.Quits e := by
  unfold systemCall
  refine (ends_low_quiet (quietOp_ram _) h).bind (fun i s₁ h₁ => ?_) fun _ _ he => he
  refine (ends_low_quiet (quietOp_ram _) h₁).bind (fun n s₂ h₂ => ?_) fun _ _ he => he
  refine (ends_low_quiet (quietOp_ram _) h₂).bind (fun argptr s₃ h₃ => ?_) fun _ _ he => he
  rw [ends_ite]
  constructor
  · intro _
    exact ends_setResult ⟨a, h₃, .same a⟩
  · intro _
    exact (systemCalls_ends h₃ ha hu hc i argptr).bind (fun _ _ hs => ends_setResult hs)
      fun _ _ he => he

/-! ## Steps -/

theorem timerHandler_ends (h : Rep s a) :
    Ends timerHandler s (fun _ s' => Rep s' (a.wake (-1))) fun _ _ => True := by
  unfold timerHandler
  rw [ends_bind, ends_modify]
  have h₁ : Rep { s with ticks := u64 (s.ticks + 1) } a := h.of_same rfl rfl rfl rfl rfl
  obtain ⟨s', hrun, hr, -⟩ := wakeUp_run h₁ (-1)
  exact ends_of_run hrun hr

theorem writeKeyBuffer_rep (h : Rep s a) (ch : Nat) :
    ∃ s', writeKeyBuffer ch s = .ok () s' ∧ Rep s' (a.acceptKey ch) := by
  unfold Sched.acceptKey
  by_cases hf : (a.keys.end_ + 1) % a.keys.size = a.keys.front
  · refine ⟨s, ?_, by rw [if_pos hf]; exact h⟩
    unfold writeKeyBuffer
    rw [bind_run (get_run s), h.keys, if_pos hf]
    rfl
  · rw [if_neg hf]
    refine ⟨{ s with
        keyBuffer :=
          { s.keyBuffer with
            buffer := Function.update s.keyBuffer.buffer s.keyBuffer.end_ ch
            end_ := (s.keyBuffer.end_ + 1) % s.keyBuffer.size }
        hist := s.hist ++ [.accepted ch] }, ?_, ?_⟩
    · unfold writeKeyBuffer
      rw [← h.keys] at hf
      rw [bind_run (get_run s), if_neg hf]
      rfl
    · refine ⟨h.lists.of_eq rfl fun _ => rfl, ?_⟩
      have hv := h.view
      rw [← h.keys, ← h.hist]
      simp only [Kernel.sched, Sched.ext_iff] at hv ⊢
      exact ⟨hv.1, hv.2.1, hv.2.2.1, hv.2.2.2.1, hv.2.2.2.2.1, trivial, hv.2.2.2.2.2.2.1, trivial,
        trivial⟩

theorem keyboardHandler_ends (h : Rep s a) (hu : a.kont a.current = .user) (code : Nat) :
    Ends (keyboardHandler code) s (fun _ s' => ∃ a', Rep s' a' ∧ Sched.Step a a')
      fun _ _ => True := by
  unfold keyboardHandler
  refine ((quiet_keyboardRead (b := false) code).ends s).bind (fun ch s₁ hq => ?_)
    fun _ _ _ => trivial
  have h₁ := hq.rep_same h
  rw [ends_ite]
  constructor
  · intro _
    obtain ⟨s₂, hrun, h₂⟩ := writeKeyBuffer_rep h₁ ch
    obtain ⟨s₃, hrun', h₃, -⟩ := wakeUp_run h₂ (-2)
    rw [ends_bind]
    exact ends_of_run hrun (ends_of_run hrun' ⟨_, h₃, .key ch hu⟩)
  · exact fun _ => ends_pure.mpr ⟨a, h₁, .same a⟩

theorem resume_ends (h : Rep s a) (ha : a.Sane) (hu : a.kont a.current ≠ .user) :
    Ends (resume K) s (fun _ s' => ∃ a', Rep s' a' ∧ Sched.Step a a') fun e _ => a.Quits e := by
  have hk : s.current.kont = a.kont a.current := by
    unfold Kernel.current
    rw [h.kont, h.current]
  have hrun : Rep (s.setProcess s.pc.currentProcess fun p => { p with kont := .user }) a.runOn := by
    unfold Sched.runOn
    rw [← h.current]
    exact h.setKontRun _ .user
  have hcur : a.kont a.current ≠ .trapReturn → a.current ≠ 0 := ha.current_ne hu
  have hon : a.runOn.Sane := Sched.runOn_sane ha
  unfold resume
  rw [ends_bind, ends_get]
  split
  · rename_i hx
    exact absurd (hk.symm.trans hx) hu
  · rename_i hx
    rw [ends_ok_iff (setProcess_run _ _ _)]
    exact ⟨_, hrun, .back (Or.inl (hk.symm.trans hx))⟩
  · rename_i old n hx
    have hx : a.kont a.current = .sleeping old n := hk.symm.trans hx
    rw [ends_bind, ends_ok_iff (setProcess_run _ _ _)]
    refine (sleepLoop_ends hrun hon (hcur (by rw [hx]; exact nofun)) old n).bind
      (fun r s₁ h₁ => ends_setResult ?_) fun _ _ he => he
    rcases h₁ with h₁ | h₁
    · exact ⟨_, h₁, .back (Or.inr ⟨old, n, hx⟩)⟩
    · exact ⟨_, h₁, .sleepOn old n hx⟩
  · rename_i p hx
    have hx : a.kont a.current = .waiting p := hk.symm.trans hx
    rw [ends_bind, ends_ok_iff (setProcess_run _ _ _)]
    unfold waitResult
    refine ((waitLoop_ends hrun hon (hcur (by rw [hx]; exact nofun)) p).bind
      (fun r s₁ h₁ => ends_pure.mpr h₁) fun _ _ he => he).bind
      (fun r s₁ h₁ => ends_setResult ⟨_, h₁, .waitOn p hx⟩) fun _ _ he => he
  · rename_i front hx
    have hx : a.kont a.current = .readingKey front := hk.symm.trans hx
    rw [ends_bind, ends_ok_iff (setProcess_run _ _ _)]
    obtain ⟨s₁, hrun₁, h₁⟩ := takeKey_rep hrun front
    rw [ends_bind]
    exact ends_of_run hrun₁ (ends_setResult ⟨_, h₁, .take front hx⟩)
  · exact ends_throw.mpr (quits_fault _)

/-- Every step of the system is a step of the scheduler. -/
theorem step_refines (h : Rep s a) (ha : a.Sane) {e : Event} (he : Enabled s e) :
    Ends (step K e) s (fun _ s' => ∃ a', Rep s' a' ∧ Sched.Step a a') fun e _ => a.Quits e := by
  have hk : s.current.kont = a.kont a.current := by
    unfold Kernel.current
    rw [h.kont, h.current]
  have hpush : ∀ f, Ends (pushFrame f) s (fun _ s' => Rep s' a) fun e _ => a.Quits e := by
    intro f
    unfold pushFrame
    rw [ends_bind, ends_get, ends_ite]
    exact ⟨fun _ => ends_low_quiet (quietOp_ram _) h, fun _ => ends_pure.mpr h⟩
  cases e with
  | timer f =>
      have hu : a.kont a.current = .user := hk ▸ he.1
      refine (hpush f).bind (fun _ s₁ h₁ => ?_) fun _ _ he => he
      refine (ends_low (timerHandler_ends h₁)).bind (fun _ s₂ h₂ => ?_) fun _ _ he => he
      obtain ⟨s₃, hrun, h₃, -⟩ := yield_run h₂ (Sched.wake_sane ha (-1)).current_free
      exact ends_of_run hrun ⟨_, h₃, .tick hu⟩
  | keyboard code f =>
      have hu : a.kont a.current = .user := hk ▸ he.1
      refine (hpush f).bind (fun _ s₁ h₁ => ?_) fun _ _ he => he
      exact ends_low (keyboardHandler_ends h₁ hu code)
  | spurious f => exact (hpush f).mono (fun _ _ hr => ⟨a, hr, .same a⟩) fun _ _ he => he
  | syscall f =>
      have hu : a.kont a.current = .user := hk ▸ he.1
      refine (hpush f).bind (fun _ s₁ h₁ => ?_) fun _ _ he => he
      rw [ends_bind, ends_get]
      exact systemCall_ends h₁ ha hu (h.current ▸ he.2.1) _
  | exception f =>
      have hu : a.kont a.current = .user := hk ▸ he.1
      have hc : a.current ≠ 0 := h.current ▸ he.2.1
      refine (hpush f).bind (fun _ s₁ h₁ => ?_) fun _ _ he => he
      exact (ends_exit h₁ ha hc).mono (fun _ _ hr => ⟨_, hr, .exit hu hc⟩) fun _ _ he => he
  | store va b =>
      exact (ends_low_quiet (quiet_storeVirt va b) h).mono (fun _ _ hr => ⟨a, hr, .same a⟩)
        fun _ _ he => he
  | resume =>
      have hu : a.kont a.current ≠ .user := hk ▸ he
      exact resume_ends h ha hu

end Refine

/-! ## Boot -/

/-- A fresh process table. -/
def Sched.start (keys : KeyboardBuffer) : Sched where
  state _ := .unused
  pid _ := 0
  wait _ := 0
  kont _ := .user
  current := 0
  queue _ := []
  pidNum := 1
  keys := keys
  hist := []

/-- Only the idle process. -/
theorem idle_ok (keys : KeyboardBuffer) : ((Sched.start keys).become 0 .running).Ok := by
  have hst : ∀ i, ((Sched.start keys).become 0 .running).state i = if i = 0 then .running else .unused := by
    intro i
    by_cases hi : i = 0
    · simp [Sched.become, hi]
    · simp [Sched.become, Sched.start, hi]
  have hno : ∀ i st, st ≠ .running → st ≠ .unused →
      ((Sched.start keys).become 0 .running).state i ≠ st := by
    intro i st h1 h2
    rw [hst]
    split
    · exact Ne.symm h1
    · exact Ne.symm h2
  refine ⟨⟨⟨?_, fun _ => List.nodup_nil, fun i => hno i _ (by decide) (by decide), ?_⟩, ?_⟩,
    ⟨rfl, ?_, ?_, ?_⟩, ⟨?_, ?_, ?_, Or.inl rfl, ?_⟩, ⟨?_, ?_, ?_, ?_, ?_, ?_⟩⟩
  · intro q i
    refine ⟨fun h => absurd h List.not_mem_nil, fun h => ?_⟩
    exact absurd h.2 (hno i _ (by cases q <;> decide) (by cases q <;> decide))
  · exact Or.inl (by rw [hst]; rfl)
  · intro i
    rw [hst]
    by_cases hi : i = 0
    · simp [hi, Sched.become, Sched.start]
    · simp [hi, Sched.become, Sched.start]
  · simp [Sched.become, Sched.start, Sched.born, created]
    decide
  · intro i hi hu
    rw [hst, if_neg hi] at hu
    exact absurd rfl hu
  · intro i j hi _ hu
    rw [hst, if_neg hi] at hu
    exact absurd rfl hu
  · intro i hi
    exact absurd hi (hno i _ (by decide) (by decide))
  · intro i hi
    exact absurd hi (hno i _ (by decide) (by decide))
  · intro i _
    exact fun h => by cases h
  · intro i p hi
    exact absurd hi (hno i _ (by decide) (by decide))
  · intro p hp
    cases hp
  · intro p
    refine ⟨fun h => absurd h List.not_mem_nil, fun h => ?_⟩
    rcases h with h | ⟨i, hi, -⟩
    · cases h
    · exact absurd hi (hno i _ (by decide) (by decide))
  · intro p hp
    cases hp
  · exact List.nodup_nil
  · exact List.nodup_nil
  · intro h₁ w p h₂ he
    simp [Sched.become, Sched.start] at he

/-- Process creation leaves the idle process running and one process ready. -/
theorem initProcess_ends {s : Kernel} {keys : KeyboardBuffer} (h : Rep s (Sched.start keys)) :
    Ends (initProcess K) s (fun _ s' => ∃ a, Rep s' a ∧ a.Ok ∧ ∀ i, .switched i i ∉ a.hist)
      fun _ _ => True := by
  have hfind : findUnusedProcess s = some 0 := by
    unfold findUnusedProcess
    have hz : ∀ i, (s.processTable i).state = .unused := fun i => h.state i
    simp only [hz]
    decide
  unfold initProcess initIdleProcess
  rw [ends_bind, ends_bind, ends_get, ends_bind, assertProcess, ends_ensure]
  refine ⟨fun _ => ?_, fun _ => trivial⟩
  rw [ends_bind, ends_ok_iff (setProcess_run _ _ _), ends_ok_iff (setCurrent_run _ _)]
  have h₁ : Rep ((s.setProcess 0 fun p =>
      { p with pid := 0, pageMap := p2v s.cr3, state := .running }).setCurrent 0)
      ((Sched.start keys).become 0 .running) := by
    have := (h.setProcess 0 (f := fun p =>
      { p with pid := 0, pageMap := p2v s.cr3, state := .running }) rfl).setCurrent 0
    simp only [h.wait, h.kont, Function.update_eq_self] at this
    have hp : Function.update (Sched.start keys).pid 0 0 = (Sched.start keys).pid :=
      Function.update_eq_self (0 : Slot) (Sched.start keys).pid
    rw [hp] at this
    exact this
  have hok := idle_ok keys
  unfold initUserProcess
  refine (ends_low (b := Sched.start keys) (allocNewProcess_ends h₁)).bind (fun r s₂ h₂ => ?_) fun _ _ _ => trivial
  cases r with
  | none => exact ends_throw.mpr trivial
  | some i =>
      obtain ⟨hu, h₂⟩ := h₂ i rfl
      dsimp only
      rw [ends_bind, ends_get]
      refine (ends_low_quiet (b := Sched.start keys) (quietOp_ram _) h₂).bind (fun status s₃ h₃ => ?_) fun _ _ _ => trivial
      rw [ends_bind, assertProcess, ends_ensure]
      refine ⟨fun _ => ?_, fun _ => trivial⟩
      rw [ends_bind, ends_ok_iff (setProcess_run _ _ _)]
      obtain ⟨s₄, hrun, hr, -⟩ := appendListTail_rep (i := i) (h₃.becomeRun i .ready)
        (fun q => List.not_mem_nil) .ready
      refine ends_of_run (low_run hrun) ⟨_, hr, ?_⟩
      rw [newborn_ready]
      have hl := Sched.create_lives hok hu (by simp [Sched.born, Sched.become, Sched.start, created])
      refine ⟨⟨Sched.create_ok hok.toSchedOk hu, hl.1, hl.2.1, hl.2.2⟩, ?_⟩
      simp [Sched.create, Sched.become, Sched.start]

/-- The kernel boots into a state that represents a scheduler with its invariant. -/
theorem boot_refines {m : Mem} {s₀ : Kernel} (h : kMain K (bootKernel m) = .ok () s₀) :
    ∃ a, Rep s₀ a ∧ a.Ok ∧ ∀ i, .switched i i ∉ a.hist := by
  have hrep : Rep (bootKernel m) (Sched.start ⟨fun _ => 0, 0, 0, 500⟩) :=
    ⟨⟨fun q => ⟨by cases q <;> rfl, by cases q <;> rfl⟩, fun _ => List.nodup_nil,
      fun q q' i hi => absurd hi List.not_mem_nil⟩, rfl⟩
  have hkeep : ∀ {s : Kernel} {α : Type} (x : RamM α), Rep s (Sched.start ⟨fun _ => 0, 0, 0, 500⟩) →
      Ends (ram x) s (fun _ s' => Rep s' (Sched.start ⟨fun _ => 0, 0, 0, 500⟩)) fun _ _ => True :=
    fun x hr => ((quietOp_ram (b := false) x).ends _).mono (fun _ _ hq => hq.rep_same hr)
      fun _ _ _ => trivial
  have hends : Ends (kMain K) (bootKernel m)
      (fun _ s' => ∃ a, Rep s' a ∧ a.Ok ∧ ∀ i, .switched i i ∉ a.hist) fun _ _ => True := by
    unfold kMain
    refine (ends_low (b := Sched.start ⟨fun _ => 0, 0, 0, 500⟩) (hkeep _ hrep)).bind (fun _ s₁ h₁ => ?_) fun _ _ _ => trivial
    refine Ends.bind (R := fun _ s' => Rep s' (Sched.start ⟨fun _ => 0, 0, 0, 500⟩))
      (ends_low (b := Sched.start ⟨fun _ => 0, 0, 0, 500⟩) (E := fun _ _ => True) ?_) (fun _ s₂ h₂ => ?_) fun _ _ _ => trivial
    · unfold initKvm
      refine (hkeep _ h₁).bind (fun map s₂ h₂ => ?_) fun _ _ h => h
      refine (hkeep _ h₂).bind (fun _ s₃ h₃ => ?_) fun _ _ h => h
      exact ends_modify.mpr (h₃.of_same rfl rfl rfl rfl rfl)
    refine Ends.bind (R := fun _ s' => Rep s' (Sched.start ⟨fun _ => 0, 0, 0, 500⟩))
      (ends_low (b := Sched.start ⟨fun _ => 0, 0, 0, 500⟩) (E := fun _ _ => True) ?_) (fun _ s₃ h₃ => ?_) fun _ _ _ => trivial
    · have htable : ∀ {s : Kernel}, Rep s (Sched.start ⟨fun _ => 0, 0, 0, 500⟩) →
          Ends (initTable K) s (fun _ s' => Rep s' (Sched.start ⟨fun _ => 0, 0, 0, 500⟩))
            fun _ _ => True := by
        intro s hr
        unfold initTable
        refine (hkeep _ hr).bind (fun t s₃ h₃ => ?_) fun _ _ h => h
        rw [ends_ite]
        exact ⟨fun _ => (hkeep _ h₃).bind (fun _ s₄ h₄ => ends_pure.mpr h₄) fun _ _ h => h,
          fun _ => ends_pure.mpr h₃⟩
      have hassert : ∀ {s : Kernel} (c : Prop) [Decidable c] (line : Nat),
          Rep s (Sched.start ⟨fun _ => 0, 0, 0, 500⟩) →
          Ends (assertFile c line : LowM Unit) s
            (fun _ s' => Rep s' (Sched.start ⟨fun _ => 0, 0, 0, 500⟩)) fun _ _ => True :=
        fun c _ line hr => ends_ensure.mpr ⟨fun _ => hr, fun _ => trivial⟩
      unfold initFs
      refine (hkeep _ h₂).bind (fun _ s h => ?_) fun _ _ h => h
      refine (hkeep _ h).bind (fun _ s h => ?_) fun _ _ h => h
      refine (hkeep _ h).bind (fun _ s h => ?_) fun _ _ h => h
      refine (hassert _ _ h).bind (fun _ s h => ?_) fun _ _ h => h
      refine (htable h).bind (fun table s h => ?_) fun _ _ h => h
      refine (hassert _ _ h).bind (fun _ s h => ?_) fun _ _ h => h
      rw [ends_bind, ends_modify]
      have hset : Rep { s with fcbTable := table } (Sched.start ⟨fun _ => 0, 0, 0, 500⟩) :=
        h.of_same rfl rfl rfl rfl rfl
      refine (htable hset).bind (fun _ s h => ?_) fun _ _ h => h
      refine (hassert _ _ h).bind (fun _ s h => ?_) fun _ _ h => h
      exact ends_modify.mpr (h.of_same rfl rfl rfl rfl rfl)
    exact initProcess_ends h₃
  exact hends.ok h

/-! ## Runs -/

/-- Every state of a run that creates fewer than 2^31 processes represents a scheduler
    with its invariant, and no process was switched to itself. -/
theorem run_refines {m : Mem} {s₀ s : Kernel} {Ok : Kernel → Event → Prop}
    (h₀ : kMain K (bootKernel m) = .ok () s₀) (h : Run K Ok s₀ s)
    (hb : (created s.hist).length < 2 ^ 31) :
    ∃ a, Rep s a ∧ a.Ok ∧ ∀ i, .switched i i ∉ a.hist := by
  induction h with
  | refl => exact boot_refines h₀
  | @step s s' e hrun he _ hs ih =>
      have hgrow := step_hist hs
      have hle : (created s.hist).length ≤ (created s'.hist).length := by
        obtain ⟨os, ho⟩ := hgrow
        rw [← ho, created_append, List.length_append]
        omega
      obtain ⟨a, hr, ha, hself⟩ := ih (by omega)
      obtain ⟨a', hr', hst⟩ := (step_refines hr ha.sane he).ok hs
      refine ⟨a', hr', Sched.step_ok ha hst ?_, fun i hi => ?_⟩
      · unfold Sched.born
        rw [← hr'.hist]
        exact hb
      · obtain ⟨os, ho, hos⟩ := Sched.step_turns ha hst
        rw [ho] at hi
        rcases List.mem_append.mp hi with hi | hi
        · exact hself i hi
        · exact hos i hi

end Os64
