/-
  A process that has exited.

  * `step_killed`: a step leaves a killed process killed, or reaps it.
  * `exit_runs_iff`: `exit` succeeds when the assertion of `schedule` holds.
  * `run_killed`: in a run a killed process comes back only after its slot was free.
  * `exit_gone`: so `exit` ends its caller.
-/
import Os64.Sched.Order

namespace Os64

open Os64.Lib

namespace Sched

variable {a b c : Sched} {i : Slot}

/-- Nobody killed in `a` is anything else in `b`. -/
def Buries (a b : Sched) : Prop := ∀ i, a.state i = .killed → b.state i = .killed

theorem Buries.refl (a : Sched) : Buries a a := fun _ h => h

theorem Buries.trans (h : Buries a b) (h' : Buries b c) : Buries a c := fun i hi => h' i (h i hi)

/-- Another process changes its state. -/
theorem buries_update {j : Slot} (st : ProcState) (hj : a.state j ≠ .killed) :
    Buries a { a with state := Function.update a.state j st } := fun i hi => by
  have hij : i ≠ j := fun h => hj (h ▸ hi)
  exact (Function.update_of_ne hij _ _).trans hi

theorem schedule_buries (h : Listed a) (k : Kont) : Buries a (a.schedule k) := by
  have hnext : a.state (a.schedule k).current ≠ .killed := by
    cases hr : a.queue .ready with
    | nil =>
        rw [schedule_nil a k hr]
        change a.state 0 ≠ .killed
        rcases h.idle with h0 | h0
        · rw [h0]
          decide
        · rw [h0]
          decide
    | cons j rest =>
        rw [schedule_cons a j k hr]
        change a.state j ≠ .killed
        rw [(h.member .ready j (by rw [hr]; exact List.mem_cons_self)).2]
        decide
  intro i hi
  rw [schedule_state]
  exact buries_update .running hnext i hi

theorem park_buries (h : Sane a) (q : ListId) : Buries a (a.park q) :=
  buries_update q.state (by rw [h.current_running]; decide)

theorem wake_buries (h : Listed a) (w : Int) : Buries a (a.wake w) := by
  intro i hi
  refine (if_neg fun hw => ?_ : (a.wake w).state i = a.state i).trans hi
  have hs := (h.member .wait i hw.1).2
  rw [hi] at hs
  exact absurd hs (by decide)

theorem sleep_buries (h : Sane a) (hc : a.current ≠ 0) (w : Int) (k : Kont) :
    Buries a (a.sleep w k) := by
  have hw : Sane (a.setWait a.current w) := h.congr rfl rfl rfl rfl rfl
  have hpark : Buries a ((a.setWait a.current w).park .wait) := park_buries hw .wait
  exact hpark.trans (schedule_buries (park_listed hw hc .wait).1 k)

theorem yield_buries (h : Sane a) : Buries a a.yield := by
  unfold yield
  split
  · exact .refl a
  · split
    · obtain ⟨hl, -⟩ := h.leave (L := a.queue) (t := .ready) (by decide) (fun _ => rfl)
        fun _ => Or.inl rfl
      have hready : Buries a (a.become a.current .ready) :=
        buries_update .ready (by rw [h.current_running]; decide)
      exact hready.trans (schedule_buries hl _)
    · rename_i hp
      have hc : a.current ≠ 0 := fun hc => hp (by rw [hc]; exact h.pid)
      exact (park_buries h .ready).trans (schedule_buries (park_listed h hc .ready).1 _)

/-- The caller of `exit` is killed, and so is whoever was before. -/
theorem die_buries (h : Sane a) (hc : a.current ≠ 0) :
    Listed a.die ∧ Buries a a.die ∧ a.die.state a.current = .killed ∧
      a.current ∈ a.die.queue .kill := by
  have hw : Sane (a.setWait a.current (a.pid a.current)) := h.congr rfl rfl rfl rfl rfl
  obtain ⟨hl, -⟩ := park_listed hw hc .kill
  have hpark : Buries a ((a.setWait a.current (a.pid a.current)).park .kill) := park_buries hw .kill
  have hwake : Buries ((a.setWait a.current (a.pid a.current)).park .kill) a.die :=
    wake_buries hl (-3)
  have hself : ((a.setWait a.current (a.pid a.current)).park .kill).state a.current = .killed :=
    Function.update_self _ _ _
  refine ⟨(wake_listed hl (-3)).1.congr rfl rfl, hpark.trans hwake, hwake _ hself, ?_⟩
  change a.current ∈ (((a.setWait a.current (a.pid a.current)).park .kill).wake (-3)).queue .kill
  rw [wake_queue_kill]
  change a.current ∈ Function.update a.queue .kill (a.queue .kill ++ [a.current]) .kill
  rw [Function.update_self]
  exact List.mem_append_right _ List.mem_cons_self

theorem exit_buries (h : Sane a) (hc : a.current ≠ 0) : Buries a a.exit :=
  (die_buries h hc).2.1.trans (schedule_buries (die_buries h hc).1 _)

/-- Whom `wait` does not reap stays. -/
theorem waitFor_buries (h : Sane a) (hc : a.current ≠ 0) (p : Int) (hi : a.state i = .killed) :
    (a.waitFor p).state i = .killed ∨ (a.waitFor p).state i = .unused := by
  unfold waitFor
  split
  · rename_i j _
    by_cases hij : i = j
    · exact Or.inr (hij ▸ reap_state_self a i)
    · exact Or.inl ((reap_state a hij).trans hi)
  · exact Or.inl (sleep_buries h hc _ _ i hi)

theorem readKey_buries (h : Sane a) (hc : a.current ≠ 0) : Buries a a.readKey := by
  unfold readKey
  split
  · exact sleep_buries h hc _ _
  · exact .refl a

theorem acceptKey_buries (a : Sched) (ch : Nat) : Buries a (a.acceptKey ch) := by
  unfold acceptKey
  split
  · exact .refl a
  · exact .refl a

/-- A step leaves a killed process killed, or reaps it. -/
theorem step_killed (h : Sane a) (hs : Step a b) (hi : a.state i = .killed) :
    b.state i = .killed ∨ b.state i = .unused := by
  have hcur : ∀ k : Kont, a.kont a.current = k → k ≠ .user → k ≠ .trapReturn → a.current ≠ 0 :=
    fun k hk hu ht => h.current_ne (hk ▸ hu) (hk ▸ ht)
  have hon := runOn_sane h
  cases hs with
  | quiet os _ => exact Or.inl hi
  | tick _ =>
      exact Or.inl (yield_buries (wake_sane h (-1)) i (wake_buries h.toListed (-1) i hi))
  | key ch _ =>
      exact Or.inl (wake_buries (acceptKey_sane h ch).toListed (-2) i (acceptKey_buries a ch i hi))
  | sleep old n _ hc => exact Or.inl (sleep_buries h hc _ _ i hi)
  | exit _ hc => exact Or.inl (exit_buries h hc i hi)
  | wait p _ hc => exact waitFor_buries h hc p hi
  | read _ hc => exact Or.inl (readKey_buries h hc i hi)
  | fork j _ _ hj => exact Or.inl (buries_update .ready (by rw [hj]; decide) i hi)
  | back _ => exact Or.inl hi
  | sleepOn old n hk => exact Or.inl (sleep_buries hon (hcur _ hk nofun nofun) _ _ i hi)
  | waitOn p hk => exact waitFor_buries hon (hcur _ hk nofun nofun) p hi
  | take front _ => exact Or.inl hi

end Sched

variable {K : Image} {s s' : Kernel} {a : Sched} {i : Slot}

/-! ## exit -/

/-- The assertion of `schedule` lets the current process go: its number is not 0, or somebody is
    ready, or somebody sleeps for what `exit` wakes. -/
def Kernel.CanLeave (s : Kernel) : Prop :=
  s.current.pid ≠ 0 ∨ isListEmpty s.pc.readyList = false ∨
    ∃ L, Queue s.links (s.pc.list .wait).next (s.pc.list .wait).tail L ∧
      ∃ j ∈ L, (s.processTable j).wait = -3

/-- Who is ready when the process is on the list of the killed. -/
theorem Sched.mem_die_ready (h : a.Sane) {j : Slot} :
    j ∈ a.die.queue .ready ↔ j ∈ a.queue .ready ∨ j ∈ a.queue .wait ∧ a.wait j = -3 := by
  have hne : j ∈ a.queue .wait → j ≠ a.current := fun hj he => h.current_free .wait (he ▸ hj)
  refine (Sched.mem_wake_ready _ j (-3)).trans (or_congr Iff.rfl ⟨fun hj => ⟨hj.1, ?_⟩,
    fun hj => ⟨hj.1, ?_⟩⟩)
  · exact (Function.update_of_ne (hne hj.1) _ _).symm.trans hj.2
  · exact (Function.update_of_ne (hne hj.1) _ _).trans hj.2

theorem Rep.canLeave_iff (h : Rep s a) (ha : a.Sane) :
    s.CanLeave ↔ (a.die.queue .ready = [] → a.pid a.current ≠ 0) := by
  have hpid : s.current.pid = a.pid a.current := by
    unfold Kernel.current
    rw [h.pid, h.current]
  have hempty : isListEmpty s.pc.readyList = false ↔ a.queue .ready ≠ [] := by
    rw [← Bool.not_eq_true]
    exact not_congr (isListEmpty_iff h .ready)
  unfold Kernel.CanLeave
  rw [hpid, hempty]
  constructor
  · rintro (hp | hready | ⟨L, hL, j, hj, hw⟩) hdie
    · exact hp
    · obtain ⟨j, hj⟩ := List.exists_mem_of_ne_nil _ hready
      have hin := (Sched.mem_die_ready ha).mpr (Or.inl hj)
      rw [hdie] at hin
      exact absurd hin List.not_mem_nil
    · rw [hL.chain.unique (h.lists.queue .wait).chain] at hj
      rw [h.wait] at hw
      have hin := (Sched.mem_die_ready ha).mpr (Or.inr ⟨hj, hw⟩)
      rw [hdie] at hin
      exact absurd hin List.not_mem_nil
  · intro hdie
    by_cases hnil : a.die.queue .ready = []
    · exact Or.inl (hdie hnil)
    · obtain ⟨j, hj⟩ := List.exists_mem_of_ne_nil _ hnil
      rcases (Sched.mem_die_ready ha).mp hj with hj | ⟨hj, hw⟩
      · exact Or.inr (Or.inl (List.ne_nil_of_mem hj))
      · exact Or.inr (Or.inr ⟨_, h.lists.queue .wait, j, hj, (h.wait j).trans hw⟩)

theorem exit_runs_iff (h : Rep s a) (ha : a.Sane) : (∃ s', exit s = .ok () s') ↔ s.CanLeave := by
  obtain ⟨s₁, hstart, hr, -⟩ := exit_start h ha.current_free
  rw [h.canLeave_iff ha, hstart]
  refine ⟨fun ⟨s', hrun⟩ => schedule_may hr hrun, fun hp => ?_⟩
  obtain ⟨s', hrun, -⟩ := schedule_run hr hp .exited
  exact ⟨s', hrun⟩

/-! ## What a run does with the killed -/

/-- A killed process of a run comes back only after its slot was free. -/
theorem run_killed {Ok : Kernel → Event → Prop} (hr : Rep s a) (ha : a.Sane)
    (hk : a.state i = .killed) (h : Run K Ok s s') :
    (∃ b, Rep s' b ∧ b.Sane ∧ b.state i = .killed) ∨
      ∃ s₁, Run K Ok s s₁ ∧ (s₁.processTable i).state = .unused ∧ Run K Ok s₁ s' := by
  induction h with
  | refl => exact Or.inl ⟨a, hr, ha, hk⟩
  | step hrun he hok hs ih =>
      rcases ih with ⟨b, hr₁, hb, hkb⟩ | ⟨s₁, h₁, hun, h₂⟩
      · obtain ⟨c, hr', hst⟩ := (step_refines hr₁ hb he).ok hs
        rcases Sched.step_killed hb hst hkb with hkc | hun
        · exact Or.inl ⟨c, hr', Sched.step_sane hb hst, hkc⟩
        · exact Or.inr ⟨_, hrun.step he hok hs, (hr'.state i).trans hun, .refl⟩
      · exact Or.inr ⟨s₁, h₁, hun, h₂.step he hok hs⟩

variable (K) in
/-- Process `i` has been ended: it is on the list of the killed, and its slot runs again only for
    a process that is made after it was reaped. -/
structure Gone (i : Slot) (s : Kernel) : Prop where
  killed : (s.processTable i).state = .killed
  listed : ∃ L, Queue s.links (s.pc.list .kill).next (s.pc.list .kill).tail L ∧ i ∈ L
  never : ∀ s', Run K (fun _ _ => True) s s' → s'.pc.currentProcess = i →
    ∃ s₁, Run K (fun _ _ => True) s s₁ ∧ (s₁.processTable i).state = .unused ∧
      Run K (fun _ _ => True) s₁ s'

theorem exit_gone (h : Rep s a) (ha : a.Sane) (hc : a.current ≠ 0)
    (hrun : exit s = .ok () s') : Gone K s.pc.currentProcess s' := by
  obtain ⟨hr, -⟩ := exit_ok h ha.current_free hrun
  obtain ⟨hl, -, hself, hlist⟩ := Sched.die_buries ha hc
  have hkilled : a.exit.state a.current = .killed :=
    Sched.schedule_buries hl .exited _ hself
  have hqueue : a.exit.queue .kill = a.die.queue .kill := by
    unfold Sched.exit Sched.schedule
    split
    · rfl
    · rename_i j rest _
      change Function.update a.die.queue .ready rest .kill = _
      exact Function.update_of_ne (by decide) _ _
  rw [h.current]
  refine ⟨(hr.state _).trans hkilled, ⟨_, hr.lists.queue .kill, hqueue ▸ hlist⟩, fun s₂ h₂ hcur => ?_⟩
  rcases run_killed hr (Sched.exit_sane ha hc) hkilled h₂ with ⟨b, hb, hsane, hk⟩ | hfree
  · rw [hb.current] at hcur
    rw [← hcur, hsane.current_running] at hk
    exact absurd hk (by decide)
  · exact hfree

end Os64
