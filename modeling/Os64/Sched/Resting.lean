/-
  A process that does not run.

  * `Rests i a b`: between `a` and `b` process `i` keeps where it continues and its number, and is
    not lost.
  * `step_rests`: every step of the scheduler lets those rest that are not current.
  * `Kernel.Alive`, `step_alive`: the same of the kernel.
-/
import Os64.Sched.Order

namespace Os64

open Os64.Lib

namespace Sched

/-- Slot `i` holds a process that has not exited. -/
def Alive (a : Sched) (i : Slot) : Prop := a.state i ≠ .unused ∧ a.state i ≠ .killed

structure Rests (i : Slot) (a b : Sched) : Prop where
  kont : b.kont i = a.kont i
  pid : b.pid i = a.pid i
  alive : a.Alive i → b.Alive i

variable {a b c : Sched} {i j : Slot}

namespace Rests

theorem refl (i : Slot) (a : Sched) : Rests i a a := ⟨rfl, rfl, id⟩

theorem trans (h : Rests i a b) (h' : Rests i b c) : Rests i a c :=
  ⟨h'.kont.trans h.kont, h'.pid.trans h.pid, fun ha => h'.alive (h.alive ha)⟩

theorem of_eq (hs : b.state = a.state) (hk : b.kont = a.kont) (hp : b.pid = a.pid) :
    Rests i a b :=
  ⟨by rw [hk], by rw [hp], fun ha => by unfold Alive; rw [hs]; exact ha⟩

end Rests

/-- Another process changes its state, or `i` to a state of the living. -/
theorem rests_become {st : ProcState} (h : i ≠ j ∨ st ≠ .unused ∧ st ≠ .killed) :
    Rests i a (a.become j st) := by
  refine ⟨rfl, rfl, fun ha => ?_⟩
  unfold Alive
  change Function.update a.state j st i ≠ .unused ∧ Function.update a.state j st i ≠ .killed
  by_cases hij : i = j
  · rw [hij, Function.update_self]
    exact h.resolve_left fun hne => hne hij
  · rw [Function.update_of_ne hij]
    exact ha

theorem rests_setKont {k : Kont} (h : i ≠ j) : Rests i a (a.setKont j k) :=
  ⟨Function.update_of_ne h _ _, rfl, id⟩

theorem switchTo_rests (h : i ≠ a.current) (j : Slot) (k : Kont) : Rests i a (a.switchTo j k) := by
  have hrun : Rests i a (a.become j .running) := rests_become (Or.inr ⟨by decide, by decide⟩)
  have hkont : Rests i (a.become j .running)
      ({ a.become j .running with current := j }.setKont a.current k) :=
    ⟨Function.update_of_ne h _ _, rfl, id⟩
  exact (hrun.trans hkont).trans (.of_eq rfl rfl rfl)

theorem schedule_rests (h : i ≠ a.current) (k : Kont) : Rests i a (a.schedule k) := by
  unfold schedule
  split
  · exact switchTo_rests h 0 k
  · rename_i j rest _
    have hqueue : Rests i a { a with queue := Function.update a.queue .ready rest } :=
      .of_eq rfl rfl rfl
    refine hqueue.trans (switchTo_rests ?_ j k)
    exact h

theorem park_rests (h : i ≠ a.current) (q : ListId) : Rests i a (a.park q) :=
  (rests_become (Or.inl h)).trans (.of_eq rfl rfl rfl)

theorem wake_rests (a : Sched) (i : Slot) (w : Int) : Rests i a (a.wake w) := by
  refine ⟨rfl, rfl, fun ha => ?_⟩
  unfold Alive
  change (if i ∈ a.queue .wait ∧ a.wait i = w then .ready else a.state i) ≠ .unused ∧
    (if i ∈ a.queue .wait ∧ a.wait i = w then .ready else a.state i) ≠ .killed
  split
  · exact ⟨by decide, by decide⟩
  · exact ha

theorem sleep_rests (h : i ≠ a.current) (w : Int) (k : Kont) : Rests i a (a.sleep w k) := by
  have hwait : Rests i a (a.setWait a.current w) := .of_eq rfl rfl rfl
  have hpark := park_rests (a := a.setWait a.current w) h .wait
  refine (hwait.trans hpark).trans (schedule_rests ?_ k)
  exact h

theorem yield_rests (h : i ≠ a.current) : Rests i a a.yield := by
  unfold yield
  split
  · exact .refl i a
  · split
    · have hready : Rests i a (a.become a.current .ready) := rests_become (Or.inl h)
      refine hready.trans (schedule_rests ?_ _)
      exact h
    · refine (park_rests h .ready).trans (schedule_rests ?_ _)
      exact h

theorem exit_rests (h : i ≠ a.current) : Rests i a a.exit := by
  have hwait : Rests i a (a.setWait a.current (a.pid a.current)) := .of_eq rfl rfl rfl
  have hpark := park_rests (a := a.setWait a.current (a.pid a.current)) h .kill
  have hlog : Rests i (((a.setWait a.current (a.pid a.current)).park .kill).wake (-3)) a.die :=
    .of_eq rfl rfl rfl
  refine (((hwait.trans hpark).trans (wake_rests _ i (-3))).trans hlog).trans (schedule_rests ?_ _)
  exact h

/-- Only the killed are reaped. -/
theorem waitFor_rests (hs : Sane a) (h : i ≠ a.current) (ha : a.Alive i) (p : Int) :
    Rests i a (a.waitFor p) := by
  unfold waitFor
  split
  · rename_i j hf
    have hj := (hs.member .kill j (find?_kill hf).1).2
    have hij : i ≠ j := fun hij => ha.2 (hij ▸ hj)
    refine ⟨Function.update_of_ne hij _ _, Function.update_of_ne hij _ _, fun _ => ?_⟩
    unfold Alive
    rw [reap_state a hij]
    exact ha
  · exact sleep_rests h _ _

theorem acceptKey_rests (a : Sched) (i : Slot) (ch : Nat) : Rests i a (a.acceptKey ch) := by
  unfold acceptKey
  split
  · exact .refl i a
  · exact .of_eq rfl rfl rfl

theorem readKey_rests (h : i ≠ a.current) : Rests i a a.readKey := by
  unfold readKey
  split
  · exact sleep_rests h _ _
  · exact .of_eq rfl rfl rfl

theorem create_rests (h : i ≠ j) : Rests i a (a.create j) := by
  refine ⟨Function.update_of_ne h _ _, Function.update_of_ne h _ _, fun ha => ?_⟩
  unfold Alive
  change Function.update a.state j .ready i ≠ .unused ∧ Function.update a.state j .ready i ≠ .killed
  rw [Function.update_of_ne h]
  exact ha

theorem step_rests (hs : Sane a) (h : i ≠ a.current) (ha : a.Alive i) (hst : Step a b) :
    Rests i a b := by
  have hon : Rests i a a.runOn := rests_setKont h
  cases hst with
  | quiet os _ => exact .of_eq rfl rfl rfl
  | tick _ => exact (wake_rests a i (-1)).trans (yield_rests h)
  | key ch _ => exact (acceptKey_rests a i ch).trans (wake_rests _ i (-2))
  | sleep old n _ _ => exact sleep_rests h _ _
  | exit _ _ => exact exit_rests h
  | wait p _ _ => exact waitFor_rests hs h ha p
  | read _ _ => exact readKey_rests h
  | fork j _ _ hj => exact create_rests fun hij => ha.1 (hij ▸ hj)
  | back _ => exact hon
  | sleepOn old n _ =>
      refine hon.trans (sleep_rests ?_ _ _)
      exact h
  | waitOn p _ => exact hon.trans (waitFor_rests (runOn_sane hs) h (hon.alive ha) p)
  | take front _ => exact hon.trans (.of_eq rfl rfl rfl)

/-- Who is switched away from keeps its state and its number, and is left at `k`. -/
theorem schedule_leaves {k : Kont} (h : (a.schedule k).current ≠ a.current) :
    (a.schedule k).kont a.current = k ∧ (a.schedule k).pid a.current = a.pid a.current ∧
      (a.schedule k).state a.current = a.state a.current := by
  refine ⟨?_, ?_, ?_⟩
  · rw [schedule_kont, Function.update_self]
  · rw [schedule_pid]
  · rw [schedule_state, Function.update_of_ne h.symm]

/-- `schedule` runs the first of the ready list. -/
theorem schedule_current {rest : List Slot} {k : Kont} (h : a.queue .ready = i :: rest) :
    (a.schedule k).current = i := by
  rw [schedule_cons a i k h]
  rfl

/-- `yield` keeps the processor only when nobody is ready. -/
theorem yield_keeps (hs : Sane a) (h : a.yield.current = a.current) : a.yield = a := by
  unfold yield at h ⊢
  split at h
  · rename_i hnil
    exact if_pos hnil
  · rename_i hready
    obtain ⟨i, rest, hq⟩ := List.exists_cons_of_ne_nil hready
    have hi : i ≠ a.current := fun hi => hs.current_free .ready (hi ▸ hq ▸ List.mem_cons_self)
    split at h
    · rw [schedule_current (a := a.become a.current .ready) hq] at h
      exact absurd h hi
    · have hpark : (a.park .ready).queue .ready = i :: (rest ++ [a.current]) := by
        change Function.update a.queue .ready (a.queue .ready ++ [a.current]) .ready = _
        rw [Function.update_self, hq]
        rfl
      rw [schedule_current hpark] at h
      exact absurd h hi

/-- Who gives the processor up is ready, and goes on at `TrapReturn`. -/
theorem yield_leaves (h : a.yield.current ≠ a.current) :
    a.yield.kont a.current = .trapReturn ∧ a.yield.pid a.current = a.pid a.current ∧
      a.yield.state a.current = .ready := by
  unfold yield at h ⊢
  split at h
  · exact absurd rfl h
  · rename_i hready
    rw [if_neg hready]
    split at h
    · rename_i hp
      rw [if_pos hp]
      obtain ⟨hk, hpid, hs⟩ := schedule_leaves (a := a.become a.current .ready) h
      exact ⟨hk, hpid, hs.trans (Function.update_self _ _ _)⟩
    · rename_i hp
      rw [if_neg hp]
      obtain ⟨hk, hpid, hs⟩ := schedule_leaves (a := a.park .ready) h
      exact ⟨hk, hpid, hs.trans (Function.update_self _ _ _)⟩

end Sched

/-! ## The kernel -/

variable {K : Image} {s s' : Kernel} {a : Sched} {i : Slot}

/-- Slot `i` holds a process other than the idle process, and it has not exited. -/
def Kernel.Alive (s : Kernel) (i : Slot) : Prop :=
  i ≠ 0 ∧ (s.processTable i).state ≠ .unused ∧ (s.processTable i).state ≠ .killed

instance (s : Kernel) (i : Slot) : Decidable (s.Alive i) :=
  inferInstanceAs (Decidable (_ ∧ _ ∧ _))

theorem Rep.alive (h : Rep s a) : s.Alive i ↔ i ≠ 0 ∧ a.Alive i := by
  unfold Kernel.Alive Sched.Alive
  rw [h.state]

/-- A process that is not current stays, and goes on where it would have gone on. -/
theorem step_alive (h : Rep s a) (ha : a.Sane) {e : Event} (he : Enabled s e)
    (hrun : step K e s = .ok () s') (hi : i ≠ s.pc.currentProcess) (hal : s.Alive i) :
    s'.Alive i ∧ (s'.processTable i).kont = (s.processTable i).kont ∧
      (s'.processTable i).pid = (s.processTable i).pid := by
  obtain ⟨h0, hal'⟩ := h.alive.mp hal
  obtain ⟨b, hr, hst⟩ := (step_refines h ha he).ok hrun
  have hrest := Sched.step_rests ha (h.current ▸ hi) hal' hst
  refine ⟨hr.alive.mpr ⟨h0, hrest.alive hal'⟩, ?_, ?_⟩
  · rw [hr.kont, hrest.kont, h.kont]
  · rw [hr.pid, hrest.pid, h.pid]

end Os64
