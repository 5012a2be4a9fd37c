/-
  Who waits, who runs next.

  * `wakeUp_moves`: `wake_up` takes the processes that sleep for a reason off the wait list
    and puts them at the end of the ready list.
  * `Rotates a b os`: from `a` to `b`, recording `os`, the ready list was served at its front
    and joined at its end.
  * `step_rotates`: every step of the scheduler does that, and serves at most one process.
  * `run_sane`, `run_rotates`: so does every run, however many processes it creates.
-/
import Os64.Lib.Fifo
import Os64.Sched.Refine

namespace Os64

open Os64.Lib

variable {K : Image}

/-! ## wake_up -/

/-- The processes that sleep for reason `w`, in the order of the wait list. -/
def Kernel.sleepers (s : Kernel) (L : ListId → List Slot) (w : Int) : List Slot :=
  (L .wait).filter fun i => (s.processTable i).wait = w

theorem wakeUp_moves {s : Kernel} {L : ListId → List Slot} (h : ListsOk s L) (w : Int) :
    ∃ s' L', wakeUp w s = .ok () s' ∧ ListsOk s' L' ∧
      L' .wait = (L .wait).filter (fun i => (s.processTable i).wait ≠ w) ∧
      L' .ready = L .ready ++ s.sleepers L w ∧ L' .kill = L .kill ∧
      (∀ i ∈ s.sleepers L w, (s'.processTable i).state = .ready) ∧
      (∀ i, i ∉ s.sleepers L w → (s'.processTable i).state = (s.processTable i).state) ∧
      ∀ q i, (∀ q', i ∉ L' q') → ∃ s'', appendListTail q i s' = .ok () s'' ∧
        ListsOk s'' (Function.update L' q (L' q ++ [i])) := by
  have hr : Rep s (s.sched L) := ⟨h, rfl⟩
  obtain ⟨s', hrun, hr', -⟩ := wakeUp_run hr w
  refine ⟨s', ((s.sched L).wake w).queue, hrun, hr'.lists, rfl, rfl, rfl, fun i hi => ?_,
    fun i hi => ?_, fun q i hi => ?_⟩
  · obtain ⟨hm, hw⟩ := List.mem_filter.mp hi
    rw [hr'.state]
    exact if_pos ⟨hm, of_decide_eq_true hw⟩
  · rw [hr'.state]
    exact if_neg fun ⟨hm, hw⟩ => hi (List.mem_filter.mpr ⟨hm, decide_eq_true hw⟩)
  · obtain ⟨s'', hrun', hl, -⟩ := appendListTail_run (q := q) hr'.lists hi
    exact ⟨s'', hrun', hl⟩

/-- Four sleepers, two of them for the timer. -/
def fourSleepers : Kernel :=
  { bootKernel (fun _ => 0) with
    processTable := fun i =>
      { Process.zero with
        state := .sleep
        wait := if i = 2 then -2 else if i = 3 then -3 else -1
        next := if i = 1 then some 2 else if i = 2 then some 3 else if i = 3 then some 4 else none }
    pc := { (bootKernel fun _ => 0).pc with waitList := ⟨some 1, some 4⟩ } }

theorem fourSleepers_lists :
    ListsOk fourSleepers fun q => if q = .wait then [1, 2, 3, 4] else [] := by
  refine ⟨fun q => ?_, fun q => ?_, fun q q' i hi hi' => ?_⟩
  · cases q
    · exact ⟨rfl, rfl⟩
    · exact ⟨⟨rfl, rfl, rfl, rfl, rfl⟩, rfl⟩
    · exact ⟨rfl, rfl⟩
  · cases q <;> decide
  · cases q <;> cases q' <;> simp at hi hi' ⊢

theorem wakeUp_moves_four : ∃ s' L', wakeUp (-1) fourSleepers = .ok () s' ∧ ListsOk s' L' ∧
    L' .wait = [2, 3] ∧ L' .ready = [1, 4] := by
  obtain ⟨s', L', hrun, hl, hw, hr, -⟩ := wakeUp_moves fourSleepers_lists (-1)
  exact ⟨s', L', hrun, hl, hw, hr⟩

/-! ## Turns -/

/-- Whom a call of `schedule` gave the processor. -/
def Obs.turn? : Obs → Option Slot
  | .switched _ i => some i
  | _ => none

def turns (h : List Obs) : List Slot := h.filterMap Obs.turn?

theorem turns_append (os os' : List Obs) : turns (os ++ os') = turns os ++ turns os' :=
  List.filterMap_append

structure Sched.Rotates (a b : Sched) (os : List Obs) : Prop where
  hist : b.hist = a.hist ++ os
  served : Served (a.queue .ready) (turns os) (b.queue .ready)
  current : b.current = (turns os).getLast?.getD a.current

namespace Sched

variable {a b c : Sched} {os os' : List Obs}

theorem Rotates.refl (a : Sched) : Rotates a a [] :=
  ⟨(List.append_nil _).symm, .join List.prefix_rfl, rfl⟩

theorem Rotates.trans (h : Rotates a b os) (h' : Rotates b c os') : Rotates a c (os ++ os') := by
  refine ⟨?_, ?_, ?_⟩
  · rw [h'.hist, h.hist, List.append_assoc]
  · rw [turns_append]
    exact h.served.trans h'.served
  · rw [turns_append, h'.current, h.current, List.getLast?_append]
    cases (turns os').getLast? <;> rfl

/-- From `a` to `b` nobody got the processor. -/
structure Joins (a b : Sched) : Prop where
  queue : a.queue .ready <+: b.queue .ready
  current : b.current = a.current
  hist : ∃ os, b.hist = a.hist ++ os ∧ turns os = []

theorem Joins.of_eq (hq : b.queue .ready = a.queue .ready) (hc : b.current = a.current)
    (hh : b.hist = a.hist) : Joins a b :=
  ⟨by rw [hq], hc, [], by rw [hh, List.append_nil], rfl⟩

theorem Joins.trans (h : Joins a b) (h' : Joins b c) : Joins a c := by
  obtain ⟨os, ho, ht⟩ := h.hist
  obtain ⟨os', ho', ht'⟩ := h'.hist
  refine ⟨h.queue.trans h'.queue, h'.current.trans h.current, os ++ os', ?_, ?_⟩
  · rw [ho', ho, List.append_assoc]
  · rw [turns_append, ht, ht', List.append_nil]

/-- From `a` to `b` the ready list rotated, by one process at most. -/
def Turn (a b : Sched) : Prop := ∃ os, Rotates a b os ∧ (turns os).length ≤ 1

theorem Joins.rotates (h : Joins a b) : ∃ os, Rotates a b os ∧ turns os = [] := by
  obtain ⟨os, ho, ht⟩ := h.hist
  refine ⟨os, ⟨ho, ?_, ?_⟩, ht⟩
  · rw [ht]
    exact .join h.queue
  · rw [ht]
    exact h.current

theorem Joins.then (h : Joins a b) (h' : Turn b c) : Turn a c := by
  obtain ⟨os, hr, ht⟩ := h.rotates
  obtain ⟨os', hr', hl⟩ := h'
  refine ⟨os ++ os', hr.trans hr', ?_⟩
  rw [turns_append, ht]
  exact hl

theorem Joins.turn (h : Joins a b) : Turn a b := h.then ⟨[], .refl b, Nat.zero_le 1⟩

theorem schedule_turn (a : Sched) (k : Kont) : Turn a (a.schedule k) := by
  refine ⟨[.switched a.current (a.schedule k).current], ⟨a.schedule_hist k, ?_, rfl⟩, le_refl 1⟩
  cases hq : a.queue .ready with
  | nil => exact .other _ _
  | cons i rest =>
      have hrest : (a.schedule k).queue .ready = rest := by
        rw [schedule_cons a i k hq]
        rfl
      have hcur : (a.schedule k).current = i := by
        rw [schedule_cons a i k hq]
        rfl
      rw [hrest, hcur]
      exact .serve i rest

/-! ## What a step does -/

theorem enqueue_joins (a : Sched) (q : ListId) (i : Slot) : Joins a (a.enqueue q i) := by
  refine ⟨?_, rfl, [], (List.append_nil _).symm, rfl⟩
  cases q with
  | ready => exact List.prefix_append _ _
  | wait => exact List.prefix_rfl
  | kill => exact List.prefix_rfl

theorem become_joins (a : Sched) (i : Slot) (st : ProcState) : Joins a (a.become i st) :=
  .of_eq rfl rfl rfl

theorem setWait_joins (a : Sched) (i : Slot) (w : Int) : Joins a (a.setWait i w) :=
  .of_eq rfl rfl rfl

theorem park_joins (a : Sched) (q : ListId) : Joins a (a.park q) :=
  (become_joins a a.current q.state).trans (enqueue_joins _ q a.current)

theorem wake_joins (a : Sched) (w : Int) : Joins a (a.wake w) :=
  ⟨List.prefix_append _ _, rfl, [], (List.append_nil _).symm, rfl⟩

theorem sleep_turn (a : Sched) (w : Int) (k : Kont) : Turn a (a.sleep w k) :=
  ((setWait_joins a a.current w).trans (park_joins _ .wait)).then (schedule_turn _ k)

theorem yield_turn (a : Sched) : Turn a a.yield := by
  unfold yield
  split
  · exact ⟨[], .refl a, Nat.zero_le 1⟩
  · split
    · exact (become_joins a a.current .ready).then (schedule_turn _ _)
    · exact (park_joins a .ready).then (schedule_turn _ _)

theorem die_joins (a : Sched) : Joins a a.die := by
  have hpark := (setWait_joins a a.current (a.pid a.current)).trans (park_joins _ .kill)
  refine (hpark.trans (wake_joins _ (-3))).trans ⟨List.prefix_rfl, rfl, ?_⟩
  exact ⟨[.exited (a.pid a.current)], rfl, rfl⟩

theorem exit_turn (a : Sched) : Turn a a.exit := (die_joins a).then (schedule_turn _ _)

theorem reap_joins (a : Sched) (i : Slot) : Joins a (a.reap i) :=
  ⟨List.prefix_rfl, rfl, [.waited (a.pid a.current) (a.pid i)], rfl, rfl⟩

theorem waitFor_turn (a : Sched) (p : Int) : Turn a (a.waitFor p) := by
  unfold waitFor
  split
  · exact (reap_joins a _).turn
  · exact sleep_turn a _ _

theorem takeKey_joins (a : Sched) (front : Nat) : Joins a (a.takeKey front) :=
  ⟨List.prefix_rfl, rfl, [.returned (a.keys.buffer front)], rfl, rfl⟩

theorem readKey_turn (a : Sched) : Turn a a.readKey := by
  unfold readKey
  split
  · exact sleep_turn a _ _
  · exact (takeKey_joins a _).turn

theorem acceptKey_joins (a : Sched) (ch : Nat) : Joins a (a.acceptKey ch) := by
  unfold acceptKey
  split
  · exact .of_eq rfl rfl rfl
  · exact ⟨List.prefix_rfl, rfl, [.accepted ch], rfl, rfl⟩

theorem create_joins (a : Sched) (i : Slot) : Joins a (a.create i) :=
  ⟨List.prefix_append _ _, rfl, [.created a.pidNum], rfl, rfl⟩

theorem runOn_joins (a : Sched) : Joins a a.runOn := .of_eq rfl rfl rfl

theorem stored_joins {os : List Obs} (h : ∀ o ∈ os, ∃ va, o = .stored va) :
    Joins a { a with hist := a.hist ++ os } := by
  refine ⟨List.prefix_rfl, rfl, os, rfl, List.filterMap_eq_nil_iff.mpr fun o ho => ?_⟩
  obtain ⟨va, rfl⟩ := h o ho
  rfl

/-- A step calls `schedule` at most once, after all processes that join the ready list. -/
theorem step_turn (hs : Step a b) : Turn a b := by
  cases hs with
  | quiet os h => exact (stored_joins h).turn
  | tick _ => exact (wake_joins a (-1)).then (yield_turn _)
  | key ch _ => exact ((acceptKey_joins a ch).trans (wake_joins _ (-2))).turn
  | sleep old n _ _ => exact sleep_turn a _ _
  | exit _ _ => exact exit_turn a
  | wait p _ _ => exact waitFor_turn a p
  | read _ _ => exact readKey_turn a
  | fork i _ _ _ => exact (create_joins a i).turn
  | back _ => exact (runOn_joins a).turn
  | sleepOn old n _ => exact (runOn_joins a).then (sleep_turn _ _ _)
  | waitOn p _ => exact (runOn_joins a).then (waitFor_turn _ p)
  | take front _ => exact ((runOn_joins a).trans (takeKey_joins _ front)).turn

end Sched

/-! ## Runs -/

/-- Every state of a run represents a scheduler in which whoever is on a list is in its state. -/
theorem run_sane {m : Mem} {s₀ s : Kernel} {Ok : Kernel → Event → Prop}
    (h₀ : kMain K (bootKernel m) = .ok () s₀) (h : Run K Ok s₀ s) : ∃ a, Rep s a ∧ a.Sane := by
  induction h with
  | refl =>
      obtain ⟨a, hr, ha, -⟩ := boot_refines h₀
      exact ⟨a, hr, ha.sane⟩
  | step _ he _ hs ih =>
      obtain ⟨a, hr, ha⟩ := ih
      obtain ⟨b, hr', hst⟩ := (step_refines hr ha he).ok hs
      exact ⟨b, hr', Sched.step_sane ha hst⟩

theorem step_rotates {s s' : Kernel} {a : Sched} {e : Event} (hr : Rep s a) (ha : a.Sane)
    (he : Enabled s e) (hs : step K e s = .ok () s') :
    ∃ b os, Rep s' b ∧ b.Sane ∧ a.Rotates b os ∧ (turns os).length ≤ 1 := by
  obtain ⟨b, hr', hst⟩ := (step_refines hr ha he).ok hs
  obtain ⟨os, hrot, hl⟩ := Sched.step_turn hst
  exact ⟨b, os, hr', Sched.step_sane ha hst, hrot, hl⟩

theorem run_rotates {s s' : Kernel} {a : Sched} {Ok : Kernel → Event → Prop} (hr : Rep s a)
    (ha : a.Sane) (h : Run K Ok s s') : ∃ b os, Rep s' b ∧ b.Sane ∧ a.Rotates b os := by
  induction h with
  | refl => exact ⟨a, [], hr, ha, .refl a⟩
  | step _ he _ hs ih =>
      obtain ⟨b, os, hr', hb, hrot⟩ := ih
      obtain ⟨c, os', hr'', hc, hrot', -⟩ := step_rotates hr' hb he hs
      exact ⟨c, os ++ os', hr'', hc, hrot.trans hrot'⟩

end Os64
