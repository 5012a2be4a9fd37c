/-
  Process identities, suspended system calls, and the history of exits and waits.

  * `PidsOk`: pids count up from 1, so two live processes never share one. The
    counter is 32 bits wide; everything here is for runs with fewer than 2^31
    creations.
  * `KontsOk`: a sleeping process is suspended in the call its `wait` reason names, and
    nobody sleeps inside `wait(p)` while a process of pid `p` waits to be reaped.
  * `LifeOk`: exits and waits in the history match the killed slots; no pid exits or is
    reaped twice, and it is reaped after it exited.
  * `step_ok`: a step keeps the three together with `SchedOk`; `step_turns`: and no
    process is switched to itself.

  Most steps are `Calm` for the history: they create, kill and reap nobody.
-/
import Mathlib.Data.List.Nodup
import Os64.Sched.Abstract

namespace Os64

/-! ## What the history says -/

def Obs.created? : Obs → Option Int
  | .created p => some p
  | _ => none

def Obs.exited? : Obs → Option Int
  | .exited p => some p
  | _ => none

def Obs.waited? : Obs → Option Int
  | .waited _ p => some p
  | _ => none

/-- The pids of the processes created, exited and reaped, in order. -/
def created (h : List Obs) : List Int := h.filterMap Obs.created?
def exits (h : List Obs) : List Int := h.filterMap Obs.exited?
def waits (h : List Obs) : List Int := h.filterMap Obs.waited?

/-- An observation that is none of the three. -/
def Obs.plain (o : Obs) : Prop := o.created? = none ∧ o.exited? = none ∧ o.waited? = none

theorem filterMap_plain {f : Obs → Option Int} {h os : List Obs} (hf : ∀ o ∈ os, f o = none) :
    (h ++ os).filterMap f = h.filterMap f := by
  rw [List.filterMap_append, List.filterMap_eq_nil_iff.mpr hf, List.append_nil]

@[simp] theorem created_append (h h' : List Obs) : created (h ++ h') = created h ++ created h' :=
  List.filterMap_append
@[simp] theorem exits_append (h h' : List Obs) : exits (h ++ h') = exits h ++ exits h' :=
  List.filterMap_append
@[simp] theorem waits_append (h h' : List Obs) : waits (h ++ h') = waits h ++ waits h' :=
  List.filterMap_append

namespace Sched

/-! ## The invariants -/

/-- How many processes were ever created. -/
def born (a : Sched) : Nat := (created a.hist).length

structure PidsOk (a : Sched) : Prop where
  idle : a.pid 0 = 0
  num : a.pidNum = nextPid a.born
  range : ∀ i, i ≠ 0 → a.state i ≠ .unused → 1 ≤ a.pid i ∧ a.pid i ≤ a.born
  inj : ∀ i j, i ≠ 0 → j ≠ 0 → a.state i ≠ .unused → a.state j ≠ .unused →
    a.pid i = a.pid j → i = j

/-- The sleep reason that belongs to a suspended call. -/
def reason : Kont → Option Int
  | .sleeping _ _ => some (-1)
  | .readingKey _ => some (-2)
  | .waiting _ => some (-3)
  | _ => none

structure KontsOk (a : Sched) : Prop where
  asleep : ∀ i, a.state i = .sleep → reason (a.kont i) = some (a.wait i)
  killed : ∀ i, a.state i = .killed → a.kont i = .exited ∧ a.wait i = a.pid i
  alive : ∀ i, a.state i ≠ .killed → a.kont i ≠ .exited
  idle : a.kont 0 = .user ∨ a.kont 0 = .trapReturn
  heard : ∀ i p, a.state i = .sleep → a.kont i = .waiting p →
    ∀ j, a.state j = .killed → a.pid j ≠ p

structure LifeOk (a : Sched) : Prop where
  range : ∀ p ∈ exits a.hist, 1 ≤ p ∧ p ≤ a.born
  exited : ∀ p, p ∈ exits a.hist ↔ p ∈ waits a.hist ∨ ∃ i, a.state i = .killed ∧ a.pid i = p
  gone : ∀ p ∈ waits a.hist, ∀ i, a.state i ≠ .unused → a.pid i ≠ p
  exitsOnce : (exits a.hist).Nodup
  waitsOnce : (waits a.hist).Nodup
  ordered : ∀ h₁ w p h₂, a.hist = h₁ ++ .waited w p :: h₂ → p ∈ exits h₁

/-- The whole invariant of the scheduler. -/
structure Ok (a : Sched) : Prop extends SchedOk a where
  pids : PidsOk a
  konts : KontsOk a
  life : LifeOk a

/-! ## Steps that create, kill and reap nobody -/

structure Calm (a b : Sched) : Prop where
  pid : b.pid = a.pid
  pidNum : b.pidNum = a.pidNum
  unused : ∀ i, b.state i = .unused ↔ a.state i = .unused
  killed : ∀ i, b.state i = .killed ↔ a.state i = .killed
  hist : ∃ os, b.hist = a.hist ++ os ∧ ∀ o ∈ os, o.plain

variable {a b c : Sched} {i : Slot}

namespace Calm

theorem refl (a : Sched) : Calm a a :=
  ⟨rfl, rfl, fun _ => Iff.rfl, fun _ => Iff.rfl, [], by simp, by simp⟩

theorem trans (h : Calm a b) (h' : Calm b c) : Calm a c := by
  obtain ⟨os, ho, hos⟩ := h.hist
  obtain ⟨os', ho', hos'⟩ := h'.hist
  refine ⟨h'.pid.trans h.pid, h'.pidNum.trans h.pidNum, fun i => (h'.unused i).trans (h.unused i),
    fun i => (h'.killed i).trans (h.killed i), os ++ os', by rw [ho', ho, List.append_assoc], ?_⟩
  intro o hm
  rcases List.mem_append.mp hm with hm | hm
  · exact hos o hm
  · exact hos' o hm

theorem created_eq (h : Calm a b) : created b.hist = created a.hist := by
  obtain ⟨os, ho, hos⟩ := h.hist
  unfold created
  rw [ho, filterMap_plain fun o hm => (hos o hm).1]

theorem exits_eq (h : Calm a b) : exits b.hist = exits a.hist := by
  obtain ⟨os, ho, hos⟩ := h.hist
  unfold exits
  rw [ho, filterMap_plain fun o hm => (hos o hm).2.1]

theorem waits_eq (h : Calm a b) : waits b.hist = waits a.hist := by
  obtain ⟨os, ho, hos⟩ := h.hist
  unfold waits
  rw [ho, filterMap_plain fun o hm => (hos o hm).2.2]

theorem born_eq (h : Calm a b) : b.born = a.born := by
  unfold born
  rw [h.created_eq]

theorem pidsOk (h : Calm a b) (hp : PidsOk a) : PidsOk b := by
  have hu : ∀ i, b.state i ≠ .unused → a.state i ≠ .unused := fun i hb ha => hb ((h.unused i).mpr ha)
  refine ⟨by rw [h.pid]; exact hp.idle, by rw [h.pidNum, h.born_eq]; exact hp.num, ?_, ?_⟩
  · intro i h0 hi
    rw [h.pid, h.born_eq]
    exact hp.range i h0 (hu i hi)
  · intro i j h0 h0' hi hj
    rw [h.pid]
    exact hp.inj i j h0 h0' (hu i hi) (hu j hj)

/-- A plain observation is no `waited`, so it lies outside any split there. -/
theorem ordered (h : Calm a b) (ha : ∀ h₁ w p h₂, a.hist = h₁ ++ .waited w p :: h₂ → p ∈ exits h₁) :
    ∀ h₁ w p h₂, b.hist = h₁ ++ .waited w p :: h₂ → p ∈ exits h₁ := by
  obtain ⟨os, ho, hos⟩ := h.hist
  intro h₁ w p h₂ he
  rw [ho] at he
  rcases List.append_eq_append_iff.mp he with ⟨l, rfl, hl⟩ | ⟨l, hl, hl'⟩
  · have := (hos (.waited w p) (by rw [hl]; simp)).2.2
    cases this
  · cases l with
    | nil =>
        have := (hos (.waited w p) (by rw [← List.nil_append os, ← hl']; simp)).2.2
        cases this
    | cons o l =>
        obtain ⟨rfl, -⟩ := List.cons.inj hl'
        exact ha h₁ w p l hl

theorem lifeOk (h : Calm a b) (hl : LifeOk a) : LifeOk b := by
  refine ⟨?_, ?_, ?_, by rw [h.exits_eq]; exact hl.exitsOnce, by rw [h.waits_eq]; exact hl.waitsOnce,
    h.ordered hl.ordered⟩
  · rw [h.exits_eq, h.born_eq]
    exact hl.range
  · intro p
    rw [h.exits_eq, h.waits_eq, hl.exited p, h.pid]
    simp only [h.killed]
  · intro p hp i hi
    rw [h.waits_eq] at hp
    rw [h.pid]
    exact hl.gone p hp i fun ha => hi ((h.unused i).mpr ha)

end Calm

/-! ## The pieces of a step -/

theorem plain_switched (i j : Slot) : (Obs.switched i j).plain := ⟨rfl, rfl, rfl⟩

/-- The process that `schedule` picks was ready. -/
theorem Parked.next_ready (h : Parked a) (k : Kont) :
    a.state (a.schedule k).current = .ready := by
  cases hr : a.queue .ready with
  | nil =>
      rw [schedule_nil a k hr]
      exact h.idle.resolve_left (h.still 0)
  | cons j rest =>
      rw [schedule_cons a j k hr]
      exact ((h.queued .ready j).mp (by rw [hr]; exact List.mem_cons_self)).2

theorem schedule_state_other (k : Kont) (h : i ≠ (a.schedule k).current) :
    (a.schedule k).state i = a.state i := by
  rw [schedule_state, Function.update_of_ne h]

theorem schedule_state_next (k : Kont) :
    (a.schedule k).state (a.schedule k).current = .running := by
  rw [schedule_state, Function.update_self]

theorem schedule_calm (h : Parked a) (k : Kont) : Calm a (a.schedule k) := by
  have hn := h.next_ready k
  have hst : ∀ i st, st ≠ .ready → st ≠ .running →
      ((a.schedule k).state i = st ↔ a.state i = st) := by
    intro i st h1 h2
    by_cases hi : i = (a.schedule k).current
    · rw [hi, schedule_state_next, hn]
      exact ⟨fun h => absurd h.symm h2, fun h => absurd h.symm h1⟩
    · rw [schedule_state_other k hi]
  refine ⟨schedule_pid a k, schedule_pidNum a k, fun i => hst i _ (by decide) (by decide),
    fun i => hst i _ (by decide) (by decide), _, schedule_hist a k, ?_⟩
  intro o ho
  rw [List.mem_singleton.mp ho]
  exact plain_switched _ _

theorem wake_calm (h : QueuesOk a) (w : Int) : Calm a (a.wake w) := by
  have hst : ∀ i st, st ≠ .ready → st ≠ .sleep → ((a.wake w).state i = st ↔ a.state i = st) := by
    intro i st h1 h2
    change (if i ∈ a.queue .wait ∧ a.wait i = w then _ else a.state i) = _ ↔ _
    split
    · rename_i hw
      rw [((h.queued .wait i).mp hw.1).2]
      exact ⟨fun h => absurd h.symm h1, fun h => absurd h.symm h2⟩
    · exact Iff.rfl
  exact ⟨rfl, rfl, fun i => hst i _ (by decide) (by decide), fun i => hst i _ (by decide) (by decide),
    [], by simp, by simp⟩

/-- Parking the running process on a list other than the kill list. -/
theorem park_calm (h : SchedOk a) {q : ListId} (hq : q ≠ .kill) : Calm a (a.park q) := by
  have hst : ∀ i st, st ≠ .running → st ≠ q.state →
      ((a.park q).state i = st ↔ a.state i = st) := by
    intro i st h1 h2
    by_cases hi : i = a.current
    · subst hi
      simp only [park, enqueue, become, Function.update_self, h.current_running]
      exact ⟨fun h => absurd h.symm h2, fun h => absurd h.symm h1⟩
    · simp only [park, enqueue, become, Function.update_of_ne hi]
  refine ⟨rfl, rfl, fun i => hst i _ (by decide) ?_, fun i => hst i _ (by decide) ?_,
    [], by simp [park, enqueue, become], by simp⟩
  · cases q <;> decide
  · cases q with
    | ready => decide
    | wait => decide
    | kill => exact absurd rfl hq

theorem setWait_calm (i : Slot) (w : Int) : Calm a (a.setWait i w) :=
  ⟨rfl, rfl, fun _ => Iff.rfl, fun _ => Iff.rfl, [], by simp [setWait], by simp⟩

theorem runOn_calm : Calm a a.runOn :=
  ⟨rfl, rfl, fun _ => Iff.rfl, fun _ => Iff.rfl, [], by simp, by simp⟩

theorem sleep_calm (h : SchedOk a) (hc : a.current ≠ 0) (w : Int) (k : Kont) :
    Calm a (a.sleep w k) := by
  have hw : SchedOk (a.setWait a.current w) := h.congr rfl rfl rfl
  exact ((setWait_calm a.current w).trans (park_calm hw (by decide))).trans
    (schedule_calm (park_ok hw hc .wait) k)

theorem become_ready_calm (h : SchedOk a) : Calm a (a.become a.current .ready) := by
  have hst : ∀ i st, st ≠ .running → st ≠ .ready →
      ((a.become a.current .ready).state i = st ↔ a.state i = st) := by
    intro i st h1 h2
    by_cases hi : i = a.current
    · subst hi
      simp only [become, Function.update_self, h.current_running]
      exact ⟨fun h => absurd h.symm h2, fun h => absurd h.symm h1⟩
    · simp only [become, Function.update_of_ne hi]
  exact ⟨rfl, rfl, fun i => hst i _ (by decide) (by decide), fun i => hst i _ (by decide) (by decide),
    [], by simp [become], by simp⟩

theorem yield_calm (h : SchedOk a) (hp : a.pid a.current = 0 ↔ a.current = 0) : Calm a a.yield := by
  unfold yield
  split
  · exact Calm.refl a
  · split
    · rename_i h0
      exact (become_ready_calm h).trans (schedule_calm (become_ready_ok h (hp.mp h0)) _)
    · rename_i h0
      exact (park_calm h (by decide)).trans
        (schedule_calm (park_ok h (fun hc => h0 (hp.mpr hc)) .ready) _)

theorem acceptKey_calm (ch : Nat) : Calm a (a.acceptKey ch) := by
  refine ⟨by simp, by simp, by simp, by simp, ?_⟩
  unfold acceptKey
  split
  · exact ⟨[], by simp, by simp⟩
  · exact ⟨[.accepted ch], rfl, by simp [Obs.plain, Obs.created?, Obs.exited?, Obs.waited?]⟩

theorem takeKey_calm (f : Nat) : Calm a (a.takeKey f) :=
  ⟨rfl, rfl, fun _ => Iff.rfl, fun _ => Iff.rfl, [.returned (a.keys.buffer f)], rfl,
    by simp [Obs.plain, Obs.created?, Obs.exited?, Obs.waited?]⟩

/-! ## Suspended calls -/

/-- A pick of `schedule` runs, so it is neither asleep nor killed. -/
theorem KontsOk.schedule {k : Kont} (h : KontsOk (a.setKont a.current k)) (hp : Parked a) :
    KontsOk (a.schedule k) := by
  have hk : (a.schedule k).kont = (a.setKont a.current k).kont := schedule_kont a k
  have hst : ∀ i, (a.schedule k).state i = .running ∨ (a.schedule k).state i = a.state i := by
    intro i
    by_cases hi : i = (a.schedule k).current
    · rw [hi]
      exact Or.inl (schedule_state_next k)
    · exact Or.inr (schedule_state_other k hi)
  have hback : ∀ i st, st ≠ .running → (a.schedule k).state i = st → a.state i = st := by
    intro i st hne hs
    rcases hst i with h' | h'
    · rw [h'] at hs
      exact absurd hs.symm hne
    · rwa [h'] at hs
  refine ⟨?_, ?_, ?_, by rw [hk]; exact h.idle, ?_⟩
  · intro i hi
    rw [hk, schedule_wait]
    exact h.asleep i (hback i _ (by decide) hi)
  · intro i hi
    rw [hk, schedule_wait, schedule_pid]
    exact h.killed i (hback i _ (by decide) hi)
  · intro i hi
    rw [hk]
    refine h.alive i fun ha => hi ?_
    rcases hst i with h' | h'
    · exact ((schedule_calm hp k).killed i).mpr ha
    · rw [h']; exact ha
  · intro i p hi hkp j hj
    rw [hk] at hkp
    rw [schedule_pid]
    exact h.heard i p (hback i _ (by decide) hi) hkp j (hback j _ (by decide) hj)

theorem wake_kontsOk (h : KontsOk a) (hq : QueuesOk a) (w : Int) : KontsOk (a.wake w) := by
  have hc := wake_calm hq w
  have hs : ∀ i, (a.wake w).state i = .sleep → a.state i = .sleep := by
    intro i hi
    change (if i ∈ a.queue .wait ∧ a.wait i = w then _ else a.state i) = _ at hi
    split at hi
    · cases hi
    · exact hi
  refine ⟨fun i hi => h.asleep i (hs i hi), fun i hi => h.killed i ((hc.killed i).mp hi),
    fun i hi => h.alive i fun ha => hi ((hc.killed i).mpr ha), h.idle, ?_⟩
  intro i p hi hk j hj
  exact h.heard i p (hs i hi) hk j ((hc.killed j).mp hj)

theorem runOn_kontsOk (h : KontsOk a) (hs : SchedOk a) : KontsOk a.runOn := by
  have hr := hs.current_running
  have hne : ∀ i st, st ≠ .running → a.state i = st → i ≠ a.current := by
    rintro i st hne hi rfl
    exact hne (hi.symm.trans hr)
  have hk : ∀ i, i ≠ a.current → a.runOn.kont i = a.kont i := fun i hi => Function.update_of_ne hi _ _
  refine ⟨?_, ?_, ?_, ?_, ?_⟩
  · intro i hi
    rw [hk i (hne i _ (by decide) hi)]
    exact h.asleep i hi
  · intro i hi
    rw [hk i (hne i _ (by decide) hi)]
    exact h.killed i hi
  · intro i hi
    by_cases he : i = a.current
    · subst he
      simp [runOn, setKont]
    · rw [hk i he]
      exact h.alive i hi
  · by_cases he : (0 : Slot) = a.current
    · rw [he]
      simp [runOn, setKont]
    · rw [hk 0 he]
      exact h.idle
  · intro i p hi hkp
    rw [hk i (hne i _ (by decide) hi)] at hkp
    exact h.heard i p hi hkp

/-- Going to sleep inside a call, when nobody it waits for is killed already. -/
theorem sleep_kontsOk (h : KontsOk a) (hs : SchedOk a) (hc : a.current ≠ 0) {w : Int} {k : Kont}
    (hw : reason k = some w)
    (hh : ∀ p, k = .waiting p → ∀ j, a.state j = .killed → a.pid j ≠ p) :
    KontsOk (a.sleep w k) := by
  have hsw : SchedOk (a.setWait a.current w) := hs.congr rfl rfl rfl
  refine KontsOk.schedule ?_ (park_ok hsw hc .wait)
  have hst : ∀ i, i ≠ a.current →
      ((a.setWait a.current w).park .wait).state i = a.state i := fun i hi =>
    Function.update_of_ne hi _ _
  have hself : ((a.setWait a.current w).park .wait).state a.current = .sleep :=
    Function.update_self _ _ _
  have hwt : ∀ i, i ≠ a.current → (a.setWait a.current w).wait i = a.wait i := fun i hi =>
    Function.update_of_ne hi _ _
  have hkt : ∀ i, i ≠ a.current →
      (((a.setWait a.current w).park .wait).setKont a.current k).kont i = a.kont i := fun i hi =>
    Function.update_of_ne hi _ _
  have hkself : (((a.setWait a.current w).park .wait).setKont a.current k).kont a.current = k :=
    Function.update_self _ _ _
  have hkilled : ∀ i, ((a.setWait a.current w).park .wait).state i = .killed → i ≠ a.current := by
    rintro i hi rfl
    rw [hself] at hi
    cases hi
  refine ⟨?_, ?_, ?_, ?_, ?_⟩
  · intro i hi
    by_cases he : i = a.current
    · subst he
      refine (congrArg reason hkself).trans (hw.trans ?_)
      exact congrArg some (Function.update_self a.current w a.wait).symm
    · refine (congrArg reason (hkt i he)).trans ((h.asleep i ?_).trans ?_)
      · rw [← hst i he]; exact hi
      · exact congrArg some (hwt i he).symm
  · intro i hi
    have he := hkilled i hi
    obtain ⟨h1, h2⟩ := h.killed i (by rw [← hst i he]; exact hi)
    exact ⟨(hkt i he).trans h1, (hwt i he).trans h2⟩
  · intro i hi
    by_cases he : i = a.current
    · subst he
      intro hx
      rw [show k = .exited from hkself.symm.trans hx] at hw
      cases hw
    · intro hx
      refine h.alive i (fun ha => hi ?_) ((hkt i he).symm.trans hx)
      exact (hst i he).trans ha
  · exact (hkt 0 (Ne.symm hc)).symm ▸ h.idle
  · intro i p hi hkp j hj
    have hje := hkilled j hj
    have hjk : a.state j = .killed := by rw [← hst j hje]; exact hj
    by_cases he : i = a.current
    · subst he
      exact hh p (hkself.symm.trans hkp) j hjk
    · exact h.heard i p (by rw [← hst i he]; exact hi) ((hkt i he).symm.trans hkp) j hjk

/-- The current process becomes ready, to continue in user mode. -/
theorem ready_kontsOk (h : KontsOk a) (hp : Parked b)
    (hst : b.state = Function.update a.state a.current .ready) (hcur : b.current = a.current)
    (hk : b.kont = a.kont) (hw : b.wait = a.wait) (hpid : b.pid = a.pid) :
    KontsOk (b.schedule .trapReturn) := by
  refine KontsOk.schedule ?_ hp
  rw [hcur]
  have hst' : ∀ i, i ≠ a.current → b.state i = a.state i := fun i hi => by
    rw [hst, Function.update_of_ne hi]
  have hself : b.state a.current = .ready := by rw [hst, Function.update_self]
  have hkt : ∀ i, i ≠ a.current → (b.setKont a.current .trapReturn).kont i = a.kont i := by
    intro i hi
    simp only [setKont, Function.update_of_ne hi, hk]
  have hne : ∀ i st, st ≠ .ready → b.state i = st → i ≠ a.current := by
    rintro i st hne hi rfl
    exact hne (hi.symm.trans hself)
  refine ⟨?_, ?_, ?_, ?_, ?_⟩
  · intro i hi
    have he := hne i .sleep (by decide) hi
    rw [hkt i he]
    change _ = some (b.wait i)
    rw [hw]
    exact h.asleep i (by rw [← hst' i he]; exact hi)
  · intro i hi
    have he := hne i .killed (by decide) hi
    rw [hkt i he]
    change _ ∧ b.wait i = b.pid i
    rw [hw, hpid]
    exact h.killed i (by rw [← hst' i he]; exact hi)
  · intro i hi
    by_cases he : i = a.current
    · subst he
      simp [setKont]
    · rw [hkt i he]
      exact h.alive i fun ha => hi ((hst' i he).trans ha)
  · by_cases he : (0 : Slot) = a.current
    · rw [← he]
      simp [setKont]
    · rw [hkt 0 he]
      exact h.idle
  · intro i p hi hkp j hj
    have he := hne i .sleep (by decide) hi
    have hje := hne j .killed (by decide) hj
    rw [hkt i he] at hkp
    change b.pid j ≠ p
    rw [hpid]
    exact h.heard i p (by rw [← hst' i he]; exact hi) hkp j (by rw [← hst' j hje]; exact hj)

theorem yield_kontsOk (h : KontsOk a) (hs : SchedOk a) (hp : a.pid a.current = 0 ↔ a.current = 0) :
    KontsOk a.yield := by
  unfold yield
  split
  · exact h
  · split
    · rename_i h0
      exact ready_kontsOk h (become_ready_ok hs (hp.mp h0)) rfl rfl rfl rfl rfl
    · rename_i h0
      exact ready_kontsOk h (park_ok hs (fun hc => h0 (hp.mpr hc)) .ready) rfl rfl rfl rfl rfl

/-! ## Exit -/

theorem die_state (h : SchedOk a) (hc : a.current ≠ 0) (i : Slot) :
    (a.die.state i = .killed ↔ i = a.current ∨ a.state i = .killed) ∧
      (a.die.state i = .unused ↔ a.state i = .unused) := by
  have hw : SchedOk (a.setWait a.current (a.pid a.current)) := h.congr rfl rfl rfl
  have hcalm := wake_calm (park_ok hw hc .kill).toQueuesOk (-3)
  have hst : ((a.setWait a.current (a.pid a.current)).park .kill).state i =
      Function.update a.state a.current .killed i := rfl
  refine ⟨(hcalm.killed i).trans ?_, (hcalm.unused i).trans ?_⟩
  · rw [hst]
    by_cases hi : i = a.current
    · simp [hi]
    · simp [hi]
  · rw [hst]
    by_cases hi : i = a.current
    · simp [hi, h.current_running]
    · rw [Function.update_of_ne hi]

theorem die_hist : a.die.hist = a.hist ++ [.exited (a.pid a.current)] := rfl

/-- The dying process is the only one with its pid, and it had not exited before. -/
theorem exit_lifeOk (h : Ok a) (hc : a.current ≠ 0) : PidsOk a.exit ∧ LifeOk a.exit := by
  have hs := h.toSchedOk
  have hcalm := schedule_calm (die_ok hs hc) .exited
  have hused : a.state a.current ≠ .unused := by rw [hs.current_running]; decide
  have hcur := h.pids.range a.current hc hused
  have hpid : a.die.pid = a.pid := rfl
  have hborn : a.die.born = a.born := by
    simp [born, die_hist, created, Obs.created?]
  have hexits : exits a.die.hist = exits a.hist ++ [a.pid a.current] := by
    simp [die_hist, exits, Obs.exited?]
  have hwaits : waits a.die.hist = waits a.hist := by
    simp [die_hist, waits, Obs.waited?]
  have hkill := fun i => (die_state hs hc i).1
  have hunused := fun i => (die_state hs hc i).2
  have hfresh : a.pid a.current ∉ exits a.hist := by
    intro hm
    rcases (h.life.exited _).mp hm with hm | ⟨i, hi, hip⟩
    · exact h.life.gone _ hm a.current hused rfl
    · have hi0 : i ≠ 0 := by
        rintro rfl
        rcases hs.idle with h' | h' <;> rw [h'] at hi <;> cases hi
      have : i = a.current :=
        h.pids.inj i a.current hi0 hc (by rw [hi]; decide) hused hip
      rw [this, hs.current_running] at hi
      cases hi
  refine ⟨hcalm.pidsOk ⟨h.pids.idle, ?_, ?_, ?_⟩, hcalm.lifeOk ⟨?_, ?_, ?_, ?_, ?_, ?_⟩⟩
  · rw [hborn]
    exact h.pids.num
  · intro i h0 hi
    rw [hpid, hborn]
    exact h.pids.range i h0 fun hu => hi ((hunused i).mpr hu)
  · intro i j h0 h0' hi hj
    rw [hpid]
    exact h.pids.inj i j h0 h0' (fun hu => hi ((hunused i).mpr hu))
      fun hu => hj ((hunused j).mpr hu)
  · intro p hp
    rw [hexits] at hp
    rw [hborn]
    rcases List.mem_append.mp hp with hp | hp
    · exact h.life.range p hp
    · rw [List.mem_singleton.mp hp]
      exact hcur
  · intro p
    rw [hexits, hwaits, List.mem_append, List.mem_singleton, h.life.exited p, hpid]
    constructor
    · rintro ((hp | ⟨i, hi, hip⟩) | rfl)
      · exact Or.inl hp
      · exact Or.inr ⟨i, (hkill i).mpr (Or.inr hi), hip⟩
      · exact Or.inr ⟨a.current, (hkill _).mpr (Or.inl rfl), rfl⟩
    · rintro (hp | ⟨i, hi, hip⟩)
      · exact Or.inl (Or.inl hp)
      · rcases (hkill i).mp hi with rfl | hi
        · exact Or.inr hip.symm
        · exact Or.inl (Or.inr ⟨i, hi, hip⟩)
  · intro p hp i hi
    rw [hwaits] at hp
    exact h.life.gone p hp i fun hu => hi ((hunused i).mpr hu)
  · rw [hexits, List.nodup_append]
    refine ⟨h.life.exitsOnce, List.nodup_singleton _, ?_⟩
    rintro x hx y hy rfl
    rw [List.mem_singleton.mp hy] at hx
    exact hfresh hx
  · rw [hwaits]
    exact h.life.waitsOnce
  · intro h₁ w p h₂ he
    rw [die_hist] at he
    rcases List.append_eq_append_iff.mp he with ⟨l, rfl, hl⟩ | ⟨l, hl, hl'⟩
    · cases l with
      | nil => cases hl
      | cons o l =>
          obtain ⟨-, hl⟩ := List.cons.inj hl
          simp at hl
    · cases l with
      | nil => cases hl'
      | cons o l =>
          obtain ⟨rfl, -⟩ := List.cons.inj hl'
          exact h.life.ordered h₁ w p l hl

/-- Exit wakes everyone who sleeps in `wait`, so nobody misses the new killed process. -/
theorem exit_kontsOk (h : Ok a) (hc : a.current ≠ 0) : KontsOk a.exit := by
  have hs := h.toSchedOk
  refine KontsOk.schedule ?_ (die_ok hs hc)
  change KontsOk (a.die.setKont a.current .exited)
  have hk : ∀ i, i ≠ a.current → (a.die.setKont a.current .exited).kont i = a.kont i := fun i hi =>
    Function.update_of_ne hi _ _
  have hkself : (a.die.setKont a.current .exited).kont a.current = .exited :=
    Function.update_self _ _ _
  have hw : ∀ i, i ≠ a.current → a.die.wait i = a.wait i := fun i hi => Function.update_of_ne hi _ _
  have hwself : a.die.wait a.current = a.pid a.current := Function.update_self _ _ _
  have hkill := fun i => (die_state hs hc i).1
  -- a process still asleep afterwards slept before, for another reason than -3
  have hsleep : ∀ i, a.die.state i = .sleep →
      i ≠ a.current ∧ a.state i = .sleep ∧ a.wait i ≠ -3 := by
    intro i hi
    have hw' : SchedOk (a.setWait a.current (a.pid a.current)) := hs.congr rfl rfl rfl
    have hq := park_ok hw' hc .kill
    have hne : i ≠ a.current := by
      rintro rfl
      rw [((hkill a.current).mpr (Or.inl rfl))] at hi
      cases hi
    have hmem := ((die_ok hs hc).queued .wait i).mpr
      ⟨fun h0 => ?_, hi⟩
    · have hm : i ∈ (((a.setWait a.current (a.pid a.current)).park .kill).wake (-3)).queue .wait :=
        hmem
      rw [mem_wake_wait] at hm
      have hst := ((hq.queued .wait i).mp hm.1).2
      refine ⟨hne, Eq.trans ?_ hst, fun he => hm.2 ((hw i hne).trans he)⟩
      exact (Function.update_of_ne hne _ _).symm
    · rw [h0] at hi
      rcases (die_ok hs hc).idle with h' | h' <;> rw [h'] at hi <;> cases hi
  refine ⟨?_, ?_, ?_, ?_, ?_⟩
  · intro i hi
    obtain ⟨hne, hsl, -⟩ := hsleep i hi
    rw [hk i hne]
    exact (h.konts.asleep i hsl).trans (congrArg some (hw i hne).symm)
  · intro i hi
    by_cases he : i = a.current
    · subst he
      exact ⟨hkself, hwself⟩
    · obtain ⟨h1, h2⟩ := h.konts.killed i (((hkill i).mp hi).resolve_left he)
      exact ⟨(hk i he).trans h1, (hw i he).trans h2⟩
  · intro i hi
    have he : i ≠ a.current := fun he => hi ((hkill i).mpr (Or.inl he))
    rw [hk i he]
    exact h.konts.alive i fun ha => hi ((hkill i).mpr (Or.inr ha))
  · rw [hk 0 (Ne.symm hc)]
    exact h.konts.idle
  · intro i p hi hkp
    obtain ⟨hne, hsl, hw3⟩ := hsleep i hi
    rw [hk i hne] at hkp
    have := h.konts.asleep i hsl
    rw [hkp] at this
    exact absurd (Option.some.inj this).symm hw3

/-! ## Wait -/

theorem reap_pid (a : Sched) {i j : Slot} (h : j ≠ i) : (a.reap i).pid j = a.pid j :=
  Function.update_of_ne h _ _

theorem reap_state (a : Sched) {i j : Slot} (h : j ≠ i) : (a.reap i).state j = a.state j :=
  Function.update_of_ne h _ _

theorem reap_state_self (a : Sched) (i : Slot) : (a.reap i).state i = .unused :=
  Function.update_self _ _ _

theorem reap_ne {i : Slot} {j : Slot} (hj : (a.reap i).state j ≠ .unused) : j ≠ i := by
  rintro rfl
  exact hj (reap_state_self a j)

/-- The reaped process exited before, once, and its pid is gone for good. -/
theorem reap_lifeOk (h : Ok a) (hi : i ∈ a.queue .kill) : PidsOk (a.reap i) ∧ LifeOk (a.reap i) := by
  obtain ⟨hi0, hik⟩ := (h.queued .kill i).mp hi
  have hik : a.state i = .killed := hik
  have hborn : (a.reap i).born = a.born := by simp [born, reap, created, Obs.created?]
  have hexits : exits (a.reap i).hist = exits a.hist := by simp [reap, exits, Obs.exited?]
  have hwaits : waits (a.reap i).hist = waits a.hist ++ [a.pid i] := by
    simp [reap, waits, Obs.waited?]
  have hused : a.state i ≠ .unused := by rw [hik]; decide
  have hmem : a.pid i ∈ exits a.hist := (h.life.exited _).mpr (Or.inr ⟨i, hik, rfl⟩)
  have huniq : ∀ j, a.state j ≠ .unused → a.pid j = a.pid i → j = i := by
    intro j hj he
    by_cases h0 : j = 0
    · subst h0
      have := (h.life.range _ hmem).1
      rw [← he, h.pids.idle] at this
      omega
    · exact h.pids.inj j i h0 hi0 hj hused he
  refine ⟨⟨?_, ?_, ?_, ?_⟩, ⟨?_, ?_, ?_, ?_, ?_, ?_⟩⟩
  · rw [reap_pid a (Ne.symm hi0)]
    exact h.pids.idle
  · rw [hborn]
    exact h.pids.num
  · intro j h0 hj
    have hji := reap_ne hj
    rw [reap_pid a hji, hborn]
    exact h.pids.range j h0 (by rwa [reap_state a hji] at hj)
  · intro j k h0 h0' hj hk
    have hji := reap_ne hj
    have hki := reap_ne hk
    rw [reap_pid a hji, reap_pid a hki]
    exact h.pids.inj j k h0 h0' (by rwa [reap_state a hji] at hj)
      (by rwa [reap_state a hki] at hk)
  · rw [hexits, hborn]
    exact h.life.range
  · intro p
    rw [hexits, hwaits, h.life.exited p, List.mem_append, List.mem_singleton]
    constructor
    · rintro (hp | ⟨j, hj, rfl⟩)
      · exact Or.inl (Or.inl hp)
      · by_cases hji : j = i
        · exact Or.inl (Or.inr (by rw [hji]))
        · refine Or.inr ⟨j, ?_, reap_pid a hji⟩
          rw [reap_state a hji]
          exact hj
    · rintro ((hp | rfl) | ⟨j, hj, hjp⟩)
      · exact Or.inl hp
      · exact Or.inr ⟨i, hik, rfl⟩
      · have hji : j ≠ i := reap_ne (a := a) (by rw [hj]; decide)
        rw [reap_state a hji] at hj
        rw [reap_pid a hji] at hjp
        exact Or.inr ⟨j, hj, hjp⟩
  · intro p hp j hj
    have hji := reap_ne hj
    rw [reap_state a hji] at hj
    rw [reap_pid a hji]
    rw [hwaits] at hp
    rcases List.mem_append.mp hp with hp | hp
    · exact h.life.gone p hp j hj
    · rw [List.mem_singleton.mp hp]
      exact fun he => hji (huniq j hj he)
  · rw [hexits]
    exact h.life.exitsOnce
  · rw [hwaits, List.nodup_append]
    refine ⟨h.life.waitsOnce, List.nodup_singleton _, ?_⟩
    rintro x hx y hy rfl
    rw [List.mem_singleton.mp hy] at hx
    exact h.life.gone _ hx i hused rfl
  · intro h₁ w p h₂ he
    have hh : (a.reap i).hist = a.hist ++ [.waited (a.pid a.current) (a.pid i)] := rfl
    rw [hh] at he
    rcases List.append_eq_append_iff.mp he with ⟨l, rfl, hl⟩ | ⟨l, hl, hl'⟩
    · cases l with
      | nil =>
          obtain ⟨ho, -⟩ := List.cons.inj hl
          obtain ⟨-, rfl⟩ := Obs.waited.inj ho
          rw [List.append_nil]
          exact hmem
      | cons o l =>
          obtain ⟨-, hl⟩ := List.cons.inj hl
          simp at hl
    · cases l with
      | nil =>
          obtain ⟨ho, -⟩ := List.cons.inj hl'
          obtain ⟨-, rfl⟩ := Obs.waited.inj ho
          rw [List.append_nil] at hl
          rwa [← hl]
      | cons o l =>
          obtain ⟨rfl, -⟩ := List.cons.inj hl'
          exact h.life.ordered h₁ w p l hl

theorem reap_kontsOk (h : Ok a) (hi : i ∈ a.queue .kill) : KontsOk (a.reap i) := by
  have hi0 := ((h.queued .kill i).mp hi).1
  have hk : ∀ j, j ≠ i → (a.reap i).kont j = a.kont j := fun j hj => Function.update_of_ne hj _ _
  have hw : ∀ j, j ≠ i → (a.reap i).wait j = a.wait j := fun j hj => Function.update_of_ne hj _ _
  have hne : ∀ j st, st ≠ .unused → (a.reap i).state j = st → j ≠ i ∧ a.state j = st := by
    intro j st hst hj
    have hji : j ≠ i := reap_ne (a := a) (by rw [hj]; exact hst)
    exact ⟨hji, by rwa [reap_state a hji] at hj⟩
  refine ⟨?_, ?_, ?_, ?_, ?_⟩
  · intro j hj
    obtain ⟨hji, hj⟩ := hne j _ (by decide) hj
    rw [hk j hji, hw j hji]
    exact h.konts.asleep j hj
  · intro j hj
    obtain ⟨hji, hj⟩ := hne j _ (by decide) hj
    rw [hk j hji, hw j hji, reap_pid a hji]
    exact h.konts.killed j hj
  · intro j hj
    by_cases hji : j = i
    · subst hji
      simp [reap]
    · rw [hk j hji]
      rw [reap_state a hji] at hj
      exact h.konts.alive j hj
  · rw [hk 0 (Ne.symm hi0)]
    exact h.konts.idle
  · intro j p hj hkp k hkk
    obtain ⟨hji, hj⟩ := hne j _ (by decide) hj
    obtain ⟨hki, hkk⟩ := hne k _ (by decide) hkk
    rw [hk j hji] at hkp
    rw [reap_pid a hki]
    exact h.konts.heard j p hj hkp k hkk

theorem waitFor_lives (h : Ok a) (hc : a.current ≠ 0) (p : Int) :
    PidsOk (a.waitFor p) ∧ KontsOk (a.waitFor p) ∧ LifeOk (a.waitFor p) := by
  unfold waitFor
  split
  · rename_i i hf
    have hi := (find?_kill hf).1
    exact ⟨(reap_lifeOk h hi).1, reap_kontsOk h hi, (reap_lifeOk h hi).2⟩
  · rename_i hf
    have hcalm := sleep_calm h.toSchedOk hc (-3) (.waiting p)
    refine ⟨hcalm.pidsOk h.pids, sleep_kontsOk h.konts h.toSchedOk hc rfl ?_, hcalm.lifeOk h.life⟩
    rintro p' hp' j hj
    obtain rfl := Kont.waiting.inj hp'
    have hj0 : j ≠ 0 := by
      rintro rfl
      rcases h.idle with h' | h' <;> rw [h'] at hj <;> cases hj
    have := List.find?_eq_none.mp hf j ((h.queued .kill j).mpr ⟨hj0, hj⟩)
    rw [(h.konts.killed j hj).2] at this
    simpa using this

/-! ## Creation -/

theorem create_lives (h : Ok a) (hi : a.state i = .unused) (hb : a.born + 1 < 2 ^ 31) :
    PidsOk (a.create i) ∧ KontsOk (a.create i) ∧ LifeOk (a.create i) := by
  have hi0 : i ≠ 0 := by
    rintro rfl
    rcases h.idle with h' | h' <;> rw [h'] at hi <;> cases hi
  have hnum : a.pidNum = a.born + 1 := by
    rw [h.pids.num, nextPid_of_small (by omega) (by omega)]
  have hborn : (a.create i).born = a.born + 1 := by simp [born, create, created, Obs.created?]
  have hexits : exits (a.create i).hist = exits a.hist := by simp [create, exits, Obs.exited?]
  have hwaits : waits (a.create i).hist = waits a.hist := by simp [create, waits, Obs.waited?]
  have hp : ∀ j, j ≠ i → (a.create i).pid j = a.pid j := fun j hj => Function.update_of_ne hj _ _
  have hpself : (a.create i).pid i = a.pidNum := Function.update_self _ _ _
  have hst : ∀ j, j ≠ i → (a.create i).state j = a.state j := fun j hj => Function.update_of_ne hj _ _
  have hself : (a.create i).state i = .ready := Function.update_self _ _ _
  have hk : ∀ j, j ≠ i → (a.create i).kont j = a.kont j := fun j hj => Function.update_of_ne hj _ _
  have hne : ∀ j st, st ≠ .ready → (a.create i).state j = st → j ≠ i ∧ a.state j = st := by
    intro j st hs hj
    have hji : j ≠ i := by
      rintro rfl
      exact hs (hj.symm.trans hself)
    exact ⟨hji, by rwa [hst j hji] at hj⟩
  have hold : ∀ j, j ≠ 0 → a.state j ≠ .unused → a.pid j ≠ a.pidNum := by
    intro j h0 hj he
    have := (h.pids.range j h0 hj).2
    omega
  refine ⟨⟨?_, ?_, ?_, ?_⟩, ⟨?_, ?_, ?_, ?_, ?_⟩, ⟨?_, ?_, ?_, ?_, ?_, ?_⟩⟩
  · rw [hp 0 (Ne.symm hi0)]
    exact h.pids.idle
  · rw [hborn]
    change nextPid a.pidNum = _
    rw [hnum]
    norm_cast
  · intro j h0 hj
    by_cases hji : j = i
    · subst hji
      rw [hpself, hborn, hnum]
      omega
    · rw [hst j hji] at hj
      rw [hp j hji, hborn]
      have := h.pids.range j h0 hj
      omega
  · intro j k h0 h0' hj hk he
    by_cases hji : j = i <;> by_cases hki : k = i
    · rw [hji, hki]
    · subst hji
      rw [hst k hki] at hk
      rw [hpself, hp k hki] at he
      exact absurd he.symm (hold k h0' hk)
    · subst hki
      rw [hst j hji] at hj
      rw [hpself, hp j hji] at he
      exact absurd he (hold j h0 hj)
    · rw [hst j hji] at hj
      rw [hst k hki] at hk
      rw [hp j hji, hp k hki] at he
      exact h.pids.inj j k h0 h0' hj hk he
  · intro j hj
    obtain ⟨hji, hj⟩ := hne j _ (by decide) hj
    rw [hk j hji]
    exact h.konts.asleep j hj
  · intro j hj
    obtain ⟨hji, hj⟩ := hne j _ (by decide) hj
    rw [hk j hji, hp j hji]
    exact h.konts.killed j hj
  · intro j hj
    by_cases hji : j = i
    · subst hji
      simp [create]
    · rw [hk j hji]
      rw [hst j hji] at hj
      exact h.konts.alive j hj
  · rw [hk 0 (Ne.symm hi0)]
    exact h.konts.idle
  · intro j p hj hkp k hkk
    obtain ⟨hji, hj⟩ := hne j _ (by decide) hj
    obtain ⟨hki, hkk⟩ := hne k _ (by decide) hkk
    rw [hk j hji] at hkp
    rw [hp k hki]
    exact h.konts.heard j p hj hkp k hkk
  · intro p hpm
    rw [hexits] at hpm
    have := h.life.range p hpm
    rw [hborn]
    omega
  · intro p
    rw [hexits, hwaits, h.life.exited p]
    refine or_congr Iff.rfl ⟨?_, ?_⟩
    · rintro ⟨j, hj, rfl⟩
      have hji : j ≠ i := by
        rintro rfl
        rw [hi] at hj
        cases hj
      exact ⟨j, by rw [hst j hji]; exact hj, hp j hji⟩
    · rintro ⟨j, hj, rfl⟩
      obtain ⟨hji, hj⟩ := hne j _ (by decide) hj
      exact ⟨j, hj, (hp j hji).symm⟩
  · intro p hpm j hj
    rw [hwaits] at hpm
    by_cases hji : j = i
    · subst hji
      rw [hpself, hnum]
      have := h.life.range p ((h.life.exited p).mpr (Or.inl hpm))
      omega
    · rw [hst j hji] at hj
      rw [hp j hji]
      exact h.life.gone p hpm j hj
  · rw [hexits]
    exact h.life.exitsOnce
  · rw [hwaits]
    exact h.life.waitsOnce
  · intro h₁ w p h₂ he
    have hh : (a.create i).hist = a.hist ++ [.created a.pidNum] := rfl
    rw [hh] at he
    rcases List.append_eq_append_iff.mp he with ⟨l, rfl, hl⟩ | ⟨l, hl, hl'⟩
    · cases l with
      | nil => cases hl
      | cons o l =>
          obtain ⟨-, hl⟩ := List.cons.inj hl
          simp at hl
    · cases l with
      | nil => cases hl'
      | cons o l =>
          obtain ⟨rfl, -⟩ := List.cons.inj hl'
          exact h.life.ordered h₁ w p l hl

/-! ## Every step -/

theorem Ok.pid_current (h : Ok a) : a.pid a.current = 0 ↔ a.current = 0 := by
  constructor
  · intro hp
    by_contra hc
    have := (h.pids.range a.current hc (by rw [h.current_running]; decide)).1
    omega
  · intro hc
    rw [hc]
    exact h.pids.idle

/-- A suspended system call is not the idle process's. -/
theorem Ok.current_ne (h : Ok a) (hu : a.kont a.current ≠ .user)
    (ht : a.kont a.current ≠ .trapReturn) : a.current ≠ 0 := by
  intro hc
  rw [hc] at hu ht
  exact h.konts.idle.elim hu ht

theorem Ok.wake (h : Ok a) (w : Int) : Ok (a.wake w) :=
  ⟨wake_schedOk h.toSchedOk w, (wake_calm h.toQueuesOk w).pidsOk h.pids,
    wake_kontsOk h.konts h.toQueuesOk w, (wake_calm h.toQueuesOk w).lifeOk h.life⟩

theorem Ok.runOn (h : Ok a) : Ok a.runOn :=
  ⟨h.toSchedOk.congr rfl rfl rfl, runOn_calm.pidsOk h.pids, runOn_kontsOk h.konts h.toSchedOk,
    runOn_calm.lifeOk h.life⟩

theorem Ok.yield (h : Ok a) : Ok a.yield :=
  ⟨yield_ok h.toSchedOk h.pid_current, (yield_calm h.toSchedOk h.pid_current).pidsOk h.pids,
    yield_kontsOk h.konts h.toSchedOk h.pid_current,
    (yield_calm h.toSchedOk h.pid_current).lifeOk h.life⟩

theorem Ok.sleep (h : Ok a) (hc : a.current ≠ 0) {w : Int} {k : Kont} (hw : reason k = some w)
    (hh : ∀ p, k = .waiting p → ∀ j, a.state j = .killed → a.pid j ≠ p) : Ok (a.sleep w k) :=
  ⟨sleep_ok h.toSchedOk hc w k, (sleep_calm h.toSchedOk hc w k).pidsOk h.pids,
    sleep_kontsOk h.konts h.toSchedOk hc hw hh, (sleep_calm h.toSchedOk hc w k).lifeOk h.life⟩

theorem Ok.waitFor (h : Ok a) (hc : a.current ≠ 0) (p : Int) : Ok (a.waitFor p) :=
  have hl := waitFor_lives h hc p
  ⟨waitFor_ok h.toSchedOk hc p, hl.1, hl.2.1, hl.2.2⟩

/-- Steps that leave the processes alone. -/
theorem Ok.congr (h : Ok a) (hc : Calm a b) (hs : b.state = a.state) (hq : b.queue = a.queue)
    (hcur : b.current = a.current) (hk : b.kont = a.kont) (hw : b.wait = a.wait) : Ok b := by
  have hko := h.konts
  refine ⟨h.toSchedOk.congr hs hq hcur, hc.pidsOk h.pids, ⟨?_, ?_, ?_, ?_, ?_⟩, hc.lifeOk h.life⟩
  · rw [hs, hk, hw]; exact hko.asleep
  · rw [hs, hk, hw, hc.pid]; exact hko.killed
  · rw [hs, hk]; exact hko.alive
  · rw [hk]; exact hko.idle
  · rw [hs, hk, hc.pid]; exact hko.heard

theorem Ok.takeKey (h : Ok a) (f : Nat) : Ok (a.takeKey f) :=
  h.congr (takeKey_calm f) rfl rfl rfl rfl rfl

theorem Ok.acceptKey (h : Ok a) (ch : Nat) : Ok (a.acceptKey ch) :=
  h.congr (acceptKey_calm ch) (acceptKey_state a ch) (acceptKey_queue a ch)
    (acceptKey_current a ch) (acceptKey_kont a ch) (acceptKey_wait a ch)

theorem quiet_calm (os : List Obs) (hos : ∀ o ∈ os, ∃ va, o = .stored va) :
    Calm a { a with hist := a.hist ++ os } := by
  refine ⟨rfl, rfl, fun _ => Iff.rfl, fun _ => Iff.rfl, os, rfl, fun o ho => ?_⟩
  obtain ⟨va, rfl⟩ := hos o ho
  exact ⟨rfl, rfl, rfl⟩

theorem Ok.readKey (h : Ok a) (hc : a.current ≠ 0) : Ok a.readKey := by
  unfold Sched.readKey
  split
  · exact h.sleep hc rfl fun p hp => by cases hp
  · exact h.takeKey _

/-- Each step keeps the scheduler's invariant, while fewer than 2^31 processes exist. -/
theorem step_ok (h : Ok a) (hs : Step a b) (hb : b.born < 2 ^ 31) : Ok b := by
  cases hs with
  | quiet os hos => exact h.congr (quiet_calm os hos) rfl rfl rfl rfl rfl
  | tick _ => exact (h.wake (-1)).yield
  | key ch _ => exact (h.acceptKey ch).wake (-2)
  | sleep old n _ hc => exact h.sleep hc rfl fun p hp => by cases hp
  | exit _ hc =>
      have hl := exit_lifeOk h hc
      exact ⟨exit_ok h.toSchedOk hc, hl.1, exit_kontsOk h hc, hl.2⟩
  | wait p _ hc => exact h.waitFor hc p
  | read _ hc => exact h.readKey hc
  | fork i _ _ hi =>
      have hl := create_lives h hi (by simpa [born, create, created, Obs.created?] using hb)
      exact ⟨create_ok h.toSchedOk hi, hl.1, hl.2.1, hl.2.2⟩
  | back _ => exact h.runOn
  | sleepOn old n hk =>
      have hc := h.current_ne (by simp [hk]) (by simp [hk])
      exact h.runOn.sleep hc rfl fun p hp => by cases hp
  | waitOn p hk =>
      have hc := h.current_ne (by simp [hk]) (by simp [hk])
      exact h.runOn.waitFor hc p
  | take f _ => exact h.runOn.takeKey f

/-! ## No process is switched to itself -/

/-- What `b` adds to the history of `a` has no switch of a process to itself. -/
def Turns (a b : Sched) : Prop :=
  ∃ os, b.hist = a.hist ++ os ∧ ∀ i, Obs.switched i i ∉ os

namespace Turns

theorem of_eq (h : b.hist = a.hist) : Turns a b := ⟨[], by rw [h, List.append_nil], by simp⟩

theorem add {o : Obs} (h : b.hist = a.hist ++ [o]) (ho : ∀ i, o ≠ .switched i i) : Turns a b :=
  ⟨[o], h, fun i hi => ho i (List.mem_singleton.mp hi).symm⟩

theorem trans (h : Turns a b) (h' : Turns b c) : Turns a c := by
  obtain ⟨os, ho, hos⟩ := h
  obtain ⟨os', ho', hos'⟩ := h'
  refine ⟨os ++ os', by rw [ho', ho, List.append_assoc], fun i hi => ?_⟩
  rcases List.mem_append.mp hi with hi | hi
  · exact hos i hi
  · exact hos' i hi

end Turns

theorem schedule_turns {k : Kont} (h : (a.schedule k).current ≠ a.current) :
    Turns a (a.schedule k) := by
  refine Turns.add (schedule_hist a k) fun i hi => ?_
  obtain ⟨h1, h2⟩ := Obs.switched.inj hi
  exact h (h2.trans h1.symm)

/-- A parked process that is not ready is not picked. -/
theorem Parked.next_ne (h : Parked a) {i : Slot} (hi : a.state i ≠ .ready) (k : Kont) :
    (a.schedule k).current ≠ i := by
  rintro rfl
  exact hi (h.next_ready k)

theorem sleep_turns (h : SchedOk a) (hc : a.current ≠ 0) (w : Int) (k : Kont) :
    Turns a (a.sleep w k) := by
  have hw : SchedOk (a.setWait a.current w) := h.congr rfl rfl rfl
  have hst : ((a.setWait a.current w).park .wait).state a.current ≠ .ready := by
    simp [park, enqueue, become, setWait, ListId.state]
  exact schedule_turns ((park_ok hw hc .wait).next_ne hst k)

/-- The ready list was not empty, so its head goes first, not the parked process. -/
theorem yield_turns (h : SchedOk a) : Turns a a.yield := by
  unfold yield
  split
  · exact Turns.of_eq rfl
  · rename_i hq
    obtain ⟨j, rest, hr⟩ := List.exists_cons_of_ne_nil hq
    have hj : j ≠ a.current := by
      rintro rfl
      exact h.current_free .ready (by rw [hr]; exact List.mem_cons_self)
    split
    · have hr' : (a.become a.current .ready).queue .ready = j :: rest := hr
      refine schedule_turns ?_
      rw [schedule_cons _ j _ hr']
      exact hj
    · have hr' : (a.park .ready).queue .ready = j :: (rest ++ [a.current]) := by
        simp [park, enqueue, become, hr]
      refine schedule_turns ?_
      rw [schedule_cons _ j _ hr']
      exact hj

theorem exit_turns (h : SchedOk a) (hc : a.current ≠ 0) : Turns a a.exit := by
  have hst : a.die.state a.current ≠ .ready := by
    rw [((die_state h hc a.current).1).mpr (Or.inl rfl)]
    decide
  exact (Turns.add die_hist nofun).trans
    (schedule_turns ((die_ok h hc).next_ne hst .exited))

theorem waitFor_turns (h : SchedOk a) (hc : a.current ≠ 0) (p : Int) : Turns a (a.waitFor p) := by
  unfold waitFor
  split
  · exact Turns.add rfl nofun
  · exact sleep_turns h hc _ _

theorem readKey_turns (h : SchedOk a) (hc : a.current ≠ 0) : Turns a a.readKey := by
  unfold readKey
  split
  · exact sleep_turns h hc _ _
  · exact Turns.add rfl nofun

theorem step_turns (h : Ok a) (hs : Step a b) : Turns a b := by
  cases hs with
  | quiet os hos =>
      refine ⟨os, rfl, fun i hi => ?_⟩
      obtain ⟨va, hva⟩ := hos _ hi
      cases hva
  | tick _ => exact (Turns.of_eq rfl).trans (yield_turns (h.wake (-1)).toSchedOk)
  | key ch _ =>
      have : Turns a (a.acceptKey ch) := by
        unfold Sched.acceptKey
        split
        · exact Turns.of_eq rfl
        · exact Turns.add rfl nofun
      exact this.trans (Turns.of_eq rfl)
  | sleep old n _ hc => exact sleep_turns h.toSchedOk hc _ _
  | exit _ hc => exact exit_turns h.toSchedOk hc
  | wait p _ hc => exact waitFor_turns h.toSchedOk hc p
  | read _ hc => exact readKey_turns h.toSchedOk hc
  | fork i _ _ hi => exact Turns.add rfl nofun
  | back _ => exact Turns.of_eq rfl
  | sleepOn old n hk =>
      have hc := h.current_ne (by simp [hk]) (by simp [hk])
      exact (Turns.of_eq rfl).trans (sleep_turns h.runOn.toSchedOk hc _ _)
  | waitOn p hk =>
      have hc := h.current_ne (by simp [hk]) (by simp [hk])
      exact (Turns.of_eq rfl).trans (waitFor_turns h.runOn.toSchedOk hc p)
  | take f _ => exact Turns.add rfl nofun

end Sched

end Os64
