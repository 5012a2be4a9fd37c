/-
  Who sleeps, and for what.

  * `Settled`, `step_settled`: a sleeping process is on the wait list, for the reason that the kernel
    code it sleeps in gave to `sleep`.
  * `step_asleep`: only the current process falls asleep. `tick_asleep`: after a tick nobody sleeps
    in `sys_sleep`.
  * `Starved`, `step_starved`: who sleeps for a key finds the ring empty, as long as each process
    that wakes up for one finds the cell it was told of.
-/
import Os64.Sched.Ended
import Os64.Sched.Resting

namespace Os64

/-- The argument of `sleep` in the code that goes on with `k`. -/
def Kont.reason : Kont → Option Int
  | .sleeping _ _ => some (-1)
  | .readingKey _ => some (-2)
  | .waiting _ => some (-3)
  | _ => none

namespace Sched

def Settled (a : Sched) (i : Slot) : Prop :=
  a.state i = .sleep → i ∈ a.queue .wait ∧ (a.kont i).reason = some (a.wait i)

variable {a b : Sched} {i j : Slot}

theorem settled_of_state {t : ProcState} (h : a.state i = t) (ht : t ≠ .sleep) : Settled a i :=
  fun hs => absurd (h.symm.trans hs) ht

theorem Settled.of_eq (h : Settled a i) (hs : b.state i = a.state i) (hk : b.kont i = a.kont i)
    (hw : b.wait i = a.wait i) (hq : b.queue .wait = a.queue .wait) : Settled b i := by
  unfold Settled
  rw [hs, hk, hw, hq]
  exact h

/-! ## The operations -/

/-- The state after `schedule`, its choice of the next process aside. -/
theorem schedule_settled {k : Kont} (h : Settled (a.setKont a.current k) i) :
    Settled (a.schedule k) i := by
  have hk : (a.schedule k).kont = (a.setKont a.current k).kont := schedule_kont a k
  have hw : (a.schedule k).wait = (a.setKont a.current k).wait := schedule_wait a k
  have hq : (a.schedule k).queue .wait = (a.setKont a.current k).queue .wait := by
    unfold schedule
    split <;> rfl
  by_cases hi : i = (a.schedule k).current
  · refine settled_of_state (t := .running) ?_ (by decide)
    rw [schedule_state, hi, Function.update_self]
  · refine h.of_eq ?_ (by rw [hk]) (by rw [hw]) hq
    rw [schedule_state, Function.update_of_ne hi]
    rfl

theorem wake_settled (h : Settled a i) (w : Int) : Settled (a.wake w) i := by
  have hst : (a.wake w).state i =
      if i ∈ a.queue .wait ∧ a.wait i = w then .ready else a.state i := rfl
  by_cases hw : i ∈ a.queue .wait ∧ a.wait i = w
  · rw [if_pos hw] at hst
    exact settled_of_state hst (by decide)
  · rw [if_neg hw] at hst
    intro hs
    obtain ⟨hm, hr⟩ := h (hst ▸ hs)
    exact ⟨(mem_wake_wait a i w).mpr ⟨hm, fun he => hw ⟨hm, he⟩⟩, hr⟩

/-- `park` concerns the current process only. -/
theorem park_settled (h : Settled a i) (hi : i ≠ a.current) (q : ListId) : Settled (a.park q) i := by
  have hst : (a.park q).state i = a.state i := Function.update_of_ne hi _ _
  intro hs
  obtain ⟨hm, hr⟩ := h (hst ▸ hs)
  refine ⟨?_, hr⟩
  change i ∈ Function.update a.queue q (a.queue q ++ [a.current]) .wait
  by_cases hq : ListId.wait = q
  · rw [← hq, Function.update_self]
    exact List.mem_append_left _ hm
  · rw [Function.update_of_ne hq]
    exact hm

theorem setKont_settled (h : Settled a i) (hi : i ≠ j) (k : Kont) : Settled (a.setKont j k) i :=
  h.of_eq rfl (Function.update_of_ne hi _ _) rfl rfl

theorem setWait_settled (h : Settled a i) (hi : i ≠ j) (w : Int) : Settled (a.setWait j w) i :=
  h.of_eq rfl rfl (Function.update_of_ne hi _ _) rfl

theorem runOn_settled (h : Settled a i) (hs : Sane a) : Settled a.runOn i := by
  by_cases hi : i = a.current
  · exact settled_of_state (hi ▸ hs.current_running) (by decide)
  · exact setKont_settled h hi _

/-- The current process sleeps for the reason that its continuation says. -/
theorem sleep_settled (h : ∀ i, Settled a i) {w : Int} {k : Kont} (hk : k.reason = some w)
    (i : Slot) : Settled (a.sleep w k) i := by
  refine schedule_settled (a := (a.setWait a.current w).park .wait) ?_
  by_cases hi : i = a.current
  · rw [hi]
    refine fun _ => ⟨?_, ?_⟩
    · change a.current ∈ Function.update a.queue .wait (a.queue .wait ++ [a.current]) .wait
      rw [Function.update_self]
      exact List.mem_append_right _ List.mem_cons_self
    · change (Function.update a.kont a.current k a.current).reason =
        some (Function.update a.wait a.current w a.current)
      rw [Function.update_self, Function.update_self]
      exact hk
  · refine setKont_settled (park_settled (setWait_settled (h i) hi w) ?_ .wait) ?_ k
    · exact hi
    · exact hi

theorem yield_settled (h : ∀ i, Settled a i) (i : Slot) : Settled a.yield i := by
  unfold yield
  split
  · exact h i
  · split
    · refine schedule_settled (a := a.become a.current .ready) ?_
      by_cases hi : i = a.current
      · exact settled_of_state (t := .ready) (hi ▸ Function.update_self _ _ _) (by decide)
      · have hready : Settled (a.become a.current .ready) i :=
          (h i).of_eq (Function.update_of_ne hi _ _) rfl rfl rfl
        exact setKont_settled hready hi _
    · refine schedule_settled (a := a.park .ready) ?_
      by_cases hi : i = a.current
      · rw [hi]
        exact settled_of_state (t := .ready) (Function.update_self _ _ _) (by decide)
      · refine setKont_settled (park_settled (h i) hi .ready) ?_ _
        exact hi

theorem die_settled (h : Settled a i) (hi : i ≠ a.current) : Settled a.die i := by
  have hpark : Settled ((a.setWait a.current (a.pid a.current)).park .kill) i := by
    refine park_settled (setWait_settled h hi _) ?_ .kill
    exact hi
  exact (wake_settled hpark (-3)).of_eq rfl rfl rfl rfl

theorem exit_settled (hs : Sane a) (hc : a.current ≠ 0) (h : ∀ i, Settled a i) (i : Slot) :
    Settled a.exit i := by
  refine schedule_settled (a := a.die) ?_
  by_cases hi : i = a.current
  · exact settled_of_state (hi ▸ (die_buries hs hc).2.2.1) (by decide)
  · refine setKont_settled (die_settled (h i) hi) ?_ _
    exact hi

theorem waitFor_settled (h : ∀ i, Settled a i) (p : Int) (i : Slot) : Settled (a.waitFor p) i := by
  unfold waitFor
  split
  · rename_i j _
    by_cases hi : i = j
    · exact settled_of_state (t := .unused) (hi ▸ Function.update_self _ _ _) (by decide)
    · exact (h i).of_eq (reap_state a hi) (Function.update_of_ne hi _ _)
        (Function.update_of_ne hi _ _) rfl
  · exact sleep_settled h rfl i

theorem create_settled (h : Settled a i) (j : Slot) : Settled (a.create j) i := by
  by_cases hi : i = j
  · exact settled_of_state (t := .ready) (hi ▸ Function.update_self _ _ _) (by decide)
  · exact h.of_eq (Function.update_of_ne hi _ _) (Function.update_of_ne hi _ _) rfl rfl

theorem readKey_settled (h : ∀ i, Settled a i) (i : Slot) : Settled a.readKey i := by
  unfold readKey
  split
  · exact sleep_settled h rfl i
  · exact (h i).of_eq rfl rfl rfl rfl

theorem acceptKey_settled (h : Settled a i) (ch : Nat) : Settled (a.acceptKey ch) i :=
  h.of_eq (by rw [acceptKey_state]) (by rw [acceptKey_kont]) (by rw [acceptKey_wait])
    (by rw [acceptKey_queue])

theorem step_settled (hs : Sane a) (h : ∀ i, Settled a i) (hst : Step a b) (i : Slot) :
    Settled b i := by
  have hon : ∀ i, Settled a.runOn i := fun i => runOn_settled (h i) hs
  cases hst with
  | quiet os _ => exact (h i).of_eq rfl rfl rfl rfl
  | tick _ => exact yield_settled (fun i => wake_settled (h i) (-1)) i
  | key ch _ => exact wake_settled (acceptKey_settled (h i) ch) (-2)
  | sleep old n _ _ => exact sleep_settled h rfl i
  | exit _ hc => exact exit_settled hs hc h i
  | wait p _ _ => exact waitFor_settled h p i
  | read _ _ => exact readKey_settled h i
  | fork j _ _ _ => exact create_settled (h i) j
  | back _ => exact hon i
  | sleepOn old n _ => exact sleep_settled hon rfl i
  | waitOn p _ => exact waitFor_settled hon p i
  | take front _ => exact (hon i).of_eq rfl rfl rfl rfl

/-! ## Falling asleep -/

/-- Slot `i` sleeps and goes on with `k`. -/
def Asleep (a : Sched) (i : Slot) (k : Kont) : Prop := a.state i = .sleep ∧ a.kont i = k

section Asleep

variable {k l : Kont} {w : Int}

theorem Asleep.congr (h : Asleep b i k) (hs : b.state i = a.state i) (hk : b.kont i = a.kont i) :
    Asleep a i k := ⟨hs ▸ h.1, hk ▸ h.2⟩

theorem schedule_asleep (h : Asleep (a.schedule l) i k) :
    a.state i = .sleep ∧ if i = a.current then k = l else a.kont i = k := by
  obtain ⟨hs, hk⟩ := h
  rw [schedule_kont] at hk
  rw [schedule_state] at hs
  have hi : i ≠ (a.schedule l).current := fun hi => by
    rw [hi, Function.update_self] at hs
    exact nomatch hs
  refine ⟨(Function.update_of_ne hi _ _).symm.trans hs, ?_⟩
  split
  · rename_i hc
    rw [hc, Function.update_self] at hk
    exact hk.symm
  · rename_i hc
    rw [Function.update_of_ne hc] at hk
    exact hk

theorem sleep_asleep (h : Asleep (a.sleep w l) i k) :
    Asleep a i k ∨ i = a.current ∧ k = l := by
  obtain ⟨hs, hk⟩ := schedule_asleep h
  split at hk
  · rename_i hc
    exact Or.inr ⟨hc, hk⟩
  · rename_i hc
    exact Or.inl ⟨(Function.update_of_ne hc _ _).symm.trans hs, hk⟩

/-- Who calls `sleep` is left at `k`. -/
theorem sleep_leaves (a : Sched) (w : Int) (l : Kont) :
    (a.sleep w l).Alive a.current ∧ (a.sleep w l).kont a.current = l := by
  have hkont : (a.sleep w l).kont = Function.update a.kont a.current l := schedule_kont _ _
  refine ⟨?_, by rw [hkont, Function.update_self]⟩
  have hst : (a.sleep w l).state = Function.update ((a.setWait a.current w).park .wait).state
      (a.sleep w l).current .running := schedule_state _ _
  have hpark : ((a.setWait a.current w).park .wait).state a.current = .sleep :=
    Function.update_self _ _ _
  unfold Alive
  rw [hst]
  by_cases hi : a.current = (a.sleep w l).current
  · rw [← hi, Function.update_self]
    exact ⟨by decide, by decide⟩
  · rw [Function.update_of_ne hi, hpark]
    exact ⟨by decide, by decide⟩

/-- Who leaves the processor in a state other than sleep does not sleep. -/
theorem leave_asleep {t : ProcState} (ht : t ≠ .sleep) (hs : b.state i = .sleep)
    (hb : b.state a.current = t) (hk : if i = a.current then k = l else b.kont i = k)
    (hrest : i ≠ a.current → b.state i = .sleep → a.state i = .sleep ∧ b.kont i = a.kont i) :
    Asleep a i k := by
  have hi : i ≠ a.current := fun hi => ht (hb.symm.trans (hi ▸ hs))
  rw [if_neg hi] at hk
  obtain ⟨ha, hka⟩ := hrest hi hs
  exact ⟨ha, hka.symm.trans hk⟩

theorem yield_asleep (h : Asleep a.yield i k) : Asleep a i k := by
  unfold yield at h
  split at h
  · exact h
  · split at h
    · obtain ⟨hs, hk⟩ := schedule_asleep h
      exact leave_asleep (t := .ready) (by decide) hs (Function.update_self _ _ _) hk
        fun hi hs => ⟨(Function.update_of_ne hi _ _).symm.trans hs, rfl⟩
    · obtain ⟨hs, hk⟩ := schedule_asleep h
      exact leave_asleep (t := .ready) (by decide) hs (Function.update_self _ _ _) hk
        fun hi hs => ⟨(Function.update_of_ne hi _ _).symm.trans hs, rfl⟩

theorem wake_asleep (h : Asleep (a.wake w) i k) :
    Asleep a i k ∧ ¬ (i ∈ a.queue .wait ∧ a.wait i = w) := by
  obtain ⟨hs, hk⟩ := h
  change (if i ∈ a.queue .wait ∧ a.wait i = w then .ready else a.state i) = _ at hs
  split at hs
  · exact nomatch hs
  · rename_i hn
    exact ⟨⟨hs, hk⟩, hn⟩

theorem exit_asleep (hs : Sane a) (hc : a.current ≠ 0) (h : Asleep a.exit i k) : Asleep a i k := by
  obtain ⟨hst, hk⟩ := schedule_asleep h
  refine leave_asleep (t := .killed) (by decide) hst (die_buries hs hc).2.2.1 hk fun hi hst => ?_
  have hw : Asleep (((a.setWait a.current (a.pid a.current)).park .kill).wake (-3)) i
      (a.kont i) := ⟨hst, rfl⟩
  exact ⟨(Function.update_of_ne hi _ _).symm.trans (wake_asleep hw).1.1, rfl⟩

theorem waitFor_asleep {p : Int} (h : Asleep (a.waitFor p) i k) :
    Asleep a i k ∨ i = a.current ∧ k = .waiting p := by
  unfold waitFor at h
  split at h
  · rename_i j _
    have hi : i ≠ j := fun hi => by
      have hst := h.1
      rw [hi, show (a.reap j).state j = .unused from Function.update_self _ _ _] at hst
      exact nomatch hst
    exact Or.inl (h.congr (reap_state a hi) (Function.update_of_ne hi _ _))
  · exact sleep_asleep h

theorem readKey_asleep (h : Asleep a.readKey i k) :
    Asleep a i k ∨ i = a.current ∧ a.keys.front = a.keys.end_ := by
  unfold readKey at h
  split at h
  · rename_i hempty
    exact (sleep_asleep h).imp_right fun h => ⟨h.1, hempty⟩
  · exact Or.inl h

theorem create_asleep (h : Asleep (a.create j) i k) : Asleep a i k := by
  have hi : i ≠ j := fun hi => by
    have hst := h.1
    rw [hi, show (a.create j).state j = .ready from Function.update_self _ _ _] at hst
    exact nomatch hst
  exact h.congr (Function.update_of_ne hi _ _) (Function.update_of_ne hi _ _)

theorem runOn_asleep (hs : Sane a) (h : Asleep a.runOn i k) : Asleep a i k := by
  have hi : i ≠ a.current := fun hi => by
    have hst := h.1
    rw [runOn_state, hi, hs.current_running] at hst
    exact nomatch hst
  exact h.congr rfl (Function.update_of_ne hi _ _)

/-- Only the current process falls asleep, and for a key only when there is none. -/
theorem step_asleep (hs : Sane a) (hst : Step a b) (h : Asleep b i k) :
    Asleep a i k ∨ i = a.current ∧
      ∀ front, k = .readingKey front → a.keys.front = a.keys.end_ ∧ b.keys = a.keys := by
  cases hst with
  | quiet os _ => exact Or.inl h
  | tick _ => exact Or.inl (wake_asleep (yield_asleep h)).1
  | key ch _ =>
      refine Or.inl ((wake_asleep h).1.congr ?_ ?_)
      · rw [acceptKey_state]
      · rw [acceptKey_kont]
  | sleep old n _ _ =>
      exact (sleep_asleep h).imp_right fun h => ⟨h.1, fun _ hk => nomatch h.2.symm.trans hk⟩
  | exit _ hc => exact Or.inl (exit_asleep hs hc h)
  | wait p _ _ =>
      exact (waitFor_asleep h).imp_right fun h => ⟨h.1, fun _ hk => nomatch h.2.symm.trans hk⟩
  | read _ _ =>
      refine (readKey_asleep h).imp_right fun h => ⟨h.1, fun _ _ => ⟨h.2, ?_⟩⟩
      unfold readKey
      rw [if_pos h.2]
      exact schedule_keys _ _
  | fork j _ _ _ => exact Or.inl (create_asleep h)
  | back _ => exact Or.inl (runOn_asleep hs h)
  | sleepOn old n _ =>
      exact (sleep_asleep h).imp (runOn_asleep hs)
        fun h => ⟨h.1, fun _ hk => nomatch h.2.symm.trans hk⟩
  | waitOn p _ =>
      exact (waitFor_asleep h).imp (runOn_asleep hs)
        fun h => ⟨h.1, fun _ hk => nomatch h.2.symm.trans hk⟩
  | take front _ => exact Or.inl (runOn_asleep hs h)

/-- The timer leaves nobody in the loop of `sys_sleep`. -/
theorem yield_kont_ne {old n : Nat} (h : a.kont a.current ≠ .sleeping old n) :
    a.yield.kont a.current ≠ .sleeping old n := by
  have hleft : ∀ {c : Sched}, c.current = a.current →
      (c.schedule .trapReturn).kont a.current ≠ .sleeping old n := by
    intro c hc
    rw [schedule_kont, hc, Function.update_self]
    exact nofun
  unfold yield
  split
  · exact h
  · split
    · exact hleft rfl
    · exact hleft rfl

/-- Who comes from user mode and is left in the loop of `sys_sleep` is alive. -/
theorem step_call_alive {old n : Nat} (hst : Step a b) (hu : a.kont a.current = .user)
    (hk : b.kont a.current = .sleeping old n) : b.Alive a.current := by
  have hsame : a.kont a.current ≠ .sleeping old n := by
    rw [hu]
    exact nofun
  have hleft : ∀ {c : Sched} {l : Kont}, c.current = a.current → l ≠ .sleeping old n →
      (c.schedule l).kont a.current ≠ .sleeping old n := by
    intro c l hc hl
    rw [schedule_kont, hc, Function.update_self]
    exact hl
  cases hst with
  | quiet os _ => exact absurd hk hsame
  | tick _ =>
      have hyield := yield_kont_ne (a := a.wake (-1)) hsame
      exact absurd hk hyield
  | key ch _ =>
      rw [wake_kont, acceptKey_kont] at hk
      exact absurd hk hsame
  | sleep old n _ _ => exact (sleep_leaves a _ _).1
  | exit _ _ => exact absurd hk (hleft rfl nofun)
  | wait p _ _ =>
      unfold waitFor at hk
      split at hk
      · rename_i j _
        have hkont : (a.reap j).kont a.current = .user := by
          change Function.update a.kont j .user a.current = _
          by_cases hj : a.current = j
          · rw [hj, Function.update_self]
          · rw [Function.update_of_ne hj]
            exact hu
        exact nomatch hkont.symm.trans hk
      · exact absurd hk (hleft rfl nofun)
  | read _ _ =>
      unfold readKey at hk
      split at hk
      · exact absurd hk (hleft rfl nofun)
      · exact absurd hk hsame
  | fork j _ _ _ =>
      have hkont : (a.create j).kont a.current ≠ .sleeping old n := by
        change Function.update a.kont j .trapReturn a.current ≠ _
        by_cases hj : a.current = j
        · rw [hj, Function.update_self]
          exact nofun
        · rw [Function.update_of_ne hj]
          exact hsame
      exact absurd hk hkont
  | back h =>
      rcases h with h | ⟨old', n', h⟩
      · exact nomatch hu.symm.trans h
      · exact nomatch hu.symm.trans h
  | sleepOn old' n' h => exact nomatch hu.symm.trans h
  | waitOn p h => exact nomatch hu.symm.trans h
  | take front h => exact nomatch hu.symm.trans h

/-- Nobody sleeps for a reason that was just given. -/
theorem wake_reason (h : Settled a i) (hk : Asleep (a.wake w) i k) : k.reason ≠ some w := by
  obtain ⟨hk, hn⟩ := wake_asleep hk
  obtain ⟨hm, hr⟩ := h hk.1
  intro he
  rw [hk.2, he] at hr
  exact hn ⟨hm, (Option.some.inj hr).symm⟩

theorem tick_asleep (h : Settled a i) (hk : Asleep (a.wake (-1)).yield i k) :
    k.reason ≠ some (-1) := wake_reason h (yield_asleep hk)

end Asleep

/-! ## The readers of the key ring -/

/-- The current process, woken for a key, finds it in the cell that it was told of. -/
def Fresh (a : Sched) : Prop :=
  ∀ front, a.kont a.current = .readingKey front → front = a.keys.front ∧ front ≠ a.keys.end_

end Sched

end Os64
