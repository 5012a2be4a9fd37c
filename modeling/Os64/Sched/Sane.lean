/-
  What holds of the scheduler on every run, however many processes it created.

  Process numbers wrap after 2^31 creations, and a process whose number is 0 is then left
  off the ready list by `yield`. `Sane` says what remains: whoever is on a list is in that
  list's state, one process runs, and the idle process neither sleeps nor exits.

  * `step_sane`: every step keeps this.
  * `Ok.sane`: it is part of the invariant of shorter runs.
-/
import Os64.Sched.History

namespace Os64

/-- A record of neither a store to user memory nor a reaping. -/
def Obs.mute : Obs → Prop
  | .stored _ => False
  | .waited _ _ => False
  | _ => True

namespace Sched

/-- The lists, with or without a running process. -/
structure Listed (a : Sched) : Prop where
  member : ∀ q i, i ∈ a.queue q → i ≠ 0 ∧ a.state i = q.state
  nodup : ∀ q, (a.queue q).Nodup
  idle : a.state 0 = .running ∨ a.state 0 = .ready

structure Sane (a : Sched) : Prop extends Listed a where
  running : ∀ i, a.state i = .running ↔ i = a.current
  kont : a.kont 0 = .user ∨ a.kont 0 = .trapReturn
  pid : a.pid 0 = 0

variable {a b : Sched} {i : Slot}

theorem Ok.sane (h : Ok a) : Sane a :=
  ⟨⟨fun q i hi => (h.queued q i).mp hi, h.nodup, h.idle⟩, h.running, h.konts.idle,
    h.pids.idle⟩

theorem Listed.congr (h : Listed a) (hs : b.state = a.state) (hq : b.queue = a.queue) : Listed b :=
  ⟨by rw [hs, hq]; exact h.member, by rw [hq]; exact h.nodup, by rw [hs]; exact h.idle⟩

theorem Sane.congr (h : Sane a) (hs : b.state = a.state) (hq : b.queue = a.queue)
    (hc : b.current = a.current) (hk : b.kont = a.kont) (hp : b.pid = a.pid) : Sane b :=
  ⟨h.toListed.congr hs hq, by rw [hs, hc]; exact h.running, by rw [hk]; exact h.kont,
    by rw [hp]; exact h.pid⟩

theorem Listed.apart (h : Listed a) {q q' : ListId} (hq : i ∈ a.queue q) (hq' : i ∈ a.queue q') :
    q = q' :=
  ListId.state_inj ((h.member q i hq).2.symm.trans (h.member q' i hq').2)

namespace Sane

theorem current_running (h : Sane a) : a.state a.current = .running := (h.running _).mpr rfl

theorem current_free (h : Sane a) (q : ListId) : a.current ∉ a.queue q := by
  intro hm
  have hs := (h.member q _ hm).2
  rw [h.current_running] at hs
  cases q <;> cases hs

theorem current_ne (h : Sane a) (hu : a.kont a.current ≠ .user)
    (ht : a.kont a.current ≠ .trapReturn) : a.current ≠ 0 := by
  intro hc
  rw [hc] at hu ht
  exact h.kont.elim hu ht

theorem unused_ne {i : Slot} (h : Sane a) (hi : a.state i = .unused) : i ≠ 0 := by
  rintro rfl
  rcases h.idle with h' | h' <;> rw [h'] at hi <;> cases hi

theorem unused_free (h : Listed a) (hi : a.state i = .unused) (q : ListId) : i ∉ a.queue q := by
  intro hm
  have hs := (h.member q i hm).2
  rw [hi] at hs
  cases q <;> cases hs

end Sane

/-! ## Each operation keeps the lists -/

/-- The running process gives up the processor: it is in state `st` and on the lists `L`. -/
theorem Sane.leave (h : Sane a) {t : ProcState} {L : ListId → List Slot} (ht : t ≠ .running)
    (h0 : a.current = 0 → t = .ready)
    (hL : ∀ q, L q = a.queue q ∨ t = q.state ∧ a.current ≠ 0 ∧ L q = a.queue q ++ [a.current]) :
    Listed { a.become a.current t with queue := L } ∧ ∀ i, (a.become a.current t).state i ≠ .running := by
  have hup : ∀ i, i ≠ a.current → (a.become a.current t).state i = a.state i := fun i hi =>
    Function.update_of_ne hi _ _
  have hself : (a.become a.current t).state a.current = t := Function.update_self _ _ _
  refine ⟨⟨fun q i hi => ?_, fun q => ?_, ?_⟩, fun i => ?_⟩
  · change i ∈ L q at hi
    change i ≠ 0 ∧ (a.become a.current t).state i = q.state
    rcases hL q with hl | ⟨hq, hc, hl⟩
    · rw [hl] at hi
      rw [hup i fun he => h.current_free q (he ▸ hi)]
      exact h.member q i hi
    · rw [hl] at hi
      rcases List.mem_append.mp hi with hi | hi
      · rw [hup i fun he => h.current_free q (he ▸ hi)]
        exact h.member q i hi
      · rw [List.mem_singleton.mp hi, hself]
        exact ⟨hc, hq⟩
  · change (L q).Nodup
    rcases hL q with hl | ⟨-, -, hl⟩
    · rw [hl]
      exact h.nodup q
    · rw [hl, List.nodup_append]
      refine ⟨h.nodup q, List.nodup_singleton _, ?_⟩
      rintro x hx y hy rfl
      rw [List.mem_singleton.mp hy] at hx
      exact h.current_free q hx
  · change (a.become a.current t).state 0 = _ ∨ (a.become a.current t).state 0 = _
    by_cases hc : (0 : Slot) = a.current
    · rw [hc, hself]
      exact Or.inr (h0 hc.symm)
    · rw [hup 0 hc]
      exact h.idle
  · by_cases hi : i = a.current
    · rw [hi, hself]
      exact ht
    · rw [hup i hi]
      exact fun hr => hi ((h.running i).mp hr)

theorem park_listed (h : Sane a) (hc : a.current ≠ 0) (q : ListId) :
    Listed (a.park q) ∧ ∀ i, (a.park q).state i ≠ .running := by
  refine h.leave (L := (a.park q).queue) (by cases q <;> decide) (fun h0 => absurd h0 hc)
    fun q' => ?_
  by_cases hq : q' = q
  · subst hq
    exact Or.inr ⟨rfl, hc, by simp [park, enqueue, become]⟩
  · exact Or.inl (by simp [park, enqueue, become, Function.update_of_ne hq])

/-- Whoever comes next runs, and the one that leaves goes on at `k`. -/
theorem schedule_sane (h : Listed a) (hstill : ∀ i, a.state i ≠ .running) {k : Kont}
    (h0 : a.kont 0 = .user ∨ a.kont 0 = .trapReturn) (hp : a.pid 0 = 0)
    (hk : a.current = 0 → k = .trapReturn) : Sane (a.schedule k) := by
  have hk : (a.setKont a.current k).kont 0 = .user ∨ (a.setKont a.current k).kont 0 = .trapReturn := by
    by_cases hc : (0 : Slot) = a.current
    · refine Or.inr (Eq.trans ?_ (hk hc.symm))
      unfold setKont
      dsimp only
      rw [hc, Function.update_self]
    · unfold setKont
      dsimp only
      rw [Function.update_of_ne hc]
      exact h0
  have hrun : ∀ j : Slot, ∀ i, Function.update a.state j .running i = .running ↔ i = j := by
    intro j i
    by_cases hi : i = j
    · rw [hi, Function.update_self]
      exact iff_of_true rfl rfl
    · rw [Function.update_of_ne hi]
      exact iff_of_false (hstill i) hi
  have hidle : ∀ j : Slot, Function.update a.state j .running 0 = .running ∨
      Function.update a.state j .running 0 = .ready := by
    intro j
    by_cases h0 : (0 : Slot) = j
    · rw [h0, Function.update_self]
      exact Or.inl rfl
    · rw [Function.update_of_ne h0]
      exact h.idle
  cases hr : a.queue .ready with
  | nil =>
      rw [schedule_nil a k hr]
      refine ⟨⟨fun q i hi => ?_, h.nodup, hidle 0⟩, hrun 0, hk, hp⟩
      obtain ⟨hi0, hs⟩ := h.member q i hi
      exact ⟨hi0, (Function.update_of_ne hi0 _ _).trans hs⟩
  | cons j rest =>
      have hj := h.member .ready j (by rw [hr]; exact List.mem_cons_self)
      have hnd := h.nodup .ready
      rw [hr] at hnd
      rw [schedule_cons a j k hr]
      refine ⟨⟨fun q i hi => ?_, fun q => ?_, hidle j⟩, hrun j, hk, hp⟩
      · change i ∈ Function.update a.queue .ready rest q at hi
        have hiq : i ∈ a.queue q ∧ i ≠ j := by
          by_cases hq : q = .ready
          · subst hq
            rw [Function.update_self] at hi
            refine ⟨by rw [hr]; exact List.mem_cons_of_mem j hi, ?_⟩
            rintro rfl
            exact (List.nodup_cons.mp hnd).1 hi
          · rw [Function.update_of_ne hq] at hi
            refine ⟨hi, ?_⟩
            rintro rfl
            exact hq (h.apart hi (by rw [hr]; exact List.mem_cons_self))
        obtain ⟨hi0, hs⟩ := h.member q i hiq.1
        exact ⟨hi0, (Function.update_of_ne hiq.2 _ _).trans hs⟩
      · change (Function.update a.queue .ready rest q).Nodup
        by_cases hq : q = .ready
        · subst hq
          rw [Function.update_self]
          exact (List.nodup_cons.mp hnd).2
        · rw [Function.update_of_ne hq]
          exact h.nodup q

theorem wake_listed (h : Listed a) (w : Int) :
    Listed (a.wake w) ∧ ∀ i, (a.wake w).state i = .running ↔ a.state i = .running := by
  have hst : ∀ i, (a.wake w).state i =
      if i ∈ a.queue .wait ∧ a.wait i = w then .ready else a.state i := fun _ => rfl
  have hother : ∀ q i, q ≠ .wait → i ∈ a.queue q → ¬ (i ∈ a.queue .wait ∧ a.wait i = w) :=
    fun q i hq hi hw => hq (h.apart hi hw.1)
  refine ⟨⟨fun q i hi => ?_, fun q => ?_, ?_⟩, fun i => ?_⟩
  · rw [hst]
    cases q with
    | ready =>
        rcases (mem_wake_ready a i w).mp hi with hi | hi
        · rw [if_neg (hother .ready i (by decide) hi)]
          exact h.member .ready i hi
        · rw [if_pos hi]
          exact ⟨(h.member .wait i hi.1).1, rfl⟩
    | wait =>
        obtain ⟨hi, hw⟩ := (mem_wake_wait a i w).mp hi
        rw [if_neg fun hn => hw hn.2]
        exact h.member .wait i hi
    | kill =>
        rw [wake_queue_kill] at hi
        rw [if_neg (hother .kill i (by decide) hi)]
        exact h.member .kill i hi
  · cases q with
    | ready =>
        simp only [wake, Function.update_self]
        rw [List.nodup_append]
        refine ⟨h.nodup _, (h.nodup .wait).filter _, ?_⟩
        rintro x hx y hy rfl
        exact absurd (h.apart hx (List.mem_of_mem_filter hy)) (by decide)
    | wait =>
        simp only [wake]
        rw [Function.update_of_ne (by decide), Function.update_self]
        exact (h.nodup .wait).filter _
    | kill =>
        rw [wake_queue_kill]
        exact h.nodup .kill
  · rw [hst]
    split
    · exact Or.inr rfl
    · exact h.idle
  · rw [hst]
    split
    · rename_i hw
      rw [(h.member .wait i hw.1).2]
      decide
    · exact Iff.rfl

theorem wake_sane (h : Sane a) (w : Int) : Sane (a.wake w) := by
  obtain ⟨hl, hr⟩ := wake_listed h.toListed w
  exact ⟨hl, fun i => (hr i).trans (h.running i), h.kont, h.pid⟩

theorem runOn_sane (h : Sane a) : Sane a.runOn := by
  refine ⟨h.toListed.congr rfl rfl, h.running, ?_, h.pid⟩
  unfold runOn setKont
  dsimp only
  by_cases hc : (0 : Slot) = a.current
  · rw [hc, Function.update_self]
    exact Or.inl rfl
  · rw [Function.update_of_ne hc]
    exact h.kont

theorem sleep_sane (h : Sane a) (hc : a.current ≠ 0) (w : Int) (k : Kont) : Sane (a.sleep w k) := by
  have hw : Sane (a.setWait a.current w) := h.congr rfl rfl rfl rfl rfl
  obtain ⟨hl, hs⟩ := park_listed hw hc .wait
  exact schedule_sane hl hs h.kont h.pid fun h0 => absurd h0 hc

/-- Process number 0 or not, the idle process or another: `yield` keeps the rest in order. -/
theorem yield_sane (h : Sane a) : Sane a.yield := by
  unfold yield
  split
  · exact h
  · split
    · obtain ⟨hl, hs⟩ := h.leave (L := a.queue) (t := .ready) (by decide) (fun _ => rfl)
        fun _ => Or.inl rfl
      exact schedule_sane hl hs h.kont h.pid fun _ => rfl
    · rename_i hp
      have hc : a.current ≠ 0 := fun hc => hp (by rw [hc]; exact h.pid)
      obtain ⟨hl, hs⟩ := park_listed h hc .ready
      exact schedule_sane hl hs h.kont h.pid fun _ => rfl

theorem exit_sane (h : Sane a) (hc : a.current ≠ 0) : Sane a.exit := by
  have hw : Sane (a.setWait a.current (a.pid a.current)) := h.congr rfl rfl rfl rfl rfl
  obtain ⟨hl, hs⟩ := park_listed hw hc .kill
  obtain ⟨hl', hs'⟩ := wake_listed hl (-3)
  have hd : Listed a.die := hl'.congr rfl rfl
  exact schedule_sane hd (fun i hr => hs i ((hs' i).mp hr)) h.kont h.pid
    fun h0 => absurd h0 hc

theorem reap_sane (h : Sane a) (hi : i ∈ a.queue .kill) : Sane (a.reap i) := by
  obtain ⟨hi0, hik⟩ := h.member .kill i hi
  have hic : i ≠ a.current := by
    rintro rfl
    exact h.current_free .kill hi
  have hother : ∀ {β : Type} (g : Slot → β) (x : β) {j : Slot}, j ≠ i → Function.update g i x j = g j :=
    fun g x _ hj => Function.update_of_ne hj _ _
  refine ⟨⟨fun q j hj => ?_, fun q => ?_, ?_⟩, fun j => ?_, ?_, ?_⟩
  · change j ∈ Function.update a.queue .kill ((a.queue .kill).erase i) q at hj
    have hjq : j ∈ a.queue q ∧ j ≠ i := by
      by_cases hq : q = .kill
      · subst hq
        rw [Function.update_self] at hj
        exact ⟨List.mem_of_mem_erase hj, fun he => (h.nodup .kill).not_mem_erase (he ▸ hj)⟩
      · rw [Function.update_of_ne hq] at hj
        exact ⟨hj, fun he => hq (h.toListed.apart (he ▸ hj) hi)⟩
    obtain ⟨hj0, hs⟩ := h.member q j hjq.1
    exact ⟨hj0, (hother a.state _ hjq.2).trans hs⟩
  · change (Function.update a.queue .kill ((a.queue .kill).erase i) q).Nodup
    by_cases hq : q = .kill
    · subst hq
      rw [Function.update_self]
      exact (h.nodup .kill).erase i
    · rw [Function.update_of_ne hq]
      exact h.nodup q
  · have h0 : (a.reap i).state 0 = a.state 0 := hother a.state _ (Ne.symm hi0)
    rw [h0]
    exact h.idle
  · by_cases hj : j = i
    · subst hj
      have hs : (a.reap j).state j = .unused := Function.update_self _ _ _
      rw [hs]
      exact iff_of_false (by decide) hic
    · have hs : (a.reap i).state j = a.state j := hother a.state _ hj
      rw [hs]
      exact h.running j
  · have hk : (a.reap i).kont 0 = a.kont 0 := hother a.kont _ (Ne.symm hi0)
    rw [hk]
    exact h.kont
  · have hp : (a.reap i).pid 0 = a.pid 0 := hother a.pid _ (Ne.symm hi0)
    rw [hp]
    exact h.pid

theorem waitFor_sane (h : Sane a) (hc : a.current ≠ 0) (p : Int) : Sane (a.waitFor p) := by
  unfold waitFor
  split
  · rename_i i hf
    exact reap_sane h (find?_kill hf).1
  · exact sleep_sane h hc _ _

theorem create_sane (h : Sane a) (hi : a.state i = .unused) : Sane (a.create i) := by
  have hi0 := h.unused_ne hi
  have hfree := Sane.unused_free h.toListed hi
  have hic : i ≠ a.current := by
    rintro rfl
    rw [h.current_running] at hi
    cases hi
  have hother : ∀ {β : Type} (g : Slot → β) (x : β) {j : Slot}, j ≠ i → Function.update g i x j = g j :=
    fun g x _ hj => Function.update_of_ne hj _ _
  have hself : (a.create i).state i = .ready := Function.update_self _ _ _
  refine ⟨⟨fun q j hj => ?_, fun q => ?_, ?_⟩, fun j => ?_, ?_, ?_⟩
  · change j ∈ Function.update a.queue .ready (a.queue .ready ++ [i]) q at hj
    have hold : ∀ {q'}, j ∈ a.queue q' → j ≠ 0 ∧ (a.create i).state j = q'.state := by
      intro q' hm
      obtain ⟨hj0, hs⟩ := h.member q' j hm
      exact ⟨hj0, (hother a.state _ fun he => hfree q' (he ▸ hm)).trans hs⟩
    by_cases hq : q = .ready
    · subst hq
      rw [Function.update_self] at hj
      rcases List.mem_append.mp hj with hj | hj
      · exact hold hj
      · rw [List.mem_singleton.mp hj]
        exact ⟨hi0, hself⟩
    · rw [Function.update_of_ne hq] at hj
      exact hold hj
  · change (Function.update a.queue .ready (a.queue .ready ++ [i]) q).Nodup
    by_cases hq : q = .ready
    · subst hq
      rw [Function.update_self, List.nodup_append]
      refine ⟨h.nodup .ready, List.nodup_singleton _, ?_⟩
      rintro x hx y hy rfl
      rw [List.mem_singleton.mp hy] at hx
      exact hfree .ready hx
    · rw [Function.update_of_ne hq]
      exact h.nodup q
  · have h0 : (a.create i).state 0 = a.state 0 := hother a.state _ (Ne.symm hi0)
    rw [h0]
    exact h.idle
  · by_cases hj : j = i
    · rw [hj, hself]
      exact iff_of_false (by decide) hic
    · have hs : (a.create i).state j = a.state j := hother a.state _ hj
      rw [hs]
      exact h.running j
  · have hk : (a.create i).kont 0 = a.kont 0 := hother a.kont _ (Ne.symm hi0)
    rw [hk]
    exact h.kont
  · have hp : (a.create i).pid 0 = a.pid 0 := hother a.pid _ (Ne.symm hi0)
    rw [hp]
    exact h.pid

/-! ## Operations that neither make nor reap a process -/

/-- From `a` to `b` no process came or went, and nothing was stored to user memory. -/
structure Mute (a b : Sched) : Prop where
  unused : ∀ i, b.state i = .unused ↔ a.state i = .unused
  hist : ∃ os, b.hist = a.hist ++ os ∧ ∀ o ∈ os, o.mute

namespace Mute

variable {c : Sched}

theorem refl (a : Sched) : Mute a a := ⟨fun _ => Iff.rfl, [], (List.append_nil _).symm, nofun⟩

theorem trans (h : Mute a b) (h' : Mute b c) : Mute a c := by
  obtain ⟨os, ho, hos⟩ := h.hist
  obtain ⟨os', ho', hos'⟩ := h'.hist
  refine ⟨fun i => (h'.unused i).trans (h.unused i), os ++ os', by rw [ho', ho, List.append_assoc],
    fun o hm => ?_⟩
  rcases List.mem_append.mp hm with hm | hm
  · exact hos o hm
  · exact hos' o hm

/-- One record, and the same slots in use. -/
theorem add {o : Obs} (hs : ∀ i, b.state i = .unused ↔ a.state i = .unused)
    (hh : b.hist = a.hist ++ [o]) (ho : o.mute) : Mute a b :=
  ⟨hs, [o], hh, fun x hx => by rw [List.mem_singleton.mp hx]; exact ho⟩

theorem of_hist (hs : ∀ i, b.state i = .unused ↔ a.state i = .unused) (hh : b.hist = a.hist) :
    Mute a b := ⟨hs, [], by rw [hh, List.append_nil], nofun⟩

end Mute

/-- A slot in use changes to another state in use. -/
theorem unused_update {st : ProcState} {j : Slot} (hj : a.state j ≠ .unused) (hst : st ≠ .unused)
    (i : Slot) : Function.update a.state j st i = .unused ↔ a.state i = .unused := by
  by_cases hi : i = j
  · rw [hi, Function.update_self]
    exact iff_of_false hst hj
  · rw [Function.update_of_ne hi]

theorem schedule_mute (h : Listed a) (k : Kont) : Mute a (a.schedule k) := by
  refine .add (fun i => ?_) (schedule_hist a k) trivial
  rw [schedule_state]
  refine unused_update ?_ (by decide) i
  cases hr : a.queue .ready with
  | nil =>
      rw [schedule_nil a k hr]
      change a.state 0 ≠ .unused
      rcases h.idle with h0 | h0 <;> rw [h0] <;> decide
  | cons j rest =>
      rw [schedule_cons a j k hr]
      change a.state j ≠ .unused
      rw [(h.member .ready j (by rw [hr]; exact List.mem_cons_self)).2]
      decide

theorem park_mute (h : Sane a) (q : ListId) : Mute a (a.park q) := by
  refine .of_hist (fun i => ?_) rfl
  have hc : a.state a.current ≠ .unused := by rw [h.current_running]; decide
  exact unused_update hc (by cases q <;> decide) i

theorem wake_mute (h : Listed a) (w : Int) : Mute a (a.wake w) := by
  refine .of_hist (fun i => ?_) rfl
  change (if i ∈ a.queue .wait ∧ a.wait i = w then ProcState.ready else a.state i) = _ ↔ _
  split
  · rename_i hw
    rw [(h.member .wait i hw.1).2]
    decide
  · exact Iff.rfl

theorem runOn_mute (a : Sched) : Mute a a.runOn := .of_hist (fun _ => Iff.rfl) rfl

theorem acceptKey_mute (a : Sched) (ch : Nat) : Mute a (a.acceptKey ch) := by
  unfold acceptKey
  split
  · exact .refl a
  · exact .add (fun _ => Iff.rfl) rfl trivial

theorem takeKey_mute (a : Sched) (front : Nat) : Mute a (a.takeKey front) :=
  .add (fun _ => Iff.rfl) rfl trivial

theorem sleep_mute (h : Sane a) (hc : a.current ≠ 0) (w : Int) (k : Kont) :
    Mute a (a.sleep w k) := by
  have hw : Sane (a.setWait a.current w) := h.congr rfl rfl rfl rfl rfl
  have h₁ : Mute a (a.setWait a.current w) := .of_hist (fun _ => Iff.rfl) rfl
  exact (h₁.trans (park_mute hw .wait)).trans (schedule_mute (park_listed hw hc .wait).1 k)

theorem yield_mute (h : Sane a) : Mute a a.yield := by
  unfold yield
  split
  · exact .refl a
  · split
    · obtain ⟨hl, -⟩ := h.leave (L := a.queue) (t := .ready) (by decide) (fun _ => rfl)
        fun _ => Or.inl rfl
      have h₁ : Mute a (a.become a.current .ready) :=
        .of_hist (unused_update (by rw [h.current_running]; decide) (by decide)) rfl
      exact h₁.trans (schedule_mute hl _)
    · rename_i hp
      have hc : a.current ≠ 0 := fun hc => hp (by rw [hc]; exact h.pid)
      exact (park_mute h .ready).trans (schedule_mute (park_listed h hc .ready).1 _)

theorem exit_mute (h : Sane a) (hc : a.current ≠ 0) : Mute a a.exit := by
  have hw : Sane (a.setWait a.current (a.pid a.current)) := h.congr rfl rfl rfl rfl rfl
  obtain ⟨hl, -⟩ := park_listed hw hc .kill
  have hd : Listed a.die := (wake_listed hl (-3)).1.congr rfl rfl
  have h₁ : Mute a (a.setWait a.current (a.pid a.current)) := .of_hist (fun _ => Iff.rfl) rfl
  have h₂ : Mute _ a.die := (wake_mute hl (-3)).trans (.add (fun _ => Iff.rfl) rfl trivial)
  exact ((h₁.trans (park_mute hw .kill)).trans h₂).trans (schedule_mute hd _)

theorem acceptKey_sane (h : Sane a) (ch : Nat) : Sane (a.acceptKey ch) := by
  unfold acceptKey
  split
  · exact h
  · exact h.congr rfl rfl rfl rfl rfl

theorem readKey_sane (h : Sane a) (hc : a.current ≠ 0) : Sane a.readKey := by
  unfold readKey
  split
  · exact sleep_sane h hc _ _
  · exact h.congr rfl rfl rfl rfl rfl

/-- Every step keeps the scheduler sane, wrapped process numbers or not. -/
theorem step_sane (h : Sane a) (hs : Step a b) : Sane b := by
  have hcur : ∀ k : Kont, a.kont a.current = k → k ≠ .user → k ≠ .trapReturn → a.current ≠ 0 :=
    fun k hk hu ht => h.current_ne (hk ▸ hu) (hk ▸ ht)
  cases hs with
  | quiet os _ => exact h.congr rfl rfl rfl rfl rfl
  | tick _ => exact yield_sane (wake_sane h (-1))
  | key ch _ => exact wake_sane (acceptKey_sane h ch) (-2)
  | sleep old n _ hc => exact sleep_sane h hc _ _
  | exit _ hc => exact exit_sane h hc
  | wait p _ hc => exact waitFor_sane h hc p
  | read _ hc => exact readKey_sane h hc
  | fork i _ _ hi => exact create_sane h hi
  | back _ => exact runOn_sane h
  | sleepOn old n hk => exact sleep_sane (runOn_sane h) (hcur _ hk nofun nofun) _ _
  | waitOn p hk => exact waitFor_sane (runOn_sane h) (hcur _ hk nofun nofun) p
  | take front _ => exact (runOn_sane h).congr rfl rfl rfl rfl rfl

end Sched

end Os64
