/-
  `sys_sleep` over whole runs.

  * `run_settled`: in every reached state the sleepers are on the wait list for their reasons.
  * `run_undue`: who is asleep in `sys_sleep` has ticks to wait for.
  * `step_sleeping`: a process leaves the loop of `sys_sleep` only when it runs and is due.
  * `trace_sleeps`: so it returns after at least as many timer interrupts as it asked for, and it
    is off the wait list from that many on.
-/
import Os64.Sys.Devices
import Os64.Sched.Asleep

namespace Os64

open Os64.Lib

variable {K : Image} {Ok : Kernel → Event → Prop} {s₀ s s' : Kernel} {a b : Sched} {i : Slot}
  {old n : Nat}

/-- Slot `i` sleeps in the loop of `sys_sleep` with these two locals. -/
def Kernel.SleepsIn (s : Kernel) (i : Slot) (oldTicks sleepTicks : Nat) : Prop :=
  (s.processTable i).state = .sleep ∧ (s.processTable i).kont = .sleeping oldTicks sleepTicks

theorem Rep.asleep {k : Kont} (h : Rep s a) : a.Asleep i k ↔
    (s.processTable i).state = .sleep ∧ (s.processTable i).kont = k := by
  unfold Sched.Asleep
  rw [h.state, h.kont]

theorem run_settled {m : Mem} (h₀ : kMain K (bootKernel m) = .ok () s₀) (h : Run K Ok s₀ s) :
    ∃ a, Rep s a ∧ a.Sane ∧ ∀ i, a.Settled i := by
  induction h with
  | refl =>
      obtain ⟨a, hr, ha, -⟩ := boot_refines h₀
      refine ⟨a, hr, ha.sane, fun i hs => ?_⟩
      rw [← hr.state] at hs
      exact absurd hs ((boot_counts h₀).2.2.2 i)
  | step _ he _ hs ih =>
      obtain ⟨a, hr, ha, hset⟩ := ih
      obtain ⟨b, hr', hst⟩ := (step_refines hr ha he).ok hs
      exact ⟨b, hr', Sched.step_sane ha hst, Sched.step_settled ha hset hst⟩

/-- What the timer interrupt does to the scheduler. -/
theorem timer_refines (h : Rep s a) (ha : a.Sane) {f : TrapFrame}
    (hrun : step K (.timer f) s = .ok () s') : Rep s' (a.wake (-1)).yield := by
  have hends : Ends (step K (.timer f)) s (fun _ s' => Rep s' (a.wake (-1)).yield)
      fun _ _ => True := by
    refine ((quiet_pushFrame (b := false) f).ends s).bind (fun _ s₁ h₁ => ?_) fun _ _ _ => trivial
    have hlow : Ends (low timerHandler) s₁ (fun _ s' => Rep s' (a.wake (-1))) fun _ _ => True := by
      unfold low
      rw [ends_onPart]
      exact timerHandler_ends (h₁.rep_same h)
    refine hlow.bind (fun _ s₂ h₂ => ?_) fun _ _ _ => trivial
    obtain ⟨s₃, hrun, h₃, -⟩ := yield_run h₂ (Sched.wake_sane ha (-1)).current_free
    exact ends_of_run hrun h₃
  exact hends.ok hrun

/-- After each step, who is asleep in `sys_sleep` is not due. -/
theorem step_undue (h : Rep s a) (ha : a.Sane) (hset : ∀ i, a.Settled i)
    (hu : ∀ i old n, s.SleepsIn i old n → NotDue s.ticks old n) {e : Event} (he : Enabled s e)
    (hs : step K e s = .ok () s') (hk : s'.SleepsIn i old n) : NotDue s'.ticks old n := by
  obtain ⟨b, hb, hst⟩ := (step_refines h ha he).ok hs
  have hc := step_counts he hs
  have hold : i ≠ s.pc.currentProcess → s.SleepsIn i old n := fun hi =>
    h.asleep.mp ((Sched.step_asleep ha hst (hb.asleep.mpr hk)).resolve_right fun hn =>
      hi (hn.1.trans h.current.symm))
  have hother : e.ticks s.ticks = s.ticks → NotDue s'.ticks old n := by
    intro ht
    rw [hc.ticks, ht]
    rcases hc.kont i old n hk.2 with ⟨hi, -⟩ | hdue
    · exact hu i old n (hold hi)
    · exact hdue.1
  cases e with
  | timer f =>
      -- the tick has woken everyone in `sys_sleep`
      have hr := timer_refines h ha hs
      exact absurd rfl (Sched.tick_asleep (hset i) (hr.asleep.mpr hk))
  | keyboard _ _ => exact hother rfl
  | spurious _ => exact hother rfl
  | syscall _ => exact hother rfl
  | exception _ => exact hother rfl
  | store _ _ => exact hother rfl
  | resume => exact hother rfl

theorem run_undue {m : Mem} (h₀ : kMain K (bootKernel m) = .ok () s₀) (h : Run K Ok s₀ s) :
    ∀ i old n, s.SleepsIn i old n → NotDue s.ticks old n := by
  induction h with
  | refl => exact fun i _ _ hk => absurd hk.1 ((boot_counts h₀).2.2.2 i)
  | step hrun he _ hs ih =>
      obtain ⟨a, hr, ha, hset⟩ := run_settled h₀ hrun
      exact fun i old n hk => step_undue hr ha hset ih he hs hk

/-! ## Leaving the loop -/

theorem onward_rep (h : Rep s a) : Rep s.onward a.runOn := by
  unfold Sched.runOn Kernel.onward
  rw [← h.current]
  exact h.setKontRun _ .user

/-- A process that wakes up before it is due goes back to sleep. -/
theorem resume_undue (h : Rep s a) (ha : a.Sane) (hk : s.current.kont = .sleeping old n)
    (hdue : NotDue s.ticks old n) : Ends (resume K) s
      (fun _ s' => Rep s' (a.runOn.sleep (-1) (.sleeping old n))) fun _ _ => True := by
  have hka : a.kont a.current = .sleeping old n := by
    rw [← hk]
    unfold Kernel.current
    rw [h.kont, h.current]
  have hc : a.current ≠ 0 := ha.current_ne (by rw [hka]; exact nofun) (by rw [hka]; exact nofun)
  unfold resume
  rw [ends_bind, ends_get, hk]
  dsimp only
  rw [ends_bind, ends_ok_iff (setProcess_run _ _ _)]
  unfold sleepLoop
  rw [ends_bind, ends_bind, ends_get, ends_ite]
  refine ⟨fun _ => ?_, fun hnot => absurd hdue hnot⟩
  have hsleep := ends_sleep (onward_rep h) (Sched.runOn_sane ha) hc (-1) (.sleeping old n)
  refine hsleep.bind (fun _ s₁ h₁ => ?_) fun _ _ _ => trivial
  rw [ends_pure]
  exact ends_pure.mpr h₁

/-- A process leaves the loop of `sys_sleep` only when it has the processor and is due. -/
theorem step_sleeping (h : Rep s a) (ha : a.Sane) {e : Event} (he : Enabled s e)
    (hs : step K e s = .ok () s') (hal : s.Alive i)
    (hk : (s.processTable i).kont = .sleeping old n) :
    s'.Alive i ∧ (s'.processTable i).kont = .sleeping old n ∨
      s.pc.currentProcess = i ∧ ¬ NotDue s.ticks old n := by
  by_cases hi : i = s.pc.currentProcess
  · by_cases hdue : NotDue s.ticks old n
    · have hkc : s.current.kont = .sleeping old n := by
        unfold Kernel.current
        rw [← hi]
        exact hk
      have huser : s.current.kont ≠ .user := by
        rw [hkc]
        exact nofun
      left
      cases e with
      | timer _ => exact absurd he.1 huser
      | keyboard _ _ => exact absurd he.1 huser
      | spurious _ => exact absurd he.1 huser
      | syscall _ => exact absurd he.1 huser
      | exception _ => exact absurd he.1 huser
      | store _ _ => exact absurd he.1 huser
      | resume =>
          have hr := (resume_undue h ha hkc hdue).ok hs
          have hleft := Sched.sleep_leaves a.runOn (-1) (.sleeping old n)
          rw [Sched.runOn_current, ← h.current, ← hi] at hleft
          exact ⟨hr.alive.mpr ⟨hal.1, hleft.1⟩, (hr.kont i).trans hleft.2⟩
    · exact Or.inr ⟨hi.symm, hdue⟩
  · obtain ⟨hal', hk', -⟩ := step_alive h ha he hs hi hal
    exact Or.inl ⟨hal', hk'.trans hk⟩

theorem trace_sleeping (h : Rep s a) (ha : a.Sane) (hal : s.Alive i)
    (hk : (s.processTable i).kont = .sleeping old n) {es : List Event} (ht : Trace K Ok s es s') :
    (s'.Alive i ∧ (s'.processTable i).kont = .sleeping old n) ∨ ∃ es₁ es₂ s₁, es = es₁ ++ es₂ ∧
      Trace K Ok s es₁ s₁ ∧ s₁.pc.currentProcess = i ∧ ¬ NotDue s₁.ticks old n := by
  induction ht with
  | nil => exact Or.inl ⟨hal, hk⟩
  | @snoc es s₁ s' e ht he hok hs ih =>
      rcases ih with ⟨hal₁, hk₁⟩ | ⟨es₁, es₂, s₂, rfl, ht₂, hleft⟩
      · obtain ⟨b, os, hb, hsb, -⟩ := run_rotates h ha ht.run
        exact (step_sleeping hb hsb he hs hal₁ hk₁).imp_right fun hleft =>
          ⟨es, [e], s₁, rfl, ht, hleft⟩
      · exact Or.inr ⟨es₁, es₂ ++ [e], s₂, List.append_assoc _ _ _, ht₂, hleft⟩

/-- The ticks since a count, when fewer than 2^64 passed. -/
theorem notDue_iff {T t d : Nat} (h : u64 t = u64 (T + d)) (hd : d < 2 ^ 64) (hT : T < 2 ^ 64) :
    NotDue t T n ↔ d < n := by
  unfold NotDue u64 at *
  omega

/-- In a run whose calls keep to the callers' user pages a call of `sys_sleep` returns after at
    least as many timer interrupts as it asks for, and the caller no longer sleeps after that
    many. -/
theorem run_sleeps {m : Mem} (h₀ : kMain K (bootKernel m) = .ok () s₀)
    (h : Run K Confined s₀ s) {e : Event} (he : Enabled s e) (hconf : Confined s e)
    (hu : s.current.kont = .user) {s₁ : Kernel} (hs : step K e s = .ok () s₁)
    (hk : (s₁.processTable s.pc.currentProcess).kont = .sleeping old n) {es : List Event}
    (ht : Trace K Confined s₁ es s') :
    (n ≤ timers es ∨ s'.Alive s.pc.currentProcess ∧
        (s'.processTable s.pc.currentProcess).kont = .sleeping old n) ∧
      (s'.SleepsIn s.pc.currentProcess old n → timers es < 2 ^ 64 → timers es < n) := by
  obtain ⟨a, hr, ha⟩ := run_sane h₀ h
  obtain ⟨b, hb, hst⟩ := (step_refines hr ha he).ok hs
  have hsb : b.Sane := Sched.step_sane ha hst
  have hua : a.kont a.current = .user := by
    rw [← hr.kont, ← hr.current]
    exact hu
  have hal : s₁.Alive s.pc.currentProcess := by
    rw [hb.kont, hr.current] at hk
    rw [hr.current]
    refine hb.alive.mpr ⟨fun h0 => ?_, Sched.step_call_alive hst hua hk⟩
    rw [h0] at hk
    rcases hsb.kont with h | h
    · exact nomatch h.symm.trans hk
    · exact nomatch h.symm.trans hk
  have hc := step_counts he hs
  have hold : old = s.ticks := by
    rcases hc.kont _ old n hk with ⟨hne, -⟩ | ⟨-, hold | hw⟩
    · exact absurd rfl hne
    · exact hold
    · exact nomatch hu.symm.trans hw
  have hticks : s₁.ticks = old := by
    rw [hc.ticks, hold]
    cases e with
    | timer f =>
        have hy := timer_refines hr ha hs
        have hne : (a.wake (-1)).yield.kont a.current ≠ .sleeping old n :=
          Sched.yield_kont_ne (a := a.wake (-1)) (by rw [Sched.wake_kont, Sched.wake_current, hua]; exact nofun)
        rw [hy.kont, hr.current] at hk
        exact absurd hk hne
    | keyboard _ _ => rfl
    | spurious _ => rfl
    | syscall _ => rfl
    | exception _ => rfl
    | store _ _ => rfl
    | resume => rfl
  have hlt : old < 2 ^ 64 := by
    rw [hold]
    exact run_ticks_lt h₀ h
  have hcount : ∀ {es : List Event} {t : Kernel}, Trace K Confined s₁ es t →
      u64 t.ticks = u64 (old + timers es) := fun ht => by rw [trace_ticks ht, hticks]
  refine ⟨?_, fun hsl hd => ?_⟩
  · rcases trace_sleeping hb hsb hal hk ht with hstill | ⟨es₁, es₂, s₂, rfl, ht₂, -, hdue⟩
    · exact Or.inr hstill
    · left
      have happ : timers (es₁ ++ es₂) = timers es₁ + timers es₂ := List.countP_append
      have hn : n ≤ timers es₁ := by
        by_cases hd : timers es₁ < 2 ^ 64
        · exact Nat.le_of_not_lt fun hlt' => hdue ((notDue_iff (hcount ht₂) hd hlt).mpr hlt')
        · unfold NotDue u64 at hdue
          omega
      omega
  · have hrun : Run K Confined s₀ s' := Trace.extend (h.step he hconf hs) ht
    exact (notDue_iff (hcount ht) hd hlt).mp (run_undue h₀ hrun _ old n hsl)

/-- `sys_sleep` with its argument in `r15`, where `rsi` points. -/
theorem sleep_move {pool free : List Nat} {S : Handles} {f : TrapFrame}
    (h : Whole K pool free a S s) (hc : a.current ≠ 0) (hf : f.ofUser 0x80) (hrdi : f.rdi < 2 ^ 63)
    (hrax : f.rax = 1) (hrsi : f.rsi = s.trapFrame) (hpid : a.pid a.current ≠ 0)
    (hdue : NotDue s.ticks s.ticks f.r15) :
    ∃ s', step K (.syscall f) s = .ok () s' ∧
      Whole K pool free (a.sleep (-1) (.sleeping s.ticks f.r15)) S s' := by
  obtain ⟨s₁, hcall⟩ := call_begins (K := K) h hc hf hrdi (by omega)
  have h₁ := hcall.whole
  have harg : arg f.rsi 0 s₁ = .ok f.r15 s₁ := hcall.arg hc hrsi (by decide)
  have hticks : s₁.ticks = s.ticks := by rw [hcall.same]
  obtain ⟨s₂, hsleep, hr, hk, -⟩ := sleep_run h₁.rep h₁.sane.current_free hpid (-1)
    (.sleeping s.ticks f.r15)
  refine ⟨s₂, hcall.away ?_, h₁.scheduled hr hk (Sched.sleep_sane h.sane hc _ _)
    (Sched.sleep_mute h.sane hc _ _)⟩
  rw [hrax]
  change sysSleep f.rsi s₁ = _
  unfold sysSleep sleepLoop
  unfold NotDue at hdue
  rw [bind_run (low_run harg), bind_run (get_run s₁), bind_run (get_run s₁), hticks, if_pos hdue,
    bind_run hsleep]
  rfl

/-- The first program asks for two ticks; after one it is back in the loop. -/
theorem run_sleeps_two : ∃ s s₁ s' f, Reached image (machineMem 20 []) Confined s ∧
    step image (.syscall f) s = .ok () s₁ ∧
      Trace image Confined s₁ [.resume, .timer (irqFrame 32)] s' ∧
        (s'.processTable 1).kont = .sleeping s.ticks 2 := by
  obtain ⟨pool, free, s, r, -⟩ := reached_user (n := 20) (by decide) (by decide) [] Confined
    fun s e he => by rcases he with ⟨f, rfl⟩ | rfl <;> trivial
  obtain ⟨s₀, h₀, hrun⟩ := r.reached
  have hcur : s.pc.currentProcess = 1 := r.whole.rep.current
  have he : Enabled s (.syscall (s.callFrame 1 2 0 0 0)) :=
    r.enabled_call (by decide) (by decide) 1 (by decide) (by decide) At.zero_lt At.zero_lt At.zero_lt
  have hdue : NotDue s.ticks s.ticks 2 := by
    have hlt := run_ticks_lt h₀ hrun
    unfold NotDue u64
    omega
  obtain ⟨s₁, hs₁, h₁⟩ := sleep_move r.whole (by decide) he.2.2 At.rdi_lt rfl rfl (by decide) hdue
  have hkont₁ : (s₁.processTable s.pc.currentProcess).kont = .sleeping s.ticks 2 := by
    rw [hcur, h₁.rep.kont]
    rfl
  obtain ⟨s₂, hs₂, h₂, -⟩ := back_move h₁ rfl
  obtain ⟨s₃, hs₃, h₃, -⟩ := timer_move h₂ (irqFrame 32)
  have he₂ : Enabled s₁ .resume := by
    change s₁.current.kont ≠ .user
    rw [h₁.kont]
    exact nofun
  have ht : Trace image Confined s₁ [.resume, .timer (irqFrame 32)] s₃ :=
    (Trace.nil.snoc he₂ trivial hs₂).snoc ⟨h₂.kont.trans rfl, irqFrame_ofUser (by decide)⟩ trivial hs₃
  have hconf : Confined s (.syscall (s.callFrame 1 2 0 0 0)) := fun _ _ => ⟨nofun, nofun⟩
  have hend := (run_sleeps h₀ hrun he hconf he.1 hs₁ hkont₁ ht).1
  rw [hcur] at hend
  exact ⟨s, s₁, s₃, _, ⟨s₀, h₀, hrun⟩, hs₁, ht, (hend.resolve_left (by decide)).2⟩

end Os64
