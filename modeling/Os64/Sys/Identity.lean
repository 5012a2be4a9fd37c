/-
  Process numbers.

  * `run_identified`: as long as fewer than 2^31 processes are created, the number of a
    process is its own, positive but for the idle process, and `fork` returns it.
  * `Alone.cycle`: a process that forks, waits for its child and reaps it is back where it
    began, with the next process number.
  * `pids_wrap`: so the counter comes to 2^31, and the next `fork` returns a negative number.
-/
import Os64.Sys.Moves
import Mathlib.Tactic.FinCases

namespace Os64

open Os64.Lib

variable {K : Image}

/-- Processes in use have different numbers, the idle process alone has 0, and what `fork`
    returns is positive. -/
structure Identified (K : Image) (s : Kernel) : Prop where
  distinct : ∀ i j, (s.processTable i).state ≠ .unused → (s.processTable j).state ≠ .unused →
    (s.processTable i).pid = (s.processTable j).pid → i = j
  idle : ∀ i, (s.processTable i).state ≠ .unused → ((s.processTable i).pid = 0 ↔ i = 0)
  fork : ∀ f s₁ pid s₂, Enabled s (.syscall f) → pushFrame f s = .ok () s₁ →
    fork K s₁ = .ok pid s₂ → 0 < pid

theorem Rep.identified {s : Kernel} {a : Sched} (h : Rep s a) (ha : a.Ok)
    (hb : a.born + 1 < 2 ^ 31) : Identified K s := by
  have hpos : ∀ i, (s.processTable i).state ≠ .unused → i ≠ 0 → 1 ≤ (s.processTable i).pid := by
    intro i hu hi
    rw [h.state] at hu
    rw [h.pid]
    exact (ha.pids.range i hi hu).1
  have hzero : (s.processTable 0).pid = 0 := by rw [h.pid, ha.pids.idle]
  refine ⟨fun i j hi hj he => ?_, fun i hi => ?_, fun f s₁ pid s₂ _ hp hfork => ?_⟩
  · by_cases hi0 : i = 0
    · by_contra hne
      have := hpos j hj fun hj0 => hne (hi0.trans hj0.symm)
      rw [hi0, hzero] at he
      omega
    · by_cases hj0 : j = 0
      · have := hpos i hi hi0
        rw [hj0, hzero] at he
        omega
      · rw [h.state] at hi hj
        rw [h.pid, h.pid] at he
        exact ha.pids.inj i j hi0 hj0 hi hj he
  · refine ⟨fun he => ?_, fun he => he ▸ hzero⟩
    by_contra hi0
    have := hpos i hi hi0
    omega
  · have hr₁ : Rep s₁ a := Quiet.rep_same (((quiet_pushFrame (b := false) f).ends s).ok hp) h
    obtain ⟨i, -, -, hpid⟩ := (fork_ends hr₁ ha.sane).ok hfork
    rw [hpid, ha.pids.num, nextPid_of_small (by omega) (by omega)]
    omega

/-- The law of process numbers holds of every run that creates fewer than 2^31 processes. -/
theorem run_identified {m : Mem} {s₀ s : Kernel} {Ok : Kernel → Event → Prop}
    (h₀ : kMain K (bootKernel m) = .ok () s₀) (h : Run K Ok s₀ s)
    (hb : (created s.hist).length + 1 < 2 ^ 31) : Identified K s := by
  obtain ⟨a, hr, ha, -⟩ := run_refines h₀ h (by omega)
  refine hr.identified ha ?_
  unfold Sched.born
  rw [← hr.hist]
  exact_mod_cast hb

/-- The first program has two children. -/
theorem run_identified_machine : ∃ s, Reached image (machineMem 30 []) Forking s ∧
    (s.processTable 3).pid = 3 ∧ Identified image s := by
  obtain ⟨pool, free, S, s, r⟩ := reached_children fun _ _ he => he
  obtain ⟨s₀, h₀, hrun⟩ := r.reached
  refine ⟨s, r.reached, ?_, run_identified h₀ hrun ?_⟩
  · rw [r.whole.rep.pid]
    decide
  · rw [r.whole.rep.hist]
    decide

/-! ## Two thousand million forks -/

/-- The first process is the only one, it runs, and `n` is the next process number. -/
structure Alone (n : Int) (a : Sched) : Prop where
  current : a.current = 1
  state : a.state = fun i => if i = 0 then .ready else if i = 1 then .running else .unused
  pid : a.pid 0 = 0 ∧ a.pid 1 = 1
  kont : a.kont 1 = .user
  queue : a.queue = fun _ => []
  num : a.pidNum = n

theorem alone_start : Alone 2 userSched where
  current := by decide
  state := by
    funext i
    revert i
    decide
  pid := by decide
  kont := by decide
  queue := by
    funext q
    cases q <;> decide
  num := by decide

theorem i32_toNat {n : Int} (h0 : 0 ≤ n) (h : n < 2 ^ 31) : i32 n.toNat = n := by
  unfold i32
  split <;> omega

/-- Fork a child, wait for it, and reap it when it has exited. -/
theorem Alone.cycle {m : Mem} {pool free : List Nat} {a : Sched} {S : Handles} {s : Kernel} {n : Int}
    (h : Alone n a) (r : At K m Forking pool free a S s) (h0 : 0 < n) (hn : n < 2 ^ 31)
    (hfree : 7 ≤ free.length) :
    ∃ free' a' S' s', Alone (nextPid n) a' ∧ At K m Forking pool free' a' S' s' ∧
      7 ≤ free'.length := by
  obtain ⟨state, pid, wait, kont, current, queue, pidNum, keys, hist⟩ := a
  obtain ⟨rfl, rfl, ⟨hp0, hp1⟩, hk, rfl, rfl⟩ := h
  dsimp only at hp0 hp1 hk h0 hn ⊢
  have hpid : i32 pidNum.toNat = pidNum := i32_toNat (by omega) hn
  have hone : (1 : Slot) ≠ 0 := by decide
  have htwo : (2 : Slot) ≠ 0 := by decide
  obtain ⟨s₁, free₁, S₁, r₁, -, hlen, -⟩ := r.fork hk hone hfree (i := 2) rfl (Or.inl rfl)
  obtain ⟨s₂, r₂⟩ := r₁.wait (p := pidNum.toNat) hk hone (show pid 1 ≠ 0 by omega) (by omega)
    rfl (Or.inr (Or.inr rfl))
  rw [hpid] at r₂
  obtain ⟨s₃, r₃, -⟩ := r₂.back rfl trivial
  obtain ⟨s₄, r₄⟩ := r₃.exit rfl htwo (show pidNum ≠ 0 by omega) (Or.inr (Or.inl rfl))
  obtain ⟨s₅, free₅, S₅, r₅, hperm⟩ := r₄.reap (p := pidNum) (x := 2) rfl (by
    change [(2 : Slot)].find? (fun _ => decide (pidNum = pidNum)) = some 2
    simp) trivial
  refine ⟨free₅, _, S₅, s₅, ?_, r₅, ?_⟩
  · refine ⟨rfl, ?_, ⟨hp0, hp1⟩, rfl, ?_, rfl⟩
    · funext i
      fin_cases i <;> rfl
    · funext q
      cases q <;> rfl
  · have hl : s₄.Live 2 := ⟨htwo, by rw [r₄.whole.rep.state]; exact ProcState.noConfusion⟩
    have h7 := r₄.whole.mem.seven_le hl (l := [])
    have hlen₅ := hperm.length_eq
    rw [List.length_append] at hlen₅
    omega

/-- The counter takes every value from 2 to 2^31 - 1. -/
theorem alone_count {m : Mem} {pool free : List Nat} {a : Sched} {S : Handles} {s : Kernel}
    (h : Alone 2 a) (r : At K m Forking pool free a S s) (hfree : 7 ≤ free.length) {k : Nat}
    (h2 : 2 ≤ k) (hk : k < 2 ^ 31) :
    ∃ free' a' S' s', Alone k a' ∧ At K m Forking pool free' a' S' s' ∧ 7 ≤ free'.length := by
  induction k, h2 using Nat.le_induction with
  | base => exact ⟨free, a, S, s, h, r, hfree⟩
  | succ k h2 ih =>
      obtain ⟨free', a', S', s', h', r', hfree'⟩ := ih (by omega)
      obtain ⟨free₁, a₁, S₁, s₁, h₁, r₁, hfree₁⟩ := h'.cycle r' (by omega) (by omega) hfree'
      rw [nextPid_of_small (by omega) (by omega)] at h₁
      exact ⟨free₁, a₁, S₁, s₁, by exact_mod_cast h₁, r₁, hfree₁⟩

/-- After 2^31 - 2 children the number of the next one is negative. -/
theorem pids_wrap : ∃ s, Reached image (machineMem 20 []) Forking s ∧ ¬ Identified image s := by
  obtain ⟨pool, free, s, r, -, hlen, -⟩ := reached_user (n := 20) (by decide) (by decide) []
    Forking fun s e he => by rcases he with ⟨f, rfl⟩ | rfl <;> trivial
  obtain ⟨free₁, a₁, S₁, s₁, h₁, r₁, hfree₁⟩ := alone_count alone_start r (by omega)
    (k := 2 ^ 31 - 1) (by decide) (by decide)
  obtain ⟨free₂, a₂, S₂, s₂, h₂, r₂, hfree₂⟩ := h₁.cycle r₁ (by decide) (by decide) hfree₁
  have hc : a₂.current ≠ 0 := by
    rw [h₂.current]
    decide
  have hu : a₂.kont a₂.current = .user := by
    rw [h₂.current]
    exact h₂.kont
  have he := r₂.enabled_call hu hc 13 (by decide) At.zero_lt At.zero_lt At.zero_lt At.zero_lt
  refine ⟨s₂, r₂.reached, fun hid => ?_⟩
  obtain ⟨s₃, hcall⟩ := call_begins (K := image) r₂.whole hc he.2.2 At.rdi_lt (show 13 ≤ 15 by decide)
  have hw := hcall.whole
  rcases fork_run hw.rep hw.sane hw.mem hw.files hc with
    ⟨hfull, -⟩ | ⟨i, s₄, free₄, S₄, hrun, -, -, -, -, -, -, -, -, -⟩
  · rw [hw.rep.findUnused, h₂.state] at hfull
    rcases hfull with hf | hf
    · omega
    · cases hf
  · have hpos := hid.fork _ _ _ _ he hcall.push hrun
    rw [h₂.num] at hpos
    exact absurd hpos (by decide)

end Os64
