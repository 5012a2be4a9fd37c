/-
  What every step does to the history and to the key buffer.

  `Change R`: the relation `R` between an earlier and a later state allows what a step may do
  to them: adding observations at the end of the history, taking a character into the key
  buffer, and handing its oldest character to a reader. `Grows R x` says that a program stays
  within `R`; all programs of the kernel do (`step_grows`), the one exception aside: a reader
  that goes on after `swap` takes the cell it remembers, whatever happened in between.

  With the prefix order of histories for `R`, a run has at least the history of each state it
  passed (`run_hist`).
-/
import Os64.Sched.Quiet
import Os64.Kernel.Main

namespace Os64

open Os64.Lib

variable {K : Image}

/-- A record of a character taken into the key buffer or handed to a reader. -/
def Obs.key : Obs → Prop
  | .accepted _ => True
  | .returned _ => True
  | _ => False

/-- The key buffer takes a character. -/
def Kernel.accept (s : Kernel) (ch : Nat) : Kernel :=
  { s with
    keyBuffer :=
      { s.keyBuffer with
        buffer := Function.update s.keyBuffer.buffer s.keyBuffer.end_ ch
        end_ := (s.keyBuffer.end_ + 1) % s.keyBuffer.size }
    hist := s.hist ++ [.accepted ch] }

/-- A reader takes the character in cell `front`. -/
def Kernel.take (s : Kernel) (front : Nat) : Kernel :=
  { s with
    keyBuffer := { s.keyBuffer with front := (s.keyBuffer.front + 1) % s.keyBuffer.size }
    hist := s.hist ++ [.returned (s.keyBuffer.buffer front)] }

/-- A relation between states that allows what a step may do to history and key buffer. -/
class Change (R : Kernel → Kernel → Prop) : Prop where
  trans : ∀ {s s' s'' : Kernel}, R s s' → R s' s'' → R s s''
  mute : ∀ {s s' : Kernel} (os : List Obs), s'.keyBuffer = s.keyBuffer → s'.hist = s.hist ++ os →
    (∀ o ∈ os, ¬ o.key) → R s s'
  accept : ∀ (s : Kernel) (ch : Nat),
    (s.keyBuffer.end_ + 1) % s.keyBuffer.size ≠ s.keyBuffer.front → R s (s.accept ch)
  take : ∀ s : Kernel, s.keyBuffer.front ≠ s.keyBuffer.end_ → R s (s.take s.keyBuffer.front)

/-- A program whose good ends are related to its beginnings. -/
structure Grows {ε α : Type} (R : Kernel → Kernel → Prop) (x : EStateM ε Kernel α) : Prop where
  ends : ∀ s, Ends x s (fun _ s' => R s s') fun _ _ => True

section Grows

variable {ε α β : Type} {R : Kernel → Kernel → Prop} [Change R]

theorem QuietOp.grows {x : EStateM ε Kernel α} {b : Bool} (h : QuietOp b x) : Grows R x := by
  refine ⟨fun s => (h.ends s).mono (fun _ s' hq => ?_) fun _ _ _ => trivial⟩
  obtain ⟨os, ho, hstored⟩ := hq.hist
  refine Change.mute os hq.keyBuffer ho fun o hm => ?_
  obtain ⟨-, va, rfl⟩ := hstored o hm
  exact id

theorem grows_pure (v : α) : Grows R (pure v : EStateM ε Kernel α) :=
  (quietOp_pure (b := false) v).grows

theorem grows_throw (e : ε) : Grows R (throw e : EStateM ε Kernel α) :=
  (quietOp_throw (b := false) e).grows

theorem grows_get : Grows R (get : EStateM ε Kernel Kernel) := (quietOp_get (b := false)).grows

theorem Grows.bind {x : EStateM ε Kernel α} {f : α → EStateM ε Kernel β} (hx : Grows R x)
    (hf : ∀ v, Grows R (f v)) : Grows R (x >>= f) :=
  ⟨fun s => (hx.ends s).bind
    (fun v s₁ h₁ => ((hf v).ends s₁).mono (fun _ _ h => Change.trans h₁ h) fun _ _ h => h)
    fun _ _ h => h⟩

omit [Change R] in
theorem grows_ite {c : Prop} [Decidable c] {x y : EStateM ε Kernel α} (hx : Grows R x)
    (hy : Grows R y) : Grows R (if c then x else y) := by
  split
  · exact hx
  · exact hy

omit [Change R] in
theorem Grows.low {x : LowM α} (h : Grows R x) : Grows R (low x) := by
  refine ⟨fun s => ?_⟩
  unfold Os64.low
  rw [ends_onPart]
  exact h.ends s

theorem grows_modify (f : Kernel → Kernel) (hf : ∀ s, (f s).hist = s.hist)
    (hk : ∀ s, (f s).keyBuffer = s.keyBuffer) : Grows R (modify f : EStateM ε Kernel PUnit) :=
  ⟨fun s => ends_modify.mpr (Change.mute [] (hk s) (by rw [hf, List.append_nil]) (by simp))⟩

theorem grows_setProcess (i : Slot) (f : Process → Process) :
    Grows R (setProcess i f : EStateM ε Kernel Unit) := grows_modify _ (fun _ => rfl) fun _ => rfl

theorem grows_setList (q : ListId) (l : HeadList) :
    Grows R (setList q l : EStateM ε Kernel Unit) := grows_modify _ (fun _ => rfl) fun _ => rfl

theorem grows_observe {o : Obs} (ho : ¬ o.key) : Grows R (observe o : EStateM ε Kernel Unit) :=
  ⟨fun _ => ends_modify.mpr (Change.mute [o] rfl rfl fun _ hm => List.mem_singleton.mp hm ▸ ho)⟩

theorem grows_assert (c : Prop) [Decidable c] (line : Nat) : Grows R (assertProcess c line) :=
  (quietOp_ensure (b := false) c _).grows

theorem grows_ram {α : Type} (x : RamM α) : Grows R (ram x) := (quietOp_ram (b := false) x).grows

theorem grows_appendListTail (q : ListId) (i : Slot) : Grows R (appendListTail q i) := by
  unfold appendListTail
  refine (grows_setProcess _ _).bind fun _ => grows_get.bind fun _ => grows_ite
    (grows_setList _ _) ?_
  split
  · exact (grows_setProcess _ _).bind fun _ => grows_setList _ _
  · exact grows_throw _

theorem grows_removeListHead (q : ListId) : Grows R (removeListHead q) := by
  unfold removeListHead
  refine grows_get.bind fun s => ?_
  split
  · exact grows_pure _
  · exact (grows_setList _ _).bind fun _ => grows_pure _

theorem grows_removeListLoop (q : ListId) (w : Int) (fuel : Nat) (p c : Option Slot) :
    Grows R (removeListLoop q w fuel p c) := by
  induction fuel generalizing p c with
  | zero => exact grows_throw _
  | succ n ih =>
      cases c with
      | none => exact grows_pure _
      | some c =>
          unfold removeListLoop
          refine grows_get.bind fun s => grows_ite ?_ (ih _ _)
          have htail : ∀ t : Kernel, Grows R (do
              if isListEmpty (t.pc.list q) then
                setList q { t.pc.list q with tail := none }
              else if (s.processTable c).next.isNone then
                setList q { t.pc.list q with tail := p }
              return some c : LowM (Option Slot)) := fun t =>
            grows_ite ((grows_setList _ _).bind fun _ => grows_pure _)
              (grows_ite ((grows_setList _ _).bind fun _ => grows_pure _) (grows_pure _))
          cases p with
          | none => exact (grows_setList _ _).bind fun _ => grows_get.bind htail
          | some p => exact (grows_setProcess _ _).bind fun _ => grows_get.bind htail

theorem grows_removeList (q : ListId) (w : Int) : Grows R (removeList q w) :=
  grows_get.bind fun _ => grows_removeListLoop _ _ _ _ _

theorem grows_switchProcess (p j : Slot) (k : Kont) : Grows R (switchProcess p j k) :=
  ⟨fun s => ends_of_run (switchProcess_run s p j k) (Change.mute [.switched p j] rfl rfl
    fun _ hm => List.mem_singleton.mp hm ▸ id)⟩

theorem grows_schedule (k : Kont) : Grows R (schedule k) := by
  have hrest : ∀ prev j : Slot, Grows R (do
      setProcess j fun p => { p with state := .running }
      modify fun s => { s with pc := { s.pc with currentProcess := j } }
      switchProcess prev j k : KernelM Unit) := fun _ j =>
    (grows_setProcess _ _).bind fun _ =>
      (grows_modify (fun s => { s with pc := { s.pc with currentProcess := j } })
        (fun _ => rfl) fun _ => rfl).bind fun _ => grows_switchProcess _ _ _
  unfold schedule
  refine grows_get.bind fun s => ?_
  dsimp only
  refine grows_ite ((grows_assert _ _).bind fun _ => (grows_pure _).bind fun r => ?_)
    ((grows_removeListHead _).low.bind fun r => ?_)
  all_goals
    cases r with
    | none => exact grows_throw _
    | some j => exact hrest _ j

theorem grows_yield : Grows R yield := by
  unfold yield
  refine grows_get.bind fun s => grows_ite (grows_pure _) ((grows_setProcess _ _).bind fun _ => ?_)
  exact grows_ite ((grows_appendListTail _ _).low.bind fun _ => grows_schedule _) (grows_schedule _)

theorem grows_sleep (w : Int) (k : Kont) : Grows R (sleep w k) :=
  grows_get.bind fun _ => (grows_setProcess _ _).bind fun _ =>
    (grows_appendListTail _ _).low.bind fun _ => grows_schedule _

theorem grows_wakeUp (w : Int) : Grows R (wakeUp w) := by
  have hloop : ∀ fuel, Grows R (wakeUpLoop w fuel) := by
    intro fuel
    induction fuel with
    | zero => exact grows_throw _
    | succ n ih =>
        refine (grows_removeList _ _).bind fun r => ?_
        cases r with
        | none => exact grows_pure _
        | some i => exact (grows_setProcess _ _).bind fun _ => (grows_appendListTail _ _).bind fun _ => ih
  exact hloop _

theorem grows_exit : Grows R exit :=
  grows_get.bind fun _ => (grows_setProcess _ _).bind fun _ =>
    (grows_appendListTail _ _).low.bind fun _ => (grows_wakeUp _).low.bind fun _ =>
      (grows_observe id).bind fun _ => grows_schedule _

theorem grows_reap (i : Slot) : Grows R (reap K i) :=
  grows_get.bind fun _ => (grows_assert _ _).bind fun _ => (grows_ram _).low.bind fun _ =>
    (grows_ram _).low.bind fun _ => (quiet_closeAll (b := false) i).grows.low.bind fun _ =>
      (grows_setProcess _ _).bind fun _ => grows_observe id

theorem grows_waitLoop (p : Int) : Grows R (waitLoop K p) := by
  unfold waitLoop
  refine grows_get.bind fun s => ?_
  dsimp only
  refine grows_ite ((grows_pure _).bind fun r => ?_) ((grows_removeList _ _).low.bind fun r => ?_)
  all_goals
    cases r with
    | none => exact (grows_sleep _ _).bind fun _ => grows_pure _
    | some i => exact (grows_reap i).bind fun _ => grows_pure _

theorem grows_allocNewProcess : Grows R (allocNewProcess K) := by
  unfold allocNewProcess
  refine grows_get.bind fun s => ?_
  split
  · exact grows_pure _
  · refine (grows_setProcess _ _).bind fun _ =>
      (grows_modify (fun s => { s with pidNum := nextPid s.pidNum }) (fun _ => rfl)
        fun _ => rfl).bind fun _ =>
      (grows_ram _).bind fun _ => (grows_setProcess _ _).bind fun _ => grows_ite (grows_pure _) ?_
    exact (grows_ram _).bind fun _ => (grows_ram _).bind fun _ => (grows_setProcess _ _).bind
      fun _ => (grows_ram _).bind fun _ => (grows_setProcess _ _).bind fun _ => grows_ite
        ((grows_ram _).bind fun _ => (grows_setProcess _ _).bind fun _ => grows_pure _)
        ((grows_observe id).bind fun _ => grows_pure _)

theorem grows_fork : Grows R (fork K) := by
  unfold fork
  refine grows_get.bind fun s => grows_allocNewProcess.low.bind fun r => ?_
  cases r with
  | none => exact grows_throw _
  | some i =>
      exact grows_get.bind fun _ => (grows_ram _).low.bind fun _ => (grows_assert _ _).bind fun _ =>
        (grows_setProcess _ _).bind fun _ => (quiet_shareFiles (b := false) i).grows.low.bind
          fun _ => (grows_ram _).low.bind fun _ => (grows_ram _).low.bind fun _ =>
            (grows_setProcess _ _).bind fun _ => (grows_appendListTail _ _).low.bind fun _ =>
              grows_pure _

theorem grows_exec (proc : Slot) (name : Nat) : Grows R (exec K proc name) := by
  unfold exec
  refine (quiet_openFile (b := false) _ _).grows.low.bind fun _ =>
    grows_ite (grows_exit.bind fun _ => grows_pure _) ?_
  refine (quiet_clearUserPage (b := false)).grows.low.bind fun _ =>
    (quiet_getFileSize (b := false) _ _).grows.low.bind fun _ =>
      (quiet_readFile false _ _ _ _).grows.low.bind fun _ =>
        grows_ite (grows_exit.bind fun _ => grows_pure _) ?_
  exact (quiet_closeFile (b := false) _ _).grows.low.bind fun _ => grows_get.bind fun _ =>
    (grows_ram _).low.bind fun _ => (grows_ram _).low.bind fun _ => grows_pure _

theorem takeKey_run (s : Kernel) (front : Nat) :
    takeKey front s = .ok (s.keyBuffer.buffer front : Int) (s.take front) := rfl

theorem grows_readKeyBuffer : Grows R readKeyBuffer := by
  refine ⟨fun s => ?_⟩
  unfold readKeyBuffer
  rw [ends_bind, ends_get, ends_ite]
  refine ⟨fun _ => ((grows_sleep _ _).bind fun _ => grows_pure _).ends s, fun hne => ?_⟩
  rw [ends_bind, ends_ok_iff (takeKey_run _ _), ends_pure]
  exact Change.take s hne

theorem grows_sleepLoop (old n : Nat) : Grows R (sleepLoop old n) :=
  grows_get.bind fun _ => grows_ite ((grows_sleep _ _).bind fun _ => grows_pure _) (grows_pure _)

theorem grows_arg (argptr k : Nat) : Grows R (low (arg argptr k)) :=
  (quiet_arg (b := false) argptr k).grows.low

theorem grows_systemCalls (i argptr : Nat) : Grows R (systemCalls K i argptr) := by
  unfold systemCalls
  split
  · exact (grows_arg _ _).bind fun _ => (grows_arg _ _).bind fun _ => (grows_arg _ _).bind fun _ =>
      (quietOp_forM (b := false) fun _ => (quiet_loadVirt _).bind fun _ => quietOp_pure _).grows.low.bind
        fun _ => grows_pure _
  · exact (grows_arg _ _).bind fun _ => grows_get.bind fun _ => grows_sleepLoop _ _
  · exact grows_exit.bind fun _ => grows_pure _
  · exact (grows_arg _ _).bind fun _ => (grows_waitLoop _).bind fun _ => grows_pure _
  · exact grows_readKeyBuffer
  · exact grows_get.bind fun _ => grows_pure _
  · exact grows_get.bind fun _ => grows_pure _
  · exact grows_get.bind fun _ => grows_pure _
  · exact grows_pure _
  · exact grows_get.bind fun _ => (grows_arg _ _).bind fun _ =>
      (quiet_openFile (b := false) _ _).grows.low.bind fun _ => grows_pure _
  · exact grows_get.bind fun _ => (grows_arg _ _).bind fun _ => (grows_arg _ _).bind fun _ =>
      (grows_arg _ _).bind fun _ => (quiet_readFile true _ _ _ _).grows.low.bind fun _ => grows_pure _
  · exact grows_get.bind fun _ => (grows_arg _ _).bind fun _ =>
      (quiet_getFileSize (b := false) _ _).grows.low.bind fun _ => grows_pure _
  · exact grows_get.bind fun _ => (grows_arg _ _).bind fun _ =>
      (quiet_closeFile (b := false) _ _).grows.low.bind fun _ => grows_pure _
  · exact grows_fork.bind fun _ => grows_pure _
  · exact grows_get.bind fun _ => (grows_arg _ _).bind fun _ => grows_exec _ _
  · exact (grows_arg _ _).bind fun _ => (quiet_readRootDirectory _).grows.low.bind fun _ => grows_pure _
  · exact grows_throw _

theorem grows_setResult (tf : Nat) (r : Option Int) : Grows R (setResult tf r) :=
  (quiet_setResult (b := false) tf r).grows

theorem grows_systemCall (tf : Nat) : Grows R (systemCall K tf) := by
  unfold systemCall
  exact (grows_ram _).low.bind fun _ => (grows_ram _).low.bind fun _ => (grows_ram _).low.bind
    fun _ => grows_ite (grows_setResult _ _)
      ((grows_systemCalls _ _).bind fun _ => grows_setResult _ _)

theorem grows_keyboardHandler (code : Nat) : Grows R (keyboardHandler code) := by
  have hwrite : ∀ ch, Grows R (writeKeyBuffer ch) := by
    intro ch
    refine ⟨fun s => ?_⟩
    unfold writeKeyBuffer
    rw [ends_bind, ends_get, ends_ite]
    exact ⟨fun _ => ends_pure.mpr (Change.mute [] rfl (List.append_nil _).symm (by simp)),
      fun hne => ends_of_run rfl (Change.accept s ch hne)⟩
  exact (quiet_keyboardRead (b := false) code).grows.bind fun _ => grows_ite
    ((hwrite _).bind fun _ => grows_wakeUp _) (grows_pure _)

/-- What `resume` needs: the reader that goes on finds in its cell what `R` allows it to take. -/
def Takes (R : Kernel → Kernel → Prop) (s : Kernel) : Prop :=
  ∀ front, s.current.kont = .readingKey front → ∀ t : Kernel, t.keyBuffer = s.keyBuffer →
    R t (t.take front)

theorem resume_grows {s : Kernel} (h : Takes R s) :
    Ends (resume K) s (fun _ s' => R s s') fun _ _ => True := by
  have hset : ∀ i k, Grows R (setProcess i fun p => { p with kont := k } : KernelM Unit) :=
    fun i k => grows_setProcess _ _
  unfold resume
  rw [ends_bind, ends_get]
  cases hk : s.current.kont with
  | user => exact (grows_pure ()).ends s
  | trapReturn => exact (hset _ _).ends s
  | sleeping old n =>
      exact ((hset _ _).bind fun _ => (grows_sleepLoop old n).bind fun r =>
        grows_setResult s.trapFrame r).ends s
  | waiting p =>
      exact ((hset _ _).bind fun _ => ((grows_waitLoop p).bind fun _ => grows_pure _).bind
        fun r => grows_setResult s.trapFrame r).ends s
  | readingKey front =>
      dsimp only
      rw [ends_bind, ends_ok_iff (setProcess_run _ _ s), ends_bind, ends_ok_iff (takeKey_run _ _)]
      refine ((grows_setResult (R := R) _ _).ends _).mono (fun _ s' hr => ?_) fun _ _ he => he
      have hmute : R s (s.setProcess s.pc.currentProcess fun p => { p with kont := .user }) :=
        Change.mute [] rfl (List.append_nil _).symm (by simp)
      exact Change.trans (Change.trans hmute (h front hk _ rfl)) hr
  | exited => exact (grows_throw _).ends s

/-- Every step stays within `R`. -/
theorem step_grows {s s' : Kernel} {e : Event} (ht : e = .resume → Takes R s)
    (h : step K e s = .ok () s') : R s s' := by
  have hpush : ∀ f, Grows R (pushFrame f) := fun f => (quiet_pushFrame (b := false) f).grows
  cases e with
  | timer f =>
      refine (((hpush f).bind fun _ => Grows.bind ?_ fun _ => grows_yield).ends s).ok h
      exact ((grows_modify (fun s => { s with ticks := u64 (s.ticks + 1) }) (fun _ => rfl)
        fun _ => rfl).bind fun _ => grows_wakeUp _).low
  | keyboard code f => exact (((hpush f).bind fun _ => (grows_keyboardHandler code).low).ends s).ok h
  | spurious f => exact ((hpush f).ends s).ok h
  | syscall f =>
      exact (((hpush f).bind fun _ => grows_get.bind fun _ => grows_systemCall _).ends s).ok h
  | exception f => exact (((hpush f).bind fun _ => grows_exit).ends s).ok h
  | store va b => exact ((quiet_storeVirt (b := false) va b).grows.low.ends s).ok h
  | resume => exact (resume_grows (ht rfl)).ok h

theorem grows_initProcess : Grows R (initProcess K) := by
  refine Grows.bind ?_ fun _ => ?_
  · exact grows_get.bind fun s => (grows_assert _ _).bind fun _ => (grows_setProcess _ _).bind
      fun _ => grows_modify (fun s => { s with pc := { s.pc with currentProcess := 0 } })
        (fun _ => rfl) fun _ => rfl
  · refine grows_allocNewProcess.low.bind fun r => ?_
    cases r with
    | none => exact grows_throw _
    | some i =>
        exact grows_get.bind fun _ => (grows_ram _).low.bind fun _ => (grows_assert _ _).bind
          fun _ => (grows_setProcess _ _).bind fun _ => (grows_appendListTail _ _).low

/-- So does booting. -/
theorem grows_kMain : Grows R (kMain K) := by
  have htable : Grows R (initTable K) := by
    refine (grows_ram _).bind fun t => grows_ite ?_ (grows_pure _)
    exact (grows_ram _).bind fun _ => grows_pure _
  have hassert : ∀ (c : Prop) [Decidable c] (n : Nat),
      Grows R (assertFile c n : LowM Unit) := fun c _ n => (quietOp_ensure (b := false) c _).grows
  refine (grows_ram _).low.bind fun _ => Grows.bind (Grows.low ?_) fun _ =>
    Grows.bind (Grows.low ?_) fun _ => grows_initProcess
  · exact (grows_ram _).bind fun t => (grows_ram _).bind fun _ =>
      grows_modify (fun s => { s with cr3 := v2p t }) (fun _ => rfl) fun _ => rfl
  · exact (grows_ram _).bind fun _ => (grows_ram _).bind fun _ => (grows_ram _).bind fun _ =>
      (hassert _ _).bind fun _ => htable.bind fun t => (hassert _ _).bind fun _ =>
        (grows_modify (fun s => { s with fcbTable := t }) (fun _ => rfl) fun _ => rfl).bind
          fun _ => htable.bind fun t => (hassert _ _).bind fun _ =>
            grows_modify (fun s => { s with fileDescTable := t }) (fun _ => rfl) fun _ => rfl

end Grows

/-- The prefix order of histories. -/
instance histChange : Change fun s s' => s.hist <+: s'.hist where
  trans := List.IsPrefix.trans
  mute os _ ho _ := ⟨os, ho.symm⟩
  accept _ ch _ := ⟨[.accepted ch], rfl⟩
  take s _ := ⟨[.returned (s.keyBuffer.buffer s.keyBuffer.front)], rfl⟩

theorem step_hist {s s' : Kernel} {e : Event} (h : step K e s = .ok () s') : s.hist <+: s'.hist :=
  step_grows (R := fun s s' => s.hist <+: s'.hist)
    (fun _ front _ t _ => ⟨[.returned (t.keyBuffer.buffer front)], rfl⟩) h

theorem run_hist {Ok : Kernel → Event → Prop} {s₀ s : Kernel} (h : Run K Ok s₀ s) :
    s₀.hist <+: s.hist := by
  induction h with
  | refl => exact List.prefix_refl _
  | step _ _ _ hs ih => exact ih.trans (step_hist hs)

end Os64
