/-
  The tick count and the keyboard flags.

  * `Untimed P s s'`: from `s` to `s'` both are as they were, and whom `sys_sleep` left in its loop
    was there before, or has ticks to wait for at the count `T`.
  * `systemCalls_untimed`, `resume_untimed`: what a process does in the kernel is of that kind, so
    only the two interrupts change what their devices count.
-/
import Os64.Lib.Within
import Os64.Sys.Keys

namespace Os64

open Os64.Lib

variable {K : Image}

/-- The condition of the loop of `sys_sleep`. -/
def NotDue (ticks oldTicks sleepTicks : Nat) : Prop := u64 (ticks + (2 ^ 64 - oldTicks)) < sleepTicks

instance (ticks oldTicks sleepTicks : Nat) : Decidable (NotDue ticks oldTicks sleepTicks) :=
  inferInstanceAs (Decidable (_ < _))

structure Untimed (P : Nat → Nat → Prop) (s s' : Kernel) : Prop where
  ticks : s'.ticks = s.ticks
  flag : s'.flag = s.flag
  accepted : acceptedKeys s'.hist = acceptedKeys s.hist
  kont : ∀ i old n, (s'.processTable i).kont = .sleeping old n →
    (s.processTable i).kont = .sleeping old n ∨ P old n

instance untimedPreorder (P : Nat → Nat → Prop) : IsPreorder Kernel (Untimed P) where
  refl _ := ⟨rfl, rfl, rfl, fun _ _ _ hk => Or.inl hk⟩
  trans _ _ _ h h' :=
    ⟨h'.ticks.trans h.ticks, h'.flag.trans h.flag, h'.accepted.trans h.accepted,
      fun i old n hk => (h'.kont i old n hk).elim (h.kont i old n) Or.inr⟩

/-- Where `k` is in the loop of `sys_sleep`, its locals satisfy `P`. -/
def Undue (P : Nat → Nat → Prop) (k : Kont) : Prop := ∀ old n, k = .sleeping old n → P old n

section Programs

variable {ε α : Type} {P : Nat → Nat → Prop} {s s' : Kernel}

theorem untimed_of_eq (hp : s'.processTable = s.processTable) (ht : s'.ticks = s.ticks)
    (hf : s'.flag = s.flag) (ha : acceptedKeys s'.hist = acceptedKeys s.hist) : Untimed P s s' :=
  ⟨ht, hf, ha, fun i old n hk => Or.inl (by rw [hp] at hk; exact hk)⟩

theorem untimed_modify {f : Kernel → Kernel} (hp : ∀ s, (f s).processTable = s.processTable)
    (ht : ∀ s, (f s).ticks = s.ticks) (hf : ∀ s, (f s).flag = s.flag)
    (hh : ∀ s, (f s).hist = s.hist) : Within (Untimed P) (modify f : EStateM ε Kernel PUnit) :=
  within_modify fun s => untimed_of_eq (hp s) (ht s) (hf s) (by rw [hh])

theorem untimed_setProcess (i : Slot) {f : Process → Process}
    (hf : ∀ p, (f p).kont = p.kont ∨ Undue P (f p).kont) :
    Within (Untimed P) (setProcess i f : EStateM ε Kernel Unit) := by
  refine within_modify fun s => ⟨rfl, rfl, rfl, fun j old n hk => ?_⟩
  change (Function.update s.processTable i (f (s.processTable i)) j).kont = _ at hk
  by_cases hj : j = i
  · rw [hj, Function.update_self] at hk
    rw [hj]
    rcases hf (s.processTable i) with he | hu
    · exact Or.inl (he.symm.trans hk)
    · exact Or.inr (hu old n hk)
  · rw [Function.update_of_ne hj] at hk
    exact Or.inl hk

/-- Open files are descriptor slots only. -/
theorem untimed_setFile (i : Slot) (f : Process → Fin 100 → Nat) :
    Within (Untimed P) (setProcess i (fun p => { p with file := f p }) : EStateM ε Kernel Unit) :=
  untimed_setProcess i fun _ => Or.inl rfl

theorem untimed_setList (q : ListId) (l : HeadList) :
    Within (Untimed P) (setList q l : EStateM ε Kernel Unit) :=
  untimed_modify (fun _ => rfl) (fun _ => rfl) (fun _ => rfl) fun _ => rfl

theorem acceptedKeys_snoc {o : Obs} (ho : o.accepted? = none) (h : List Obs) :
    acceptedKeys (h ++ [o]) = acceptedKeys h := by
  unfold acceptedKeys
  rw [List.filterMap_append, List.filterMap_cons_none ho, List.filterMap_nil, List.append_nil]

theorem untimed_observe {o : Obs} (ho : o.accepted? = none) :
    Within (Untimed P) (observe o : EStateM ε Kernel Unit) := by
  exact within_modify fun s => untimed_of_eq rfl rfl rfl (acceptedKeys_snoc ho s.hist)

theorem untimed_ram (x : RamM α) : Within (Untimed P) (ram x) := by
  refine ⟨fun s => ?_⟩
  unfold ram
  rw [ends_onPart]
  exact ⟨fun _ => untimed_of_eq rfl rfl rfl rfl, fun _ => trivial⟩

theorem untimed_assert (c : Prop) [Decidable c] (line : Nat) :
    Within (Untimed P) (assertProcess c line) := within_ensure _ _

theorem untimed_low {x : LowM α} (h : Within (Untimed P) x) : Within (Untimed P) (low x) := by
  refine ⟨fun s => ?_⟩
  unfold low
  rw [ends_onPart]
  exact h.ends s

/-! ## Memory and files -/

theorem untimed_loadVirt (va : Nat) : Within (Untimed P) (loadVirt va) := by
  refine within_get.bind fun s => ?_
  split
  · exact within_pure _
  · exact within_throw _

theorem untimed_storeVirt (va : Nat) (v : UInt8) : Within (Untimed P) (storeVirt K va v) := by
  refine ⟨fun s => ?_⟩
  unfold storeVirt
  rw [ends_bind, ends_get]
  split
  · rw [ends_bind, ends_ensure, ends_set]
    exact ⟨fun _ => untimed_of_eq rfl rfl rfl rfl, fun _ => trivial⟩
  · rw [ends_throw]
    trivial

theorem untimed_loadVirtN (va n : Nat) : Within (Untimed P) (loadVirtN va n) := by
  induction n generalizing va with
  | zero => exact within_pure _
  | succ n ih =>
      exact (untimed_loadVirt va).bind fun _ => (ih (va + 1)).bind fun _ => within_pure _

theorem untimed_arg (argptr k : Nat) : Within (Untimed P) (low (arg argptr k)) :=
  untimed_low (untimed_loadVirtN _ _)

theorem untimed_splitName (path n i : Nat) (name : List UInt8) :
    Within (Untimed P) (splitName path n i name) := by
  induction n generalizing i name with
  | zero => exact within_pure _
  | succ n ih =>
      exact (untimed_loadVirt _).bind fun _ =>
        within_ite (within_pure _) (within_ite (within_pure _) (ih _ _))

theorem untimed_splitExt (path n i j : Nat) (ext : List UInt8) :
    Within (Untimed P) (splitExt path n i j ext) := by
  induction n generalizing i j ext with
  | zero => exact within_pure _
  | succ n ih =>
      exact (untimed_loadVirt _).bind fun _ =>
        within_ite (within_pure _) (within_ite (within_pure _) (ih _ _ _))

theorem untimed_splitEnd (path i : Nat) (name ext : List UInt8) :
    Within (Untimed P) (splitEnd path i name ext) :=
  (untimed_loadVirt _).bind fun _ => within_pure _

theorem untimed_splitPath (path : Nat) : Within (Untimed P) (splitPath path) := by
  refine (untimed_splitName _ _ _ _).bind fun r => ?_
  match r with
  | none => exact within_pure _
  | some (i, name) =>
      refine (untimed_loadVirt _).bind fun c => within_ite ?_ (untimed_splitEnd _ _ _ _)
      refine (untimed_splitExt _ _ _ _ _).bind fun r => ?_
      match r with
      | none => exact within_pure _
      | some (i, ext) => exact untimed_splitEnd _ _ _ _

theorem untimed_searchFile (path : Nat) : Within (Untimed P) (searchFile path) := by
  refine (untimed_splitPath path).bind fun r => ?_
  match r with
  | none => exact within_pure _
  | some (name, ext) =>
      exact (untimed_ram _).bind fun _ => (untimed_ram _).bind fun _ => untimed_ram _

theorem untimed_openFile (proc : Slot) (path : Nat) : Within (Untimed P) (openFile proc path) := by
  unfold openFile
  refine within_get.bind fun s => ?_
  split
  · exact within_pure _
  · refine (untimed_ram _).bind fun r => ?_
    match r with
    | none => exact within_pure _
    | some k =>
        refine (untimed_searchFile path).bind fun e => within_ite (within_pure _) ?_
        exact (untimed_ram _).bind fun _ => (untimed_ram _).bind fun _ => (untimed_ram _).bind
          fun _ => (untimed_ram _).bind fun _ => (untimed_setFile _ _).bind fun _ => within_pure _

theorem untimed_fileAt (proc : Slot) (fd : Int) : Within (Untimed P) (fileAt proc fd) := by
  refine within_get.bind fun s => ?_
  split
  · exact within_pure _
  · exact within_throw _

theorem untimed_memcpyVirt (supplied : Bool) (dst src n : Nat) :
    Within (Untimed P) (memcpyVirt K supplied dst src n) := by
  refine within_forM fun k => (untimed_loadVirt _).bind fun v => ?_
  cases supplied with
  | false => exact untimed_storeVirt _ _
  | true => exact (untimed_observe rfl).bind fun _ => untimed_storeVirt _ _

theorem untimed_readClusters (supplied : Bool) (bpb cs size fuel i buf n : Nat) :
    Within (Untimed P) (readClusters K supplied bpb cs size fuel i buf n) := by
  induction fuel generalizing i buf n with
  | zero => exact within_throw _
  | succ fuel ih =>
      refine within_ite ((untimed_ram _).bind fun _ => within_ite ?_ ?_) (within_pure _)
      · exact (untimed_memcpyVirt _ _ _ _).bind fun _ => within_pure _
      · exact (untimed_memcpyVirt _ _ _ _).bind fun _ => (untimed_ram _).bind fun _ => ih _ _ _

theorem untimed_readRawData (supplied : Bool) (c buf pos size : Nat) :
    Within (Untimed P) (readRawData K supplied c buf pos size) := by
  unfold readRawData
  refine (untimed_ram _).bind fun _ => (within_ensure _ _).bind fun _ => (untimed_ram _).bind
    fun _ => (untimed_ram _).bind fun _ => within_ite ?_ (untimed_readClusters _ _ _ _ _ _ _ _)
  exact (untimed_ram _).bind fun _ => (untimed_memcpyVirt _ _ _ _).bind fun _ =>
    (untimed_ram _).bind fun _ => untimed_readClusters _ _ _ _ _ _ _ _

theorem untimed_readFile (supplied : Bool) (proc : Slot) (fd : Int) (buf size : Nat) :
    Within (Untimed P) (readFile K supplied proc fd buf size) := by
  unfold readFile
  refine (untimed_fileAt _ _).bind fun _ => (untimed_ram _).bind fun _ => (untimed_ram _).bind
    fun _ => (untimed_ram _).bind fun _ => within_ite (within_pure _) ?_
  exact (untimed_ram _).bind fun _ => (untimed_readRawData _ _ _ _ _).bind fun _ =>
    (untimed_ram _).bind fun _ => within_pure _

theorem untimed_closeFile (proc : Slot) (fd : Int) : Within (Untimed P) (closeFile proc fd) := by
  unfold closeFile
  exact (untimed_fileAt _ _).bind fun _ => (untimed_ram _).bind fun _ => (untimed_ram _).bind fun _ =>
    (untimed_ram _).bind fun _ => untimed_setFile _ _

theorem untimed_getFileSize (proc : Slot) (fd : Int) : Within (Untimed P) (getFileSize proc fd) :=
  (untimed_fileAt _ _).bind fun _ => (untimed_ram _).bind fun _ => untimed_ram _

theorem untimed_readRootDirectory (buf : Nat) : Within (Untimed P) (readRootDirectory K buf) := by
  unfold readRootDirectory
  exact (untimed_ram _).bind fun _ => (untimed_ram _).bind fun _ => (untimed_memcpyVirt true _ _ _).bind
    fun _ => within_pure _

theorem untimed_closeAll (i : Slot) : Within (Untimed P) (closeAll i) := by
  unfold closeAll
  exact within_get.bind fun _ => within_forM fun _ => within_ite
    ((untimed_ram _).bind fun _ => (untimed_ram _).bind fun _ => untimed_ram _) (within_pure _)

theorem untimed_shareFiles (i : Slot) : Within (Untimed P) (shareFiles i) := by
  unfold shareFiles
  exact within_get.bind fun _ => within_forM fun _ => within_ite
    ((untimed_ram _).bind fun _ => (untimed_ram _).bind fun _ => untimed_ram _) (within_pure _)

theorem untimed_clearUserPage : Within (Untimed P) (clearUserPage K) := by
  unfold clearUserPage
  exact within_forM fun _ => untimed_storeVirt _ _

/-! ## The scheduler -/

theorem untimed_appendListTail (q : ListId) (i : Slot) : Within (Untimed P) (appendListTail q i) := by
  have hlink : ∀ (j : Slot) (n : Option Slot),
      Within (Untimed P) (setProcess j fun p => { p with next := n } : LowM Unit) :=
    fun j _ => untimed_setProcess j fun _ => Or.inl rfl
  unfold appendListTail
  refine (hlink _ _).bind fun _ => within_get.bind fun _ => within_ite (untimed_setList _ _) ?_
  split
  · exact (hlink _ _).bind fun _ => untimed_setList _ _
  · exact within_throw _

theorem untimed_removeListHead (q : ListId) : Within (Untimed P) (removeListHead q) := by
  unfold removeListHead
  refine within_get.bind fun s => ?_
  split
  · exact within_pure _
  · exact (untimed_setList _ _).bind fun _ => within_pure _

theorem untimed_removeListLoop (q : ListId) (w : Int) (fuel : Nat) (p c : Option Slot) :
    Within (Untimed P) (removeListLoop q w fuel p c) := by
  have hlink : ∀ (j : Slot) (n : Option Slot),
      Within (Untimed P) (setProcess j fun p => { p with next := n } : LowM Unit) :=
    fun j _ => untimed_setProcess j fun _ => Or.inl rfl
  induction fuel generalizing p c with
  | zero => exact within_throw _
  | succ n ih =>
      cases c with
      | none => exact within_pure _
      | some c =>
          unfold removeListLoop
          refine within_get.bind fun s => within_ite ?_ (ih _ _)
          have htail : ∀ t : Kernel, Within (Untimed P) (do
              if isListEmpty (t.pc.list q) then
                setList q { t.pc.list q with tail := none }
              else if (s.processTable c).next.isNone then
                setList q { t.pc.list q with tail := p }
              return some c : LowM (Option Slot)) := fun t =>
            within_ite ((untimed_setList _ _).bind fun _ => within_pure _)
              (within_ite ((untimed_setList _ _).bind fun _ => within_pure _) (within_pure _))
          cases p with
          | none => exact (untimed_setList _ _).bind fun _ => within_get.bind htail
          | some p => exact (hlink _ _).bind fun _ => within_get.bind htail

theorem untimed_removeList (q : ListId) (w : Int) : Within (Untimed P) (removeList q w) :=
  within_get.bind fun _ => untimed_removeListLoop _ _ _ _ _

theorem untimed_setState (i : Slot) (st : ProcState) :
    Within (Untimed P) (setProcess i fun p => { p with state := st } : EStateM ε Kernel Unit) :=
  untimed_setProcess i fun _ => Or.inl rfl

theorem untimed_switchProcess (p j : Slot) {k : Kont} (hk : Undue P k) :
    Within (Untimed P) (switchProcess p j k) := by
  refine ⟨fun s => ends_of_run (switchProcess_run s p j k)
    ⟨rfl, rfl, acceptedKeys_snoc rfl s.hist, fun i old n hi => ?_⟩⟩
  change (Function.update s.processTable p { s.processTable p with kont := k } i).kont = _ at hi
  by_cases hip : i = p
  · rw [hip, Function.update_self] at hi
    exact Or.inr (hk old n hi)
  · rw [Function.update_of_ne hip] at hi
    exact Or.inl hi

theorem untimed_schedule {k : Kont} (hk : Undue P k) : Within (Untimed P) (schedule k) := by
  have hrest : ∀ prev j : Slot, Within (Untimed P) (do
      setProcess j fun p => { p with state := .running }
      modify fun s => { s with pc := { s.pc with currentProcess := j } }
      switchProcess prev j k : KernelM Unit) := fun _ j =>
    (untimed_setState _ _).bind fun _ =>
      (untimed_modify (f := fun s => { s with pc := { s.pc with currentProcess := j } })
        (fun _ => rfl) (fun _ => rfl) (fun _ => rfl) fun _ => rfl).bind fun _ => untimed_switchProcess _ _ hk
  unfold schedule
  refine within_get.bind fun s => ?_
  dsimp only
  refine within_ite ((within_ensure _ _).bind fun _ => (within_pure _).bind fun r => ?_)
    ((untimed_low (untimed_removeListHead _)).bind fun r => ?_)
  all_goals
    cases r with
    | none => exact within_throw _
    | some j => exact hrest _ j

theorem untimed_yield : Within (Untimed P) yield := by
  unfold yield
  refine within_get.bind fun s => within_ite (within_pure _) ((untimed_setState _ _).bind fun _ => ?_)
  have hrest : Within (Untimed P) (schedule .trapReturn) := untimed_schedule nofun
  exact within_ite ((untimed_low (untimed_appendListTail _ _)).bind fun _ => hrest) hrest

theorem untimed_sleep (w : Int) {k : Kont} (hk : Undue P k) : Within (Untimed P) (sleep w k) := by
  refine within_get.bind fun s => Within.bind ?_ fun _ =>
    (untimed_low (untimed_appendListTail _ _)).bind fun _ => untimed_schedule hk
  exact untimed_setProcess _ fun _ => Or.inl rfl

theorem untimed_wakeUp (w : Int) : Within (Untimed P) (wakeUp w) := by
  have hloop : ∀ fuel, Within (Untimed P) (wakeUpLoop w fuel) := by
    intro fuel
    induction fuel with
    | zero => exact within_throw _
    | succ n ih =>
        refine (untimed_removeList _ _).bind fun r => ?_
        cases r with
        | none => exact within_pure _
        | some i =>
            exact (untimed_setState _ _).bind fun _ => (untimed_appendListTail _ _).bind fun _ => ih
  exact hloop _

/-! ## Processes -/

theorem untimed_exit : Within (Untimed P) exit := by
  refine within_get.bind fun s => Within.bind ?_ fun _ =>
    (untimed_low (untimed_appendListTail _ _)).bind fun _ =>
      (untimed_low (untimed_wakeUp _)).bind fun _ => (untimed_observe rfl).bind fun _ =>
        untimed_schedule nofun
  exact untimed_setProcess _ fun _ => Or.inl rfl

theorem untimed_reap (i : Slot) : Within (Untimed P) (reap K i) := by
  refine within_get.bind fun _ => (untimed_assert _ _).bind fun _ => (untimed_low (untimed_ram _)).bind
    fun _ => (untimed_low (untimed_ram _)).bind fun _ => (untimed_low (untimed_closeAll i)).bind
      fun _ => Within.bind ?_ fun _ => untimed_observe rfl
  exact untimed_setProcess i fun _ => Or.inr nofun

theorem untimed_waitLoop (p : Int) : Within (Untimed P) (waitLoop K p) := by
  have hsleep : Within (Untimed P) (sleep (-3) (.waiting p)) := untimed_sleep _ nofun
  unfold waitLoop
  refine within_get.bind fun s => ?_
  dsimp only
  refine within_ite ((within_pure _).bind fun r => ?_)
    ((untimed_low (untimed_removeList _ _)).bind fun r => ?_)
  all_goals
    cases r with
    | none => exact hsleep.bind fun _ => within_pure _
    | some i => exact (untimed_reap i).bind fun _ => within_pure _

theorem untimed_allocNewProcess : Within (Untimed P) (allocNewProcess K) := by
  have hset : ∀ (i : Slot) (f : Process → Process), (∀ p, (f p).kont = p.kont ∨ Undue P (f p).kont) →
      Within (Untimed P) (setProcess i f : LowM Unit) := fun i _ hf => untimed_setProcess i hf
  unfold allocNewProcess
  refine within_get.bind fun s => ?_
  split
  · exact within_pure _
  · refine Within.bind (hset _ _ fun _ => Or.inl rfl) fun _ =>
      (untimed_modify (f := fun s => { s with pidNum := nextPid s.pidNum }) (fun _ => rfl)
        (fun _ => rfl) (fun _ => rfl) fun _ => rfl).bind fun _ => (untimed_ram _).bind fun _ => Within.bind
          (hset _ _ fun _ => Or.inl rfl) fun _ => within_ite (within_pure _) ?_
    refine (untimed_ram _).bind fun _ => (untimed_ram _).bind fun _ => Within.bind
      (hset _ _ fun _ => Or.inr nofun) fun _ => (untimed_ram _).bind fun _ => Within.bind
        (hset _ _ fun _ => Or.inl rfl) fun _ => within_ite ?_ ?_
    · exact (untimed_ram _).bind fun _ => Within.bind (hset _ _ fun _ => Or.inr nofun) fun _ =>
        within_pure _
    · exact (untimed_observe rfl).bind fun _ => within_pure _

theorem untimed_fork : Within (Untimed P) (fork K) := by
  unfold fork
  refine within_get.bind fun s => (untimed_low untimed_allocNewProcess).bind fun r => ?_
  cases r with
  | none => exact within_throw _
  | some i =>
      exact within_get.bind fun _ => (untimed_low (untimed_ram _)).bind fun _ =>
        (untimed_assert _ _).bind fun _ => (untimed_setFile _ _).bind fun _ =>
          (untimed_low (untimed_shareFiles i)).bind fun _ => (untimed_low (untimed_ram _)).bind fun _ =>
            (untimed_low (untimed_ram _)).bind fun _ => (untimed_setState _ _).bind fun _ =>
              (untimed_low (untimed_appendListTail _ _)).bind fun _ => within_pure _

theorem untimed_exec (proc : Slot) (name : Nat) : Within (Untimed P) (exec K proc name) := by
  unfold exec
  refine (untimed_low (untimed_openFile _ _)).bind fun _ =>
    within_ite (untimed_exit.bind fun _ => within_pure _) ?_
  refine (untimed_low untimed_clearUserPage).bind fun _ =>
    (untimed_low (untimed_getFileSize _ _)).bind fun _ =>
      (untimed_low (untimed_readFile false _ _ _ _)).bind fun _ =>
        within_ite (untimed_exit.bind fun _ => within_pure _) ?_
  exact (untimed_low (untimed_closeFile _ _)).bind fun _ => within_get.bind fun _ =>
    (untimed_low (untimed_ram _)).bind fun _ => (untimed_low (untimed_ram _)).bind fun _ => within_pure _

theorem untimed_takeKey (front : Nat) : Within (Untimed P) (takeKey front) := by
  refine ⟨fun s => ends_of_run rfl ?_⟩
  exact untimed_of_eq rfl rfl rfl (acceptedKeys_snoc rfl s.hist)

theorem untimed_readKeyBuffer : Within (Untimed P) readKeyBuffer := by
  have hsleep : ∀ front, Within (Untimed P) (sleep (-2) (.readingKey front)) := fun _ =>
    untimed_sleep _ nofun
  exact within_get.bind fun _ => within_ite ((hsleep _).bind fun _ => within_pure _)
    ((untimed_takeKey _).bind fun _ => within_pure _)

theorem untimed_pushFrame (f : TrapFrame) : Within (Untimed P) (pushFrame f) :=
  within_get.bind fun _ => within_ite (untimed_low (untimed_ram _)) (within_pure _)

theorem untimed_setResult (tf : Nat) (r : Option Int) : Within (Untimed P) (setResult tf r) := by
  cases r with
  | none => exact within_pure _
  | some v => exact untimed_low (untimed_ram _)

/-- Who goes to sleep in `sys_sleep` is not due. -/
theorem sleepLoop_untimed (s : Kernel) {old n : Nat} (hP : NotDue s.ticks old n → P old n) :
    Ends (sleepLoop old n) s (fun _ s' => Untimed P s s') fun _ _ => True := by
  unfold sleepLoop
  rw [ends_bind, ends_get, ends_ite]
  refine ⟨fun hdue => ?_, fun _ => (within_pure _).ends s⟩
  have hsleep : Within (Untimed P) (sleep (-1) (.sleeping old n)) :=
    untimed_sleep _ fun _ _ he => by
      obtain ⟨rfl, rfl⟩ := Kont.sleeping.inj he
      exact hP hdue
  exact (hsleep.bind fun _ => within_pure _).ends s

end Programs

/-! ## System calls and the steps -/

/-- The locals of a call of `sys_sleep` at the count `T` that goes to sleep. -/
def AtCall (T : Nat) (old n : Nat) : Prop := NotDue T old n ∧ old = T

theorem untimed_ends {ε α : Type} {x : EStateM ε Kernel α} (h : ∀ P, Within (Untimed P) x)
    (s : Kernel) : Ends x s (fun _ s' => Untimed (AtCall s.ticks) s s') fun _ _ => True :=
  (h _).ends s

/-- A program whose first part is untimed whatever `P` is. -/
theorem ends_untimed_bind {α β : Type} {x : KernelM α} {f : α → KernelM β} {s : Kernel}
    (hx : ∀ P, Within (Untimed P) x) (hf : ∀ v s₁,
      Ends (f v) s₁ (fun _ s' => Untimed (AtCall s₁.ticks) s₁ s') fun _ _ => True) :
    Ends (x >>= f) s (fun _ s' => Untimed (AtCall s.ticks) s s') fun _ _ => True := by
  refine (untimed_ends hx s).bind (fun v s₁ h₁ => (hf v s₁).mono (fun _ _ h => ?_) fun _ _ h => h)
    fun _ _ h => h
  rw [h₁.ticks] at h
  exact trans_of (Untimed (AtCall s.ticks)) h₁ h

theorem waitResult_untimed (p : Int) (P : Nat → Nat → Prop) : Within (Untimed P) (waitResult K p) :=
  (untimed_waitLoop p).bind fun _ => within_pure _

theorem systemCalls_untimed (i argptr : Nat) (s : Kernel) :
    Ends (systemCalls K i argptr) s (fun _ s' => Untimed (AtCall s.ticks) s s') fun _ _ => True := by
  unfold systemCalls
  split
  · refine untimed_ends (fun P => ?_) s
    exact (untimed_arg _ _).bind fun _ => (untimed_arg _ _).bind fun _ => (untimed_arg _ _).bind
      fun _ => (untimed_low (within_forM fun _ => (untimed_loadVirt _).bind fun _ =>
        within_pure _)).bind fun _ => within_pure _
  · exact ends_untimed_bind (fun _ => untimed_arg _ _) fun n s₁ => by
      rw [ends_bind, ends_get]
      exact sleepLoop_untimed s₁ fun hdue => ⟨hdue, rfl⟩
  · exact untimed_ends (fun _ => untimed_exit.bind fun _ => within_pure _) s
  · exact untimed_ends (fun P => (untimed_arg _ _).bind fun _ => waitResult_untimed _ P) s
  · exact untimed_ends (fun _ => untimed_readKeyBuffer) s
  · exact untimed_ends (fun _ => within_get.bind fun _ => within_pure _) s
  · exact untimed_ends (fun _ => within_get.bind fun _ => within_pure _) s
  · exact untimed_ends (fun _ => within_get.bind fun _ => within_pure _) s
  · exact untimed_ends (fun _ => within_pure _) s
  · exact untimed_ends (fun _ => within_get.bind fun _ => (untimed_arg _ _).bind fun _ =>
      (untimed_low (untimed_openFile _ _)).bind fun _ => within_pure _) s
  · exact untimed_ends (fun _ => within_get.bind fun _ => (untimed_arg _ _).bind fun _ =>
      (untimed_arg _ _).bind fun _ => (untimed_arg _ _).bind fun _ =>
        (untimed_low (untimed_readFile true _ _ _ _)).bind fun _ => within_pure _) s
  · exact untimed_ends (fun _ => within_get.bind fun _ => (untimed_arg _ _).bind fun _ =>
      (untimed_low (untimed_getFileSize _ _)).bind fun _ => within_pure _) s
  · exact untimed_ends (fun _ => within_get.bind fun _ => (untimed_arg _ _).bind fun _ =>
      (untimed_low (untimed_closeFile _ _)).bind fun _ => within_pure _) s
  · exact untimed_ends (fun _ => untimed_fork.bind fun _ => within_pure _) s
  · exact untimed_ends (fun _ => within_get.bind fun _ => (untimed_arg _ _).bind fun _ =>
      untimed_exec _ _) s
  · exact untimed_ends (fun _ => (untimed_arg _ _).bind fun _ =>
      (untimed_low (untimed_readRootDirectory _)).bind fun _ => within_pure _) s
  · exact untimed_ends (fun _ => within_throw _) s

/-- A program that ends with an untimed one. -/
theorem untimed_after {α β : Type} {x : KernelM α} {f : α → KernelM β} {s s₀ : Kernel} {P : Nat → Nat → Prop}
    (hx : Ends x s (fun _ s' => Untimed P s₀ s') fun _ _ => True)
    (hf : ∀ v, Within (Untimed P) (f v)) :
    Ends (x >>= f) s (fun _ s' => Untimed P s₀ s') fun _ _ => True :=
  hx.bind (fun v s₁ h₁ => ((hf v).ends s₁).mono (fun _ _ h => trans_of (Untimed P) h₁ h)
    fun _ _ h => h) fun _ _ h => h

theorem systemCall_untimed (tf : Nat) (s : Kernel) :
    Ends (systemCall K tf) s (fun _ s' => Untimed (AtCall s.ticks) s s') fun _ _ => True := by
  unfold systemCall
  refine ends_untimed_bind (fun _ => untimed_low (untimed_ram _)) fun i s₁ => ?_
  refine ends_untimed_bind (fun _ => untimed_low (untimed_ram _)) fun c s₂ => ?_
  refine ends_untimed_bind (fun _ => untimed_low (untimed_ram _)) fun p s₃ => ?_
  split
  · exact untimed_ends (fun _ => untimed_setResult _ _) s₃
  · exact untimed_after (systemCalls_untimed i p s₃) fun _ => untimed_setResult _ _

/-- The current process has left its continuation. -/
def Kernel.onward (s : Kernel) : Kernel :=
  s.setProcess s.pc.currentProcess fun p => { p with kont := .user }

theorem onward_kont (s : Kernel) (i : Slot) : (s.onward.processTable i).kont =
    if i = s.pc.currentProcess then .user else (s.processTable i).kont := by
  unfold Kernel.onward Kernel.setProcess
  by_cases hi : i = s.pc.currentProcess
  · rw [if_pos hi, hi]
    simp only [Function.update_self]
  · rw [if_neg hi]
    simp only [Function.update_of_ne hi]

/-- The locals of a process that goes back to sleep in `sys_sleep`. -/
def AtWake (s : Kernel) (old n : Nat) : Prop :=
  NotDue s.ticks old n ∧ s.current.kont = .sleeping old n

theorem resume_untimed (s : Kernel) :
    Ends (resume K) s (fun _ s' => Untimed (AtWake s) s.onward s') fun _ _ => True := by
  have hset : ∀ {f : Unit → KernelM Unit},
      Ends (f ()) s.onward (fun _ s' => Untimed (AtWake s) s.onward s') (fun _ _ => True) →
      Ends (setProcess s.pc.currentProcess (fun p => { p with kont := .user }) >>= f) s
        (fun _ s' => Untimed (AtWake s) s.onward s') fun _ _ => True := by
    intro f h
    rw [ends_bind]
    exact ends_of_run (setProcess_run _ _ s) h
  unfold resume
  rw [ends_bind, ends_get]
  split
  · rename_i hu
    rw [ends_pure]
    refine ⟨rfl, rfl, rfl, fun i old n hk => Or.inl ?_⟩
    rw [onward_kont]
    split
    · rename_i hi
      exact absurd ((hi ▸ hk).symm.trans hu) nofun
    · exact hk
  · exact ends_of_run (setProcess_run _ _ s) (refl_of (Untimed (AtWake s)) s.onward)
  · rename_i hk
    exact hset (untimed_after (sleepLoop_untimed s.onward fun hdue => ⟨hdue, hk⟩)
      fun _ => untimed_setResult _ _)
  · exact hset (((waitResult_untimed _ _).bind fun _ => untimed_setResult _ _).ends _)
  · exact hset (((untimed_takeKey _).bind fun _ => untimed_setResult _ _).ends _)
  · rw [ends_throw]
    trivial

/-- The tick count after an event. -/
def Event.ticks (ticks : Nat) : Event → Nat
  | .timer _ => u64 (ticks + 1)
  | _ => ticks

/-- The keyboard flags after an event. -/
def Event.flag (flag : Nat) : Event → Nat
  | .keyboard scanCode _ => (decodeScanCode flag scanCode).1
  | _ => flag

/-- The characters that an event puts into the ring. -/
def Event.keys (flag : Nat) (b : KeyboardBuffer) : Event → List Nat
  | .keyboard scanCode _ =>
      if 0 < (decodeScanCode flag scanCode).2 ∧ (b.end_ + 1) % b.size ≠ b.front then
        [(decodeScanCode flag scanCode).2]
      else []
  | _ => []

/-- What an event does to the devices' counts, and to who is in the loop of `sys_sleep`. -/
structure Counts (e : Event) (s s' : Kernel) : Prop where
  ticks : s'.ticks = e.ticks s.ticks
  flag : s'.flag = e.flag s.flag
  accepted : acceptedKeys s'.hist = acceptedKeys s.hist ++ e.keys s.flag s.keyBuffer
  kont : ∀ i old n, (s'.processTable i).kont = .sleeping old n →
    i ≠ s.pc.currentProcess ∧ (s.processTable i).kont = .sleeping old n ∨
      NotDue s.ticks old n ∧ (old = s.ticks ∨ s.current.kont = .sleeping old n)

/-- Where the current process comes from user mode, it was not in the loop. -/
theorem away_of_user {s : Kernel} (hu : s.current.kont = .user) {i : Slot} {old n : Nat}
    (hk : (s.processTable i).kont = .sleeping old n) : i ≠ s.pc.currentProcess := fun hi =>
  absurd ((hi ▸ hk).symm.trans hu) nofun

theorem Untimed.counts {e : Event} {s s' : Kernel} (h : Untimed (AtCall s.ticks) s s')
    (hu : s.current.kont = .user) (ht : e.ticks s.ticks = s.ticks) (hf : e.flag s.flag = s.flag)
    (hk : e.keys s.flag s.keyBuffer = []) : Counts e s s' :=
  ⟨h.ticks.trans ht.symm, h.flag.trans hf.symm, by rw [hk, List.append_nil]; exact h.accepted,
    fun i old n hk => (h.kont i old n hk).imp (fun hk => ⟨away_of_user hu hk, hk⟩)
      fun hp => ⟨hp.1, Or.inl hp.2⟩⟩

/-- The two interrupts first do their own, and then what is untimed. -/
theorem counts_after {e : Event} {s s₁ s₂ s' : Kernel} (h₁ : Untimed (AtCall s.ticks) s s₁)
    (h : Untimed (AtCall s.ticks) s₂ s') (hu : s.current.kont = .user)
    (hp : s₂.processTable = s₁.processTable) (ht : s₂.ticks = e.ticks s.ticks)
    (hf : s₂.flag = e.flag s.flag)
    (ha : acceptedKeys s₂.hist = acceptedKeys s₁.hist ++ e.keys s.flag s.keyBuffer) :
    Counts e s s' := by
  refine ⟨h.ticks.trans ht, h.flag.trans hf, ?_, fun i old n hk => ?_⟩
  · rw [h.accepted, ha, h₁.accepted]
  · rcases h.kont i old n hk with hk | hdue
    · rw [hp] at hk
      exact (h₁.kont i old n hk).imp (fun hk => ⟨away_of_user hu hk, hk⟩)
        fun hp => ⟨hp.1, Or.inl hp.2⟩
    · exact Or.inr ⟨hdue.1, Or.inl hdue.2⟩

theorem timer_counts (f : TrapFrame) {s : Kernel} (hu : s.current.kont = .user) :
    Ends (step K (.timer f)) s (fun _ s' => Counts (.timer f) s s') fun _ _ => True := by
  refine ((untimed_pushFrame (P := AtCall s.ticks) f).ends s).bind (fun _ s₁ h₁ => ?_) fun _ _ h => h
  have htick : Ends (low timerHandler) s₁ (fun _ s' => Untimed (AtCall s.ticks)
      { s₁ with ticks := u64 (s₁.ticks + 1) } s') fun _ _ => True := by
    unfold low timerHandler
    rw [ends_onPart, ends_bind, ends_modify]
    exact (untimed_wakeUp (-1)).ends _
  refine (untimed_after htick fun _ => untimed_yield).mono (fun _ s' h => ?_) fun _ _ h => h
  refine counts_after h₁ h hu rfl ?_ h₁.flag (List.append_nil _).symm
  rw [show (Event.timer f).ticks s.ticks = u64 (s.ticks + 1) from rfl, ← h₁.ticks]

theorem keyboardRead_run (c : Nat) (s : Kernel) :
    keyboardRead c s =
      .ok (decodeScanCode s.flag c).2 { s with flag := (decodeScanCode s.flag c).1 } := rfl

theorem writeKeyBuffer_run (ch : Nat) (s : Kernel) :
    writeKeyBuffer ch s = .ok () (if (s.keyBuffer.end_ + 1) % s.keyBuffer.size = s.keyBuffer.front
      then s else s.accept ch) := by
  unfold writeKeyBuffer
  rw [bind_run (get_run s)]
  split
  · rfl
  · rfl

theorem acceptedKeys_accept (s : Kernel) (ch : Nat) :
    acceptedKeys (s.accept ch).hist = acceptedKeys s.hist ++ [ch] := by
  unfold acceptedKeys Kernel.accept
  rw [List.filterMap_append]
  rfl

theorem keyboard_counts (c : Nat) (f : TrapFrame) {s : Kernel} (hu : s.current.kont = .user) :
    Ends (step K (.keyboard c f)) s (fun _ s' => Counts (.keyboard c f) s s') fun _ _ => True := by
  have hpush := ((untimed_pushFrame (P := AtCall s.ticks) f).ends s).and
    ((quiet_pushFrame (b := false) f).ends s)
  refine hpush.bind (fun _ s₁ h₁ => ?_) fun _ _ _ => trivial
  obtain ⟨h₁, hq⟩ := h₁
  unfold low keyboardHandler
  rw [ends_onPart, ends_bind]
  refine ends_of_run (keyboardRead_run c s₁) ?_
  have hflag : (decodeScanCode s₁.flag c) = decodeScanCode s.flag c := by rw [h₁.flag]
  have hkeys : ∀ ks, (Event.keyboard c f).keys s.flag s.keyBuffer = ks ↔
      (if 0 < (decodeScanCode s.flag c).2 ∧
        (s₁.keyBuffer.end_ + 1) % s₁.keyBuffer.size ≠ s₁.keyBuffer.front then
          [(decodeScanCode s.flag c).2] else []) = ks := by
    intro ks
    rw [hq.keyBuffer]
    exact Iff.rfl
  rw [ends_ite, hflag]
  refine ⟨fun hch => ?_, fun hch => ends_pure.mpr ?_⟩
  · rw [ends_bind]
    refine ends_of_run (writeKeyBuffer_run _ _) ?_
    refine ((untimed_wakeUp (P := AtCall s.ticks) (-2)).ends _).mono (fun _ s' h => ?_) fun _ _ h => h
    split at h
    · rename_i hfull
      refine counts_after h₁ h hu rfl h₁.ticks rfl ?_
      rw [(hkeys []).mpr (if_neg fun hn => hn.2 hfull), List.append_nil]
    · rename_i hroom
      refine counts_after h₁ h hu rfl h₁.ticks rfl ?_
      rw [acceptedKeys_accept, (hkeys _).mpr (if_pos ⟨hch, hroom⟩)]
  · refine counts_after h₁ (refl_of (Untimed (AtCall s.ticks)) _) hu rfl h₁.ticks rfl ?_
    rw [(hkeys []).mpr (if_neg fun hn => hch hn.1), List.append_nil]

theorem step_counts {e : Event} {s s' : Kernel} (he : Enabled s e) (hrun : step K e s = .ok () s') :
    Counts e s s' := by
  cases e with
  | timer f => exact (timer_counts f he.1).ok hrun
  | keyboard c f => exact (keyboard_counts c f he.1).ok hrun
  | spurious f => exact Untimed.counts ((untimed_pushFrame f).ok hrun) he.1 rfl rfl rfl
  | syscall f =>
      have hcall : Ends (step K (.syscall f)) s (fun _ s' => Untimed (AtCall s.ticks) s s') fun _ _ => True :=
        ends_untimed_bind (fun _ => untimed_pushFrame f) fun _ s₁ => by
          rw [ends_bind, ends_get]
          exact systemCall_untimed _ s₁
      exact (hcall.ok hrun).counts he.1 rfl rfl rfl
  | exception f =>
      exact (((untimed_pushFrame f).bind fun _ => untimed_exit).ok hrun).counts he.1 rfl rfl rfl
  | store va b => exact ((untimed_low (untimed_storeVirt va b)).ok hrun).counts he.1 rfl rfl rfl
  | resume =>
      have h := (resume_untimed s).ok hrun
      refine ⟨h.ticks, h.flag, ?_, fun i old n hk =>
        (h.kont i old n hk).imp (fun hk => ?_) fun hp => ⟨hp.1, Or.inr hp.2⟩⟩
      · rw [h.accepted]
        exact (List.append_nil _).symm
      · rw [onward_kont] at hk
        split at hk
        · exact nomatch hk
        · rename_i hi
          exact ⟨hi, hk⟩

/-! ## Booting -/

/-- Booting counts nothing, accepts no key and puts nobody to sleep. -/
structure Boots (s s' : Kernel) : Prop where
  ticks : s'.ticks = s.ticks
  flag : s'.flag = s.flag
  accepted : acceptedKeys s'.hist = acceptedKeys s.hist
  awake : (∀ i, (s.processTable i).state ≠ .sleep) → ∀ i, (s'.processTable i).state ≠ .sleep

instance bootsPreorder : IsPreorder Kernel Boots where
  refl _ := ⟨rfl, rfl, rfl, id⟩
  trans _ _ _ h h' := ⟨h'.ticks.trans h.ticks, h'.flag.trans h.flag, h'.accepted.trans h.accepted,
    fun ha => h'.awake (h.awake ha)⟩

section Boots

variable {ε α : Type}

theorem boots_modify {f : Kernel → Kernel} (hp : ∀ s, (f s).processTable = s.processTable)
    (ht : ∀ s, (f s).ticks = s.ticks) (hf : ∀ s, (f s).flag = s.flag)
    (hh : ∀ s, acceptedKeys (f s).hist = acceptedKeys s.hist) :
    Within Boots (modify f : EStateM ε Kernel PUnit) :=
  within_modify fun s => ⟨ht s, hf s, hh s, fun ha i => by rw [hp]; exact ha i⟩

theorem boots_setProcess (i : Slot) {f : Process → Process}
    (hf : ∀ p, (f p).state = p.state ∨ (f p).state ≠ .sleep) :
    Within Boots (setProcess i f : EStateM ε Kernel Unit) := by
  refine within_modify fun s => ⟨rfl, rfl, rfl, fun ha j => ?_⟩
  change (Function.update s.processTable i (f (s.processTable i)) j).state ≠ _
  by_cases hj : j = i
  · rw [hj, Function.update_self]
    rcases hf (s.processTable i) with he | hn
    · rw [he]
      exact ha i
    · exact hn
  · rw [Function.update_of_ne hj]
    exact ha j

theorem boots_setList (q : ListId) (l : HeadList) :
    Within Boots (setList q l : EStateM ε Kernel Unit) :=
  boots_modify (fun _ => rfl) (fun _ => rfl) (fun _ => rfl) fun _ => rfl

theorem boots_ram (x : RamM α) : Within Boots (ram x) := by
  refine ⟨fun s => ?_⟩
  unfold ram
  rw [ends_onPart]
  exact ⟨fun _ => ⟨rfl, rfl, rfl, id⟩, fun _ => trivial⟩

theorem boots_low {x : LowM α} (h : Within Boots x) : Within Boots (low x) := by
  refine ⟨fun s => ?_⟩
  unfold low
  rw [ends_onPart]
  exact h.ends s

theorem boots_appendListTail (q : ListId) (i : Slot) : Within Boots (appendListTail q i) := by
  have hlink : ∀ (j : Slot) (n : Option Slot),
      Within Boots (setProcess j fun p => { p with next := n } : LowM Unit) :=
    fun j _ => boots_setProcess j fun _ => Or.inl rfl
  unfold appendListTail
  refine (hlink _ _).bind fun _ => within_get.bind fun _ => within_ite (boots_setList _ _) ?_
  split
  · exact (hlink _ _).bind fun _ => boots_setList _ _
  · exact within_throw _

theorem boots_allocNewProcess : Within Boots (allocNewProcess K) := by
  have hset : ∀ (i : Slot) (f : Process → Process),
      (∀ p, (f p).state = p.state ∨ (f p).state ≠ .sleep) →
        Within Boots (setProcess i f : LowM Unit) := fun i _ hf => boots_setProcess i hf
  have hpid : Within Boots (modify fun s => { s with pidNum := nextPid s.pidNum } : LowM PUnit) :=
    boots_modify (fun _ => rfl) (fun _ => rfl) (fun _ => rfl) fun _ => rfl
  have hobs : ∀ pid, Within Boots (observe (.created pid) : LowM Unit) := fun pid =>
    boots_modify (fun _ => rfl) (fun _ => rfl) (fun _ => rfl) fun s => acceptedKeys_snoc rfl s.hist
  unfold allocNewProcess
  refine within_get.bind fun s => ?_
  split
  · exact within_pure _
  · refine Within.bind (hset _ _ fun _ => Or.inr nofun) fun _ => hpid.bind fun _ =>
      (boots_ram _).bind fun _ => Within.bind (hset _ _ fun _ => Or.inl rfl) fun _ =>
        within_ite (within_pure _) ?_
    refine (boots_ram _).bind fun _ => (boots_ram _).bind fun _ => Within.bind
      (hset _ _ fun _ => Or.inl rfl) fun _ => (boots_ram _).bind fun _ => Within.bind
        (hset _ _ fun _ => Or.inl rfl) fun _ => within_ite ?_ ?_
    · exact (boots_ram _).bind fun _ => Within.bind (hset _ _ fun _ => Or.inr nofun) fun _ =>
        within_pure _
    · exact (hobs _).bind fun _ => within_pure _

theorem boots_initProcess : Within Boots (initProcess K) := by
  have hset : ∀ (i : Slot) (f : Process → Process),
      (∀ p, (f p).state = p.state ∨ (f p).state ≠ .sleep) →
        Within Boots (setProcess i f : KernelM Unit) := fun i _ hf => boots_setProcess i hf
  have hassert : ∀ (c : Prop) [Decidable c] (n : Nat), Within Boots (assertProcess c n) :=
    fun _ _ _ => within_ensure _ _
  unfold initProcess
  refine Within.bind ?_ fun _ => ?_
  · exact within_get.bind fun _ => (hassert _ _).bind fun _ =>
      Within.bind (hset _ _ fun _ => Or.inr nofun) fun _ =>
        boots_modify (fun _ => rfl) (fun _ => rfl) (fun _ => rfl) fun _ => rfl
  · unfold initUserProcess
    refine (boots_low boots_allocNewProcess).bind fun r => ?_
    cases r with
    | none => exact within_throw _
    | some i =>
        exact within_get.bind fun _ => (boots_low (boots_ram _)).bind fun _ =>
          (hassert _ _).bind fun _ => Within.bind (hset _ _ fun _ => Or.inr nofun) fun _ =>
            boots_low (boots_appendListTail _ _)

theorem boots_kMain : Within Boots (kMain K) := by
  have htable : Within Boots (initTable K) := by
    refine (boots_ram _).bind fun t => within_ite ?_ (within_pure _)
    exact (boots_ram _).bind fun _ => within_pure _
  have hassert : ∀ (c : Prop) [Decidable c] (n : Nat), Within Boots (assertFile c n : LowM Unit) :=
    fun _ _ _ => within_ensure _ _
  refine (boots_low (boots_ram _)).bind fun _ => Within.bind (boots_low ?_) fun _ =>
    Within.bind (boots_low ?_) fun _ => boots_initProcess
  · exact (boots_ram _).bind fun t => (boots_ram _).bind fun _ =>
      boots_modify (f := fun s => { s with cr3 := v2p t }) (fun _ => rfl) (fun _ => rfl)
        (fun _ => rfl) fun _ => rfl
  · have hfcb : ∀ t, Within Boots (modify fun s => { s with fcbTable := t } : LowM PUnit) := fun _ =>
      boots_modify (fun _ => rfl) (fun _ => rfl) (fun _ => rfl) fun _ => rfl
    have hdesc : ∀ t, Within Boots (modify fun s => { s with fileDescTable := t } : LowM PUnit) :=
      fun _ => boots_modify (fun _ => rfl) (fun _ => rfl) (fun _ => rfl) fun _ => rfl
    exact (boots_ram _).bind fun _ => (boots_ram _).bind fun _ => (boots_ram _).bind fun _ =>
      (hassert _ _).bind fun _ => htable.bind fun t => (hassert _ _).bind fun _ =>
        (hfcb t).bind fun _ => htable.bind fun t => (hassert _ _).bind fun _ => hdesc t

end Boots

theorem boot_counts {m : Mem} {s₀ : Kernel} (h : kMain K (bootKernel m) = .ok () s₀) :
    s₀.ticks = 0 ∧ s₀.flag = 0 ∧ acceptedKeys s₀.hist = [] ∧
      ∀ i, (s₀.processTable i).state ≠ .sleep := by
  have hb := boots_kMain.ok h
  exact ⟨hb.ticks, hb.flag, hb.accepted, hb.awake fun _ => nofun⟩

/-! ## Runs with their events -/

/-- `es` are the events of a run from `s₀`, in their order. -/
inductive Trace (K : Image) (Ok : Kernel → Event → Prop) (s₀ : Kernel) :
    List Event → Kernel → Prop
  | nil : Trace K Ok s₀ [] s₀
  | snoc {es : List Event} {s s' : Kernel} {e : Event} : Trace K Ok s₀ es s → Enabled s e →
      Ok s e → step K e s = .ok () s' → Trace K Ok s₀ (es ++ [e]) s'

section Trace

variable {Ok : Kernel → Event → Prop} {s₀ s s' : Kernel} {es : List Event}

theorem Trace.run (h : Trace K Ok s₀ es s) : Run K Ok s₀ s := by
  induction h with
  | nil => exact .refl
  | snoc _ he hok hs ih => exact ih.step he hok hs

theorem Trace.extend (h : Run K Ok s₀ s) (ht : Trace K Ok s es s') : Run K Ok s₀ s' := by
  induction ht with
  | nil => exact h
  | snoc _ he hok hs ih => exact ih.step he hok hs

theorem run_trace (h : Run K Ok s₀ s) : ∃ es, Trace K Ok s₀ es s := by
  induction h with
  | refl => exact ⟨[], .nil⟩
  | step _ he hok hs ih =>
      obtain ⟨es, h⟩ := ih
      exact ⟨_, h.snoc he hok hs⟩

/-- The timer interrupts among the events. -/
def timers (es : List Event) : Nat := es.countP fun e => e matches .timer _

theorem run_ticks_lt {m : Mem} (h₀ : kMain K (bootKernel m) = .ok () s₀) (h : Run K Ok s₀ s) :
    s.ticks < 2 ^ 64 := by
  induction h with
  | refl =>
      rw [(boot_counts h₀).1]
      decide
  | @step s s' e _ he _ hs ih =>
      rw [(step_counts he hs).ticks]
      unfold Event.ticks u64
      split
      · exact Nat.mod_lt _ (by decide)
      · exact ih

/-- Only the timer interrupt counts. -/
theorem trace_ticks (h : Trace K Ok s₀ es s) : u64 s.ticks = u64 (s₀.ticks + timers es) := by
  induction h with
  | nil => rfl
  | @snoc es s s' e _ he _ hs ih =>
      rw [(step_counts he hs).ticks]
      unfold timers at ih ⊢
      rw [List.countP_append]
      have hother : e.ticks s.ticks = s.ticks → [e].countP (fun e => e matches .timer _) = 0 →
          u64 (e.ticks s.ticks) = u64 (s₀.ticks + (es.countP (fun e => e matches .timer _) +
            [e].countP fun e => e matches .timer _)) := by
        intro h1 h2
        rw [h1, h2, Nat.add_zero]
        exact ih
      cases e with
      | timer f =>
          have ht : (Event.timer f).ticks s.ticks = u64 (s.ticks + 1) := rfl
          have hone : [Event.timer f].countP (fun e => e matches .timer _) = 1 := rfl
          rw [ht, hone]
          unfold u64 at ih ⊢
          omega
      | keyboard _ _ => exact hother rfl rfl
      | spurious _ => exact hother rfl rfl
      | syscall _ => exact hother rfl rfl
      | exception _ => exact hother rfl rfl
      | store _ _ => exact hother rfl rfl
      | resume => exact hother rfl rfl

end Trace

end Os64
