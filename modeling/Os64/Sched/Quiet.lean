/-
  What does not concern the scheduler.

  `Quiet b s s'`: from `s` to `s'` only memory, descriptor slots, the keyboard flags and
  the tick count changed; with `b` the history may have grown by stores to user
  memory. Everything below process.c is quiet, however it ends (`QuietOp`), and a
  quiet change keeps what a state represents (`Quiet.rep`).
-/
import Os64.Kernel.Trap
import Os64.Sched.Represent

namespace Os64

open Os64.Lib

structure Quiet (b : Bool) (s s' : Kernel) : Prop where
  process : ∀ i, ∃ f, s'.processTable i = { s.processTable i with file := f }
  pc : s'.pc = s.pc
  pidNum : s'.pidNum = s.pidNum
  keyBuffer : s'.keyBuffer = s.keyBuffer
  fcbTable : s'.fcbTable = s.fcbTable
  fileDescTable : s'.fileDescTable = s.fileDescTable
  cr3 : s'.cr3 = s.cr3
  rsp0 : s'.rsp0 = s.rsp0
  hist : ∃ os, s'.hist = s.hist ++ os ∧ ∀ o ∈ os, b = true ∧ ∃ va, o = .stored va

namespace Quiet

variable {b : Bool} {s s' s'' : Kernel}

theorem refl (b : Bool) (s : Kernel) : Quiet b s s :=
  ⟨fun _ => ⟨_, rfl⟩, rfl, rfl, rfl, rfl, rfl, rfl, rfl, [], by simp, by simp⟩

theorem trans (h : Quiet b s s') (h' : Quiet b s' s'') : Quiet b s s'' where
  process i := by
    obtain ⟨f, hf⟩ := h.process i
    obtain ⟨f', hf'⟩ := h'.process i
    exact ⟨f', by rw [hf', hf]⟩
  pc := h'.pc.trans h.pc
  pidNum := h'.pidNum.trans h.pidNum
  keyBuffer := h'.keyBuffer.trans h.keyBuffer
  fcbTable := h'.fcbTable.trans h.fcbTable
  fileDescTable := h'.fileDescTable.trans h.fileDescTable
  cr3 := h'.cr3.trans h.cr3
  rsp0 := h'.rsp0.trans h.rsp0
  hist := by
    obtain ⟨os, ho, hos⟩ := h.hist
    obtain ⟨os', ho', hos'⟩ := h'.hist
    refine ⟨os ++ os', by rw [ho', ho, List.append_assoc], fun o hm => ?_⟩
    rcases List.mem_append.mp hm with hm | hm
    · exact hos o hm
    · exact hos' o hm

/-- Only fields outside the scheduler differ. -/
theorem of_eq (b : Bool) (ht : s'.processTable = s.processTable) (hp : s'.pc = s.pc)
    (hn : s'.pidNum = s.pidNum) (hk : s'.keyBuffer = s.keyBuffer) (hf : s'.fcbTable = s.fcbTable)
    (hd : s'.fileDescTable = s.fileDescTable) (hc : s'.cr3 = s.cr3) (hr : s'.rsp0 = s.rsp0)
    (hh : s'.hist = s.hist) : Quiet b s s' :=
  ⟨fun i => ⟨_, by rw [ht]⟩, hp, hn, hk, hf, hd, hc, hr, [], by rw [hh, List.append_nil], by simp⟩

/-- A quiet change keeps what the state represents, up to the stores in the history. -/
theorem rep {a : Sched} (h : Quiet b s s') (hr : Rep s a) :
    ∃ os, (∀ o ∈ os, b = true ∧ ∃ va, o = Obs.stored va) ∧ s'.hist = s.hist ++ os ∧
      Rep s' { a with hist := a.hist ++ os } := by
  obtain ⟨os, ho, hos⟩ := h.hist
  refine ⟨os, hos, ho, ?_, ?_⟩
  · refine ⟨fun q => ?_, hr.lists.nodup, hr.lists.apart⟩
    have hlinks : s'.links = s.links := by
      funext i
      obtain ⟨f, hf⟩ := h.process i
      unfold Kernel.links
      rw [hf]
    rw [hlinks, h.pc]
    exact hr.lists.queue q
  · have hv := hr.view
    rw [← hv]
    have hg : ∀ {β : Type} (g : Process → β), (∀ p f, g { p with file := f } = g p) →
        (fun i => g (s'.processTable i)) = fun i => g (s.processTable i) := by
      intro β g hg
      funext i
      obtain ⟨f, hf⟩ := h.process i
      rw [hf, hg]
    simp only [Kernel.sched, Sched.mk.injEq, h.pc, h.pidNum, h.keyBuffer, ho]
    exact ⟨hg _ fun _ _ => rfl, hg _ fun _ _ => rfl, hg _ fun _ _ => rfl, hg _ fun _ _ => rfl,
      trivial, trivial, trivial, trivial, trivial⟩

/-- Without stores it represents the same scheduler. -/
theorem rep_same {a : Sched} (h : Quiet false s s') (hr : Rep s a) : Rep s' a := by
  obtain ⟨os, hos, -, hr'⟩ := h.rep hr
  have : os = [] := List.eq_nil_iff_forall_not_mem.mpr fun o ho => by cases (hos o ho).1
  subst this
  rwa [List.append_nil] at hr'

theorem loaded (h : Quiet b s s') (hl : Loaded s) : Loaded s' := by
  have hc : s'.current.pageMap = s.current.pageMap ∧ s'.current.stack = s.current.stack := by
    unfold Kernel.current
    obtain ⟨f, hf⟩ := h.process s.pc.currentProcess
    rw [h.pc, hf]
    exact ⟨rfl, rfl⟩
  unfold Loaded
  rw [hc.1, hc.2, h.cr3, h.rsp0, h.pc]
  exact hl

theorem pageMap (h : Quiet b s s') (i : Slot) :
    (s'.processTable i).pageMap = (s.processTable i).pageMap := by
  obtain ⟨f, hf⟩ := h.process i
  rw [hf]

theorem stack (h : Quiet b s s') (i : Slot) :
    (s'.processTable i).stack = (s.processTable i).stack := by
  obtain ⟨f, hf⟩ := h.process i
  rw [hf]

theorem tf (h : Quiet b s s') (i : Slot) : (s'.processTable i).tf = (s.processTable i).tf := by
  obtain ⟨f, hf⟩ := h.process i
  rw [hf]

end Quiet

/-- A program that is quiet, whether it succeeds or not. -/
structure QuietOp {ε α : Type} (b : Bool) (x : EStateM ε Kernel α) : Prop where
  ends : ∀ s, Ends x s (fun _ s' => Quiet b s s') fun _ s' => Quiet b s s'

section Rules

variable {ε α β : Type} {b : Bool}

theorem quietOp_pure (v : α) : QuietOp b (pure v : EStateM ε Kernel α) :=
  ⟨fun s => by simpa using Quiet.refl b s⟩

theorem quietOp_throw (e : ε) : QuietOp b (throw e : EStateM ε Kernel α) :=
  ⟨fun s => by simpa using Quiet.refl b s⟩

theorem quietOp_get : QuietOp b (get : EStateM ε Kernel Kernel) :=
  ⟨fun s => by simpa using Quiet.refl b s⟩

theorem QuietOp.bind {x : EStateM ε Kernel α} {f : α → EStateM ε Kernel β} (hx : QuietOp b x)
    (hf : ∀ v, QuietOp b (f v)) : QuietOp b (x >>= f) := by
  refine ⟨fun s => (hx.ends s).bind (fun v s₁ h₁ => ?_) fun _ _ h => h⟩
  exact ((hf v).ends s₁).mono (fun _ _ h => h₁.trans h) fun _ _ h => h₁.trans h

theorem quietOp_ite {c : Prop} [Decidable c] {x y : EStateM ε Kernel α} (hx : QuietOp b x)
    (hy : QuietOp b y) : QuietOp b (if c then x else y) := by
  split
  · exact hx
  · exact hy

theorem quietOp_ensure (c : Prop) [Decidable c] (e : ε) :
    QuietOp b (ensure c e : EStateM ε Kernel Unit) :=
  quietOp_ite (quietOp_pure _) (quietOp_throw _)

theorem quietOp_forM {l : List β} {f : β → EStateM ε Kernel PUnit} (hf : ∀ x, QuietOp b (f x)) :
    QuietOp b (forM l f) := by
  induction l with
  | nil => exact quietOp_pure _
  | cons x l ih =>
      rw [List.forM_cons]
      exact (hf x).bind fun _ => ih

theorem quietOp_ram (x : RamM α) : QuietOp b (ram x) := by
  refine ⟨fun s => ?_⟩
  unfold ram
  rw [ends_onPart]
  exact ⟨fun _ => Quiet.of_eq b rfl rfl rfl rfl rfl rfl rfl rfl rfl,
    fun _ => Quiet.of_eq b rfl rfl rfl rfl rfl rfl rfl rfl rfl⟩

/-- Open files are descriptor slots only. -/
theorem quietOp_setFile (i : Slot) (f : Process → Fin 100 → Nat) :
    QuietOp b (setProcess i (fun p => { p with file := f p }) : EStateM ε Kernel Unit) := by
  refine ⟨fun s => ?_⟩
  rw [ends_ok_iff (setProcess_run i _ s)]
  refine ⟨fun j => ?_, rfl, rfl, rfl, rfl, rfl, rfl, rfl, [], by simp [Kernel.setProcess], by simp⟩
  by_cases hj : j = i
  · subst hj
    exact ⟨f (s.processTable j), by simp [Kernel.setProcess]⟩
  · exact ⟨_, by simp [Kernel.setProcess, Function.update_of_ne hj]; rfl⟩

end Rules

theorem QuietOp.low {α : Type} {b : Bool} {x : LowM α} (h : QuietOp b x) : QuietOp b (low x) := by
  refine ⟨fun s => ?_⟩
  unfold Os64.low
  rw [ends_onPart]
  exact h.ends s

/-! ## Memory and files -/

variable {K : Image} {b : Bool}

theorem quiet_loadVirt (va : Nat) : QuietOp b (loadVirt va) := by
  refine quietOp_get.bind fun s => ?_
  split
  · exact quietOp_pure _
  · exact quietOp_throw _

theorem quiet_storeVirt (va : Nat) (v : UInt8) : QuietOp b (storeVirt K va v) := by
  refine ⟨fun s => ?_⟩
  unfold storeVirt
  rw [ends_bind, ends_get]
  split
  · rw [ends_bind, ends_ensure, ends_set]
    exact ⟨fun _ => Quiet.of_eq b rfl rfl rfl rfl rfl rfl rfl rfl rfl, fun _ => Quiet.refl b s⟩
  · rw [ends_throw]
    exact Quiet.refl b s

theorem quiet_loadVirtN (va n : Nat) : QuietOp b (loadVirtN va n) := by
  induction n generalizing va with
  | zero => exact quietOp_pure _
  | succ n ih => exact (quiet_loadVirt va).bind fun _ => (ih (va + 1)).bind fun _ => quietOp_pure _

theorem quiet_arg (argptr k : Nat) : QuietOp b (arg argptr k) := quiet_loadVirtN _ _

theorem quiet_splitName (path n i : Nat) (name : List UInt8) :
    QuietOp b (splitName path n i name) := by
  induction n generalizing i name with
  | zero => exact quietOp_pure _
  | succ n ih =>
      exact (quiet_loadVirt _).bind fun _ =>
        quietOp_ite (quietOp_pure _) (quietOp_ite (quietOp_pure _) (ih _ _))

theorem quiet_splitExt (path n i j : Nat) (ext : List UInt8) :
    QuietOp b (splitExt path n i j ext) := by
  induction n generalizing i j ext with
  | zero => exact quietOp_pure _
  | succ n ih =>
      exact (quiet_loadVirt _).bind fun _ =>
        quietOp_ite (quietOp_pure _) (quietOp_ite (quietOp_pure _) (ih _ _ _))

theorem quiet_splitEnd (path i : Nat) (name ext : List UInt8) :
    QuietOp b (splitEnd path i name ext) :=
  (quiet_loadVirt _).bind fun _ => quietOp_pure _

theorem quiet_splitPath (path : Nat) : QuietOp b (splitPath path) := by
  refine (quiet_splitName _ _ _ _).bind fun r => ?_
  match r with
  | none => exact quietOp_pure _
  | some (i, name) =>
      refine (quiet_loadVirt _).bind fun c => quietOp_ite ?_ (quiet_splitEnd _ _ _ _)
      refine (quiet_splitExt _ _ _ _ _).bind fun r => ?_
      match r with
      | none => exact quietOp_pure _
      | some (i, ext) => exact quiet_splitEnd _ _ _ _

theorem quiet_searchFile (path : Nat) : QuietOp b (searchFile path) := by
  refine (quiet_splitPath path).bind fun r => ?_
  match r with
  | none => exact quietOp_pure _
  | some (name, ext) =>
      exact (quietOp_ram _).bind fun _ => (quietOp_ram _).bind fun _ => quietOp_ram _

theorem quiet_openFile (proc : Slot) (path : Nat) : QuietOp b (openFile proc path) := by
  unfold openFile
  refine quietOp_get.bind fun s => ?_
  split
  · exact quietOp_pure _
  · refine (quietOp_ram _).bind fun r => ?_
    match r with
    | none => exact quietOp_pure _
    | some k =>
        refine (quiet_searchFile path).bind fun e => quietOp_ite (quietOp_pure _) ?_
        exact (quietOp_ram _).bind fun _ => (quietOp_ram _).bind fun _ => (quietOp_ram _).bind
          fun _ => (quietOp_ram _).bind fun _ => (quietOp_setFile _ _).bind fun _ => quietOp_pure _

theorem quiet_fileAt (proc : Slot) (fd : Int) : QuietOp b (fileAt proc fd) := by
  refine quietOp_get.bind fun s => ?_
  split
  · exact quietOp_pure _
  · exact quietOp_throw _

theorem quiet_stored (va : Nat) : QuietOp true (observe (.stored va) : LowM Unit) := by
  refine ⟨fun s => ?_⟩
  rw [ends_ok_iff (observe_run _ s)]
  exact ⟨fun _ => ⟨_, rfl⟩, rfl, rfl, rfl, rfl, rfl, rfl, rfl, _, rfl, by simp⟩

theorem quiet_memcpyVirt (supplied : Bool) (dst src n : Nat) :
    QuietOp supplied (memcpyVirt K supplied dst src n) := by
  refine quietOp_forM fun k => (quiet_loadVirt _).bind fun v => ?_
  cases supplied with
  | false => exact quiet_storeVirt _ _
  | true => exact (quiet_stored _).bind fun _ => quiet_storeVirt _ _

theorem quiet_readClusters (supplied : Bool) (bpb cs size fuel i buf n : Nat) :
    QuietOp supplied (readClusters K supplied bpb cs size fuel i buf n) := by
  induction fuel generalizing i buf n with
  | zero => exact quietOp_throw _
  | succ fuel ih =>
      refine quietOp_ite ((quietOp_ram _).bind fun _ => quietOp_ite ?_ ?_) (quietOp_pure _)
      · exact (quiet_memcpyVirt _ _ _ _).bind fun _ => quietOp_pure _
      · exact (quiet_memcpyVirt _ _ _ _).bind fun _ => (quietOp_ram _).bind fun _ => ih _ _ _

theorem quiet_readRawData (supplied : Bool) (c buf pos size : Nat) :
    QuietOp supplied (readRawData K supplied c buf pos size) := by
  unfold readRawData
  refine (quietOp_ram _).bind fun _ => (quietOp_ensure _ _).bind fun _ => (quietOp_ram _).bind
    fun _ => (quietOp_ram _).bind fun _ => quietOp_ite ?_ (quiet_readClusters _ _ _ _ _ _ _ _)
  exact (quietOp_ram _).bind fun _ => (quiet_memcpyVirt _ _ _ _).bind fun _ =>
    (quietOp_ram _).bind fun _ => quiet_readClusters _ _ _ _ _ _ _ _

theorem quiet_readFile (supplied : Bool) (proc : Slot) (fd : Int) (buf size : Nat) :
    QuietOp supplied (readFile K supplied proc fd buf size) := by
  unfold readFile
  refine (quiet_fileAt _ _).bind fun _ => (quietOp_ram _).bind fun _ => (quietOp_ram _).bind
    fun _ => (quietOp_ram _).bind fun _ => quietOp_ite (quietOp_pure _) ?_
  exact (quietOp_ram _).bind fun _ => (quiet_readRawData _ _ _ _ _).bind fun _ =>
    (quietOp_ram _).bind fun _ => quietOp_pure _

theorem quiet_closeFile (proc : Slot) (fd : Int) : QuietOp b (closeFile proc fd) := by
  unfold closeFile
  exact (quiet_fileAt _ _).bind fun _ => (quietOp_ram _).bind fun _ => (quietOp_ram _).bind fun _ =>
    (quietOp_ram _).bind fun _ => quietOp_setFile _ _

theorem quiet_getFileSize (proc : Slot) (fd : Int) : QuietOp b (getFileSize proc fd) :=
  (quiet_fileAt _ _).bind fun _ => (quietOp_ram _).bind fun _ => quietOp_ram _

theorem quiet_readRootDirectory (buf : Nat) : QuietOp true (readRootDirectory K buf) := by
  unfold readRootDirectory
  exact (quietOp_ram _).bind fun _ => (quietOp_ram _).bind fun _ => (quiet_memcpyVirt true _ _ _).bind
    fun _ => quietOp_pure _

theorem quiet_closeAll (i : Slot) : QuietOp b (closeAll i) := by
  unfold closeAll
  exact quietOp_get.bind fun _ => quietOp_forM fun _ => quietOp_ite
    ((quietOp_ram _).bind fun _ => (quietOp_ram _).bind fun _ => quietOp_ram _) (quietOp_pure _)

theorem quiet_shareFiles (i : Slot) : QuietOp b (shareFiles i) := by
  unfold shareFiles
  exact quietOp_get.bind fun _ => quietOp_forM fun _ => quietOp_ite
    ((quietOp_ram _).bind fun _ => (quietOp_ram _).bind fun _ => quietOp_ram _) (quietOp_pure _)

theorem quiet_clearUserPage : QuietOp b (clearUserPage K) := by
  unfold clearUserPage
  exact quietOp_forM fun _ => quiet_storeVirt _ _

theorem quiet_pushFrame (f : TrapFrame) : QuietOp b (pushFrame f) :=
  quietOp_get.bind fun _ => quietOp_ite (quietOp_ram _).low (quietOp_pure _)

theorem quiet_setResult (tf : Nat) (r : Option Int) : QuietOp b (setResult tf r) := by
  cases r with
  | none => exact quietOp_pure _
  | some v => exact (quietOp_ram _).low

theorem quiet_keyboardRead (scanCode : Nat) : QuietOp b (keyboardRead scanCode) := by
  refine ⟨fun s => ends_of_run rfl ?_⟩
  exact Quiet.of_eq b rfl rfl rfl rfl rfl rfl rfl rfl rfl

end Os64
