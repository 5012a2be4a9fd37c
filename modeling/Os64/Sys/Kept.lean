/-
  What a step leaves of the open files.

  * `openFile_kept`, `closeFile_settled`, `exec_kept`: the calls on descriptors.
  * `systemCalls_kept`: each of the sixteen calls.
  * `step_kept`: a confined step leaves the open files alone, but for the position of the
    descriptor that it reads through, and what it opens comes from the directory.
-/
import Os64.Files.Slices
import Os64.Sys.Moves

namespace Os64

open Os64.Lib

variable {K : Image}

/-- The step is a `read_file` through descriptor `d`. -/
def ReadsThrough (s : Kernel) (e : Event) (d : Nat) : Prop :=
  ∃ f s₁ w, ∃ n : Fin 100, e = .syscall f ∧ f.rax = 10 ∧ pushFrame f s = .ok () s₁ ∧
    arg f.rsi 0 s₁ = .ok w s₁ ∧ i32 w = n.val ∧
      s₁.desc n = descPtr (v2p s₁.fileDescTable) (some d)

/-- The call is a `read_file` through descriptor `d`. -/
def CallReads (s : Kernel) (i argptr d : Nat) : Prop :=
  i = 10 ∧ ∃ w, ∃ n : Fin 100, arg argptr 0 s = .ok w s ∧ i32 w = n.val ∧
    s.desc n = descPtr (v2p s.fileDescTable) (some d)

section Calls

variable {pool free : List Nat} {a : Sched} {S S' : Handles} {s s' s₁ : Kernel} {R : Nat → Prop}

/-- Stores to the user page alone. -/
theorem MemOk.tablesSame_user (h : MemOk K pool free s) (hl : s.Live s.pc.currentProcess)
    (hp : Pokes [s.userPage s.pc.currentProcess] InUser s s') : TablesSame s s' :=
  h.tablesSame (by rw [hp.same]) (by rw [hp.same]) hp.wrote.mem fun p hpm => by
    rw [List.mem_singleton.mp hpm]
    exact ⟨h.validOf (MemOk.userPage_mem (l := free) hl), (h.userPage_off_tables hl).2⟩

/-- Stores to the kernel stack alone. -/
theorem MemOk.tablesSame_stack (h : MemOk K pool free s) {c : Slot} (hl : s.Live c) {r : Ram}
    (hw : Wrote [s.stackPage c] s.ram r) : TablesSame s { s with ram := r } :=
  h.tablesSame rfl rfl hw.mem fun p hpm => by
    rw [List.mem_singleton.mp hpm]
    exact ⟨h.stackValid hl, fun hin => (h.tables_off_stack hl _ hin).2 rfl⟩

theorem openFile_kept (h : Whole K pool free a S s) (hl : s.Live s.pc.currentProcess) {path : Nat}
    {v : Int} (hrun : openFile s.pc.currentProcess path s = .ok v s') :
    Kept (fun _ => False) s s' ∧ (v = -1 ∨ ∃ fd : Fin 100, ∃ d c, v = fd.val ∧
      S.object d = none ∧ FilesOk s' (S.opened (s.pc.currentProcess, fd) d c)) := by
  have hq : Quiet false s s' := .of_low (quiet_openFile _ _) hrun
  rcases (openFile_ends h.files h.mem hl path).ok hrun with
    ⟨hv, rfl, -⟩ | ⟨fd, d, c, hv, -, hfree, hf, ho, -⟩
  · exact ⟨(TablesSame.refl _).settled.kept, Or.inl hv⟩
  · exact ⟨ho.kept h.files h.mem hf hfree hq.fcbTable hq.fileDescTable,
      Or.inr ⟨fd, d, c, hv, hfree, hf⟩⟩

theorem closeFile_settled (h : Whole K pool free a S s) (hl : s.Live s.pc.currentProcess) {fd : Int}
    {u : Unit} (hrun : closeFile s.pc.currentProcess fd s = .ok u s') :
    Settled (fun _ => False) s s' := by
  have hq : Quiet false s s' := .of_low (quiet_closeFile _ _) hrun
  obtain ⟨n, d, c, -, -, -, hf, hc⟩ := (closeFile_ends h.files h.mem hl fd).ok hrun
  have hrep := hf.rep
  rw [hq.fcbTable, hq.fileDescTable] at hrep
  refine Counted.settled h.mem.tablePages hq.fcbTable hq.fileDescTable h.files.rep hrep hc
    (fun d' => dropped_link S d d') fun c' hne h0 => hne ?_
  change Function.update S.objectCount c (S.objectCount c - 1) c' = 0
  by_cases hcc : c' = c
  · rw [hcc, Function.update_self, ← hcc, h0]
  · rw [Function.update_of_ne hcc, h0]

/-- What scheduling does before it leaves a call. -/
theorem Keeps.kept (h : Keeps s s') : Kept R s s' := h.tablesSame.settled.kept

theorem exit_keeps (h : Whole K pool free a S s) {u : Unit} (hrun : exit s = .ok u s') :
    Keeps s s' := (exit_ok h.rep h.sane.current_free hrun).2

theorem exec_kept (h : Whole K pool free a S s) (hc : a.current ≠ 0) {name : Nat} {v : Option Int}
    (hrun : exec K s.pc.currentProcess name s = .ok v s') : Kept (fun _ => False) s s' := by
  have hl := h.live hc
  unfold exec at hrun
  obtain ⟨fd, s₁, ho, hrun⟩ := bind_ok.mp hrun
  obtain ⟨hk₁, hfd⟩ := openFile_kept h hl (low_ok ho)
  have hw₁ := openFile_worked h hl (low_ok ho)
  split at hrun
  · obtain ⟨_, s₂, he, hrun⟩ := bind_ok.mp hrun
    obtain ⟨-, rfl⟩ := EStateM.Result.ok.inj hrun
    obtain ⟨os₁, S₁, h₁⟩ := hw₁.whole
    exact hk₁.then_same (exit_keeps h₁ he).tablesSame
  · rename_i hne
    obtain ⟨n, d, c, rfl, hfree, hf₁⟩ := hfd.resolve_left hne
    obtain ⟨os₁, _, h₁'⟩ := hw₁.whole
    have h₁ : Whole K pool free _ (S.opened (s.pc.currentProcess, n) d c) s₁ :=
      ⟨h₁'.rep, h₁'.sane, h₁'.mem, hf₁⟩
    have hl₁ := hw₁.live.mpr hl
    rw [← hw₁.pc] at hrun
    -- the old image goes
    obtain ⟨_, s₂, hclear, hrun⟩ := bind_ok.mp hrun
    have hp₂ := (clearUserPage_ends (h₁.mem.currentSpace hl₁) InUser).ok (low_ok hclear)
    have same₂ := h₁.mem.tablesSame_user hl₁ hp₂
    have hw₂ := h₁.poked_user hl₁ hp₂
    obtain ⟨os₂, _, h₂'⟩ := hw₂.whole
    have hf₂ : FilesOk s₂ (S.opened (s.pc.currentProcess, n) d c) :=
      hf₁.off h₁.mem hp₂.still (by unfold Kernel.files; rw [hp₂.files]) fun p hp => by
        rw [List.mem_singleton.mp hp]
        exact h₁.mem.userPage_off_tables hl₁
    have h₂ : Whole K pool free _ (S.opened (s.pc.currentProcess, n) d c) s₂ :=
      ⟨h₂'.rep, h₂'.sane, h₂'.mem, hf₂⟩
    have hl₂ := hw₂.live.mpr hl₁
    rw [← hw₂.pc] at hrun
    obtain ⟨size, s₃, hsize, hrun⟩ := bind_ok.mp hrun
    have hlt := getFileSize_lt (low_ok hsize)
    obtain rfl := (reads_getFileSize _ _).ok (low_ok hsize)
    -- the new one comes
    have hinto : Into false 0x400000 size := ⟨by decide, fun hf => (Bool.false_ne_true hf).elim⟩
    obtain ⟨m, s₄, hread, hrun⟩ := bind_ok.mp hrun
    obtain ⟨n', d', c', hn', hod, set₄⟩ := readFile_settled h₂.mem h₂.files hl₂ hlt
      (fun _ => Or.inr hinto) (low_ok hread)
    have hw₄ := readFile_worked h₂ hl₂ hlt (fun _ => Or.inr hinto) (low_ok hread)
    obtain ⟨os₄, S₄, h₄⟩ := hw₄.whole
    have hl₄ := hw₄.live.mpr hl₂
    have hdd : d' = d := by
      have hnn : n' = n := Fin.ext (by omega)
      have hheld := hod.held
      rw [hnn, hw₂.pc, hw₁.pc] at hheld
      have hself : (S.opened (s.pc.currentProcess, n) d c).held (s.pc.currentProcess, n) = some d :=
        Function.update_self _ _ _
      exact Option.some.inj (hheld.symm.trans hself)
    rw [hdd] at set₄
    have hd : d < descLimit := hdd ▸ hod.descLt
    have hk₄ : Kept (fun _ => False) s s₄ :=
      hk₁.then_settled (same₂.settled.trans set₄) fun d'' hd'' => Or.inr (by
        rw [hd'', h.files.descLink hd, hfree, fcbPtr_null])
    split at hrun
    · obtain ⟨_, s₅, he, hrun⟩ := bind_ok.mp hrun
      obtain ⟨-, rfl⟩ := EStateM.Result.ok.inj hrun
      exact hk₄.then_same (exit_keeps h₄ he).tablesSame
    · rw [← hw₄.pc] at hrun
      obtain ⟨_, s₅, hclose, hrun⟩ := bind_ok.mp hrun
      have set₅ := closeFile_settled h₄ hl₄ (low_ok hclose)
      have hw₅ := closeFile_worked h₄ hl₄ (low_ok hclose)
      obtain ⟨os₅, S₅, h₅⟩ := hw₅.whole
      have hl₅ := hw₅.live.mpr hl₄
      rw [← hw₅.pc] at hrun
      rw [bind_run (get_run s₅)] at hrun
      obtain ⟨r, hrun₆, -, hwr⟩ := entryFrame_worked h₅ hl₅
      have hrun : (do
          (do
            low (ram (kmemset (s₅.processTable s₅.pc.currentProcess).tf 0 trapFrameSize))
            low (ram (setEntryFrame (s₅.processTable s₅.pc.currentProcess).tf)) : KernelM Unit)
          return some 0 : KernelM (Option Int)) s₅ = .ok v s' := by
        rw [← hrun]
        simp only [bind_assoc]
      rw [bind_run hrun₆] at hrun
      obtain ⟨-, rfl⟩ := EStateM.Result.ok.inj hrun
      exact (hk₄.then_settled set₅ nofun).then_same (h₅.mem.tablesSame_stack hl₅ hwr)

/-- `wait` closes what the process it reaps had open. -/
theorem waitResult_kept (h : Whole K pool free a S s) {p : Int} {v : Option Int}
    (hrun : waitResult K p s = .ok v s') : Kept R s s' := by
  obtain ⟨o, s₁, hwait, hrun⟩ := bind_ok.mp hrun
  obtain ⟨-, rfl⟩ := EStateM.Result.ok.inj hrun
  cases hfind : (a.queue .kill).find? fun j => a.wait j = p with
  | none =>
      rw [waitLoop_sleep h.rep hfind] at hwait
      obtain ⟨u, s₂, hs, hwait⟩ := bind_ok.mp hwait
      obtain ⟨-, rfl⟩ := EStateM.Result.ok.inj hwait
      exact (sleep_ok h.rep h.sane.current_free hs).2.kept
  | some x =>
      obtain ⟨s₂, free', S', hwait', -, -, -, -, hset⟩ :=
        waitLoop_reap (K := K) h.rep h.sane h.mem h.files hfind
      obtain ⟨-, rfl⟩ := EStateM.Result.ok.inj (hwait'.symm.trans hwait)
      exact (hset.mono fun _ h0 => h0.elim).kept

theorem fork_kept (h : Whole K pool free a S s) (hc : a.current ≠ 0) {pid : Int}
    (hrun : fork K s = .ok pid s') : Kept R s s' := by
  rcases fork_run h.rep h.sane h.mem h.files hc with
    ⟨-, hno⟩ | ⟨i, s₁, free', S', hrun', -, -, -, -, -, -, -, -, -, hset⟩
  · exact absurd hrun (hno _ _)
  · obtain ⟨-, rfl⟩ := EStateM.Result.ok.inj (hrun'.symm.trans hrun)
    exact (hset.mono fun _ h0 => h0.elim).kept

theorem sleepLoop_kept (h : Whole K pool free a S s) {old n : Nat} {v : Option Int}
    (hrun : sleepLoop old n s = .ok v s') : Kept R s s' := by
  unfold sleepLoop at hrun
  rw [bind_run (get_run s)] at hrun
  split at hrun
  · obtain ⟨u, s₁, hs, hrun⟩ := bind_ok.mp hrun
    obtain ⟨-, rfl⟩ := EStateM.Result.ok.inj hrun
    exact (sleep_ok h.rep h.sane.current_free hs).2.kept
  · obtain ⟨-, rfl⟩ := EStateM.Result.ok.inj hrun
    exact (Keeps.refl _).kept

theorem takeKey_kept {front : Nat} {n : Int} (hrun : takeKey front s = .ok n s') : Kept R s s' := by
  have hk : Keeps s s' := by
    obtain ⟨-, rfl⟩ := EStateM.Result.ok.inj hrun
    exact ⟨rfl, rfl, rfl, fun _ => rfl, fun _ => rfl, fun _ => rfl, fun _ => rfl, id⟩
  exact hk.kept

theorem readKeyBuffer_kept (h : Whole K pool free a S s) {v : Option Int}
    (hrun : readKeyBuffer s = .ok v s') : Kept R s s' := by
  unfold readKeyBuffer at hrun
  rw [bind_run (get_run s)] at hrun
  split at hrun
  · obtain ⟨u, s₁, hs, hrun⟩ := bind_ok.mp hrun
    obtain ⟨-, rfl⟩ := EStateM.Result.ok.inj hrun
    exact (sleep_ok h.rep h.sane.current_free hs).2.kept
  · obtain ⟨n, s₁, ht, hrun⟩ := bind_ok.mp hrun
    obtain ⟨-, rfl⟩ := EStateM.Result.ok.inj hrun
    exact takeKey_kept ht

theorem reads_kept {x : KernelM (Option Int)} (hx : Reads x) {v : Option Int}
    (hrun : x s = .ok v s') : Kept R s s' := by
  obtain rfl := hx.ok hrun
  exact (Keeps.refl _).kept

theorem systemCalls_kept (h : Whole K pool free a S s) (hc : a.current ≠ 0) {i argptr : Nat}
    (hconf : CallConfined s i argptr) {v : Option Int} (hrun : systemCalls K i argptr s = .ok v s') :
    Kept (CallReads s i argptr) s s' := by
  have hl := h.live hc
  have hnone : Kept (fun _ => False) s s' → Kept (CallReads s i argptr) s s' := fun hk =>
    hk.mono fun _ h0 => h0.elim
  unfold systemCalls at hrun
  split at hrun
  · exact reads_kept (reads_sysWrite _) hrun
  · obtain ⟨n, -, hrun⟩ := arg_then hrun
    rw [bind_run (get_run s)] at hrun
    exact sleepLoop_kept h hrun
  · obtain ⟨u, s₁, he, hrun⟩ := bind_ok.mp hrun
    obtain ⟨-, rfl⟩ := EStateM.Result.ok.inj hrun
    exact (exit_keeps h he).kept
  · obtain ⟨n, -, hrun⟩ := arg_then hrun
    exact waitResult_kept h hrun
  · exact readKeyBuffer_kept h hrun
  · exact reads_kept (reads_get.bind fun _ => reads_pure _) hrun
  · exact reads_kept (reads_get.bind fun _ => reads_pure _) hrun
  · exact reads_kept (reads_get.bind fun _ => reads_pure _) hrun
  · exact reads_kept (reads_pure _) hrun
  · unfold sysOpenFile at hrun
    rw [bind_run (get_run s)] at hrun
    obtain ⟨n, -, hrun⟩ := arg_then hrun
    obtain ⟨fd, s₁, ho, hrun⟩ := bind_ok.mp hrun
    obtain ⟨-, rfl⟩ := EStateM.Result.ok.inj hrun
    exact hnone (openFile_kept h hl (low_ok ho)).1
  · -- read_file moves the descriptor that the number names
    unfold sysReadFile at hrun
    rw [bind_run (get_run s)] at hrun
    obtain ⟨fd, hfd, hrun⟩ := arg_then hrun
    obtain ⟨buffer, hbuffer, hrun⟩ := arg_then hrun
    obtain ⟨size, hsize, hrun⟩ := arg_then hrun
    obtain ⟨n, s₁, hr, hrun⟩ := bind_ok.mp hrun
    obtain ⟨-, rfl⟩ := EStateM.Result.ok.inj hrun
    have hlt : u32 size < 2 ^ 32 := Nat.mod_lt _ (by decide)
    obtain ⟨m, d, c, hm, ho, hset⟩ := readFile_settled h.mem h.files hl hlt (fun hfits => by
      rcases hconf.read rfl fd buffer size hfd hbuffer hsize with hno | hin
      · rw [hno] at hfits
        cases hfits
      · exact hin.into) (low_ok hr)
    refine (hset.mono fun d' hd' => ⟨rfl, fd, m, hfd, hm, ?_⟩).kept
    rw [hd']
    exact ho.desc
  · exact reads_kept (reads_sysGetFileSize _) hrun
  · unfold sysCloseFile at hrun
    rw [bind_run (get_run s)] at hrun
    obtain ⟨fd, -, hrun⟩ := arg_then hrun
    obtain ⟨u, s₁, hclose, hrun⟩ := bind_ok.mp hrun
    obtain ⟨-, rfl⟩ := EStateM.Result.ok.inj hrun
    exact hnone (closeFile_settled h hl (low_ok hclose)).kept
  · obtain ⟨pid, s₁, hfork, hrun⟩ := bind_ok.mp hrun
    obtain ⟨-, rfl⟩ := EStateM.Result.ok.inj hrun
    exact fork_kept h hc hfork
  · unfold sysExec at hrun
    rw [bind_run (get_run s)] at hrun
    obtain ⟨name, -, hrun⟩ := arg_then hrun
    exact hnone (exec_kept h hc hrun)
  · unfold sysReadRootDirectory at hrun
    obtain ⟨buffer, hbuffer, hrun⟩ := arg_then hrun
    obtain ⟨n, s₁, hr, hrun⟩ := bind_ok.mp hrun
    obtain ⟨-, rfl⟩ := EStateM.Result.ok.inj hrun
    refine (h.mem.tablesSame_user hl ((readRootDirectory_ends h.mem hl fun count hcount => ?_).ok
      (low_ok hr))).settled.kept
    exact hconf.list rfl buffer count hbuffer hcount
  · cases hrun

end Calls

/-! ## The steps -/

section Steps

variable {pool free : List Nat} {a : Sched} {S : Handles} {s s' s₁ : Kernel} {R : Nat → Prop}

/-- The result of a call goes to a kernel stack. -/
theorem setResult_kept {r : Option Int} (h : Called K pool free s r s₁) {tf : Nat}
    (htf : tf = (s.processTable s.pc.currentProcess).tf) {u : Unit}
    (hrun : setResult tf r s₁ = .ok u s') (hk : Kept R s s₁) : Kept R s s' := by
  obtain ⟨free', a', S', hw, -, hret⟩ := h
  cases r with
  | none =>
      obtain ⟨-, rfl⟩ := EStateM.Result.ok.inj hrun
      exact hk
  | some v =>
      obtain ⟨hl, htf'⟩ := hret nofun
      obtain ⟨r, hrun', -, hwr⟩ := setResult_run hw.mem hl (htf.trans htf'.symm) v
      obtain ⟨-, rfl⟩ := EStateM.Result.ok.inj (hrun'.symm.trans hrun)
      exact hk.then_same (hw.mem.tablesSame_stack hl hwr)

theorem pushFrame_same (h : Whole K pool free a S s) {f : TrapFrame} {u : Unit}
    (hrun : pushFrame f s = .ok u s₁) : TablesSame s s₁ := by
  by_cases hc : s.pc.currentProcess = 0
  · rw [pushFrame_idle hc] at hrun
    obtain ⟨-, rfl⟩ := EStateM.Result.ok.inj hrun
    exact .refl _
  · have hl := h.live (h.rep.current ▸ hc)
    obtain ⟨r, hrun', -, hw⟩ := pushFrame_run h.mem hl f
    obtain ⟨-, rfl⟩ := EStateM.Result.ok.inj (hrun'.symm.trans hrun)
    exact h.mem.tablesSame_stack hl hw

theorem timer_kept (h : Whole K pool free a S s) {f : TrapFrame}
    (hrun : step K (.timer f) s = .ok () s') : Kept R s s' := by
  obtain ⟨u, s₁, hp, hrun⟩ := bind_ok.mp hrun
  obtain ⟨h₁, -, -⟩ := pushFrame_after h hp
  obtain ⟨s₂, hrun₂, -, hk⟩ := timerHandler_run h₁
  obtain ⟨-, rfl⟩ := EStateM.Result.ok.inj (hrun₂.symm.trans hrun)
  exact (pushFrame_same h hp).then_kept hk.kept

theorem keyboard_kept (h : Whole K pool free a S s) {code : Nat} {f : TrapFrame}
    (hrun : step K (.keyboard code f) s = .ok () s') : Kept R s s' := by
  obtain ⟨u, s₁, hp, hrun⟩ := bind_ok.mp hrun
  obtain ⟨h₁, -, -⟩ := pushFrame_after h hp
  obtain ⟨s₂, hrun₂, hk, -⟩ := keyboardHandler_run h₁ code
  obtain ⟨-, rfl⟩ := EStateM.Result.ok.inj (hrun₂.symm.trans hrun)
  exact (pushFrame_same h hp).then_kept hk.kept

theorem store_kept (h : Whole K pool free a S s) {va : Nat} {b : UInt8}
    (he : Enabled s (.store va b)) (hrun : step K (.store va b) s = .ok () s') : Kept R s s' := by
  have hl := h.live (h.rep.current ▸ he.2.1)
  have hin := store_inUser h he
  have hp := ((storeVirt_ends (h.mem.currentSpace hl) (by have := hin.2; omega) InUser b).ok
    (low_ok hrun)).2
  exact (h.mem.tablesSame_user hl hp).settled.kept

/-- The rest of a call after `swap`. -/
theorem resume_kept (h : Whole K pool free a S s) (he : s.current.kont ≠ .user)
    (hrun : resume K s = .ok () s') : Kept R s s' := by
  have h₁ := h.resumed
  have hk₁ : Keeps s (s.setProcess s.pc.currentProcess fun p => { p with kont := .user }) :=
    keeps_setProcess s _ fun _ => ⟨rfl, rfl, rfl, rfl⟩
  generalize hs₁ : (s.setProcess s.pc.currentProcess fun p => { p with kont := .user }) = s₁ at h₁ hk₁
  have hset : (setProcess s.pc.currentProcess fun p => { p with kont := .user } : KernelM Unit) s =
      .ok () s₁ := by
    rw [← hs₁]
    exact setProcess_run _ _ s
  have hcur : s₁.pc.currentProcess = s.pc.currentProcess := by rw [← hs₁]; rfl
  have hcall : ∀ {r : Option Int} {s₂ : Kernel} {u : Unit}, a.current ≠ 0 →
      Called K pool free s₁ r s₂ → Kept R s₁ s₂ → setResult s.trapFrame r s₂ = .ok u s' →
      Kept R s s' := by
    intro r s₂ u hc hcalled hk hres
    refine hk₁.tablesSame.then_kept (setResult_kept hcalled ?_ hres hk)
    rw [h.mem.trapFrame_eq (h.live hc), hcur]
    exact (hk₁.tf _).symm
  have hne : ∀ k, s.current.kont = k → k ≠ .user → k ≠ .trapReturn → a.current ≠ 0 :=
    fun k hk hu ht => h.sane.current_ne (h.kont.symm.trans hk ▸ hu) (h.kont.symm.trans hk ▸ ht)
  unfold resume at hrun
  rw [bind_run (get_run s)] at hrun
  cases hk : s.current.kont with
  | user => exact absurd hk he
  | trapReturn =>
      rw [hk] at hrun
      obtain ⟨-, rfl⟩ := EStateM.Result.ok.inj (hset.symm.trans hrun)
      exact hk₁.kept
  | sleeping old n =>
      have hc := hne _ hk nofun nofun
      rw [hk] at hrun
      dsimp only at hrun
      rw [bind_run hset] at hrun
      obtain ⟨r, s₂, hloop, hres⟩ := bind_ok.mp hrun
      exact hcall hc (sleepLoop_after h₁ hc hloop) (sleepLoop_kept h₁ hloop) hres
  | waiting p =>
      have hc := hne _ hk nofun nofun
      rw [hk] at hrun
      dsimp only at hrun
      rw [bind_run hset] at hrun
      obtain ⟨r, s₂, hwait, hres⟩ := bind_ok.mp hrun
      exact hcall hc (wait_after h₁ hc hwait) (waitResult_kept h₁ hwait) hres
  | readingKey front =>
      have hc := hne _ hk nofun nofun
      rw [hk] at hrun
      dsimp only at hrun
      rw [bind_run hset] at hrun
      obtain ⟨r, s₂, htake, hres⟩ := bind_ok.mp hrun
      exact hcall hc (takeKey_after h₁ hc htake _) (takeKey_kept htake) hres
  | exited =>
      rw [hk] at hrun
      cases hrun

theorem syscall_kept (h : Whole K pool free a S s) (hc : s.pc.currentProcess ≠ 0) {f : TrapFrame}
    (hf : ∀ w ∈ f.words, w < 2 ^ 64) (hconf : Confined s (.syscall f))
    (hrun : step K (.syscall f) s = .ok () s') : Kept (ReadsThrough s (.syscall f)) s s' := by
  have hca : a.current ≠ 0 := h.rep.current ▸ hc
  obtain ⟨s₁, hp, h₁, -, -, -, heq⟩ := syscall_eq (K := K) h hc hf
  rw [heq] at hrun
  have hl₁ := h₁.live hca
  have htf := h₁.mem.trapFrame_eq hl₁
  refine (pushFrame_same h hp).then_kept ?_
  split at hrun
  · exact setResult_kept ((Worked.refl h₁).called hl₁ _) htf hrun (Keeps.refl _).kept
  · obtain ⟨r, s₂, hcall, hset⟩ := bind_ok.mp hrun
    have hk := systemCalls_kept h₁ hca (hconf s₁ hp) hcall
    have hk' : Kept (ReadsThrough s (.syscall f)) s₁ s₂ := hk.mono fun d => by
      rintro ⟨hrax, w, n, harg, hn, hdesc⟩
      exact ⟨f, s₁, w, n, rfl, hrax, hp, harg, hn, hdesc⟩
    exact setResult_kept (systemCalls_after h₁ hca (hconf s₁ hp) hcall) htf hset hk'

/-- A confined step moves the descriptor that it reads through, and no other. -/
theorem step_kept (h : Whole K pool free a S s) {e : Event} (he : Enabled s e) (hconf : Confined s e)
    (hrun : step K e s = .ok () s') : Kept (ReadsThrough s e) s s' := by
  cases e with
  | timer f => exact timer_kept h hrun
  | keyboard code f => exact keyboard_kept h hrun
  | spurious f => exact (pushFrame_same h hrun).settled.kept
  | syscall f => exact syscall_kept h he.2.1 he.2.2.2.2.2 hconf hrun
  | exception f =>
      obtain ⟨u, s₁, hp, hrun⟩ := bind_ok.mp hrun
      obtain ⟨h₁, -, -⟩ := pushFrame_after h hp
      exact (pushFrame_same h hp).then_kept (exit_keeps h₁ hrun).kept
  | store va b => exact store_kept h he hrun
  | resume => exact resume_kept h he hrun

end Steps

end Os64
