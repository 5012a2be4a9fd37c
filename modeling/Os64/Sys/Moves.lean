/-
  Steps that succeed, with the scheduler's state after them.

  * `timer_move`, `back_move`, `read_move`, `key_move`, `wait_move`, `exit_move`, …: what an
    enabled step leads to.
  * `Reached`: a state of a run from boot, with the invariant of the system;
    `Reached.step` appends a step, and `reached_user` is the first program at its start.
  * `reached_exited`: the first program forked and waits for its child, which has exited;
    `reached_children`: it forked twice.
  * `arg_frame`: a system call may take its arguments from the frame of its own trap, where
    its registers are.
-/
import Os64.Sys.Machine
import Os64.Sys.Step

namespace Os64

open Os64.Lib

variable {K : Image}

/-! ## Frames -/

/-- A trap of a user program with these registers: the arguments are `r15`, `r14`, … -/
def userFrame (trapno rax rsi r15 r14 r13 r12 : Nat) : TrapFrame where
  r15 := r15
  r14 := r14
  r13 := r13
  r12 := r12
  r11 := 0
  r10 := 0
  r9 := 0
  r8 := 0
  rbp := 0
  rdi := 0
  rsi := rsi
  rdx := 0
  rcx := 0
  rbx := 0
  rax := rax
  trapno := trapno
  errorcode := 0
  rip := 0x400000
  cs := 0x10 ||| 3
  rflags := 0x202
  rsp := 0x600000
  ss := 0x18 ||| 3

theorem userFrame_ofUser {n rax rsi r15 r14 r13 r12 : Nat} (hn : n < 2 ^ 64) (hrax : rax < 2 ^ 64)
    (hrsi : rsi < 2 ^ 64) (h15 : r15 < 2 ^ 64) (h14 : r14 < 2 ^ 64) (h13 : r13 < 2 ^ 64)
    (h12 : r12 < 2 ^ 64) : (userFrame n rax rsi r15 r14 r13 r12).ofUser n := by
  refine ⟨rfl, rfl, rfl, fun w hw => ?_⟩
  simp only [TrapFrame.words, userFrame, List.mem_cons, List.not_mem_nil, or_false] at hw
  rcases hw with rfl | rfl | rfl | rfl | rfl | rfl | rfl | rfl | rfl | rfl | rfl | rfl | rfl |
    rfl | rfl | rfl | rfl | rfl | rfl | rfl | rfl | rfl
  all_goals first | assumption | decide

/-- The frame of an interrupt. -/
def irqFrame (n : Nat) : TrapFrame := userFrame n 0 0 0 0 0 0

theorem irqFrame_ofUser {n : Nat} (hn : n < 2 ^ 64) : (irqFrame n).ofUser n :=
  userFrame_ofUser hn (by decide) (by decide) (by decide) (by decide) (by decide) (by decide)

section Moves

variable {pool free : List Nat} {a b : Sched} {S : Handles} {s s₁ s' : Kernel}

/-- Word `k` of the frame of a system call, as its argument. -/
theorem arg_frame (h : Whole K pool free a S s) (hl : s.Live s.pc.currentProcess) {f : TrapFrame}
    (hf : s.frame s.pc.currentProcess = f) {k : Nat} (hk : k < 22) :
    arg s.trapFrame k s = .ok (f.words.getD k 0) s := by
  have hv := h.mem.stackValid hl
  obtain ⟨-, h2⟩ := frameAddr_end s s.pc.currentProcess
  unfold trapFrameSize at h2
  have htf : s.trapFrame = s.frameAddr s.pc.currentProcess + kernelBase :=
    (h.mem.trapFrame_eq hl).trans (h.mem.tf_eq hl)
  have hptr : KernelPtr (s.trapFrame + 8 * k) 8 :=
    hv.kernelPtr (a := s.frameAddr s.pc.currentProcess + 8 * k) (by omega) (by omega)
  have hphys : v2p (s.trapFrame + 8 * k) = s.frameAddr s.pc.currentProcess + 8 * k :=
    hv.v2p_at (by omega) (by omega)
  unfold arg
  rw [loadVirtN_kernel (h.mem.currentSpace hl) hptr, hphys, ← hf]
  unfold Kernel.frame
  rw [frameAt_words _ _ hk]

/-- The frame's address fits a register. -/
theorem Whole.trapFrame_lt (h : Whole K pool free a S s) (hc : a.current ≠ 0) :
    s.trapFrame < 2 ^ 64 := by
  have hl := h.live hc
  have hb := (h.mem.stackValid hl).below
  obtain ⟨-, h2⟩ := frameAddr_end s s.pc.currentProcess
  rw [h.mem.trapFrame_eq hl]
  change (s.processTable s.pc.currentProcess).tf < _
  rw [h.mem.tf_eq hl, kernelBase_eq]
  omega

/-- System call `rax` with its arguments in the frame of its trap. -/
def Kernel.callFrame (s : Kernel) (rax r15 r14 r13 r12 : Nat) : TrapFrame :=
  userFrame 0x80 rax s.trapFrame r15 r14 r13 r12

theorem Whole.callFrame (h : Whole K pool free a S s) (hc : a.current ≠ 0) {rax r15 r14 r13 r12 : Nat}
    (hrax : rax ≤ 15) (h15 : r15 < 2 ^ 64) (h14 : r14 < 2 ^ 64) (h13 : r13 < 2 ^ 64)
    (h12 : r12 < 2 ^ 64) : (s.callFrame rax r15 r14 r13 r12).ofUser 0x80 :=
  userFrame_ofUser (by decide) (by omega) (h.trapFrame_lt hc) h15 h14 h13 h12

/-! ## Steps of the scheduler -/

theorem Whole.scheduled (h : Whole K pool free a S s) (hr : Rep s' b) (hk : Keeps s s')
    (hb : b.Sane) (hm : Sched.Mute a b) : Whole K pool free b S s' :=
  (h.keeps hr hk hb hm s.pc.currentProcess).1

theorem Whole.trapped (h : Whole K pool free a S s) (f : TrapFrame) :
    ∃ s₁, pushFrame f s = .ok () s₁ ∧ Whole K pool free a S s₁ ∧
      s₁ = { s with ram := s₁.ram } ∧ OffPages K s.ram.mem s₁.ram.mem := by
  by_cases hc : s.pc.currentProcess = 0
  · exact ⟨s, pushFrame_idle hc f, h, rfl, fun _ _ => rfl⟩
  · have hl := h.live (h.rep.current ▸ hc)
    obtain ⟨r, hp, -, hw⟩ := pushFrame_run h.mem hl f
    obtain ⟨h₁, -, he⟩ := pushFrame_after h hp
    refine ⟨_, hp, h₁, he, hw.mem.offPages fun p hpm => ?_⟩
    rw [List.mem_singleton.mp hpm]
    exact h.mem.stackValid hl

theorem timer_move (h : Whole K pool free a S s) (f : TrapFrame) :
    ∃ s', step K (.timer f) s = .ok () s' ∧ Whole K pool free (a.wake (-1)).yield S s' ∧
      OffPages K s.ram.mem s'.ram.mem := by
  obtain ⟨s₁, hp, h₁, -, hoff⟩ := h.trapped f
  obtain ⟨s₂, hrun, hr, hk⟩ := timerHandler_run h₁
  refine ⟨s₂, (bind_run hp).trans hrun, h₁.scheduled hr hk (timer_sane h).1 (timer_sane h).2, ?_⟩
  rw [hk.ram]
  exact hoff

/-- A scan code that yields a character. -/
theorem key_move (h : Whole K pool free a S s) (code : Nat) (f : TrapFrame)
    (hch : 0 < (decodeScanCode s.flag code).2) :
    ∃ s', step K (.keyboard code f) s = .ok () s' ∧
      Whole K pool free ((a.acceptKey (decodeScanCode s.flag code).2).wake (-2)) S s' := by
  obtain ⟨s₁, hp, h₁, he, -⟩ := h.trapped f
  have hflag : s₁.flag = s.flag := by rw [he]
  rw [← hflag] at hch ⊢
  obtain ⟨s₂, hrun, hk, hkey, -⟩ := keyboardHandler_run h₁ code
  exact ⟨s₂, (bind_run hp).trans hrun, h₁.scheduled (hkey hch) hk (key_sane h _).1 (key_sane h _).2⟩

/-- A scan code that yields none only changes `flag`. -/
theorem mute_key_move (h : Whole K pool free a S s) (code : Nat) (f : TrapFrame)
    (hch : (decodeScanCode s.flag code).2 = 0) :
    ∃ s', step K (.keyboard code f) s = .ok () s' ∧ Whole K pool free a S s' ∧
      s'.flag = (decodeScanCode s.flag code).1 := by
  obtain ⟨s₁, hp, h₁, he, -⟩ := h.trapped f
  have hflag : s₁.flag = s.flag := by rw [he]
  rw [← hflag] at hch ⊢
  obtain ⟨s₂, hrun, hk, -, hmute⟩ := keyboardHandler_run h₁ code
  exact ⟨s₂, (bind_run hp).trans hrun, h₁.scheduled (hmute hch).1 hk h.sane (.refl a), (hmute hch).2⟩

/-! ## After `swap` -/

/-- The result of a call, in the frame of the current process. -/
theorem Whole.answer (h : Whole K pool free a S s) (hc : a.current ≠ 0) {tf : Nat}
    (htf : tf = s.trapFrame) (v : Int) :
    ∃ s', setResult tf (some v) s = .ok () s' ∧ Whole K pool free a S s' ∧
      s' = { s with ram := s'.ram } ∧ Wrote [s.stackPage s.pc.currentProcess] s.ram s'.ram ∧
      (s'.frame s.pc.currentProcess).rax = ofInt v := by
  have hl := h.live hc
  obtain ⟨r, hrun, hr, hw⟩ := setResult_run h.mem hl (htf.trans (h.mem.trapFrame_eq hl)) v
  refine ⟨_, hrun, (h.stack hl hw).1, rfl, hw, ?_⟩
  have hv : ofInt v < 2 ^ 64 := by
    unfold ofInt
    omega
  change load r.mem (s.frameAddr s.pc.currentProcess + 112) 8 = ofInt v
  rw [hr]
  exact (load_store_self _ _ _ _).trans (Nat.mod_eq_of_lt hv)

/-- A process that `swap` returned to, before the rest of its call. -/
theorem Whole.resumed (h : Whole K pool free a S s) :
    Whole K pool free a.runOn S (s.setProcess s.pc.currentProcess fun p => { p with kont := .user }) := by
  have hr : Rep (s.setProcess s.pc.currentProcess fun p => { p with kont := .user }) a.runOn := by
    have hon : a.setKont s.pc.currentProcess .user = a.runOn := by
      unfold Sched.runOn
      rw [h.rep.current]
    exact hon ▸ h.rep.setKontRun s.pc.currentProcess .user
  exact h.scheduled hr (keeps_setProcess s _ fun _ => ⟨rfl, rfl, rfl, rfl⟩) (Sched.runOn_sane h.sane)
    (Sched.runOn_mute a)

theorem Whole.kont (h : Whole K pool free a S s) : s.current.kont = a.kont a.current := by
  unfold Kernel.current
  rw [h.rep.kont, h.rep.current]

theorem back_move (h : Whole K pool free a S s) (hk : a.kont a.current = .trapReturn) :
    ∃ s', step K .resume s = .ok () s' ∧ Whole K pool free a.runOn S s' ∧ s'.ram = s.ram := by
  refine ⟨_, ?_, h.resumed, rfl⟩
  change resume K s = _
  unfold resume
  rw [bind_run (get_run s), h.kont, hk]
  rfl

/-- A reader goes on with the index it had before it slept. -/
theorem take_move (h : Whole K pool free a S s) {front : Nat}
    (hk : a.kont a.current = .readingKey front) :
    ∃ s', step K .resume s = .ok () s' ∧ Whole K pool free (a.runOn.takeKey front) S s' := by
  have hc : a.current ≠ 0 := h.sane.current_ne (by simp [hk]) (by simp [hk])
  have h₁ := h.resumed
  obtain ⟨s₂, htake, hr₂⟩ := takeKey_rep h₁.rep front
  have hk₂ : Keeps (s.setProcess s.pc.currentProcess fun p => { p with kont := .user }) s₂ := by
    obtain ⟨-, rfl⟩ := EStateM.Result.ok.inj htake
    exact ⟨rfl, rfl, rfl, fun _ => rfl, fun _ => rfl, fun _ => rfl, fun _ => rfl, id⟩
  have hrsp : s₂.rsp0 = s.rsp0 := by
    obtain ⟨-, rfl⟩ := EStateM.Result.ok.inj htake
    rfl
  have hsane : (a.runOn.takeKey front).Sane := h₁.sane.congr rfl rfl rfl rfl rfl
  have h₂ := h₁.scheduled hr₂ hk₂ hsane (Sched.takeKey_mute _ _)
  have htf : s.trapFrame = s₂.trapFrame := by
    unfold Kernel.trapFrame
    rw [hrsp]
  obtain ⟨s₃, hset, h₃, -⟩ := h₂.answer hc htf (a.runOn.keys.buffer front)
  refine ⟨s₃, ?_, h₃⟩
  change resume K s = _
  unfold resume
  rw [bind_run (get_run s), h.kont, hk]
  dsimp only
  rw [bind_run (setProcess_run _ _ s), bind_run htake]
  exact hset

/-- A waiter finds the process it waits for. -/
theorem reap_move (h : Whole K pool free a S s) {p : Int} {x : Slot}
    (hk : a.kont a.current = .waiting p)
    (hfind : (a.queue .kill).find? (fun j => a.wait j = p) = some x) :
    ∃ s' free' S', step K .resume s = .ok () s' ∧ Whole K pool free' (a.runOn.reap x) S' s' ∧
      free'.Perm (s.pagesOf [] (.process x) ++ free) := by
  have hc : a.current ≠ 0 := h.sane.current_ne (by simp [hk]) (by simp [hk])
  have h₁ := h.resumed
  have hfind₁ : (a.runOn.queue .kill).find? (fun j => a.runOn.wait j = p) = some x := hfind
  obtain ⟨s₂, free', S', hwait, hr, hm, hf, hreap, -⟩ :=
    waitLoop_reap (K := K) h₁.rep h₁.sane h₁.mem h₁.files hfind₁
  have hmem := (Sched.find?_kill hfind).1
  have h₂ : Whole K pool free' (a.runOn.reap x) S' s₂ :=
    ⟨hr, Sched.reap_sane h₁.sane hmem, hm, hf⟩
  have hxc : s.pc.currentProcess ≠ x := by
    rw [h.rep.current]
    rintro rfl
    exact h.sane.current_free .kill hmem
  have hcur : s₂.pc.currentProcess = s.pc.currentProcess := by
    rw [h₂.rep.current, h.rep.current]
    rfl
  have htf : s.trapFrame = s₂.trapFrame := by
    rw [h.mem.trapFrame_eq (h.live hc), h₂.mem.trapFrame_eq (h₂.live hc)]
    unfold Kernel.current
    rw [hcur, (hreap.other _ hxc).2.2]
    have hkept : Keeps s (s.setProcess s.pc.currentProcess fun p => { p with kont := .user }) :=
      keeps_setProcess s _ fun _ => ⟨rfl, rfl, rfl, rfl⟩
    exact (hkept.tf _).symm
  obtain ⟨s₃, hset, h₃, -⟩ := h₂.answer hc htf 0
  have hpages : (s.setProcess s.pc.currentProcess fun p => { p with kont := .user }).pagesOf []
      (.process x) = s.pagesOf [] (.process x) :=
    (h.mem.still (still_setProcess s _ Iff.rfl rfl rfl rfl) (by simp)).pagesOf_held (by simp)
  have hres : waitResult K p (s.setProcess s.pc.currentProcess fun p => { p with kont := .user }) =
      .ok (some 0) s₂ := bind_run hwait
  refine ⟨s₃, free', S', ?_, h₃, hpages ▸ hreap.free⟩
  change resume K s = _
  unfold resume
  rw [bind_run (get_run s), h.kont, hk]
  dsimp only
  rw [bind_run (setProcess_run _ _ s), bind_run hres]
  exact hset

/-! ## System calls -/

/-- The state in which the call begins: the frame of its trap is on the caller's stack. -/
structure Calling (K : Image) (pool free : List Nat) (a : Sched) (S : Handles) (f : TrapFrame)
    (s s₁ : Kernel) : Prop where
  whole : Whole K pool free a S s₁
  push : pushFrame f s = .ok () s₁
  same : s₁ = { s with ram := s₁.ram }
  trapFrame : s.trapFrame = s₁.trapFrame
  frame : s₁.frame s₁.pc.currentProcess = f
  off : OffPages K s.ram.mem s₁.ram.mem
  run : step K (.syscall f) s = (do
    let result ← systemCalls K f.rax f.rsi
    setResult s₁.trapFrame result) s₁

theorem call_begins {f : TrapFrame} (h : Whole K pool free a S s) (hc : a.current ≠ 0)
    (hf : f.ofUser 0x80) (hrdi : f.rdi < 2 ^ 63) (hrax : f.rax ≤ 15) :
    ∃ s₁, Calling K pool free a S f s s₁ := by
  obtain ⟨s₁, hp, h₁, -, he, hframe, heq⟩ := syscall_eq (K := K) h (h.rep.current ▸ hc) hf.2.2.2
  obtain ⟨s₂, hp', -, -, hoff⟩ := h.trapped f
  obtain ⟨-, rfl⟩ := EStateM.Result.ok.inj (hp'.symm.trans hp)
  refine ⟨s₂, h₁, hp, he, ?_, hframe, hoff, ?_⟩
  · rw [he]
    rfl
  · rw [heq, if_neg (by omega)]

/-- The argument words of a call that are in its frame. -/
theorem Calling.arg {f : TrapFrame} (h : Calling K pool free a S f s s₁) (hc : a.current ≠ 0)
    (hrsi : f.rsi = s.trapFrame) {k : Nat} (hk : k < 22) :
    arg f.rsi k s₁ = .ok (f.words.getD k 0) s₁ := by
  rw [hrsi, h.trapFrame]
  exact arg_frame h.whole (h.whole.live hc) h.frame hk

/-- A call that does not return now. -/
theorem Calling.away {f : TrapFrame} (h : Calling K pool free a S f s s₁)
    (hrun : systemCalls K f.rax f.rsi s₁ = .ok none s') : step K (.syscall f) s = .ok () s' := by
  rw [h.run, bind_run hrun]
  rfl

/-- A key is not there: the reader sleeps with the index it found. -/
theorem read_move {f : TrapFrame} (h : Whole K pool free a S s) (hc : a.current ≠ 0)
    (hf : f.ofUser 0x80) (hrdi : f.rdi < 2 ^ 63) (hrax : f.rax = 4) (hpid : a.pid a.current ≠ 0)
    (hkeys : a.keys.front = a.keys.end_) :
    ∃ s', step K (.syscall f) s = .ok () s' ∧
      Whole K pool free (a.sleep (-2) (.readingKey a.keys.front)) S s' := by
  obtain ⟨s₁, hcall⟩ := call_begins (K := K) h hc hf hrdi (by omega)
  have h₁ := hcall.whole
  obtain ⟨s₂, hsleep, hr, hk, -⟩ := sleep_run h₁.rep h₁.sane.current_free hpid (-2)
    (.readingKey a.keys.front)
  refine ⟨s₂, hcall.away ?_, h₁.scheduled hr hk (Sched.sleep_sane h.sane hc _ _)
    (Sched.sleep_mute h.sane hc _ _)⟩
  rw [hrax]
  change readKeyBuffer s₁ = _
  unfold readKeyBuffer
  rw [bind_run (get_run s₁), h₁.rep.keys, if_pos hkeys, bind_run hsleep]
  rfl

theorem exit_move {f : TrapFrame} (h : Whole K pool free a S s) (hc : a.current ≠ 0)
    (hf : f.ofUser 0x80) (hrdi : f.rdi < 2 ^ 63) (hrax : f.rax = 2) (hpid : a.pid a.current ≠ 0) :
    ∃ s', step K (.syscall f) s = .ok () s' ∧ Whole K pool free a.exit S s' := by
  obtain ⟨s₁, hcall⟩ := call_begins (K := K) h hc hf hrdi (by omega)
  have h₁ := hcall.whole
  obtain ⟨s₂, hexit, hr, hk, -⟩ := exit_run h₁.rep h₁.sane.current_free hpid
  refine ⟨s₂, hcall.away ?_, h₁.scheduled hr hk (Sched.exit_sane h.sane hc) (Sched.exit_mute h.sane hc)⟩
  rw [hrax]
  exact bind_run hexit

/-- `wait` for a process that has not exited. The number is `r15`, and `rsi` points there. -/
theorem wait_move {f : TrapFrame} (h : Whole K pool free a S s) (hc : a.current ≠ 0)
    (hf : f.ofUser 0x80) (hrdi : f.rdi < 2 ^ 63) (hrax : f.rax = 3) (hrsi : f.rsi = s.trapFrame)
    (hpid : a.pid a.current ≠ 0)
    (hfind : (a.queue .kill).find? (fun j => a.wait j = i32 f.r15) = none) :
    ∃ s', step K (.syscall f) s = .ok () s' ∧
      Whole K pool free (a.sleep (-3) (.waiting (i32 f.r15))) S s' := by
  obtain ⟨s₁, hcall⟩ := call_begins (K := K) h hc hf hrdi (by omega)
  have h₁ := hcall.whole
  have harg : arg f.rsi 0 s₁ = .ok f.r15 s₁ := hcall.arg hc hrsi (by decide)
  obtain ⟨s₂, hsleep, hr, hk, -⟩ := sleep_run h₁.rep h₁.sane.current_free hpid (-3)
    (.waiting (i32 f.r15))
  refine ⟨s₂, hcall.away ?_, h₁.scheduled hr hk (Sched.sleep_sane h.sane hc _ _)
    (Sched.sleep_mute h.sane hc _ _)⟩
  rw [hrax]
  change sysWait K f.rsi s₁ = _
  unfold sysWait waitResult
  rw [bind_run (low_run harg), bind_run ((waitLoop_sleep h₁.rep hfind).trans ((bind_run hsleep).trans rfl))]
  rfl

theorem Rep.findUnused (h : Rep s a) : findUnusedProcess s =
    (List.finRange numProc).find? fun j => a.state j = .unused := by
  unfold findUnusedProcess
  simp only [h.state]

theorem fork_move {f : TrapFrame} (h : Whole K pool free a S s) (hc : a.current ≠ 0)
    (hf : f.ofUser 0x80) (hrdi : f.rdi < 2 ^ 63) (hrax : f.rax = 13) (hfree : 7 ≤ free.length)
    {i : Slot} (hi : (List.finRange numProc).find? (fun j => a.state j = .unused) = some i) :
    ∃ s' free' S', step K (.syscall f) s = .ok () s' ∧ Whole K pool free' (a.create i) S' s' ∧
      (free' ++ s'.pagesOf [] (.process i)).Perm free ∧ free.length ≤ free'.length + 7 ∧
      (s'.frame s.pc.currentProcess).rax = ofInt a.pidNum := by
  obtain ⟨s₁, hcall⟩ := call_begins (K := K) h hc hf hrdi (by omega)
  have h₁ := hcall.whole
  have hfound := h₁.rep.findUnused.trans hi
  rcases fork_run h₁.rep h₁.sane h₁.mem h₁.files hc with
    ⟨hno, -⟩ | ⟨j, s₂, free', S', hrun, hj, hu, hr, hm, hfl, hfork, hlen, hperm, -⟩
  · rcases hno with hlt | hnone
    · omega
    · rw [hfound] at hnone
      cases hnone
  · rw [hfound] at hj
    obtain rfl := Option.some.inj hj
    have h₂ : Whole K pool free' (a.create i) S' s₂ := ⟨hr, Sched.create_sane h.sane hu, hm, hfl⟩
    have hne : s₁.pc.currentProcess ≠ i := by
      rw [h₁.rep.current]
      rintro hci
      rw [← hci, h.sane.current_running] at hu
      cases hu
    have hcur : s₂.pc.currentProcess = s₁.pc.currentProcess := by
      rw [h₂.rep.current, h₁.rep.current]
      rfl
    have htf : s₁.trapFrame = s₂.trapFrame := by
      rw [h₁.mem.trapFrame_eq (h₁.live hc), h₂.mem.trapFrame_eq (h₂.live hc)]
      unfold Kernel.current
      rw [hcur, (hfork.other _ hne).2.2.2]
    obtain ⟨s₃, hset, h₃, he₃, hw, hret⟩ := h₂.answer hc htf a.pidNum
    have hrun' : systemCalls K f.rax f.rsi s₁ = .ok (some a.pidNum) s₂ := by
      rw [hrax]
      exact bind_run hrun
    refine ⟨s₃, free', S', ?_, h₃, ?_, hlen, ?_⟩
    · rw [hcall.run, bind_run hrun']
      exact hset
    · have hst : Still [s₂.stackPage s₂.pc.currentProcess] s₂ s₃ := by
        rw [he₃]
        exact still_ram hw
      rw [(h₂.mem.still hst fun p hp => Or.inr (Or.inr ⟨_, h₂.live hc,
        Or.inl (List.mem_singleton.mp hp)⟩)).pagesOf_held (k := []) (by simp)]
      exact hperm
    · rw [hcur, hcall.same] at hret
      exact hret

end Moves

/-! ## Runs from boot -/

/-- A state of a run of machine `m` whose steps all satisfy `Ok`. -/
def Reached (K : Image) (m : Mem) (Ok : Kernel → Event → Prop) (s : Kernel) : Prop :=
  ∃ s₀, kMain K (bootKernel m) = .ok () s₀ ∧ Run K Ok s₀ s

theorem Reached.mono {m : Mem} {Ok Ok' : Kernel → Event → Prop} {s : Kernel} (h : Reached K m Ok s)
    (hOk : ∀ s e, Ok s e → Ok' s e) : Reached K m Ok' s := by
  obtain ⟨s₀, h₀, hrun⟩ := h
  refine ⟨s₀, h₀, ?_⟩
  induction hrun with
  | refl => exact .refl
  | step _ he hok hs ih => exact ih.step he (hOk _ _ hok) hs

theorem Reached.step {m : Mem} {Ok : Kernel → Event → Prop} {s s' : Kernel} {e : Event}
    (h : Reached K m Ok s) (he : Enabled s e) (hok : Ok s e) (hs : step K e s = .ok () s') :
    Reached K m Ok s' := by
  obtain ⟨s₀, h₀, hrun⟩ := h
  exact ⟨s₀, h₀, hrun.step he hok hs⟩

/-- Such a state, with the invariant of the system. -/
structure At (K : Image) (m : Mem) (Ok : Kernel → Event → Prop) (pool free : List Nat) (a : Sched)
    (S : Handles) (s : Kernel) : Prop where
  reached : Reached K m Ok s
  whole : Whole K pool free a S s

namespace At

variable {m : Mem} {Ok : Kernel → Event → Prop} {pool free : List Nat} {a : Sched} {S : Handles}
  {s : Kernel}

theorem timer (h : At K m Ok pool free a S s) (hu : a.kont a.current = .user)
    (hok : Ok s (.timer (irqFrame 32))) : ∃ s', At K m Ok pool free (a.wake (-1)).yield S s' ∧
      OffPages K s.ram.mem s'.ram.mem := by
  obtain ⟨s', hs, h', hoff⟩ := timer_move h.whole (irqFrame 32)
  have he : Enabled s (.timer (irqFrame 32)) := ⟨h.whole.kont.trans hu, irqFrame_ofUser (by decide)⟩
  exact ⟨s', ⟨h.reached.step he hok hs, h'⟩, hoff⟩

theorem enabled_resume (h : At K m Ok pool free a S s) (hk : a.kont a.current ≠ .user) :
    Enabled s .resume := by
  change s.current.kont ≠ .user
  rwa [h.whole.kont]

theorem back (h : At K m Ok pool free a S s) (hk : a.kont a.current = .trapReturn)
    (hok : Ok s .resume) : ∃ s', At K m Ok pool free a.runOn S s' ∧ s'.ram = s.ram := by
  obtain ⟨s', hs, h', hram⟩ := back_move h.whole hk
  exact ⟨s', ⟨h.reached.step (h.enabled_resume (by simp [hk])) hok hs, h'⟩, hram⟩

theorem take (h : At K m Ok pool free a S s) (front : Nat) (hk : a.kont a.current = .readingKey front)
    (hok : Ok s .resume) : ∃ s', At K m Ok pool free (a.runOn.takeKey front) S s' := by
  obtain ⟨s', hs, h'⟩ := take_move h.whole hk
  exact ⟨s', h.reached.step (h.enabled_resume (by simp [hk])) hok hs, h'⟩

theorem reap (h : At K m Ok pool free a S s) {p : Int} {x : Slot}
    (hk : a.kont a.current = .waiting p)
    (hfind : (a.queue .kill).find? (fun j => a.wait j = p) = some x) (hok : Ok s .resume) :
    ∃ s' free' S', At K m Ok pool free' (a.runOn.reap x) S' s' ∧
      free'.Perm (s.pagesOf [] (.process x) ++ free) := by
  obtain ⟨s', free', S', hs, h', hperm⟩ := reap_move h.whole hk hfind
  exact ⟨s', free', S', ⟨h.reached.step (h.enabled_resume (by simp [hk])) hok hs, h'⟩, hperm⟩

/-- A system call of a process. -/
theorem enabled_call (h : At K m Ok pool free a S s) (hu : a.kont a.current = .user)
    (hc : a.current ≠ 0) (rax : Nat) {r15 r14 r13 r12 : Nat} (hrax : rax ≤ 15) (h15 : r15 < 2 ^ 64)
    (h14 : r14 < 2 ^ 64) (h13 : r13 < 2 ^ 64) (h12 : r12 < 2 ^ 64) :
    Enabled s (.syscall (s.callFrame rax r15 r14 r13 r12)) :=
  ⟨h.whole.kont.trans hu, h.whole.rep.current ▸ hc, h.whole.callFrame hc hrax h15 h14 h13 h12⟩

theorem zero_lt : 0 < 2 ^ 64 := by decide

/-- No call has a negative number of parameters. -/
theorem rdi_lt : 0 < 2 ^ 63 := by decide

theorem read (h : At K m Ok pool free a S s) (hu : a.kont a.current = .user) (hc : a.current ≠ 0)
    (hpid : a.pid a.current ≠ 0) (hkeys : a.keys.front = a.keys.end_)
    (hok : Ok s (.syscall (s.callFrame 4 0 0 0 0))) :
    ∃ s', At K m Ok pool free (a.sleep (-2) (.readingKey a.keys.front)) S s' := by
  have he := h.enabled_call hu hc 4 (by decide) zero_lt zero_lt zero_lt zero_lt
  obtain ⟨s', hs, h'⟩ := read_move h.whole hc he.2.2 rdi_lt rfl hpid hkeys
  exact ⟨s', h.reached.step he hok hs, h'⟩

theorem exit (h : At K m Ok pool free a S s) (hu : a.kont a.current = .user) (hc : a.current ≠ 0)
    (hpid : a.pid a.current ≠ 0) (hok : Ok s (.syscall (s.callFrame 2 0 0 0 0))) :
    ∃ s', At K m Ok pool free a.exit S s' := by
  have he := h.enabled_call hu hc 2 (by decide) zero_lt zero_lt zero_lt zero_lt
  obtain ⟨s', hs, h'⟩ := exit_move h.whole hc he.2.2 rdi_lt rfl hpid
  exact ⟨s', h.reached.step he hok hs, h'⟩

theorem wait (h : At K m Ok pool free a S s) (hu : a.kont a.current = .user) (hc : a.current ≠ 0)
    (hpid : a.pid a.current ≠ 0) {p : Nat} (hp : p < 2 ^ 64)
    (hfind : (a.queue .kill).find? (fun j => a.wait j = i32 p) = none)
    (hok : Ok s (.syscall (s.callFrame 3 p 0 0 0))) :
    ∃ s', At K m Ok pool free (a.sleep (-3) (.waiting (i32 p))) S s' := by
  have he := h.enabled_call hu hc 3 (by decide) hp zero_lt zero_lt zero_lt
  obtain ⟨s', hs, h'⟩ := wait_move h.whole hc he.2.2 rdi_lt rfl rfl hpid hfind
  exact ⟨s', h.reached.step he hok hs, h'⟩

theorem fork (h : At K m Ok pool free a S s) (hu : a.kont a.current = .user) (hc : a.current ≠ 0)
    (hfree : 7 ≤ free.length) {i : Slot}
    (hi : (List.finRange numProc).find? (fun j => a.state j = .unused) = some i)
    (hok : Ok s (.syscall (s.callFrame 13 0 0 0 0))) :
    ∃ s' free' S', At K m Ok pool free' (a.create i) S' s' ∧
      (free' ++ s'.pagesOf [] (.process i)).Perm free ∧ free.length ≤ free'.length + 7 ∧
      (s'.frame s.pc.currentProcess).rax = ofInt a.pidNum := by
  have he := h.enabled_call hu hc 13 (by decide) zero_lt zero_lt zero_lt zero_lt
  obtain ⟨s', free', S', hs, h', hperm, hlen, hret⟩ := fork_move h.whole hc he.2.2 rdi_lt rfl hfree hi
  exact ⟨s', free', S', ⟨h.reached.step he hok hs, h'⟩, hperm, hlen, hret⟩

end At

/-- The scheduler when the first program begins. -/
def userSched : Sched := (firstSched.wake (-1)).yield.runOn

/-- The first timer interrupt takes the processor to the first program. -/
theorem reached_user {n : Nat} (h12 : 12 ≤ n) (hn : n ≤ 382) (ws : List Word)
    (Ok : Kernel → Event → Prop) (hOk : ∀ s e, (∃ f, e = .timer f) ∨ e = .resume → Ok s e) :
    ∃ pool free s, At image (machineMem n ws) Ok pool free userSched noHandles s ∧
      pool.length = n ∧ n ≤ free.length + 12 ∧ OffPages image (machineMem n ws) s.ram.mem := by
  obtain ⟨pool, free, s₀, hboot, h₀, -, hpool, hfree, hoff, -⟩ := machine_boots h12 hn ws
  have r₀ : At image (machineMem n ws) Ok pool free firstSched noHandles s₀ :=
    ⟨⟨s₀, hboot, .refl⟩, h₀⟩
  obtain ⟨s₁, r₁, hoff₁⟩ := r₀.timer (by decide) (hOk _ _ (Or.inl ⟨_, rfl⟩))
  obtain ⟨s₂, r₂, hram⟩ := r₁.back (by decide) (hOk _ _ (Or.inr rfl))
  refine ⟨pool, free, s₂, r₂, hpool, hfree, ?_⟩
  rw [hram]
  exact hoff.trans hoff₁

/-- The steps of `fork`, `exit` and `wait`, and of the scheduler. -/
def Forking (_ : Kernel) : Event → Prop
  | .syscall f => f.rax = 13 ∨ f.rax = 2 ∨ f.rax = 3
  | .timer _ => True
  | .resume => True
  | _ => False

/-- Neither `read_file` nor `read_root_directory` is among them. -/
theorem Forking.confined (s : Kernel) (e : Event) (h : Forking s e) : Confined s e := by
  cases e with
  | syscall f =>
      have h : f.rax = 13 ∨ f.rax = 2 ∨ f.rax = 3 := h
      exact fun s₁ _ => ⟨fun h10 => by omega, fun h15 => by omega⟩
  | _ => trivial

/-- The scheduler when the first program waits for its child, and the child has exited. -/
def exitedSched : Sched := ((userSched.create 2).sleep (-3) (.waiting 2)).runOn.exit

/-- There the parent is about to go on, and its child is on the kill list. -/
theorem reached_exited {Ok : Kernel → Event → Prop} (hOk : ∀ s e, Forking s e → Ok s e) :
    ∃ pool free S s, At image (machineMem 20 []) Ok pool free exitedSched S s := by
  obtain ⟨pool, free, s, r, -, hfree, -⟩ := reached_user (n := 20) (by decide) (by decide) []
    Ok fun s e he => hOk s e (by rcases he with ⟨f, rfl⟩ | rfl <;> trivial)
  obtain ⟨s₁, free₁, S₁, r₁, -⟩ := r.fork (by decide) (by decide) (by omega) (i := 2) (by decide)
    (hOk _ _ (Or.inl rfl))
  obtain ⟨s₂, r₂⟩ := r₁.wait (p := 2) (by decide) (by decide) (by decide) (by decide) (by decide)
    (hOk _ _ (Or.inr (Or.inr rfl)))
  obtain ⟨s₃, r₃, -⟩ := r₂.back (by decide) (hOk _ _ trivial)
  obtain ⟨s₄, r₄⟩ := r₃.exit (by decide) (by decide) (by decide) (hOk _ _ (Or.inr (Or.inl rfl)))
  exact ⟨pool, free₁, S₁, s₄, r₄⟩

/-- Where the first program has forked twice. -/
theorem reached_children {Ok : Kernel → Event → Prop} (hOk : ∀ s e, Forking s e → Ok s e) :
    ∃ pool free S s, At image (machineMem 30 []) Ok pool free ((userSched.create 2).create 3) S s := by
  obtain ⟨pool, free, s, r, -, hfree, -⟩ := reached_user (n := 30) (by decide) (by decide) []
    Ok fun s e he => hOk s e (by rcases he with ⟨f, rfl⟩ | rfl <;> trivial)
  obtain ⟨s₁, free₁, S₁, r₁, -, hlen, -⟩ := r.fork (by decide) (by decide) (by omega) (i := 2)
    (by decide) (hOk _ _ (Or.inl rfl))
  obtain ⟨s₂, free₂, S₂, r₂, -⟩ := r₁.fork (by decide) (by decide) (by omega) (i := 3) (by decide)
    (hOk _ _ (Or.inl rfl))
  exact ⟨pool, free₂, S₂, s₂, r₂⟩

end Os64
