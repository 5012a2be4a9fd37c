/-
  The frames of the kernel model are those of the processor.

  * `enter_pushes`: the way in through a vector leaves the frame that `pushFrame` stores, where
    `handler` looks for it, and writes nothing else but the return address below.
  * `frame_leaves`: `TrapReturn` loads the frame of the current process.
  * `run_restores`: the registers of an interrupted program are in the processor again when it goes
    on.
-/
import Os64.Trap.Asm
import Os64.Sys.Resumed

namespace Os64

open Os64.Lib

variable {K : Image}

/-- The processor runs a program, in ring 3. -/
structure UserMode (c : Cpu) : Prop where
  wf : c.Wf
  cs : c.cs = (0x10 ||| 3)
  ss : c.ss = (0x18 ||| 3)

theorem cpuFrame_lt {c : Cpu} (h : c.Wf) {n errorcode : Nat} (hn : n < 2 ^ 64)
    (he : errorcode < 2 ^ 64) : ∀ w ∈ (cpuFrame c n errorcode).words, w < 2 ^ 64 := by
  intro w hw
  rw [cpuFrame_words] at hw
  rcases List.mem_append.mp hw with hw | hw
  · obtain ⟨r, -, rfl⟩ := List.mem_map.mp hw
    exact h.reg r
  · simp only [List.cons_append, List.nil_append, List.mem_cons, List.not_mem_nil, or_false] at hw
    rcases hw with rfl | rfl | rfl | rfl | rfl | rfl | rfl
    · exact hn
    · exact he
    · exact h.rip
    · exact h.cs
    · exact h.rflags
    · exact h.reg .rsp
    · exact h.ss

theorem UserMode.ofUser {c : Cpu} (h : UserMode c) {n errorcode : Nat} (hn : n < 2 ^ 64)
    (he : errorcode < 2 ^ 64) : (cpuFrame c n errorcode).ofUser n :=
  ⟨rfl, h.cs, h.ss, cpuFrame_lt h.wf hn he⟩

/-- The memory of the processor has the frame of the current process, where the kernel looks for it. -/
def HasFrame (c : Cpu) (s : Kernel) : Prop :=
  frameAt c.mem s.trapFrame = s.frame s.pc.currentProcess

section Frames

variable {pool free : List Nat} {s : Kernel} {c : Cpu}

theorem MemOk.trapFrame_addr (h : MemOk K pool free s) (hl : s.Live s.pc.currentProcess) :
    s.trapFrame = s.frameAddr s.pc.currentProcess + kernelBase ∧
      s.rsp0 = s.trapFrame + trapFrameSize ∧ kernelBase + 8 ≤ s.trapFrame ∧
        s.trapFrame + trapFrameSize < 2 ^ 64 := by
  have htf : s.trapFrame = s.frameAddr s.pc.currentProcess + kernelBase :=
    (h.trapFrame_eq hl).trans (h.tf_eq hl)
  have hb := (h.stackValid hl).below
  obtain ⟨h1, h2⟩ := frameAddr_end s s.pc.currentProcess
  have hps := pageSize_eq
  have hbase : kernelBase = 0xffff800000000000 := rfl
  have hsize : trapFrameSize = 176 := rfl
  have hrsp : s.trapFrame = s.rsp0 - trapFrameSize := rfl
  refine ⟨htf, by omega, ?_, by omega⟩
  omega

/-- The way in from a program. -/
theorem enter_pushes (h : MemOk K pool free s) (hl : s.Live s.pc.currentProcess) (hc : c.Wf)
    {entry handler trapReturn n errorcode : Nat} {error : Option Nat} (hn : n < 2 ^ 64)
    (hret : trapReturn < 2 ^ 64) (he : errorcode < 2 ^ 64)
    (herr : error = if pushesError n then some errorcode else none)
    (h0 : ¬ pushesError n → errorcode = 0) {c' : Cpu}
    (hc' : c' = enterKernel c s.rsp0 entry handler trapReturn n error) :
    ∃ r, pushFrame (cpuFrame c n errorcode) s = .ok () { s with ram := r } ∧
      HasFrame c' { s with ram := r } ∧ c'.reg .rdi = s.trapFrame ∧ c'.rip = handler ∧
        (∀ x, x < s.trapFrame - 8 ∨ s.trapFrame + trapFrameSize ≤ x → c'.mem x = c.mem x) ∧
          ∀ x, x < s.frameAddr s.pc.currentProcess ∨
            s.frameAddr s.pc.currentProcess + trapFrameSize ≤ x → r.mem x = s.ram.mem x := by
  obtain ⟨r, hrun, hr, -⟩ := pushFrame_run h hl (cpuFrame c n errorcode)
  obtain ⟨haddr, hbase, hroom, hlt⟩ := h.trapFrame_addr hl
  have hent : Entered c c' s.rsp0 n errorcode handler trapReturn := by
    rw [hc']
    exact enter_frame hc (by omega) (by omega) hn hret he herr h0
  have htop : s.rsp0 - trapFrameSize = s.trapFrame := by omega
  have hframe := hent.frame
  have hrdi := hent.rdi
  rw [htop] at hframe hrdi
  have hpushed : frameAt r.mem (s.frameAddr s.pc.currentProcess) = cpuFrame c n errorcode := by
    rw [hr]
    exact frameAt_putWords s.ram.mem _ (cpuFrame_lt hc hn he)
  refine ⟨r, hrun, (holds_frame.mp hframe).trans hpushed.symm, hrdi, hent.rip, fun x hx => ?_,
    fun x hx => ?_⟩
  · exact hent.mem x (by omega)
  · rw [hr]
    exact putWords_of_outside (cpuFrame c n errorcode).words s.ram.mem _ hx

theorem frame_leaves (h : MemOk K pool free s) (hl : s.Live s.pc.currentProcess)
    (hsp : c.reg .rsp = s.trapFrame) (hframe : HasFrame c s) :
    Left (s.frame s.pc.currentProcess) c (runCode trapReturnCode c) := by
  obtain ⟨-, -, -, hlt⟩ := h.trapFrame_addr hl
  refine leave_frame (by rw [hsp]; exact hlt) ?_
  rw [hsp]
  exact holds_frame.mpr hframe

/-- `TrapReturn` goes on with a program. -/
theorem Continues.leaves {a : Sched} {S : Handles} {j : Slot} {f : TrapFrame} {pid : Int}
    {page : Nat → UInt8} (h : Continues j f pid page s) (hw : Whole K pool free a S s) (hj : j ≠ 0)
    (hsp : c.reg .rsp = s.trapFrame) (hframe : HasFrame c s) : Left f c (runCode trapReturnCode c) := by
  have hcur := h.current
  have hl : s.Live s.pc.currentProcess := hw.live (hw.rep.current ▸ hcur ▸ hj)
  have hleft := frame_leaves hw.mem hl hsp hframe
  rw [hcur, h.frame] at hleft
  exact hleft

end Frames

/-! ## Programs and the timer -/

variable (K) in
/-- When the program of the current process of `s` goes on after a timer interrupt that found the
    processor as `c`, its registers are those of `c`. -/
structure Restores (c : Cpu) (s s₁ : Kernel) : Prop where
  stays : s₁.pc.currentProcess = s.pc.currentProcess →
    ∀ c', c'.reg .rsp = s₁.trapFrame → HasFrame c' s₁ →
      Left (cpuFrame c 32 0) c' (runCode trapReturnCode c')
  returns : s₁.pc.currentProcess ≠ s.pc.currentProcess →
    ∀ s₂, RunsWithout K s.pc.currentProcess s₁ s₂ → s₂.pc.currentProcess = s.pc.currentProcess →
      ∃ s₃, step K .resume s₂ = .ok () s₃ ∧ s₃.pc.currentProcess = s.pc.currentProcess ∧
        ∀ c', c'.reg .rsp = s₃.trapFrame → HasFrame c' s₃ →
          Left (cpuFrame c 32 0) c' (runCode trapReturnCode c')

/-- A timer interrupt takes the registers of a program to where the kernel keeps them, and when the
    program goes on, whatever ran in between, `TrapReturn` loads them again. -/
theorem run_restores {m : Mem} {r : Ram} {s₀ s : Kernel} {pool : List Nat} (hbios : BiosOk m)
    (hinit : initMemory K (bootKernel m).ram = .ok () r) (hpool : FreeList K r pool)
    (h₀ : kMain K (bootKernel m) = .ok () s₀) (h : Run K Confined s₀ s) {c : Cpu} (hc : UserMode c)
    (hu : s.current.kont = .user) (hn : s.pc.currentProcess ≠ 0) (entry handler : Nat)
    {trapReturn : Nat} (hret : trapReturn < 2 ^ 64) :
    ∃ s' s₁, pushFrame (cpuFrame c 32 0) s = .ok () s' ∧
      HasFrame (enterKernel c s.rsp0 entry handler trapReturn 32 none) s' ∧
        (enterKernel c s.rsp0 entry handler trapReturn 32 none).reg .rdi = s.trapFrame ∧
          step K (.timer (cpuFrame c 32 0)) s = .ok () s₁ ∧ Restores K c s s₁ := by
  obtain ⟨free₀, hw₀⟩ := boot_whole hbios hinit hpool h₀
  obtain ⟨free, a, S, hw⟩ := run_whole hw₀ (fun _ _ hconf => hconf) h
  have hca : a.current ≠ 0 := hw.rep.current ▸ hn
  have hl := hw.live hca
  have hf : (cpuFrame c 32 0).ofUser 32 := hc.ofUser (by decide) (by decide)
  obtain ⟨c₁, hc₁⟩ : ∃ c₁, c₁ = enterKernel c s.rsp0 entry handler trapReturn 32 none := ⟨_, rfl⟩
  have hzero : 0 < 2 ^ 64 := by decide
  obtain ⟨r₁, hpush, hframe, hrdi, -⟩ :=
    enter_pushes hw.mem hl hc.wf (by decide) hret hzero rfl (fun _ => rfl) hc₁
  obtain ⟨h₁, -, -⟩ := pushFrame_after hw hpush
  obtain ⟨s₁, hrun₁, -⟩ := timerHandler_run h₁
  have hstep : step K (.timer (cpuFrame c 32 0)) s = .ok () s₁ := (bind_run hpush).trans hrun₁
  have he : Enabled s (.timer (cpuFrame c 32 0)) := ⟨hu, hf⟩
  have hgoes := timer_unnoticed hw he hn hstep
  obtain ⟨_, _, _, hw₁⟩ := run_whole hw₀ (fun _ _ hconf => hconf) (h.step he trivial hstep)
  rw [← hc₁]
  refine ⟨_, s₁, hpush, hframe, hrdi, hstep, fun hcur c' hsp hc' => ?_, fun hcur s₂ hrun hback => ?_⟩
  · exact (hgoes.stays hcur).leaves hw₁ hn hsp hc'
  · obtain ⟨honly, s₃, hresume, hcont⟩ := hgoes.returns hcur s₂ hrun hback
    have he₂ : Enabled s₂ .resume := fun hk => nomatch honly (.timer (cpuFrame c 32 0)) ⟨hk, hf⟩
    obtain ⟨_, _, _, hw₂⟩ := run_whole hw₁ (fun _ _ hok => hok.1) hrun
    obtain ⟨_, _, _, hw₃, -⟩ := step_whole hw₂ he₂ trivial hresume
    exact ⟨s₃, hresume, hcont.current, fun c' hsp hc' => hcont.leaves hw₃ hn hsp hc'⟩

/-- A processor in ring 3 with the registers of a program that starts. -/
def startCpu : Cpu where
  reg r := if r = .rsp then 0x400000 + pageSize else 0
  rip := 0x400000
  rflags := 0x202
  cs := 0x10 ||| 3
  ss := 0x18 ||| 3
  mem := fun _ => 0

theorem startCpu_user : UserMode startCpu := by
  refine ⟨⟨fun r => ?_, by decide, by decide, by decide, by decide⟩, rfl, rfl⟩
  cases r <;> decide

/-- After a `fork` the timer takes the processor from the parent. -/
theorem run_restores_fork : ∃ s s₁, Reached image (machineMem 20 []) Confined s ∧
    step image (.timer (cpuFrame startCpu 32 0)) s = .ok () s₁ ∧
      s₁.pc.currentProcess ≠ s.pc.currentProcess ∧ Restores image startCpu s s₁ := by
  obtain ⟨pool, free, s', hfree, r'⟩ := first_program
  obtain ⟨s, free', S, r, -⟩ := r'.fork (i := 2) (by decide) (by decide) hfree (by decide)
    fun s₁ _ => ⟨fun (h10 : 13 = 10) => absurd h10 (by decide),
      fun (h15 : 13 = 15) => absurd h15 (by decide)⟩
  obtain ⟨s₀, h₀, hrun⟩ := r.reached
  obtain ⟨r₀, pool', hinit, hfl, -⟩ := machine_pool (n := 20) (by decide) []
  have hc : s.pc.currentProcess = 1 := r.whole.rep.current
  obtain ⟨_, s₁, -, -, -, hstep, hrestores⟩ :=
    run_restores (machine_bios (by decide)) hinit hfl h₀ hrun startCpu_user
      (r.whole.kont.trans (by decide)) (by rw [hc]; decide) 0 0 (by decide : 0 < 2 ^ 64)
  obtain ⟨s₂, hstep₂, h₂, -⟩ := timer_move r.whole (cpuFrame startCpu 32 0)
  have hsame : s₂ = s₁ := by
    rw [hstep] at hstep₂
    exact (EStateM.Result.ok.inj hstep₂).2.symm
  have hc₂ : s₂.pc.currentProcess = 2 := h₂.rep.current
  refine ⟨s, s₁, ⟨s₀, h₀, hrun⟩, hstep, ?_, hrestores⟩
  rw [hc, ← hsame, hc₂]
  decide

end Os64
