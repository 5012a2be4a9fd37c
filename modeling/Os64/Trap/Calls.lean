/-
  syscall.asm: the functions through which a program calls the kernel.

  * `stubs`: the sixteen functions of the file.
  * `enter_passes`, `leave_returns`: their instructions before and after `int 0x80`.
  * `callOn`: what a call does with the values of its arguments. `systemCalls_on`: the kernel reads them
    from where the function stored them.
  * `run_passes`: a call of one of the functions is a call of the kernel with its arguments.
  * `run_answers`: when it returns, the result is in `rax`, and the caller goes on.
  * `run_forks`: `fork` returns twice.
-/
import Os64.Sys.Answers
import Os64.Sys.Keys
import Os64.Trap.Frames

namespace Os64

open Os64.Lib

variable {K : Image}

/-- A function of the file: the number of its call, and how many arguments it passes. -/
structure Stub where
  number : Nat
  params : Nat
  deriving DecidableEq

namespace Stub

def writeu : Stub := ⟨0, 3⟩

def sleepu : Stub := ⟨1, 1⟩

def exitu : Stub := ⟨2, 0⟩

def waitu : Stub := ⟨3, 1⟩

def keyboardReadu : Stub := ⟨4, 0⟩

def getTotalMemoryu : Stub := ⟨5, 0⟩

def getFreeMemoryu : Stub := ⟨6, 0⟩

def getUsedMemoryu : Stub := ⟨7, 0⟩

def clearScreenu : Stub := ⟨8, 0⟩

def openFile : Stub := ⟨9, 1⟩

def readFile : Stub := ⟨10, 3⟩

def getFileSize : Stub := ⟨11, 1⟩

def closeFile : Stub := ⟨12, 1⟩

def fork : Stub := ⟨13, 0⟩

def exec : Stub := ⟨14, 1⟩

def readRootDirectory : Stub := ⟨15, 1⟩

end Stub

def stubs : List Stub :=
  [.writeu, .sleepu, .exitu, .waitu, .keyboardReadu, .getTotalMemoryu, .getFreeMemoryu,
    .getUsedMemoryu, .clearScreenu, .openFile, .readFile, .getFileSize, .closeFile, .fork, .exec,
    .readRootDirectory]

/-- The registers of the first arguments of a C function. -/
def argRegs : List Reg := [.rdi, .rsi, .rdx]

/-- The instructions before `int 0x80`. -/
def Stub.enterCode (p : Stub) : List Instr :=
  if p.params = 0 then [.movImm .rax p.number, .movImm .rdi 0]
  else [.sub .rsp (8 * p.params), .movImm .rax p.number] ++ storeCode .rsp 0 (argRegs.take p.params) ++
    [.movImm .rdi p.params, .mov .rsi .rsp]

/-- The instructions after it. -/
def Stub.leaveCode (p : Stub) : List Instr :=
  if p.params = 0 then [.ret] else [.add .rsp (8 * p.params), .ret]

/-- The processor at the `int 0x80`; `after` is the address of the instruction after it. -/
def Stub.enter (p : Stub) (c : Cpu) (after : Nat) : Cpu := { runCode p.enterCode c with rip := after }

/-- The frame of the call. -/
def Stub.frame (p : Stub) (c : Cpu) (after : Nat) : TrapFrame := cpuFrame (p.enter c after) 0x80 0

theorem stubs_params : ∀ p ∈ stubs, p.params ≤ 3 ∧ p.number ≤ 15 := by decide

theorem stubs_plain : ∀ p ∈ stubs, (∀ i ∈ p.enterCode, i.Fits) ∧ .iretq ∉ p.enterCode := by decide

/-- At the `int 0x80`. -/
structure Stub.Passed (p : Stub) (c c' : Cpu) : Prop where
  rax : c'.reg .rax = p.number
  rdi : c'.reg .rdi = p.params
  rsi : p.params ≠ 0 → c'.reg .rsi = c'.reg .rsp
  rsp : c'.reg .rsp = c.reg .rsp - 8 * p.params
  reg : ∀ r, r ∉ [Reg.rax, .rdi, .rsi, .rsp] → c'.reg r = c.reg r
  holds : Holds c'.mem (c.reg .rsp - 8 * p.params) ((argRegs.take p.params).map c.reg)
  mem : ∀ x, x < c.reg .rsp - 8 * p.params ∨ c.reg .rsp ≤ x → c'.mem x = c.mem x

/-- A function without arguments. -/
theorem enter_plain {p : Stub} (h0 : p.params = 0) (c : Cpu) (after : Nat) :
    p.Passed c (p.enter c after) := by
  have hcode : p.enterCode = [.movImm .rax p.number, .movImm .rdi 0] := if_pos h0
  have hreg : (p.enter c after).reg = ((c.set .rax p.number).set .rdi 0).reg := by
    unfold Stub.enter
    rw [hcode]
    rfl
  have hmem : (p.enter c after).mem = c.mem := by
    unfold Stub.enter
    rw [hcode]
    rfl
  refine ⟨?_, ?_, fun hne => absurd h0 hne, ?_, fun r hr => ?_, ?_, fun x _ => by rw [hmem]⟩
  · rw [hreg, Cpu.set_other _ (by decide), Cpu.set_self]
  · rw [hreg, Cpu.set_self, h0]
  · rw [hreg, Cpu.set_other _ (by decide), Cpu.set_other _ (by decide), h0]
    rfl
  · simp only [List.mem_cons, List.not_mem_nil, or_false, not_or] at hr
    rw [hreg, Cpu.set_other _ hr.2.1, Cpu.set_other _ hr.1]
  · rw [h0]
    trivial

/-- The arguments go below the stack pointer, and the rest of memory is as it was. -/
theorem enter_args {p : Stub} (h0 : p.params ≠ 0) (hparams : p.params ≤ 3) {c : Cpu} (hc : c.Wf)
    (hroom : 8 * p.params ≤ c.reg .rsp) (after : Nat) :
    (p.enter c after).reg = ((((c.set .rsp (c.reg .rsp - 8 * p.params)).set .rax p.number).set .rdi
        p.params).set .rsi (c.reg .rsp - 8 * p.params)).reg ∧
      Holds (p.enter c after).mem (c.reg .rsp - 8 * p.params) ((argRegs.take p.params).map c.reg) ∧
        ∀ x, x < c.reg .rsp - 8 * p.params ∨ c.reg .rsp ≤ x →
          (p.enter c after).mem x = c.mem x := by
  have hlt := hc.reg .rsp
  have hlen : (argRegs.take p.params).length = p.params := by
    rw [List.length_take]
    exact Nat.min_eq_left hparams
  obtain ⟨c₁, hc₁⟩ : ∃ c₁, c₁ = (c.set .rsp (c.reg .rsp - 8 * p.params)).set .rax p.number := ⟨_, rfl⟩
  have hsp : c₁.reg .rsp = c.reg .rsp - 8 * p.params := by
    rw [hc₁, Cpu.set_other _ (by decide), Cpu.set_self]
  have hargs : ∀ r ∈ argRegs.take p.params, c₁.reg r = c.reg r := by
    intro r hr
    have hmem : r ∈ argRegs := List.mem_of_mem_take hr
    rw [hc₁, Cpu.set_other _ (by rintro rfl; exact absurd hmem (by decide)),
      Cpu.set_other _ (by rintro rfl; exact absurd hmem (by decide))]
  -- `sub` and `mov eax`, then the stores
  have hfirst : runCode [.sub .rsp (8 * p.params), .movImm .rax p.number] c = c₁ := by
    have hsub : word (c.reg .rsp + (2 ^ 64 - 8 * p.params)) = c.reg .rsp - 8 * p.params :=
      word_sub hroom (by omega) hlt
    rw [hc₁, ← hsub]
    rfl
  obtain ⟨m, hrun, hholds, hoff⟩ := runCode_stores .rsp (argRegs.take p.params) 0 (c := c₁)
    (by rw [hsp, hlen]; omega) fun r hr => by
      rw [hargs r hr]
      exact hc.reg r
  rw [hsp, Nat.add_zero] at hholds hoff
  rw [List.map_congr_left hargs] at hholds
  rw [hlen] at hoff
  obtain ⟨c₂, hc₂⟩ : ∃ c₂ : Cpu, c₂ = { c₁ with mem := m } := ⟨_, rfl⟩
  have hreg₂ : c₂.reg = c₁.reg := by rw [hc₂]
  have hall : p.enter c after =
      { (c₂.set .rdi p.params).set .rsi ((c₂.set .rdi p.params).reg .rsp) with rip := after } := by
    unfold Stub.enter Stub.enterCode
    rw [if_neg h0, runCode_append, runCode_append, hfirst, hrun, ← hc₂]
    rfl
  have hmem : (p.enter c after).mem = m := by
    rw [hall, hc₂]
    rfl
  refine ⟨?_, by rw [hmem]; exact hholds, fun x hx => ?_⟩
  · rw [hall, Cpu.set_other _ (by decide), hreg₂, hsp, ← hc₁, hc₂]
    rfl
  · rw [hmem, hoff x (by omega), hc₁]
    rfl

theorem enter_passes {p : Stub} (hp : p ∈ stubs) {c : Cpu} (hc : c.Wf)
    (hroom : 8 * p.params ≤ c.reg .rsp) (after : Nat) : p.Passed c (p.enter c after) := by
  obtain ⟨hparams, -⟩ := stubs_params p hp
  by_cases h0 : p.params = 0
  · exact enter_plain h0 c after
  · obtain ⟨hreg, hholds, hoff⟩ := enter_args h0 hparams hc hroom after
    refine ⟨?_, ?_, fun _ => ?_, ?_, fun r hr => ?_, hholds, hoff⟩
    · rw [hreg, Cpu.set_other _ (by decide), Cpu.set_other _ (by decide), Cpu.set_self]
    · rw [hreg, Cpu.set_other _ (by decide), Cpu.set_self]
    · rw [hreg, Cpu.set_self, Cpu.set_other _ (by decide), Cpu.set_other _ (by decide),
        Cpu.set_other _ (by decide), Cpu.set_self]
    · rw [hreg, Cpu.set_other _ (by decide), Cpu.set_other _ (by decide), Cpu.set_other _ (by decide),
        Cpu.set_self]
    · simp only [List.mem_cons, List.not_mem_nil, or_false, not_or] at hr
      rw [hreg, Cpu.set_other _ hr.2.2.1, Cpu.set_other _ hr.2.1, Cpu.set_other _ hr.1,
        Cpu.set_other _ hr.2.2.2]

theorem enter_user {p : Stub} (hp : p ∈ stubs) {c : Cpu} (hc : UserMode c) {after : Nat}
    (hafter : after < 2 ^ 64) : UserMode (p.enter c after) := by
  obtain ⟨hfits, hplain⟩ := stubs_plain p hp
  have hw := runCode_wf hfits hc.wf
  obtain ⟨hcs, hss⟩ := runCode_selectors (c := c) hplain
  exact ⟨⟨hw.reg, hafter, hw.rflags, hw.cs, hw.ss⟩, hcs.trans hc.cs, hss.trans hc.ss⟩

/-- After `TrapReturn` and the rest of the function: `v` is in `rax`, and the caller of `p`, which
    called it with the processor as `c`, goes on. -/
structure Stub.Returned (c : Cpu) (v : Int) (c' c'' : Cpu) : Prop where
  rax : c''.reg .rax = ofInt v
  rip : c''.rip = load c'.mem (c.reg .rsp) 8
  rsp : c''.reg .rsp = c.reg .rsp + 8
  reg : ∀ r, r ∉ [Reg.rax, .rdi, .rsi, .rsp] → c''.reg r = c.reg r
  mem : c''.mem = c'.mem

/-- The way out, with the frame of the call and a result in it. -/
theorem leave_returns {p : Stub} (hp : p ∈ stubs) {c c' : Cpu} (hc : c.Wf) {after : Nat}
    (hroom : 8 * p.params ≤ c.reg .rsp) (htop : c.reg .rsp + 8 < 2 ^ 64) {v : Int}
    (hleft : Left { p.frame c after with rax := ofInt v } c' (runCode trapReturnCode c')) :
    Stub.Returned c v c' (runCode (trapReturnCode ++ p.leaveCode) c') := by
  have henter := enter_passes hp hc hroom after
  obtain ⟨c₁, hc₁⟩ : ∃ c₁, runCode trapReturnCode c' = c₁ := ⟨_, rfl⟩
  rw [hc₁] at hleft
  have hreg : ∀ r, r ≠ .rax → c₁.reg r = (p.enter c after).reg r := by
    intro r hr
    rw [hleft.reg r]
    cases r <;> first | exact absurd rfl hr | rfl
  have hrax : c₁.reg .rax = ofInt v := hleft.reg .rax
  have hsp : c₁.reg .rsp = c.reg .rsp - 8 * p.params := (hreg _ (by decide)).trans henter.rsp
  -- `add`, where there is one
  obtain ⟨c₂, hc₂⟩ : ∃ c₂, c₂ = c₁.set .rsp (c.reg .rsp) := ⟨_, rfl⟩
  have hrun : runCode (trapReturnCode ++ p.leaveCode) c' = Instr.run c₂ .ret := by
    rw [runCode_append, hc₁]
    unfold Stub.leaveCode
    split
    · rename_i h0
      have hsame : c₂ = c₁ := by
        rw [hc₂]
        have hsp : c₁.reg .rsp = c.reg .rsp := by rw [hsp, h0]; rfl
        rw [← hsp]
        unfold Cpu.set
        rw [Function.update_eq_self]
      rw [hsame]
      rfl
    · have hadd : word (c₁.reg .rsp + 8 * p.params) = c.reg .rsp := by
        rw [hsp, word_of_lt (by omega)]
        omega
      rw [hc₂, ← hadd]
      rfl
  have hsp₂ : c₂.reg .rsp = c.reg .rsp := by rw [hc₂, Cpu.set_self]
  have hmem₂ : c₂.mem = c'.mem := by
    rw [hc₂]
    exact hleft.mem
  have hother : ∀ r, r ≠ .rsp → (Instr.run c₂ .ret).reg r = c₁.reg r := by
    intro r hr
    have hset : (Instr.run c₂ .ret).reg r = c₂.reg r := Cpu.set_other c₂ hr _
    rw [hset, hc₂, Cpu.set_other _ hr]
  rw [hrun]
  refine ⟨(hother _ (by decide)).trans hrax, ?_, ?_, fun r hr => ?_, hmem₂⟩
  · change load c₂.mem (c₂.reg .rsp) 8 = _
    rw [hsp₂, hmem₂]
  · have hret : (Instr.run c₂ .ret).reg .rsp = word (c₂.reg .rsp + 8) :=
      Cpu.set_self c₂ .rsp (word (c₂.reg .rsp + 8))
    rw [hret, hsp₂]
    exact word_of_lt htop
  · have hne := hr
    simp only [List.mem_cons, List.not_mem_nil, or_false, not_or] at hne
    rw [hother r hne.2.2.2, hreg r hne.1, henter.reg r hr]

/-! ## The arguments -/

variable (K) in
/-- The sixteen calls, on the values of their arguments. -/
def callOn (i x y z : Nat) : KernelM (Option Int) :=
  match i with
  | 0 => do
      low (forM (List.range (i32 y).toNat) fun k => do let _ ← loadVirt (x + k))
      return some (i32 y)
  | 1 => do
      let s ← get
      sleepLoop s.ticks x
  | 2 => sysExit
  | 3 => waitResult K (i32 x)
  | 4 => sysKeyboardRead
  | 5 => sysGetTotalMemory
  | 6 => sysGetFreeMemory
  | 7 => sysGetUsedMemory
  | 8 => sysClearScreen
  | 9 => do
      let s ← get
      let fd ← low (openFile s.pc.currentProcess x)
      return some fd
  | 10 => do
      let s ← get
      let n ← low (readFile K true s.pc.currentProcess (i32 x) y (u32 z))
      return some n
  | 11 => do
      let s ← get
      let n ← low (getFileSize s.pc.currentProcess (i32 x))
      return some (i32 n)
  | 12 => do
      let s ← get
      low (closeFile s.pc.currentProcess (i32 x))
      return some 0
  | 13 => sysFork K
  | 14 => do
      let s ← get
      exec K s.pc.currentProcess x
  | 15 => do
      let n ← low (readRootDirectory K x)
      return some n
  | _ => throw (.fault (.assertion "syscall.c" 148))

section Arguments

variable {argptr x y z : Nat} {s : Kernel}

theorem callOn_none {i : Nat} (hi : i ∈ [2, 4, 5, 6, 7, 8, 13]) :
    systemCalls K i argptr = callOn K i x y z := by
  simp only [List.mem_cons, List.not_mem_nil, or_false] at hi
  rcases hi with rfl | rfl | rfl | rfl | rfl | rfl | rfl
  · change sysExit = _
    rfl
  · change sysKeyboardRead = _
    rfl
  · change sysGetTotalMemory = _
    rfl
  · change sysGetFreeMemory = _
    rfl
  · change sysGetUsedMemory = _
    rfl
  · change sysClearScreen = _
    rfl
  · change sysFork K = _
    rfl

theorem callOn_one {i : Nat} (hi : i ∈ [1, 3, 9, 11, 12, 14, 15]) (h0 : arg argptr 0 s = .ok x s) :
    systemCalls K i argptr s = callOn K i x y z s := by
  have h0 : low (arg argptr 0) s = .ok x s := low_run h0
  simp only [List.mem_cons, List.not_mem_nil, or_false] at hi
  rcases hi with rfl | rfl | rfl | rfl | rfl | rfl | rfl
  · change sysSleep argptr s = _
    unfold sysSleep
    rw [bind_run h0]
    rfl
  · change sysWait K argptr s = _
    unfold sysWait
    rw [bind_run h0]
    rfl
  · change sysOpenFile argptr s = _
    unfold sysOpenFile
    rw [bind_run (get_run s), bind_run h0]
    rfl
  · change sysGetFileSize argptr s = _
    unfold sysGetFileSize
    rw [bind_run (get_run s), bind_run h0]
    rfl
  · change sysCloseFile argptr s = _
    unfold sysCloseFile
    rw [bind_run (get_run s), bind_run h0]
    rfl
  · change sysExec K argptr s = _
    unfold sysExec
    rw [bind_run (get_run s), bind_run h0]
    rfl
  · have hcall : systemCalls K 15 argptr = sysReadRootDirectory K argptr := rfl
    have hon : callOn K 15 x y z =
        (do let n ← low (readRootDirectory K x); return some n : KernelM (Option Int)) := rfl
    rw [hcall, hon]
    exact bind_run h0

theorem callOn_three {i : Nat} (hi : i ∈ [0, 10]) (h0 : arg argptr 0 s = .ok x s)
    (h1 : arg argptr 1 s = .ok y s) (h2 : arg argptr 2 s = .ok z s) :
    systemCalls K i argptr s = callOn K i x y z s := by
  have h0 : low (arg argptr 0) s = .ok x s := low_run h0
  have h1 : low (arg argptr 1) s = .ok y s := low_run h1
  have h2 : low (arg argptr 2) s = .ok z s := low_run h2
  simp only [List.mem_cons, List.not_mem_nil, or_false] at hi
  rcases hi with rfl | rfl
  · change sysWrite argptr s = _
    unfold sysWrite
    rw [bind_run h0, bind_run h1, bind_run h2]
    rfl
  · change sysReadFile K argptr s = _
    unfold sysReadFile
    rw [bind_run (get_run s), bind_run h0, bind_run h1, bind_run h2]
    rfl

theorem stubs_named : ∀ p ∈ stubs, (p.number = 2 → p = .exitu) ∧ (p.number = 14 → p = .exec) := by
  decide

theorem stubs_kinds : ∀ p ∈ stubs, p.number ∈ [2, 4, 5, 6, 7, 8, 13] ∨
    p.number ∈ [1, 3, 9, 11, 12, 14, 15] ∧ p.params = 1 ∨ p.number ∈ [0, 10] ∧ p.params = 3 := by
  decide

theorem systemCalls_on {p : Stub} (hp : p ∈ stubs)
    (harg : ∀ k < p.params, arg argptr k s = .ok ([x, y, z].getD k 0) s) :
    systemCalls K p.number argptr s = callOn K p.number x y z s := by
  rcases stubs_kinds p hp with hn | ⟨hn, h1⟩ | ⟨hn, h3⟩
  · rw [callOn_none hn]
  · exact callOn_one hn (harg 0 (by omega))
  · exact callOn_three hn (harg 0 (by omega)) (harg 1 (by omega)) (harg 2 (by omega))

end Arguments

/-- The processor has the memory of the program: what the user page of the current process holds. -/
def HasPage (c : Cpu) (s : Kernel) : Prop :=
  ∀ va, InUser va → c.mem va = s.userByte s.pc.currentProcess va

variable (K) in
/-- Runs of stores of the program. -/
def Stores : Kernel → Kernel → Prop := Run K fun _ e => ∃ va b, e = .store va b

section Kernel

variable {pool free : List Nat} {a : Sched} {S : Handles} {s s₁ s' : Kernel} {c : Cpu}

theorem Stores.whole (h : Stores K s s') (hw : Whole K pool free a S s) :
    ∃ free' a' S', Whole K pool free' a' S' s' :=
  run_whole hw (fun _ e => by rintro ⟨va, b, rfl⟩; trivial) h

/-- A program can store what it likes in its page. -/
theorem stores_page (h : Whole K pool free a S s) (hk : s.current.kont = .user)
    (hc : s.pc.currentProcess ≠ 0) (m : Mem) (a₀ : Nat) (hlow : 0x400000 ≤ a₀) :
    ∀ n, a₀ + n ≤ 0x600000 → ∃ s', Stores K s s' ∧ s' = { s with ram := s'.ram } ∧
      ∀ va, InUser va → s'.userByte s.pc.currentProcess va =
        if a₀ ≤ va ∧ va < a₀ + n then m va else s.userByte s.pc.currentProcess va := by
  intro n
  induction n with
  | zero => exact fun _ => ⟨s, .refl, rfl, fun va _ => (if_neg (by omega)).symm⟩
  | succ n ih =>
      intro hend
      obtain ⟨s₁, hrun, hsame, hbytes⟩ := ih (by omega)
      obtain ⟨free₁, a₁, S₁, h₁⟩ := hrun.whole h
      have hcur : s₁.pc.currentProcess = s.pc.currentProcess := by rw [hsame]
      have hl₁ : s₁.Live s₁.pc.currentProcess := h₁.live (h₁.rep.current ▸ hcur ▸ hc)
      have hin : InUser (a₀ + n) := ⟨by omega, by omega⟩
      obtain ⟨s₂, hs₂⟩ : ∃ s₂ : Kernel, s₂ = { s₁ with ram := { s₁.ram with
          mem := Function.update s₁.ram.mem (s₁.userPage s₁.pc.currentProcess + (a₀ + n - 0x400000))
            (m (a₀ + n)) } } := ⟨_, rfl⟩
      have hstore : step K (.store (a₀ + n) (m (a₀ + n))) s₁ = .ok () s₂ := by
        rw [hs₂]
        exact low_run (storeVirt_run (h₁.mem.currentSpace hl₁) hin (m (a₀ + n)))
      have he : Enabled s₁ (.store (a₀ + n) (m (a₀ + n))) := by
        refine ⟨?_, hcur ▸ hc, _, h₁.translate_user hl₁ hin, rfl, rfl⟩
        rw [hsame]
        exact hk
      have hpage : s₂.userPage s.pc.currentProcess = s₁.userPage s.pc.currentProcess := by
        have hp := ((storeVirt_ends (h₁.mem.currentSpace hl₁) (by omega) InUser _).ok (low_ok hstore)).2
        rw [hcur] at hp hl₁
        refine (h₁.mem.still hp.still fun p hm => ?_).userPage _ hl₁
        exact Or.inr (Or.inr ⟨_, hl₁, Or.inr (List.mem_singleton.mp hm)⟩)
      refine ⟨s₂, hrun.step he ⟨_, _, rfl⟩ hstore, by rw [hs₂, hsame], fun va hva => ?_⟩
      have hlow' := hva.1
      have hbyte : s₂.userByte s.pc.currentProcess va =
          if va = a₀ + n then m va else s₁.userByte s.pc.currentProcess va := by
        unfold Kernel.userByte
        rw [hpage, hs₂, hcur]
        dsimp only
        split
        · rename_i heq
          rw [heq, Function.update_self]
        · exact Function.update_of_ne (by omega) _ _
      rw [hbyte, hbytes va hva]
      by_cases hva2 : va = a₀ + n
      · rw [if_pos hva2, if_pos (by omega)]
      · rw [if_neg hva2]
        exact if_congr (by omega) rfl rfl

/-- What the kernel loads through the page map is what the program has there. -/
theorem loadVirtN_page (h : Whole K pool free a S s) (hl : s.Live s.pc.currentProcess)
    (hpage : HasPage c s) : ∀ {n va : Nat}, 0x400000 ≤ va → va + n ≤ 0x600000 →
    loadVirtN va n s = .ok (load c.mem va n) s
  | 0, _, _, _ => rfl
  | n + 1, va, hlow, hend => by
      have hin : InUser va := ⟨hlow, by omega⟩
      have hbyte : loadVirt va s = .ok (c.mem va) s := by
        rw [hpage va hin]
        exact loadVirt_user (h.mem.currentSpace hl) hin
      unfold loadVirtN
      rw [bind_run hbyte, bind_run (loadVirtN_page h hl hpage (by omega) (by omega))]
      rfl

/-- The program of the current process is about to run `p`: the processor is `c`, and the address
    that `p` is to return to is at the stack pointer. -/
structure AtStub (p : Stub) (c : Cpu) (s : Kernel) : Prop where
  user : UserMode c
  kont : s.current.kont = .user
  program : s.pc.currentProcess ≠ 0
  page : HasPage c s
  low : 0x400000 + 8 * p.params ≤ c.reg .rsp
  high : c.reg .rsp + 8 ≤ 0x600000

variable (K) in
/-- The stores of `p` take the kernel to `s₁`, and the frame of its `int 0x80` to `s₂`; there the
    kernel does the call of that number with the arguments of `p`. -/
structure Stub.Calls (p : Stub) (c : Cpu) (after : Nat) (s s₁ s₂ : Kernel) : Prop where
  stores : Stores K s s₁
  program : HasPage (p.enter c after) s₁
  enabled : Enabled s₁ (.syscall (p.frame c after))
  push : pushFrame (p.frame c after) s₁ = .ok () s₂
  page : HasPage (p.enter c after) s₂
  same : s₂ = { s with ram := s₂.ram }
  run : step K (.syscall (p.frame c after)) s₁ = (do
    let result ← callOn K p.number (c.reg .rdi) (c.reg .rsi) (c.reg .rdx)
    setResult s₂.trapFrame result) s₂

theorem frame_registers {p : Stub} (hp : p ∈ stubs) (h : AtStub p c s) (after : Nat) :
    (p.frame c after).rax = p.number ∧ (p.frame c after).rdi = p.params ∧
      (p.params ≠ 0 → (p.frame c after).rsi = c.reg .rsp - 8 * p.params) := by
  have hroom := h.low
  have henter := enter_passes hp h.user.wf (by omega) after
  exact ⟨henter.rax, henter.rdi, fun h0 => (henter.rsi h0).trans henter.rsp⟩

/-- A call that fills no buffer is confined. -/
theorem AtStub.confined {p : Stub} (h : AtStub p c s) (hp : p ∈ stubs) (hk : ¬ Fills p.number)
    (after : Nat) (s₁ : Kernel) : Confined s₁ (.syscall (p.frame c after)) := by
  obtain ⟨hrax, -, -⟩ := frame_registers hp h after
  exact fun _ _ => ⟨fun h10 => absurd (Or.inl (hrax.symm.trans h10)) hk,
    fun h15 => absurd (Or.inr (hrax.symm.trans h15)) hk⟩

/-- The kernel finds the arguments of the C function. -/
theorem arg_stub {p : Stub} (hp : p ∈ stubs) (hat : AtStub p c s) {after : Nat}
    (h : Whole K pool free a S s₁) (hl : s₁.Live s₁.pc.currentProcess)
    (hpage : HasPage (p.enter c after) s₁) {k : Nat} (hk : k < p.params) :
    arg (p.frame c after).rsi k s₁ =
      .ok ([c.reg .rdi, c.reg .rsi, c.reg .rdx].getD k 0) s₁ := by
  have hlow := hat.low
  have hhigh := hat.high
  obtain ⟨hparams, -⟩ := stubs_params p hp
  have henter := enter_passes hp hat.user.wf (by omega) after
  have hrsi := (frame_registers hp hat after).2.2 (by omega)
  have hlen : ((argRegs.take p.params).map c.reg).length = p.params := by
    rw [List.length_map, List.length_take]
    exact Nat.min_eq_left hparams
  have hget := henter.holds.get (k := k) (by rw [hlen]; exact hk)
  have hword : ((argRegs.take p.params).map c.reg).getD k 0 =
      [c.reg .rdi, c.reg .rsi, c.reg .rdx].getD k 0 := by
    rw [List.map_take, List.getD_eq_getElem?_getD, List.getElem?_take_of_lt hk,
      ← List.getD_eq_getElem?_getD]
    rfl
  unfold arg
  rw [hrsi, loadVirtN_page h hl hpage (by omega) (by omega), hget, hword]

/-- The call, after the stores of `p`. -/
theorem AtStub.calls {p : Stub} (hat : AtStub p c s) (hp : p ∈ stubs) {after : Nat}
    (hafter : after < 2 ^ 64) (h : Whole K pool free a S s₁) (hstores : Stores K s s₁)
    (hsame : s₁ = { s with ram := s₁.ram }) (hpage : HasPage (p.enter c after) s₁) :
    ∃ s₂, p.Calls K c after s s₁ s₂ := by
  obtain ⟨hparams, hnumber⟩ := stubs_params p hp
  obtain ⟨hrax, hrdi, -⟩ := frame_registers hp hat after
  have hcur : s₁.pc.currentProcess = s.pc.currentProcess := by rw [hsame]
  have hc : a.current ≠ 0 := h.rep.current ▸ hcur ▸ hat.program
  have hl := h.live hc
  have hf : (p.frame c after).ofUser 0x80 :=
    (enter_user hp hat.user hafter).ofUser (by decide) (by decide : 0 < 2 ^ 64)
  have hkont : s₁.current.kont = .user := by
    rw [hsame]
    exact hat.kont
  obtain ⟨s₂, hcall⟩ := call_begins (K := K) h hc hf (by rw [hrdi]; omega) (by omega)
  obtain ⟨r, hpush, -, hw⟩ := pushFrame_run h.mem hl (p.frame c after)
  obtain ⟨-, rfl⟩ := EStateM.Result.ok.inj (hpush.symm.trans hcall.push)
  have hpage₂ : HasPage (p.enter c after) { s₁ with ram := r } := by
    intro va hva
    exact (hpage va hva).trans (h.userByte_stack hl hw hva).symm
  refine ⟨_, hstores, hpage, ⟨hkont, hcur ▸ hat.program, hf⟩, hpush, hpage₂, by rw [hsame], ?_⟩
  have hargs : ∀ k < p.params, arg (p.frame c after).rsi k { s₁ with ram := r } =
      .ok ([c.reg .rdi, c.reg .rsi, c.reg .rdx].getD k 0) { s₁ with ram := r } :=
    fun k hk => arg_stub hp hat hcall.whole (hcall.whole.live hc) hpage₂ hk
  rw [hcall.run, hrax]
  change EStateM.bind _ _ _ = EStateM.bind _ _ _
  unfold EStateM.bind
  rw [systemCalls_on hp hargs]

theorem stub_calls (h : Whole K pool free a S s) {p : Stub} (hp : p ∈ stubs) (hat : AtStub p c s)
    {after : Nat} (hafter : after < 2 ^ 64) : ∃ s₁ s₂, p.Calls K c after s s₁ s₂ := by
  have hlow := hat.low
  have hhigh := hat.high
  have henter := enter_passes hp hat.user.wf (by omega) after
  obtain ⟨s₁, hstores, hsame, hbytes⟩ := stores_page h hat.kont hat.program (p.enter c after).mem
    (c.reg .rsp - 8 * p.params) (by omega) (8 * p.params) (by omega)
  obtain ⟨free₁, a₁, S₁, h₁⟩ := hstores.whole h
  have hcur : s₁.pc.currentProcess = s.pc.currentProcess := by rw [hsame]
  obtain ⟨s₂, hcalls⟩ := hat.calls hp hafter h₁ hstores hsame fun va hva => by
    rw [hcur, hbytes va hva]
    split
    · rfl
    · rw [← hat.page va hva]
      exact henter.mem va (by omega)
  exact ⟨s₁, s₂, hcalls⟩

/-- The stores of the function leave all but memory as it was. -/
theorem Stub.Calls.stored {p : Stub} {after : Nat} {s₂ : Kernel} (h : p.Calls K c after s s₁ s₂)
    (hw : Whole K pool free a S s₁) : s₁ = { s with ram := s₁.ram } := by
  obtain ⟨-, -, he⟩ := pushFrame_after hw h.push
  have hback : s₁ = { s₂ with ram := s₁.ram } := by rw [he]
  rw [h.same] at hback
  exact hback

/-! ## The answer -/

/-- The processor is at `TrapReturn`, with the frame and the page of the current process. -/
structure AtReturn (c : Cpu) (s : Kernel) : Prop where
  rsp : c.reg .rsp = s.trapFrame
  frame : HasFrame c s
  page : HasPage c s

/-- The program goes on after a call of `p` that answered `v`. -/
structure Stub.GoesOn (p : Stub) (c : Cpu) (v : Int) (s : Kernel) : Prop where
  leaves : ∀ c', AtReturn c' s → Stub.Returned c v c' (runCode (trapReturnCode ++ p.leaveCode) c')
  kept : ¬ Fills p.number → ∀ c', AtReturn c' s →
    (runCode (trapReturnCode ++ p.leaveCode) c').rip = c.top ∧
      ∀ va, InUser va → (va < c.reg .rsp - 8 * p.params ∨ c.reg .rsp ≤ va) → c'.mem va = c.mem va

theorem AtStub.goesOn {p : Stub} (hp : p ∈ stubs) (hat : AtStub p c s) {after : Nat} {v : Int}
    (hw : Whole K pool free a S s') (hc : s'.pc.currentProcess ≠ 0)
    (hframe : s'.frame s'.pc.currentProcess = { p.frame c after with rax := ofInt v })
    (hbytes : ¬ Fills p.number → ∀ va, InUser va →
      s'.userByte s'.pc.currentProcess va = (p.enter c after).mem va) : p.GoesOn c v s' := by
  have hlow := hat.low
  have hhigh := hat.high
  have hl : s'.Live s'.pc.currentProcess := hw.live (hw.rep.current ▸ hc)
  have henter := enter_passes hp hat.user.wf (by omega) after
  have hleaves : ∀ c', AtReturn c' s' →
      Stub.Returned c v c' (runCode (trapReturnCode ++ p.leaveCode) c') := by
    intro c' hc'
    have hleft := frame_leaves hw.mem hl hc'.rsp hc'.frame
    rw [hframe] at hleft
    exact leave_returns hp hat.user.wf (by omega) (by omega) hleft
  refine ⟨hleaves, fun hk c' hc' => ?_⟩
  have hmem : ∀ va, InUser va → (va < c.reg .rsp - 8 * p.params ∨ c.reg .rsp ≤ va) →
      c'.mem va = c.mem va := by
    intro va hva hoff
    rw [hc'.page va hva, hbytes hk va hva, henter.mem va hoff]
  refine ⟨(hleaves c' hc').rip.trans ?_, hmem⟩
  exact load_congr fun x h1 h2 => hmem x ⟨by omega, by omega⟩ (Or.inr h1)

/-- When the program runs again after a call, the call has answered. -/
theorem answers_goesOn (h : Whole K pool free a S s) {p : Stub} (hp : p ∈ stubs) (hat : AtStub p c s)
    {after : Nat} {s₂ s₃ s₄ : Kernel} (hcalls : p.Calls K c after s s₁ s₂)
    (hconf : Confined s₁ (.syscall (p.frame c after))) (hexit : p ≠ .exitu) (hexec : p ≠ .exec)
    (hrun : step K (.syscall (p.frame c after)) s₁ = .ok () s₃)
    (hinside : RunsInside K s.pc.currentProcess s₃ s₄)
    (hcur : s₄.pc.currentProcess = s.pc.currentProcess) (hk : s₄.current.kont = .user) :
    ∃ v, p.GoesOn c v s₄ ∧ ∀ v' s', callOn K p.number (c.reg .rdi) (c.reg .rsi) (c.reg .rdx) s₂ =
      .ok (some v') s' → s₄ = s₃ ∧ v = v' := by
  obtain ⟨hrax, hrdi, -⟩ := frame_registers hp hat after
  obtain ⟨hparams, hnumber⟩ := stubs_params p hp
  obtain ⟨hn2, hn14⟩ := stubs_named p hp
  obtain ⟨free₁, a₁, S₁, h₁⟩ := hcalls.stores.whole h
  obtain ⟨h₂, -, -⟩ := pushFrame_after h₁ hcalls.push
  obtain ⟨free₃, a₃, S₃, h₃, -⟩ := step_whole h₁ hcalls.enabled hconf hrun
  have hcur₁ : s₁.pc.currentProcess = s.pc.currentProcess := by rw [hcalls.stored h₁]
  have hcur₂ : s₂.pc.currentProcess = s.pc.currentProcess := by rw [hcalls.same]
  have hc₂ : a₁.current ≠ 0 := h₂.rep.current ▸ hcur₂ ▸ hat.program
  have hsys : systemCalls K p.number (p.frame c after).rsi s₂ =
      callOn K p.number (c.reg .rdi) (c.reg .rsi) (c.reg .rdx) s₂ :=
    systemCalls_on hp fun k hk => arg_stub hp hat h₂ (h₂.live hc₂) hcalls.page hk
  obtain ⟨r, s', hcall, hin, hnow⟩ := syscall_inCall h₁ hcalls.enabled hconf (by rw [hrdi]; omega)
    (by rw [hrax]; exact hnumber) (fun h2 => hexit (hn2 (hrax.symm.trans h2)))
    (fun h14 => hexec (hn14 (hrax.symm.trans h14))) hcalls.push hrun
  rw [hrax, hcur₁] at hin hnow
  rw [hrax, hsys] at hcall
  have hgoes : ∀ {v : Int} {t : Kernel} {free' : List Nat} {a' : Sched} {S' : Handles},
      Whole K pool free' a' S' t → Replied (¬ Fills p.number) s.pc.currentProcess (p.frame c after)
        (s₁.userByte s.pc.currentProcess) v t → p.GoesOn c v t := by
    intro v t free' a' S' ht hr
    have hj := hr.current
    refine hat.goesOn hp ht (hj ▸ hat.program) (hj ▸ hr.frame) fun hk va hva => ?_
    rw [hj, hr.bytes hk va hva, ← hcur₁]
    exact (hcalls.program va hva).symm
  cases r with
  | some v =>
      have hr := hnow v rfl
      obtain rfl : s₄ = s₃ := hinside.eq hr.current hr.kont
      refine ⟨v, hgoes h₃ hr, fun v' s'' hv => ⟨rfl, ?_⟩⟩
      exact Option.some.inj (EStateM.Result.ok.inj (hcall.symm.trans hv)).1
  | none =>
      obtain ⟨hin₄, free₄, a₄, S₄, h₄⟩ := run_inCall h₃ hin hinside
      obtain ⟨v, hr⟩ := hin₄.replied hcur hk
      refine ⟨v, hgoes h₄ hr, fun v' s'' hv => ?_⟩
      exact nomatch (EStateM.Result.ok.inj (hcall.symm.trans hv)).1

/-- A process that goes on with a result of `p` in its frame. -/
theorem Continues.goesOn {p : Stub} (hp : p ∈ stubs) (hat : AtStub p c s) {after : Nat} {v pid : Int}
    {j : Slot} {page : Nat → UInt8} (hw : Whole K pool free a S s') (hj : j ≠ 0)
    (h : Continues j { p.frame c after with rax := ofInt v } pid page s')
    (hpage : ∀ va, InUser va → page va = (p.enter c after).mem va) : p.GoesOn c v s' := by
  obtain rfl := h.current
  have hl : s'.Live s'.pc.currentProcess := hw.live (hw.rep.current ▸ hj)
  refine hat.goesOn hp hw hj h.frame fun _ va hva => ?_
  obtain ⟨t, ht, -, -, hbyte⟩ := h.bytes va hva
  rw [hw.translate_user hl hva] at ht
  rw [← hpage va hva, ← hbyte, ← Option.some.inj ht]
  rfl

end Kernel

/-! ## The calls of a run -/

/-- A processor in ring 3 at the first instruction of a function. -/
def calledCpu (m : Mem) : Cpu := { startCpu.set .rsp 0x5ffff8 with mem := m }

theorem calledCpu_at {p : Stub} (hp : p ∈ stubs) {s : Kernel} (hk : s.current.kont = .user)
    (hc : s.pc.currentProcess ≠ 0) : AtStub p (calledCpu (s.userByte s.pc.currentProcess)) s := by
  obtain ⟨hparams, -⟩ := stubs_params p hp
  have hsp : (calledCpu (s.userByte s.pc.currentProcess)).reg .rsp = 0x5ffff8 :=
    startCpu.set_self .rsp 0x5ffff8
  have hset : 0x5ffff8 < 2 ^ 64 := by decide
  have hwf : (calledCpu (s.userByte s.pc.currentProcess)).Wf := (startCpu_user.wf.set hset _).withMem _
  exact ⟨⟨hwf, rfl, rfl⟩, hk, hc, fun _ _ => rfl, by omega, by omega⟩

/-- The first program, about to run a function. -/
theorem first_call {p : Stub} (hp : p ∈ stubs) : ∃ pool free s c, 7 ≤ free.length ∧
    At image (machineMem 20 []) Confined pool free userSched noHandles s ∧ AtStub p c s := by
  obtain ⟨pool, free, s, hfree, h⟩ := first_program
  have hk : s.current.kont = .user := h.whole.kont.trans (by decide)
  have hc : s.pc.currentProcess = 1 := h.whole.rep.current
  exact ⟨pool, free, s, _, hfree, h, calledCpu_at hp hk (by rw [hc]; decide)⟩

/-- A function without arguments stores nothing. -/
theorem AtStub.calls_none {pool free : List Nat} {a : Sched} {S : Handles} {p : Stub} {c : Cpu}
    {s : Kernel} (hat : AtStub p c s) (hp : p ∈ stubs) (h0 : p.params = 0)
    (h : Whole K pool free a S s) : ∃ s₂, p.Calls K c 0 s s s₂ := by
  have hlow := hat.low
  have hzero : 0 < 2 ^ 64 := by decide
  refine hat.calls hp hzero h .refl rfl fun va hva => ?_
  exact ((enter_passes hp hat.user.wf (by omega) 0).mem va (by omega)).trans (hat.page va hva)

section Runs

variable {m : Mem} {r : Ram} {pool : List Nat} {s₀ s s₁ s₂ s₃ : Kernel} {c : Cpu} {after : Nat}

/-- A call of a function of syscall.asm is a call of the kernel with the same arguments. -/
theorem run_passes (hbios : BiosOk m) (hinit : initMemory K (bootKernel m).ram = .ok () r)
    (hpool : FreeList K r pool) (h₀ : kMain K (bootKernel m) = .ok () s₀) (h : Run K Confined s₀ s)
    {p : Stub} (hp : p ∈ stubs) (hat : AtStub p c s) (hafter : after < 2 ^ 64) :
    ∃ s₁ s₂, p.Calls K c after s s₁ s₂ := by
  obtain ⟨free₀, hw₀⟩ := boot_whole hbios hinit hpool h₀
  obtain ⟨free, a, S, hw⟩ := run_whole hw₀ (fun _ _ hconf => hconf) h
  exact stub_calls hw hp hat hafter

/-- The first program calls `writeu`. -/
theorem run_passes_write : ∃ s c s₁ s₂, Reached image (machineMem 20 []) Confined s ∧
    AtStub .writeu c s ∧ Stub.writeu.Calls image c 0 s s₁ s₂ := by
  obtain ⟨pool, free, s, c, -, h, hat⟩ := first_call (p := .writeu) (by decide)
  obtain ⟨s₀, h₀, hrun⟩ := h.reached
  obtain ⟨r₀, pool', hinit, hfl, -⟩ := machine_pool (n := 20) (by decide) []
  have hzero : 0 < 2 ^ 64 := by decide
  obtain ⟨s₁, s₂, hcalls⟩ :=
    run_passes (machine_bios (by decide)) hinit hfl h₀ hrun (by decide) hat hzero
  exact ⟨s, c, s₁, s₂, ⟨s₀, h₀, hrun⟩, hat, hcalls⟩

/-- When the caller runs again, the call has answered. -/
theorem run_answers (hbios : BiosOk m) (hinit : initMemory K (bootKernel m).ram = .ok () r)
    (hpool : FreeList K r pool) (h₀ : kMain K (bootKernel m) = .ok () s₀) (h : Run K Confined s₀ s)
    {p : Stub} (hp : p ∈ stubs) (hexit : p ≠ .exitu) (hexec : p ≠ .exec) (hat : AtStub p c s)
    (hcalls : p.Calls K c after s s₁ s₂) (hconf : Confined s₁ (.syscall (p.frame c after)))
    (hrun : step K (.syscall (p.frame c after)) s₁ = .ok () s₃) {s₄ : Kernel}
    (hinside : RunsInside K s.pc.currentProcess s₃ s₄)
    (hcur : s₄.pc.currentProcess = s.pc.currentProcess) (hk : s₄.current.kont = .user) :
    ∃ v, p.GoesOn c v s₄ ∧ ∀ v' s', callOn K p.number (c.reg .rdi) (c.reg .rsi) (c.reg .rdx) s₂ =
      .ok (some v') s' → s₄ = s₃ ∧ v = v' := by
  obtain ⟨free₀, hw₀⟩ := boot_whole hbios hinit hpool h₀
  obtain ⟨free, a, S, hw⟩ := run_whole hw₀ (fun _ _ hconf => hconf) h
  exact answers_goesOn hw hp hat hcalls hconf hexit hexec hrun hinside hcur hk

/-- The first program asks for the size of memory, and has the answer at once. -/
theorem total_step {pool free : List Nat} {s s₂ : Kernel} (hat : AtStub .getTotalMemoryu c s)
    (h : Whole image pool free userSched noHandles s)
    (hcalls : Stub.getTotalMemoryu.Calls image c 0 s s s₂) :
    ∃ s₃, step image (.syscall (Stub.getTotalMemoryu.frame c 0)) s = .ok () s₃ ∧
      s₃.pc.currentProcess = s.pc.currentProcess ∧ s₃.current.kont = .user := by
  obtain ⟨h₂, -, -⟩ := pushFrame_after h hcalls.push
  obtain ⟨s₃, hset, -, hsame, -⟩ := h₂.answer (by decide) rfl (i32 (getTotalMemory s₂.ram))
  have htotal : sysGetTotalMemory s₂ = .ok (some (i32 (getTotalMemory s₂.ram))) s₂ := by
    unfold sysGetTotalMemory
    exact bind_run (get_run s₂)
  have hon : ∀ x y z, callOn image Stub.getTotalMemoryu.number x y z = sysGetTotalMemory :=
    fun _ _ _ => rfl
  have hsame₃ : s₃ = { s with ram := s₃.ram } := by
    rw [hcalls.same] at hsame
    exact hsame
  refine ⟨s₃, ?_, by rw [hsame₃], by rw [hsame₃]; exact hat.kont⟩
  rw [hcalls.run, hon]
  exact (bind_run htotal).trans hset

/-- The first program sleeps for a key, the idle process sees it come, and the program goes on. -/
theorem key_comes {pool free : List Nat} {S : Handles} {s : Kernel}
    (h : Whole image pool free (userSched.sleep (-2) (.readingKey 0)) S s) :
    ∃ s', RunsInside image 1 s s' ∧ s'.pc.currentProcess = 1 ∧ s'.current.kont = .user := by
  have idle : ∀ {a : Sched} {s : Kernel}, Whole image pool free a S s → a.current = 0 →
      s.pc.currentProcess = 1 → s.current.kont ≠ .user := by
    intro a s h h0 h1
    rw [h.rep.current, h0] at h1
    cases h1
  have resumes : ∀ {a : Sched} {s : Kernel}, Whole image pool free a S s →
      a.kont a.current ≠ .user → Enabled s .resume := by
    intro a s h hk
    change s.current.kont ≠ .user
    rwa [h.kont]
  obtain ⟨s₁, hs₁, h₁, -⟩ := back_move h (by decide)
  have hrun₁ : RunsInside image 1 s s₁ :=
    Run.refl.step (resumes h (by decide)) ⟨trivial, idle h (by decide)⟩ hs₁
  obtain ⟨s₂, ch, hch, hrun₂, h₂⟩ := digit_move hrun₁ h₁ (by decide) fun _ _ _ ht =>
    ⟨trivial, idle ht (by decide)⟩
  have hcur₂ : (((userSched.sleep (-2) (.readingKey 0)).runOn.acceptKey ch).wake (-2)).current = 0 := by
    rcases hch with rfl | rfl <;> decide
  obtain ⟨s₃, hs₃, h₃, -⟩ := timer_move h₂ (irqFrame 32)
  have he₂ : Enabled s₂ (.timer (irqFrame 32)) :=
    ⟨h₂.kont.trans (by rcases hch with rfl | rfl <;> decide), irqFrame_ofUser (by decide)⟩
  have hrun₃ : RunsInside image 1 s s₃ := hrun₂.step he₂ ⟨trivial, idle h₂ hcur₂⟩ hs₃
  have hkont : (((((userSched.sleep (-2) (.readingKey 0)).runOn.acceptKey ch).wake (-2)).wake
      (-1)).yield.kont 1) = .readingKey 0 := by
    rcases hch with rfl | rfl <;> decide
  have hcur₃ : (((((userSched.sleep (-2) (.readingKey 0)).runOn.acceptKey ch).wake (-2)).wake
      (-1)).yield.current) = 1 := by
    rcases hch with rfl | rfl <;> decide
  rw [← hcur₃] at hkont
  have hreads : s₃.current.kont = .readingKey 0 := h₃.kont.trans hkont
  obtain ⟨s₄, hs₄, h₄⟩ := take_move h₃ hkont
  have hrun₄ : RunsInside image 1 s s₄ :=
    hrun₃.step (resumes h₃ (by rcases hch with rfl | rfl <;> decide))
      ⟨trivial, fun _ => by rw [hreads]; exact nofun⟩ hs₄
  refine ⟨s₄, hrun₄, ?_, ?_⟩
  · rw [h₄.rep.current]
    rcases hch with rfl | rfl <;> decide
  · rw [h₄.kont]
    rcases hch with rfl | rfl <;> decide

/-- The first program asks for the size of memory, and has the answer at once; and it asks for a
    key, sleeps, and has the answer when the key has come. -/
theorem run_answers_first :
    (∃ s c s₂ s₃ v, Reached image (machineMem 20 []) Confined s ∧
      Stub.getTotalMemoryu.Calls image c 0 s s s₂ ∧
      step image (.syscall (Stub.getTotalMemoryu.frame c 0)) s = .ok () s₃ ∧
      Stub.getTotalMemoryu.GoesOn c v s₃) ∧
    ∃ s c s₂ s₃ s₄ v, Reached image (machineMem 20 []) Confined s ∧
      Stub.keyboardReadu.Calls image c 0 s s s₂ ∧
      step image (.syscall (Stub.keyboardReadu.frame c 0)) s = .ok () s₃ ∧
      s₃.pc.currentProcess ≠ s.pc.currentProcess ∧ Stub.keyboardReadu.GoesOn c v s₄ := by
  obtain ⟨r₀, pool', hinit, hfl, -⟩ := machine_pool (n := 20) (by decide) []
  refine ⟨?_, ?_⟩
  · have hp : Stub.getTotalMemoryu ∈ stubs := by decide
    obtain ⟨pool, free, s, c, -, h, hat⟩ := first_call hp
    obtain ⟨s₀, h₀, hrun⟩ := h.reached
    obtain ⟨s₂, hcalls⟩ := hat.calls_none hp rfl h.whole
    obtain ⟨s₃, hstep, hcur, hk⟩ := total_step hat h.whole hcalls
    have hconf := hat.confined hp (by unfold Fills; decide) 0 s
    obtain ⟨v, hv, -⟩ := run_answers (machine_bios (by decide)) hinit hfl h₀ hrun hp (by decide)
      (by decide) hat hcalls hconf hstep .refl hcur hk
    exact ⟨s, c, s₂, s₃, v, ⟨s₀, h₀, hrun⟩, hcalls, hstep, hv⟩
  · have hp : Stub.keyboardReadu ∈ stubs := by decide
    obtain ⟨pool, free, s, c, -, h, hat⟩ := first_call hp
    obtain ⟨s₀, h₀, hrun⟩ := h.reached
    obtain ⟨s₂, hcalls⟩ := hat.calls_none hp rfl h.whole
    obtain ⟨hrax, hrdi, -⟩ := frame_registers hp hat 0
    have hcur : s.pc.currentProcess = 1 := h.whole.rep.current
    obtain ⟨s₃, hstep, h₃⟩ := read_move h.whole (by decide) hcalls.enabled.2.2
      (by rw [hrdi]; decide) hrax (by decide) (by decide)
    have hconf := hat.confined hp (by unfold Fills; decide) 0 s
    obtain ⟨s₄, hinside, hcur₄, hk₄⟩ := key_comes h₃
    rw [← hcur] at hinside hcur₄
    obtain ⟨v, hv, -⟩ := run_answers (machine_bios (by decide)) hinit hfl h₀ hrun hp (by decide)
      (by decide) hat hcalls hconf hstep hinside hcur₄ hk₄
    refine ⟨s, c, s₂, s₃, s₄, v, ⟨s₀, h₀, hrun⟩, hcalls, hstep, ?_, hv⟩
    rw [h₃.rep.current, hcur]
    decide

/-- `fork` returns in the parent with the number of the child, and in the child with 0. -/
theorem run_forks (hbios : BiosOk m) (hinit : initMemory K (bootKernel m).ram = .ok () r)
    (hpool : FreeList K r pool) (h₀ : kMain K (bootKernel m) = .ok () s₀) (h : Run K Confined s₀ s)
    (hat : AtStub .fork c s) (hcalls : Stub.fork.Calls K c after s s₁ s₂)
    (hrun : step K (.syscall (Stub.fork.frame c after)) s₁ = .ok () s₃) :
    ∃ i, (s.processTable i).state = .unused ∧ (s₃.processTable i).pid = s.pidNum ∧
      s₃.pc.currentProcess = s.pc.currentProcess ∧ Stub.fork.GoesOn c s.pidNum s₃ ∧
        ∀ s₄, RunsWithout K i s₃ s₄ → s₄.pc.currentProcess = i →
          ∃ s₅, step K .resume s₄ = .ok () s₅ ∧ s₅.pc.currentProcess = i ∧ Stub.fork.GoesOn c 0 s₅ := by
  obtain ⟨free₀, hw₀⟩ := boot_whole hbios hinit hpool h₀
  obtain ⟨free, a, S, hw⟩ := run_whole hw₀ (fun _ _ hconf => hconf) h
  obtain ⟨free₁, a₁, S₁, h₁⟩ := hcalls.stores.whole hw
  have hp : Stub.fork ∈ stubs := by decide
  obtain ⟨hrax, hrdi, -⟩ := frame_registers hp hat after
  obtain ⟨i, hdup⟩ := fork_duplicates h₁ hcalls.enabled (by rw [hrdi]; decide) hrax hrun
  have hconf := hat.confined hp (by unfold Fills; decide) after s₁
  obtain ⟨free₃, a₃, S₃, h₃, -⟩ := step_whole h₁ hcalls.enabled hconf hrun
  have hsame := hcalls.stored h₁
  have hcur : s₁.pc.currentProcess = s.pc.currentProcess := by rw [hsame]
  have hnum : s₁.pidNum = s.pidNum := by rw [hsame]
  have hpage : ∀ va, InUser va →
      s₁.userByte s₁.pc.currentProcess va = (Stub.fork.enter c after).mem va :=
    fun va hva => (hcalls.program va hva).symm
  have hi : i ≠ 0 := h₁.sane.unused_ne ((h₁.rep.state i).symm.trans hdup.unused)
  refine ⟨i, ?_, hnum ▸ hdup.pid, hdup.parent.current.trans hcur, ?_, fun s₄ hwithout hback => ?_⟩
  · have hu := hdup.unused
    rw [hsame] at hu
    exact hu
  · rw [← hnum]
    exact hdup.parent.goesOn hp hat h₃ (hcur ▸ hat.program) hpage
  · obtain ⟨honly, s₅, hresume, hcont⟩ := hdup.starts s₄ hwithout hback
    obtain ⟨free₄, a₄, S₄, h₄⟩ := run_whole h₃ (fun _ _ hok => hok.1) hwithout
    have he : Enabled s₄ .resume := fun hk =>
      nomatch honly (.timer (irqFrame 32)) ⟨hk, irqFrame_ofUser (by decide)⟩
    obtain ⟨_, _, _, h₅, -⟩ := step_whole h₄ he trivial hresume
    exact ⟨s₅, hresume, hcont.current, hcont.goesOn (v := 0) hp hat h₅ hi hpage⟩

/-- The first program forks. -/
theorem run_forks_first : ∃ s c s₁ s₂ s₃ i, Reached image (machineMem 20 []) Confined s ∧
    Stub.fork.Calls image c 0 s s₁ s₂ ∧
      step image (.syscall (Stub.fork.frame c 0)) s₁ = .ok () s₃ ∧
        (s.processTable i).state = .unused ∧ (s₃.processTable i).pid = s.pidNum ∧
          Stub.fork.GoesOn c s.pidNum s₃ := by
  have hp : Stub.fork ∈ stubs := by decide
  obtain ⟨pool, free, s, c, hfree, h, hat⟩ := first_call hp
  obtain ⟨s₀, h₀, hrun⟩ := h.reached
  obtain ⟨r₀, pool', hinit, hfl, -⟩ := machine_pool (n := 20) (by decide) []
  obtain ⟨s₂, hcalls⟩ := hat.calls_none hp rfl h.whole
  obtain ⟨hrax, hrdi, -⟩ := frame_registers hp hat 0
  obtain ⟨s₃, free', S', hstep, -⟩ := fork_move (i := 2) h.whole (by decide) hcalls.enabled.2.2
    (by rw [hrdi]; decide) hrax hfree (by decide)
  obtain ⟨i, hi, hpid, -, hv, -⟩ :=
    run_forks (machine_bios (by decide)) hinit hfl h₀ hrun hat hcalls hstep
  exact ⟨s, c, s, s₂, s₃, i, ⟨s₀, h₀, hrun⟩, hcalls, hstep, hi, hpid, hv⟩

end Runs

end Os64
