/-
  trap.asm: the way into the kernel, the way out, and `swap`.

  * `vectorCode n`, `trapCode`, `trapReturnCode`, `swapCode`: the instructions of the file.
  * `enter_frame`: the entry through a vector leaves the interrupted registers on the stack, as the
    `TrapFrame` that `handler` is given.
  * `leave_frame`: `TrapReturn` loads every register from the frame at the stack pointer.
-/
import Os64.Lib.Cpu
import Os64.Mem.Frames

namespace Os64

open Os64.Lib

/-- The vectors that the file has code for. -/
def vectors : List Nat :=
  [0, 1, 2, 3, 4, 5, 6, 7, 8, 10, 11, 12, 13, 14, 16, 17, 18, 19, 32, 33, 39, 0x80]

theorem vectors_lt : ∀ n ∈ vectors, n < 256 := by decide

/-- The vectors whose exceptions push an error code. -/
def pushesError (n : Nat) : Prop := n ∈ [8, 10, 11, 12, 13, 14, 17]

instance (n : Nat) : Decidable (pushesError n) := inferInstanceAs (Decidable (_ ∈ _))

/-- `vector0` to `vector39` and `sysint`, up to their jump to `Trap`. -/
def vectorCode (n : Nat) : List Instr :=
  if pushesError n then [.pushImm n] else [.pushImm 0, .pushImm n]

/-- `Trap`, with the addresses of `handler` and of `TrapReturn`, which comes after the call. -/
def trapCode (handler trapReturn : Nat) : List Instr :=
  [.push .rax, .push .rbx, .push .rcx, .push .rdx, .push .rsi, .push .rdi, .push .rbp, .push .r8,
    .push .r9, .push .r10, .push .r11, .push .r12, .push .r13, .push .r14, .push .r15,
    .mov .rdi .rsp, .call handler trapReturn]

def trapReturnCode : List Instr :=
  [.pop .r15, .pop .r14, .pop .r13, .pop .r12, .pop .r11, .pop .r10, .pop .r9, .pop .r8, .pop .rbp,
    .pop .rdi, .pop .rsi, .pop .rdx, .pop .rcx, .pop .rbx, .pop .rax, .add .rsp 16, .iretq]

def swapCode : List Instr :=
  [.push .rbx, .push .rbp, .push .r12, .push .r13, .push .r14, .push .r15, .store .rdi 0 .rsp,
    .mov .rsp .rsi, .pop .r15, .pop .r14, .pop .r13, .pop .r12, .pop .rbp, .pop .rbx, .ret]

/-- The registers that `Trap` pushes, in its order. -/
def trapRegs : List Reg :=
  [.rax, .rbx, .rcx, .rdx, .rsi, .rdi, .rbp, .r8, .r9, .r10, .r11, .r12, .r13, .r14, .r15]

/-- The registers that a C function keeps, in the order of `swap`. -/
def keptRegs : List Reg := [.rbx, .rbp, .r12, .r13, .r14, .r15]

theorem trapCode_eq (handler trapReturn : Nat) : trapCode handler trapReturn =
    trapRegs.map .push ++ [.mov .rdi .rsp, .call handler trapReturn] := rfl

theorem trapReturnCode_eq :
    trapReturnCode = trapRegs.reverse.map .pop ++ [.add .rsp 16, .iretq] := rfl

theorem swapCode_eq : swapCode = switchCode keptRegs := rfl

/-! ## The frame -/

/-- The registers of a frame. -/
def TrapFrame.reg (f : TrapFrame) : Reg → Nat
  | .rax => f.rax
  | .rbx => f.rbx
  | .rcx => f.rcx
  | .rdx => f.rdx
  | .rsi => f.rsi
  | .rdi => f.rdi
  | .rbp => f.rbp
  | .rsp => f.rsp
  | .r8 => f.r8
  | .r9 => f.r9
  | .r10 => f.r10
  | .r11 => f.r11
  | .r12 => f.r12
  | .r13 => f.r13
  | .r14 => f.r14
  | .r15 => f.r15

/-- The frame of a processor that is interrupted. -/
def cpuFrame (c : Cpu) (trapno errorcode : Nat) : TrapFrame :=
  ⟨c.reg .r15, c.reg .r14, c.reg .r13, c.reg .r12, c.reg .r11, c.reg .r10, c.reg .r9, c.reg .r8,
    c.reg .rbp, c.reg .rdi, c.reg .rsi, c.reg .rdx, c.reg .rcx, c.reg .rbx, c.reg .rax, trapno,
    errorcode, c.rip, c.cs, c.rflags, c.reg .rsp, c.ss⟩

theorem cpuFrame_reg (c : Cpu) (n e : Nat) (r : Reg) : (cpuFrame c n e).reg r = c.reg r := by
  cases r <;> rfl

theorem cpuFrame_words (c : Cpu) (n e : Nat) : (cpuFrame c n e).words =
    trapRegs.reverse.map c.reg ++ ([n] ++ [e] ++ [c.rip, c.cs, c.rflags, c.reg .rsp, c.ss]) := rfl

/-- The frame in memory, by its words. -/
theorem holds_frame {m : Mem} {a : Nat} {f : TrapFrame} : Holds m a f.words ↔ frameAt m a = f := by
  rw [holds_iff]
  have hlen : f.words.length = 22 := rfl
  rw [hlen]
  constructor
  · intro h
    have hword : ∀ k < 22, load m (a + 8 * k) 8 = f.words.getD k 0 := h
    obtain ⟨r15, r14, r13, r12, r11, r10, r9, r8, rbp, rdi, rsi, rdx, rcx, rbx, rax, trapno,
      errorcode, rip, cs, rflags, rsp, ss⟩ := f
    unfold frameAt
    rw [TrapFrame.mk.injEq]
    exact ⟨hword 0 (by decide), hword 1 (by decide), hword 2 (by decide), hword 3 (by decide),
      hword 4 (by decide), hword 5 (by decide), hword 6 (by decide), hword 7 (by decide),
      hword 8 (by decide), hword 9 (by decide), hword 10 (by decide), hword 11 (by decide),
      hword 12 (by decide), hword 13 (by decide), hword 14 (by decide), hword 15 (by decide),
      hword 16 (by decide), hword 17 (by decide), hword 18 (by decide), hword 19 (by decide),
      hword 20 (by decide), hword 21 (by decide)⟩
  · rintro rfl k hk
    exact (frameAt_words m a hk).symm

/-! ## The way in -/

/-- The entry through vector `n`, up to the call of `handler`. -/
def enterKernel (c : Cpu) (base entry handler trapReturn n : Nat) (error : Option Nat) : Cpu :=
  runCode (vectorCode n ++ trapCode handler trapReturn) (c.interrupt base entry error)

/-- `handler` begins after an entry from `c`, on the stack that begins at `base`. -/
structure Entered (c c' : Cpu) (base n errorcode handler trapReturn : Nat) : Prop where
  frame : Holds c'.mem (base - trapFrameSize) (cpuFrame c n errorcode).words
  rdi : c'.reg .rdi = base - trapFrameSize
  rsp : c'.reg .rsp = base - trapFrameSize - 8
  top : c'.top = trapReturn
  rip : c'.rip = handler
  mem : ∀ x, x < base - trapFrameSize - 8 ∨ base ≤ x → c'.mem x = c.mem x

/-- The words below the interrupt's own: the error code, 0 where there is none, and the number. -/
theorem vector_pushed {b c : Cpu} {ws : List Nat} {n errorcode : Nat} {error : Option Nat}
    (hn : n < 2 ^ 64) (hlt : c.reg .rsp < 2 ^ 64) (hroom : 16 ≤ c.reg .rsp)
    (herr : error = if pushesError n then some errorcode else none)
    (h0 : ¬ pushesError n → errorcode = 0) (h : Pushed (error.toList ++ ws) b c) :
    Pushed ([n] ++ ([errorcode] ++ ws)) b (runCode (vectorCode n) c) := by
  by_cases hp : pushesError n
  · have hcode : vectorCode n = [.pushImm n] := if_pos hp
    rw [if_pos hp] at herr
    rw [herr] at h
    rw [hcode]
    exact h.trans (pushWord_pushed (v := n) (by omega) hlt hn)
  · have hcode : vectorCode n = [.pushImm 0, .pushImm n] := if_neg hp
    rw [if_neg hp] at herr
    rw [herr] at h
    have hzero := pushWord_pushed (c := c) (v := 0) (by omega) hlt (by decide)
    have hs := hzero.rsp
    rw [List.length_singleton] at hs
    rw [hcode, h0 hp]
    exact (h.trans hzero).trans (pushWord_pushed (v := n) (by omega) (by omega) hn)

theorem enter_frame {c : Cpu} (hc : c.Wf) {base entry handler trapReturn n errorcode : Nat}
    {error : Option Nat} (hroom : trapFrameSize + 8 ≤ base) (hlt : base < 2 ^ 64) (hn : n < 2 ^ 64)
    (hret : trapReturn < 2 ^ 64) (he : errorcode < 2 ^ 64)
    (herr : error = if pushesError n then some errorcode else none)
    (h0 : ¬ pushesError n → errorcode = 0) :
    Entered c (enterKernel c base entry handler trapReturn n error) base n errorcode handler
      trapReturn := by
  have hsize : trapFrameSize = 176 := rfl
  rw [hsize] at hroom
  have hbase : (c.set .rsp base).reg .rsp = base := c.set_self .rsp base
  have herr' : ∀ e, error = some e → e < 2 ^ 64 := by
    intro e hse
    rw [herr] at hse
    split at hse
    · exact Option.some.inj hse ▸ he
    · exact nomatch hse
  obtain ⟨c₀, hc₀⟩ : ∃ c₀, c.interrupt base entry error = c₀ := ⟨_, rfl⟩
  have h₀ : Pushed (c.interruptWords error) (c.set .rsp base) (c.interrupt base entry error) :=
    interrupt_pushed hc (by omega) hlt herr'
  rw [hc₀] at h₀
  have hr₀ := h₀.rsp
  have hlen : (c.interruptWords error).length ≤ 6 := by
    unfold Cpu.interruptWords
    rw [List.length_append]
    have hone : error.toList.length ≤ 1 := by
      cases error with
      | none => exact Nat.zero_le 1
      | some _ => exact Nat.le_refl 1
    exact Nat.add_le_add_right hone 5
  obtain ⟨c₁, hc₁⟩ : ∃ c₁, runCode (vectorCode n) c₀ = c₁ := ⟨_, rfl⟩
  have h₁ : Pushed ([n] ++ ([errorcode] ++ [c.rip, c.cs, c.rflags, c.reg .rsp, c.ss]))
      (c.set .rsp base) c₁ := by
    rw [← hc₁]
    exact vector_pushed hn (by omega) (by omega) herr h0 h₀
  have hr₁ := h₁.rsp
  rw [hbase] at hr₁
  have hr₁ : c₁.reg .rsp = base - 8 * 7 := hr₁
  have hsame : ∀ r ∈ trapRegs, c₁.reg r = c.reg r := by
    intro r hr
    have hne : r ≠ .rsp := by
      rintro rfl
      exact absurd hr (by decide)
    exact (h₁.reg r hne).trans (c.set_other hne base)
  obtain ⟨c₂, hc₂⟩ : ∃ c₂, runCode (trapRegs.map .push) c₁ = c₂ := ⟨_, rfl⟩
  have hlen : trapRegs.length = 15 := rfl
  have h₂ : Pushed (cpuFrame c n errorcode).words (c.set .rsp base) c₂ := by
    have hpush : Pushed (trapRegs.reverse.map c₁.reg) c₁ (runCode (trapRegs.map .push) c₁) :=
      runCode_pushes (by decide) (by omega) (by omega) fun r hr => by
        rw [hsame r hr]
        exact hc.reg r
    have hmap : trapRegs.reverse.map c₁.reg = trapRegs.reverse.map c.reg :=
      List.map_congr_left fun r hr => hsame r (List.mem_reverse.mp hr)
    rw [hmap, hc₂] at hpush
    exact h₁.trans hpush
  have hr₂ : c₂.reg .rsp = base - 176 := by
    rw [h₂.rsp, hbase]
    rfl
  obtain ⟨c₃, hc₃⟩ : ∃ c₃, c₂.set .rdi (c₂.reg .rsp) = c₃ := ⟨_, rfl⟩
  have hr₃ : c₃.reg .rsp = base - 176 := by
    rw [← hc₃, c₂.set_other (by decide), hr₂]
  have hm₃ : c₃.mem = c₂.mem := by
    rw [← hc₃]
    rfl
  have h₄ := pushWord_pushed (c := c₃) (v := trapReturn) (by omega) (by omega) hret
  have hr₄ := h₄.rsp
  rw [hr₃, List.length_singleton] at hr₄
  have hrun : enterKernel c base entry handler trapReturn n error =
      { c₃.pushWord trapReturn with rip := handler } := by
    unfold enterKernel
    rw [runCode_append, hc₀, hc₁, trapCode_eq, runCode_append, hc₂, ← hc₃]
    rfl
  have hframe : Holds c₂.mem (base - 176) (cpuFrame c n errorcode).words := by
    have hholds := h₂.holds
    rw [hbase] at hholds
    exact hholds
  rw [hrun]
  refine ⟨?_, ?_, hr₄, ?_, rfl, fun x hx => ?_⟩
  · refine hframe.congr fun x h1 h2 => ?_
    change (c₃.pushWord trapReturn).mem x = c₂.mem x
    rw [h₄.mem x (Or.inr (by omega)), hm₃]
  · change (c₃.pushWord trapReturn).reg .rdi = _
    rw [h₄.reg _ (by decide), ← hc₃, c₂.set_self, hr₂, hsize]
  · change load (c₃.pushWord trapReturn).mem ((c₃.pushWord trapReturn).reg .rsp) 8 = _
    have htop := h₄.holds.1
    rw [hr₃, List.length_singleton] at htop
    rw [hr₄]
    exact htop
  · change (c₃.pushWord trapReturn).mem x = _
    rw [hsize] at hx
    have hmem := h₂.mem x
    rw [hbase] at hmem
    rw [h₄.mem x (by rw [hr₃, List.length_singleton]; omega), hm₃, hmem (by
      rw [show (cpuFrame c n errorcode).words.length = 22 from rfl]
      omega)]
    rfl

theorem enterKernel_wf {c : Cpu} (hc : c.Wf) {base entry handler trapReturn n : Nat}
    (hbase : base < 2 ^ 64) (hentry : entry < 2 ^ 64) (hhandler : handler < 2 ^ 64)
    (hret : trapReturn < 2 ^ 64) (hn : n < 2 ^ 64) (error : Option Nat) :
    (enterKernel c base entry handler trapReturn n error).Wf := by
  refine runCode_wf (fun i hi => ?_) (interrupt_wf hc hbase hentry error)
  rcases List.mem_append.mp hi with hv | ht
  · unfold vectorCode at hv
    have hzero : 0 < 2 ^ 64 := by decide
    split at hv
    · rw [List.mem_singleton.mp hv]
      exact hn
    · rcases List.mem_cons.mp hv with he | hv
      · rw [he]
        exact hzero
      · rw [List.mem_singleton.mp hv]
        exact hn
  · rw [trapCode_eq] at ht
    rcases List.mem_append.mp ht with hp | hc
    · obtain ⟨r, -, rfl⟩ := List.mem_map.mp hp
      trivial
    · rcases List.mem_cons.mp hc with he | hc
      · rw [he]
        trivial
      · rw [List.mem_singleton.mp hc]
        exact ⟨hhandler, hret⟩

/-! ## The way out -/

/-- After `TrapReturn` with the frame `f`. -/
structure Left (f : TrapFrame) (c c' : Cpu) : Prop where
  reg : ∀ r, c'.reg r = f.reg r
  rip : c'.rip = f.rip
  cs : c'.cs = f.cs
  rflags : c'.rflags = f.rflags
  ss : c'.ss = f.ss
  mem : c'.mem = c.mem

theorem frame_words (f : TrapFrame) : f.words =
    trapRegs.reverse.map f.reg ++ [f.trapno, f.errorcode, f.rip, f.cs, f.rflags, f.rsp, f.ss] := rfl

theorem leave_frame {c : Cpu} {f : TrapFrame} (hroom : c.reg .rsp + trapFrameSize < 2 ^ 64)
    (h : Holds c.mem (c.reg .rsp) f.words) : Left f c (runCode trapReturnCode c) := by
  have hsize : trapFrameSize = 176 := rfl
  rw [hsize] at hroom
  have hword : ∀ k < 22, load c.mem (c.reg .rsp + 8 * k) 8 = f.words.getD k 0 := fun k hk => h.get hk
  rw [frame_words] at h
  obtain ⟨hregs, -⟩ := holds_append.mp h
  have hlen : trapRegs.reverse.length = 15 := rfl
  have hpops : runCode (trapRegs.reverse.map .pop) c = loaded trapRegs.reverse f.reg c :=
    runCode_pops (by decide) (by omega) hregs
  obtain ⟨c₁, hc₁⟩ : ∃ c₁, loaded trapRegs.reverse f.reg c = c₁ := ⟨_, rfl⟩
  rw [hc₁] at hpops
  have hr₁ : c₁.reg .rsp = c.reg .rsp + 120 := by
    rw [← hc₁]
    rfl
  have hreg₁ : ∀ r, r ≠ .rsp → c₁.reg r = f.reg r := by
    intro r hr
    have hm : r ∈ trapRegs.reverse := by
      cases r <;> first | exact absurd rfl hr | decide
    rw [← hc₁]
    exact if_pos hm
  have hm₁ : c₁.mem = c.mem := by
    rw [← hc₁]
    rfl
  obtain ⟨c₂, hc₂⟩ : ∃ c₂, c₁.set .rsp (word (c₁.reg .rsp + 16)) = c₂ := ⟨_, rfl⟩
  have hr₂ : c₂.reg .rsp = c.reg .rsp + 136 := by
    rw [← hc₂, c₁.set_self, hr₁]
    exact word_of_lt (by omega)
  have hm₂ : c₂.mem = c.mem := by
    rw [← hc₂]
    exact hm₁
  have hrun : runCode trapReturnCode c = Instr.run c₂ .iretq := by
    rw [trapReturnCode_eq, runCode_append, hpops, ← hc₂]
    rfl
  rw [hrun]
  refine ⟨fun r => ?_, ?_, ?_, ?_, ?_, hm₂⟩
  · have hreg : (Instr.run c₂ .iretq).reg = (c₂.set .rsp (load c₂.mem (c₂.reg .rsp + 24) 8)).reg := rfl
    rw [hreg]
    by_cases hr : r = .rsp
    · rw [hr, c₂.set_self, hr₂, hm₂]
      exact hword 20 (by decide)
    · rw [c₂.set_other hr, ← hc₂, c₁.set_other hr, hreg₁ r hr]
  · change load c₂.mem (c₂.reg .rsp) 8 = _
    rw [hr₂, hm₂]
    exact hword 17 (by decide)
  · change load c₂.mem (c₂.reg .rsp + 8) 8 = _
    rw [hr₂, hm₂]
    exact hword 18 (by decide)
  · change load c₂.mem (c₂.reg .rsp + 16) 8 = _
    rw [hr₂, hm₂]
    exact hword 19 (by decide)
  · change load c₂.mem (c₂.reg .rsp + 32) 8 = _
    rw [hr₂, hm₂]
    exact hword 21 (by decide)

theorem trapReturnCode_fits : ∀ i ∈ trapReturnCode, i.Fits := by decide

theorem swapCode_fits : ∀ i ∈ swapCode, i.Fits := by decide

end Os64
