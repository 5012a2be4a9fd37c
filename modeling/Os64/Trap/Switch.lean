/-
  Processes on one processor: traps, handlers and `swap`, in any order.

  A `Machine` is the processor with the two registers that `switch_process` loads and the fields of
  the process table that it reads. `saved i` and `inside i` are ghosts: what process `i` goes on with
  when `swap` returns to it, and the frame of the trap that it is in, with its address. `Step` runs
  the code of trap.asm on the processor; in between, programs and C code do anything but write where
  they must not: a program to no kernel memory, C code to no waiting process's stack or `context`
  field, and to its own stack only below the frame.

  The gates are interrupt gates, so nothing interrupts a handler; an exception in it ends in the
  endless loop of `handler`. `Runs` are any steps in a row.
-/
import Os64.Trap.Asm
import Os64.Sys.Exec

namespace Os64

open Os64.Lib

/-- What a process goes on with after `swap`. -/
structure Saved where
  reg : Reg → Nat
  rip : Nat
  rsp : Nat

/-- Where the linker put `process_table[i].context`, `handler` and `TrapReturn`, which process is the
    idle one, and its stack, that kernel.asm sets. -/
structure Labels (ι : Type) where
  context : ι → Nat
  handler : Nat
  trapReturn : Nat
  idle : ι
  bootBottom : Nat
  bootTop : Nat
  handler_lt : handler < 2 ^ 64
  trapReturn_lt : trapReturn < 2 ^ 64
  context_lt : ∀ i, kernelBase ≤ context i ∧ context i + 8 ≤ 2 ^ 64
  context_apart : ∀ i j, i ≠ j → context i + 8 ≤ context j ∨ context j + 8 ≤ context i
  boot_lt : kernelBase ≤ bootBottom ∧ bootTop < 2 ^ 64
  boot_apart : ∀ i, context i + 8 ≤ bootBottom ∨ bootTop ≤ context i

structure Machine (ι : Type) where
  cpu : Cpu
  rsp0 : Nat
  cr3 : Nat
  current : ι
  stack : ι → Nat
  pageMap : ι → Nat
  saved : ι → Option Saved
  inside : ι → Option (Nat × TrapFrame)

inductive Act (ι : Type) where
  /-- The program of the current process runs. -/
  | program
  /-- Process `i` is interrupted through vector `n`. -/
  | trap (i : ι) (n : Nat)
  /-- C code of the kernel runs for the current process. -/
  | handler
  /-- The kernel writes the frame of `i`. -/
  | answer (i : ι) (g : TrapFrame)
  /-- `switch_process` to `j`. -/
  | switch (j : ι)
  /-- Process `i` returns from its trap. -/
  | leave (i : ι)
  /-- `alloc_new_process` makes `j`. -/
  | create (j : ι)
  /-- `wait` clears `j`. -/
  | reap (j : ι)
  deriving DecidableEq, Repr

namespace Machine

variable {ι : Type} [DecidableEq ι] (L : Labels ι)

/-- The stack of a process in the kernel. -/
def bottom (m : Machine ι) (i : ι) : Nat := if i = L.idle then L.bootBottom else m.stack i
def top (m : Machine ι) (i : ι) : Nat := if i = L.idle then L.bootTop else m.stack i + stackSize

/-- A process that runs or waits in `swap`. -/
def Live (m : Machine ι) (i : ι) : Prop := i = m.current ∨ m.saved i ≠ none

/-- The bytes of a process that waits. -/
def Owns (m : Machine ι) (i : ι) (x : Nat) : Prop :=
  m.bottom L i ≤ x ∧ x < m.top L i ∨ L.context i ≤ x ∧ x < L.context i + 8

/-- No byte of a waiting process is written. -/
def Keeps (m : Machine ι) (mem : Mem) : Prop :=
  ∀ i, m.saved i ≠ none → ∀ x, m.Owns L i x → mem x = m.cpu.mem x

/-- Where the processor begins to push: from ring 3 at `Tss.rsp0`, else at the stack pointer,
    aligned. -/
def base (m : Machine ι) : Nat :=
  if m.cpu.cs % 4 = 3 then m.rsp0 else m.cpu.reg .rsp / 16 * 16

/-- An interrupt through vector `n`. -/
def trapped (m : Machine ι) (n errorcode entry : Nat) : Machine ι :=
  { m with
    cpu := enterKernel m.cpu m.base entry L.handler L.trapReturn n
      (if pushesError n then some errorcode else none)
    inside := Function.update m.inside m.current
      (some (m.base - trapFrameSize, cpuFrame m.cpu n errorcode)) }

/-- The frame of `i`, at `a`, becomes `g`. -/
def answered (m : Machine ι) (i : ι) (a : Nat) (g : TrapFrame) : Machine ι :=
  { m with
    cpu := { m.cpu with mem := putWords m.cpu.mem a g.words }
    inside := Function.update m.inside i (some (a, g)) }

/-- `switch_process` to `j`; `mem` is memory under its page map. -/
def switched (m : Machine ι) (j : ι) (mem : Mem) : Machine ι :=
  { m with
    cpu := runCode swapCode { m.cpu with mem := mem }
    rsp0 := u64 (m.stack j + stackSize)
    cr3 := v2p (m.pageMap j)
    current := j
    saved := Function.update (Function.update m.saved m.current
      (some ⟨m.cpu.reg, m.cpu.top, m.cpu.reg .rsp + 8⟩)) j none }

/-- `TrapReturn`. -/
def returned (m : Machine ι) : Machine ι :=
  { m with
    cpu := runCode trapReturnCode m.cpu
    inside := Function.update m.inside m.current none }

/-- `alloc_new_process` makes `j`, with the stack page at `stack`. -/
def created (m : Machine ι) (j : ι) (stack pageMap : Nat) : Machine ι :=
  let tf := stack + stackSize - trapFrameSize
  { m with
    cpu := { m.cpu with
      mem := store (initialStack L.trapReturn (fill m.cpu.mem stack pageSize 0) (stack + stackSize))
        (L.context j) 8 (tf - 7 * 8) }
    stack := Function.update m.stack j stack
    pageMap := Function.update m.pageMap j pageMap
    saved := Function.update m.saved j (some ⟨fun _ => 0, L.trapReturn, tf⟩)
    inside := Function.update m.inside j (some (tf, entryTrap)) }

def reaped (m : Machine ι) (j : ι) : Machine ι :=
  { m with
    saved := Function.update m.saved j none
    inside := Function.update m.inside j none }

inductive Step : Machine ι → Act ι → Machine ι → Prop
  | program {m : Machine ι} (c : Cpu) : m.inside m.current = none → c.Wf →
      (∀ x, kernelBase ≤ x → c.mem x = m.cpu.mem x) → c.cs % 4 = m.cpu.cs % 4 →
      Step m .program { m with cpu := c }
  | trap {m : Machine ι} (n errorcode entry : Nat) : m.inside m.current = none → n ∈ vectors →
      errorcode < 2 ^ 64 → (¬ pushesError n → errorcode = 0) → entry < 2 ^ 64 →
      (m.cpu.cs % 4 ≠ 3 →
        m.bottom L m.current + trapFrameSize + 8 ≤ m.base ∧ m.base ≤ m.top L m.current) →
      Step m (.trap m.current n) (m.trapped L n errorcode entry)
  | handler {m : Machine ι} {a : Nat} {f : TrapFrame} (c : Cpu) :
      m.inside m.current = some (a, f) → c.Wf → m.Keeps L c.mem →
      (∀ x, a ≤ x → x < m.top L m.current → c.mem x = m.cpu.mem x) →
      Step m .handler { m with cpu := c }
  | answer {m : Machine ι} {i : ι} {a : Nat} {f : TrapFrame} (g : TrapFrame) : m.Live i →
      m.inside i = some (a, f) → (∀ w ∈ g.words, w < 2 ^ 64) → g.cs % 4 = f.cs % 4 →
      Step m (.answer i g) (m.answered i a g)
  -- addresses below the kernel show other memory under another page map
  | switch {m : Machine ι} {j : ι} {a : Nat} {f : TrapFrame} {sv : Saved} (mem : Mem) :
      m.inside m.current = some (a, f) → j ≠ m.current → m.saved j = some sv →
      (∀ x, kernelBase ≤ x → mem x = m.cpu.mem x) → m.cpu.reg .rdi = L.context m.current →
      m.cpu.reg .rsi = load mem (L.context j) 8 →
      m.bottom L m.current + 48 ≤ m.cpu.reg .rsp → m.cpu.reg .rsp + 8 ≤ a →
      Step m (.switch j) (m.switched j mem)
  | leave {m : Machine ι} {a : Nat} {f : TrapFrame} : m.inside m.current = some (a, f) →
      m.cpu.rip = L.trapReturn → m.cpu.reg .rsp = a → Step m (.leave m.current) m.returned
  | create {m : Machine ι} {j : ι} (stack pageMap : Nat) : ¬ m.Live j → j ≠ L.idle →
      kernelBase ≤ stack → stack + stackSize < 2 ^ 64 →
      (∀ i, m.Live i → m.top L i ≤ stack ∨ stack + stackSize ≤ m.bottom L i) →
      (∀ i, L.context i + 8 ≤ stack ∨ stack + stackSize ≤ L.context i) →
      Step m (.create j) (m.created L j stack pageMap)
  | reap {m : Machine ι} {j : ι} : j ≠ m.current → Step m (.reap j) (m.reaped j)

/-- Steps in a row. -/
inductive Runs : Machine ι → List (Act ι) → Machine ι → Prop
  | nil {m : Machine ι} : Runs m [] m
  | snoc {m m' m'' : Machine ι} {as : List (Act ι)} {a : Act ι} :
      Runs m as m' → Step L m' a m'' → Runs m (as ++ [a]) m''

end Machine

end Os64
