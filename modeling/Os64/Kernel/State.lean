/-
  The kernel's data: physical memory, the process table, the process control block
  and the two device buffers, as the C structures have them.

  What lives in pages handed out by `kalloc` (page tables, kernel stacks with their
  trap frames, user pages, `fcb_table`, `file_desc_table`) is bytes in `Ram.mem`,
  next to the allocator's own links. The kernel's static objects are fields of
  `Kernel`; a store through the page map to the bytes where the linker put them has no
  meaning here (`Kernel.Reserved`). Pointers into memory are 64-bit values; a pointer
  into `process_table` is a slot.

  A kernel activity that was switched away from is a `Kont`, the code it goes on
  with when `swap` returns to it; it stands for the saved stack that
  `Process.context` points at. `hist` is a history variable: nothing in the
  kernel reads it.
-/
import Os64.Lib.Bytes
import Os64.Lib.Exec
import Os64.Lib.Paging

namespace Os64

open Os64.Lib

/-! ## memory.h -/

def pageSize : Nat := 2 * 1024 * 1024

def kernelBase : Nat := 0xffff800000000000

/-- `0xffff800030000000`: the file system image begins here. -/
def memoryLimit : Nat := 0xffff800030000000

def pteP : Nat := 1
def pteW : Nat := 2
def pteU : Nat := 4
def pteEntry : Nat := 0x80

/-- Unsigned 64-bit and 32-bit arithmetic. -/
def u64 (n : Nat) : Nat := n % 2 ^ 64
def u32 (n : Nat) : Nat := n % 2 ^ 32

/-- The low 32 bits as an `int`. -/
def i32 (n : Nat) : Int := if n % 2 ^ 32 < 2 ^ 31 then (n % 2 ^ 32 : Nat) else (n % 2 ^ 32 : Nat) - 2 ^ 32

/-- An `int` converted to 64 bits. -/
def ofInt (i : Int) : Nat := (i % 2 ^ 64).toNat

def paUp (v : Nat) : Nat := u64 ((u64 (v + pageSize - 1) >>> 21) <<< 21)
def paDown (v : Nat) : Nat := (v >>> 21) <<< 21
def p2v (p : Nat) : Nat := u64 (p + kernelBase)
def v2p (v : Nat) : Nat := u64 (v + (2 ^ 64 - kernelBase))
def pdeAddr (p : Nat) : Nat := (p >>> 12) <<< 12
def pteAddr (p : Nat) : Nat := (p >>> 21) <<< 21

structure E820 where
  address : Nat
  length : Nat
  type : Nat
  deriving DecidableEq, Repr

structure FreeMemRegion where
  address : Nat
  length : Nat
  deriving DecidableEq, Repr

/-- What the linker decides: the `end` symbol (`link.lds` puts the image at
    `0xffff800000200000`) and the address of `TrapReturn`. -/
structure Image where
  kend : Nat
  trapReturn : Nat
  base_le : kernelBase + 0x200000 ≤ kend

/-- Why the kernel stops: an `ASSERT` of a file other than `process.c`, an exception
    at ring 0 (`handler` loops), a loop that never ends, or an access to which C gives
    no meaning (an array index outside the array, a store to `Kernel.Reserved` bytes).
    The compiled kernel goes on after such an access, with what its layout decides:
    nothing here speaks of it. -/
inductive Fault where
  | assertion (file : String) (line : Nat)
  | exception
  | divergence
  | undefined
  deriving DecidableEq, Repr

/-- Physical memory and the statics of `memory.c`; `freeMemory` is `free_memory.next`. -/
structure Ram where
  mem : Mem
  freeMemory : Nat
  totalMem : Nat
  freeMemRegion : List FreeMemRegion

/-- Programs over physical memory. -/
abbrev RamM := EStateM Fault Ram

/-! ## process.h, lib.h -/

def stackSize : Nat := 2 * 1024 * 1024

abbrev numProc : Nat := 20

instance numProc_ne : NeZero numProc := ⟨by decide⟩

/-- A pointer into `process_table`. -/
abbrev Slot := Fin numProc

inductive ProcState where
  | unused | init | running | ready | sleep | killed
  deriving DecidableEq, Repr

structure HeadList where
  next : Option Slot
  tail : Option Slot
  deriving DecidableEq, Repr

/-- Where a process continues: in user mode (the idle process: in the `hlt` loop of
    `kernel.asm`), at `TrapReturn`, after `sleep` in `sys_sleep`, `wait` and
    `read_key_buffer` with their local variables, or after the `schedule` of `exit`. -/
inductive Kont where
  | user
  | trapReturn
  | sleeping (oldTicks sleepTicks : Nat)
  | waiting (pid : Int)
  | readingKey (front : Nat)
  | exited
  deriving DecidableEq, Repr

structure Process where
  next : Option Slot
  pid : Int
  state : ProcState
  wait : Int
  file : Fin 100 → Nat
  pageMap : Nat
  stack : Nat
  tf : Nat
  kont : Kont

/-- `memset(process, 0, sizeof(struct Process))`. -/
def Process.zero : Process :=
  ⟨none, 0, .unused, 0, fun _ => 0, 0, 0, 0, .user⟩

structure ProcessControl where
  currentProcess : Slot
  readyList : HeadList
  waitList : HeadList
  killList : HeadList

/-- Which of the three lists of the control block. -/
inductive ListId where
  | ready | wait | kill
  deriving DecidableEq, Repr

def ProcessControl.list (pc : ProcessControl) : ListId → HeadList
  | .ready => pc.readyList
  | .wait => pc.waitList
  | .kill => pc.killList

def ProcessControl.setList (pc : ProcessControl) (q : ListId) (l : HeadList) : ProcessControl :=
  match q with
  | .ready => { pc with readyList := l }
  | .wait => { pc with waitList := l }
  | .kill => { pc with killList := l }

/-- `pid_num++` on a 32-bit `int`. -/
def nextPid (pid : Int) : Int := i32 (ofInt (pid + 1))

/-! ## keyboard.h -/

structure KeyboardBuffer where
  buffer : Nat → Nat
  front : Nat
  end_ : Nat
  size : Nat

/-! ## trap.h -/

/-- The saved user state, in memory order. -/
structure TrapFrame where
  r15 : Nat
  r14 : Nat
  r13 : Nat
  r12 : Nat
  r11 : Nat
  r10 : Nat
  r9 : Nat
  r8 : Nat
  rbp : Nat
  rdi : Nat
  rsi : Nat
  rdx : Nat
  rcx : Nat
  rbx : Nat
  rax : Nat
  trapno : Nat
  errorcode : Nat
  rip : Nat
  cs : Nat
  rflags : Nat
  rsp : Nat
  ss : Nat
  deriving DecidableEq, Repr

def TrapFrame.words (f : TrapFrame) : List Nat :=
  [f.r15, f.r14, f.r13, f.r12, f.r11, f.r10, f.r9, f.r8, f.rbp, f.rdi, f.rsi, f.rdx, f.rcx,
    f.rbx, f.rax, f.trapno, f.errorcode, f.rip, f.cs, f.rflags, f.rsp, f.ss]

/-- `sizeof(struct TrapFrame)`. -/
def trapFrameSize : Nat := 176

/-- The frame stored at physical address `a`. -/
def frameAt (m : Mem) (a : Nat) : TrapFrame :=
  ⟨load m a 8, load m (a + 8) 8, load m (a + 16) 8, load m (a + 24) 8, load m (a + 32) 8,
    load m (a + 40) 8, load m (a + 48) 8, load m (a + 56) 8, load m (a + 64) 8,
    load m (a + 72) 8, load m (a + 80) 8, load m (a + 88) 8, load m (a + 96) 8,
    load m (a + 104) 8, load m (a + 112) 8, load m (a + 120) 8, load m (a + 128) 8,
    load m (a + 136) 8, load m (a + 144) 8, load m (a + 152) 8, load m (a + 160) 8,
    load m (a + 168) 8⟩

/-! ## The kernel -/

/-- What a run shows: process creation, exit and reaping (by the process whose
    `wait` returns), context switches, characters taken into the key buffer and handed
    to a reader, and bytes stored through a pointer that a user program supplied. -/
inductive Obs where
  | created (pid : Int)
  | exited (pid : Int)
  | waited (waiter pid : Int)
  | switched (prev current : Slot)
  | accepted (ch : Nat)
  | returned (ch : Nat)
  | stored (va : Nat)
  deriving DecidableEq, Repr

structure Kernel where
  ram : Ram
  fcbTable : Nat
  fileDescTable : Nat
  processTable : Slot → Process
  pidNum : Int
  pc : ProcessControl
  keyBuffer : KeyboardBuffer
  flag : Nat
  ticks : Nat
  cr3 : Nat
  rsp0 : Nat
  hist : List Obs

/-- Programs over the kernel that run no `ASSERT` of `process.c`. -/
abbrev LowM := EStateM Fault Kernel

/-- Why the kernel stops, with the `ASSERT`s of `process.c` by their lines. -/
inductive Halt where
  | process (line : Nat)
  | fault (f : Fault)
  deriving DecidableEq, Repr

abbrev KernelM := EStateM Halt Kernel

/-- Run a memory program on the kernel's memory. -/
def ram {α : Type} (x : RamM α) : LowM α :=
  onPart Kernel.ram (fun r s => { s with ram := r }) id x

/-- Run a program below `process.c`. -/
def low {α : Type} (x : LowM α) : KernelM α :=
  onPart id (fun t _ => t) Halt.fault x

/-! ## Field access -/

section Fields

variable {ε : Type}

def setProcess (i : Slot) (f : Process → Process) : EStateM ε Kernel Unit :=
  modify fun s =>
    { s with processTable := Function.update s.processTable i (f (s.processTable i)) }

def setList (q : ListId) (l : HeadList) : EStateM ε Kernel Unit :=
  modify fun s => { s with pc := s.pc.setList q l }

def observe (o : Obs) : EStateM ε Kernel Unit :=
  modify fun s => { s with hist := s.hist ++ [o] }

end Fields

/-- The current process. -/
def Kernel.current (s : Kernel) : Process := s.processTable s.pc.currentProcess

/-! ## Memory access -/

/-- Entry `i` of the page table at physical address `t`. -/
def entries (m : Mem) : Entries := fun t i => load m (t + 8 * i) 8

/-- A kernel pointer to `n` bytes that the kernel's 1 GB window maps. -/
def KernelPtr (v n : Nat) : Prop := kernelBase ≤ v ∧ v + n ≤ kernelBase + 0x40000000

instance (v n : Nat) : Decidable (KernelPtr v n) := inferInstanceAs (Decidable (_ ∧ _))

/-- Load through a kernel pointer. -/
def kload (v n : Nat) : RamM Nat := do
  ensure (KernelPtr v n) .exception
  let r ← get
  return load r.mem (v2p v) n

/-- Store through a kernel pointer. -/
def kstore (v n x : Nat) : RamM Unit := do
  ensure (KernelPtr v n) .exception
  modify fun r => { r with mem := store r.mem (v2p v) n x }

/-- `memset` through a kernel pointer. -/
def kmemset (v : Nat) (b : UInt8) (n : Nat) : RamM Unit := do
  ensure (KernelPtr v n) .exception
  modify fun r => { r with mem := fill r.mem (v2p v) n b }

/-- `memcpy` between kernel pointers. -/
def kmemcpy (dst src n : Nat) : RamM Unit := do
  ensure (KernelPtr dst n) .exception
  ensure (KernelPtr src n) .exception
  modify fun r => { r with mem := copy r.mem (v2p dst) (v2p src) n }

/-- The translation of a virtual address in the current address space. -/
def Kernel.translate (s : Kernel) (va : Nat) : Option Target :=
  walk (entries s.ram.mem) s.cr3 va

/-- Kernel-mode load of one byte through the current page map. -/
def loadVirt (va : Nat) : LowM UInt8 := do
  let s ← get
  match s.translate (u64 va) with
  | some t => return s.ram.mem t.phys
  | none => throw .exception

/-- `p` lies in a table of the page map with the root `root`. -/
def Kernel.InTable (s : Kernel) (root p : Nat) : Prop :=
  ∃ t ∈ tables (entries s.ram.mem) root, t ≤ p ∧ p < t + 4096

instance (s : Kernel) (root p : Nat) : Decidable (s.InTable root p) :=
  inferInstanceAs (Decidable (∃ _ ∈ _, _))

/-- `p` lies in the stack of process `i`, below its trap frame. -/
def Kernel.InStack (s : Kernel) (i : Slot) (p : Nat) : Prop :=
  i ≠ 0 ∧ v2p (s.processTable i).stack ≤ p ∧
    p + trapFrameSize < v2p (s.processTable i).stack + stackSize

instance (s : Kernel) (i : Slot) (p : Nat) : Decidable (s.InStack i p) :=
  inferInstanceAs (Decidable (_ ∧ _))

/-- What the kernel code that runs rests on: the boot stack and the kernel's image with its
    static objects, the stack of the current process, and the page map in use, of which the
    processor keeps copies. -/
def Kernel.InUse (K : Image) (s : Kernel) (p : Nat) : Prop :=
  (0x100000 ≤ p ∧ p < v2p K.kend) ∨ s.InStack s.pc.currentProcess p ∨ s.InTable s.cr3 p

instance (K : Image) (s : Kernel) (p : Nat) : Decidable (s.InUse K p) :=
  inferInstanceAs (Decidable (_ ∨ _ ∨ _))

/-- The bytes of physical memory whose contents are not in `Ram.mem`: the static objects are
    fields of `Kernel`, and the stack of a process that can run again is a `Kont`. With them
    stand the tables through which the kernel finds its static objects when it does. -/
def Kernel.Reserved (K : Image) (s : Kernel) (p : Nat) : Prop :=
  s.InUse K p ∨ ∃ i, (s.processTable i).state ≠ .unused ∧ (s.processTable i).state ≠ .killed ∧
    (s.InStack i p ∨ s.InTable (v2p (s.processTable i).pageMap) p)

instance (K : Image) (s : Kernel) (p : Nat) : Decidable (s.Reserved K p) :=
  inferInstanceAs (Decidable (_ ∨ _))

/-- Kernel-mode store of one byte through the current page map. The kernel's window
    reaches all of memory; a stray store to `Reserved` bytes has no meaning here. -/
def storeVirt (K : Image) (va : Nat) (b : UInt8) : LowM Unit := do
  let s ← get
  match s.translate (u64 va) with
  | some t =>
      ensure (¬ (kernelBase ≤ u64 va ∧ s.Reserved K t.phys)) .undefined
      set { s with ram := { s.ram with mem := Function.update s.ram.mem t.phys b } }
  | none => throw .exception

end Os64
