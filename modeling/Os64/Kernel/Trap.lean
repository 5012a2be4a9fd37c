/-
  trap.c and trap.asm as the processes see them: the steps of the running system.

  A step is a trap of the current process (an interrupt, a system call, an exception
  in ring 3) handled up to the return to user mode or to the next `swap`, a user-mode
  store, or the continuation of a process that `swap` returned to. The kernel runs
  with interrupts off, so a step is never interrupted.

  The idle process runs the `hlt` loop in ring 0: it takes hardware interrupts only,
  and its frames go to the boot stack below the kernel image.
-/
import Os64.Kernel.Syscall

namespace Os64

open Os64.Lib

variable (K : Image)

inductive Event where
  /-- The timer interrupt. -/
  | timer (f : TrapFrame)
  /-- The keyboard interrupt, with the scan code in port 0x60. -/
  | keyboard (scanCode : Nat) (f : TrapFrame)
  /-- Vector 39. -/
  | spurious (f : TrapFrame)
  /-- `int 0x80` with the user's registers. -/
  | syscall (f : TrapFrame)
  /-- An exception of the user program. -/
  | exception (f : TrapFrame)
  /-- A store of the user program. -/
  | store (va : Nat) (b : UInt8)
  /-- The code after the `swap` that switched to the current process. -/
  | resume

/-- Write the words of a frame from `a` upwards. -/
def storeWords : Nat → List Nat → RamM Unit
  | _, [] => return
  | a, w :: ws => do
      kstore a 8 w
      storeWords (a + 8) ws

/-- The frame pointer that `handler` gets after a trap from ring 3: the processor and
    `Trap` push from `Tss.rsp0` downwards. -/
def Kernel.trapFrame (s : Kernel) : Nat := s.rsp0 - trapFrameSize

/-- Push the frame of a trap. -/
def pushFrame (f : TrapFrame) : KernelM Unit := do
  let s ← get
  if s.pc.currentProcess ≠ 0 then
    low (ram (storeWords s.trapFrame f.words))

def timerHandler : LowM Unit := do
  modify fun s => { s with ticks := u64 (s.ticks + 1) }
  wakeUp (-1)

/-- Continue after `swap`. -/
def resume : KernelM Unit := do
  let s ← get
  match s.current.kont with
  | .user => return
  | .trapReturn => setProcess s.pc.currentProcess fun p => { p with kont := .user }
  | .sleeping oldTicks sleepTicks => do
      setProcess s.pc.currentProcess fun p => { p with kont := .user }
      let result ← sleepLoop oldTicks sleepTicks
      setResult s.trapFrame result
  | .waiting pid => do
      setProcess s.pc.currentProcess fun p => { p with kont := .user }
      let result ← waitResult K pid
      setResult s.trapFrame result
  | .readingKey front => do
      setProcess s.pc.currentProcess fun p => { p with kont := .user }
      let result ← takeKey front
      setResult s.trapFrame (some result)
  | .exited => throw (.fault .undefined)

/-- One step of the system. -/
def step : Event → KernelM Unit
  | .timer f => do
      pushFrame f
      low timerHandler
      yield
  | .keyboard scanCode f => do
      pushFrame f
      low (keyboardHandler scanCode)
  | .spurious f => pushFrame f
  | .syscall f => do
      pushFrame f
      let s ← get
      systemCall K s.trapFrame
  | .exception f => do
      pushFrame f
      exit
  | .store va b => low (storeVirt K va b)
  | .resume => resume K

/-- A frame as the entry code of vector `trapno` and the processor build it in ring 3:
    the selectors and the trap number are fixed, the other words are 64-bit values. -/
def TrapFrame.ofUser (f : TrapFrame) (trapno : Nat) : Prop :=
  f.trapno = trapno ∧ f.cs = (0x10 ||| 3) ∧ f.ss = (0x18 ||| 3) ∧ ∀ w ∈ f.words, w < 2 ^ 64

/-- Vectors with an entry in the interrupt table that are neither interrupts nor the
    system call. -/
def isException (trapno : Nat) : Prop :=
  trapno ∈ [0, 1, 2, 3, 4, 5, 6, 7, 8, 10, 11, 12, 13, 14, 16, 17, 18, 19]

/-- The steps the current process can take. -/
def Enabled (s : Kernel) : Event → Prop
  | .timer f => s.current.kont = .user ∧ f.ofUser 32
  | .keyboard scanCode f => s.current.kont = .user ∧ f.ofUser 33 ∧ scanCode < 256
  | .spurious f => s.current.kont = .user ∧ f.ofUser 39
  | .syscall f => s.current.kont = .user ∧ s.pc.currentProcess ≠ 0 ∧ f.ofUser 0x80
  | .exception f =>
      s.current.kont = .user ∧ s.pc.currentProcess ≠ 0 ∧ ∃ n, isException n ∧ f.ofUser n
  | .store va _ =>
      s.current.kont = .user ∧ s.pc.currentProcess ≠ 0 ∧
        ∃ t, s.translate va = some t ∧ t.writable ∧ t.user
  | .resume => s.current.kont ≠ .user

/-- Runs of the system from `s₀` whose steps all satisfy `Ok`. -/
inductive Run (Ok : Kernel → Event → Prop) (s₀ : Kernel) : Kernel → Prop
  | refl : Run Ok s₀ s₀
  | step {s s' : Kernel} {e : Event} : Run Ok s₀ s → Enabled s e → Ok s e →
      step K e s = .ok () s' → Run Ok s₀ s'

end Os64
