/-
  syscall.c: the sixteen system calls and their dispatch.

  The arguments are read from the user's memory at `argptr`, each as the call needs
  it. The result of a call is `none` when the caller does not return from it now: it
  sleeps, or it exited. What `write_screen` puts on the screen is not part of the
  kernel state here; `sysWrite` reads the text.
-/
import Os64.Kernel.Keyboard

namespace Os64

open Os64.Lib

variable (K : Image)

/-- The little-endian value of `n` bytes behind a virtual pointer. -/
def loadVirtN (va : Nat) : Nat → LowM Nat
  | 0 => return 0
  | n + 1 => do
      let b ← loadVirt va
      let rest ← loadVirtN (va + 1) n
      return b.toNat + 256 * rest

/-- `argptr[k]`. -/
def arg (argptr k : Nat) : LowM Nat := loadVirtN (argptr + 8 * k) 8

def sysWrite (argptr : Nat) : KernelM (Option Int) := do
  let buffer ← low (arg argptr 0)
  let size ← low (arg argptr 1)
  let _ ← low (arg argptr 2)
  low (forM (List.range (i32 size).toNat) fun i => do let _ ← loadVirt (buffer + i))
  return some (i32 size)

/-- The loop of `sys_sleep`. -/
def sleepLoop (oldTicks sleepTicks : Nat) : KernelM (Option Int) := do
  let s ← get
  if u64 (s.ticks + (2 ^ 64 - oldTicks)) < sleepTicks then
    sleep (-1) (.sleeping oldTicks sleepTicks)
    return none
  else
    return some 0

def sysSleep (argptr : Nat) : KernelM (Option Int) := do
  let sleepTicks ← low (arg argptr 0)
  let s ← get
  sleepLoop s.ticks sleepTicks

def sysExit : KernelM (Option Int) := do
  exit
  return none

/-- `wait` returns nothing and its system call 0. -/
def waitResult (pid : Int) : KernelM (Option Int) := do
  let done ← waitLoop K pid
  return done.map fun _ => 0

def sysWait (argptr : Nat) : KernelM (Option Int) := do
  let pid ← low (arg argptr 0)
  waitResult K (i32 pid)

def sysKeyboardRead : KernelM (Option Int) := readKeyBuffer

def sysGetTotalMemory : KernelM (Option Int) := do
  let s ← get
  return some (i32 (getTotalMemory s.ram))

def sysGetFreeMemory : KernelM (Option Int) := do
  let s ← get
  return some (i32 (getFreeMemory s.ram))

def sysGetUsedMemory : KernelM (Option Int) := do
  let s ← get
  return some (i32 (getUsedMemory s.ram))

def sysClearScreen : KernelM (Option Int) := return some 1

def sysOpenFile (argptr : Nat) : KernelM (Option Int) := do
  let s ← get
  let name ← low (arg argptr 0)
  let fd ← low (openFile s.pc.currentProcess name)
  return some fd

def sysReadFile (argptr : Nat) : KernelM (Option Int) := do
  let s ← get
  let fd ← low (arg argptr 0)
  let buffer ← low (arg argptr 1)
  let size ← low (arg argptr 2)
  let n ← low (readFile K true s.pc.currentProcess (i32 fd) buffer (u32 size))
  return some n

def sysGetFileSize (argptr : Nat) : KernelM (Option Int) := do
  let s ← get
  let fd ← low (arg argptr 0)
  let n ← low (getFileSize s.pc.currentProcess (i32 fd))
  return some (i32 n)

def sysCloseFile (argptr : Nat) : KernelM (Option Int) := do
  let s ← get
  let fd ← low (arg argptr 0)
  low (closeFile s.pc.currentProcess (i32 fd))
  return some 0

def sysFork : KernelM (Option Int) := do
  let pid ← fork K
  return some pid

def sysExec (argptr : Nat) : KernelM (Option Int) := do
  let s ← get
  let name ← low (arg argptr 0)
  exec K s.pc.currentProcess name

def sysReadRootDirectory (argptr : Nat) : KernelM (Option Int) := do
  let buffer ← low (arg argptr 0)
  let n ← low (readRootDirectory K buffer)
  return some n

/-- The table that `init_system_call` fills. -/
def systemCalls (i argptr : Nat) : KernelM (Option Int) :=
  match i with
  | 0 => sysWrite argptr
  | 1 => sysSleep argptr
  | 2 => sysExit
  | 3 => sysWait K argptr
  | 4 => sysKeyboardRead
  | 5 => sysGetTotalMemory
  | 6 => sysGetFreeMemory
  | 7 => sysGetUsedMemory
  | 8 => sysClearScreen
  | 9 => sysOpenFile argptr
  | 10 => sysReadFile K argptr
  | 11 => sysGetFileSize argptr
  | 12 => sysCloseFile argptr
  | 13 => sysFork K
  | 14 => sysExec K argptr
  | 15 => sysReadRootDirectory K argptr
  | _ => throw (.fault (.assertion "syscall.c" 148))

/-- Store a call's result in the caller's frame, when the call returns. -/
def setResult (tf : Nat) (result : Option Int) : KernelM Unit :=
  match result with
  | some v => low (ram (kstore (tf + tfRax) 8 (ofInt v)))
  | none => return

def systemCall (tf : Nat) : KernelM Unit := do
  let i ← low (ram (kload (tf + tfRax) 8))
  let paramCount ← low (ram (kload (tf + tfRdi) 8))
  let argptr ← low (ram (kload (tf + tfRsi) 8))
  -- `i` and `param_count` are signed: from 2^63 on they are negative
  if 2 ^ 63 ≤ paramCount ∨ 15 < i then
    setResult tf (some (-1))
  else
    let result ← systemCalls K i argptr
    setResult tf result

end Os64
