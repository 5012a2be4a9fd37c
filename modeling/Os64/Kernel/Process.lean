/-
  process.c: creation, scheduling, sleeping, exit and reaping of processes.

  `schedule`, and what calls it, takes the continuation that `swap` leaves on the
  stack of the process it switches away from. `wait` and the sleep loop of
  `sys_sleep` are therefore cut at their call of `sleep`: `waitLoop` is one round, and
  the value `none` means that the process was switched away from.
-/
import Os64.Kernel.Memory
import Os64.Kernel.List
import Os64.Kernel.File

namespace Os64

open Os64.Lib

variable (K : Image)

/-- An `ASSERT` of process.c. -/
def assertProcess (c : Prop) [Decidable c] (line : Nat) : KernelM Unit :=
  ensure c (.process line)

/-! ## Creation -/

def findUnusedProcess (s : Kernel) : Option Slot :=
  (List.finRange numProc).find? fun i => (s.processTable i).state = .unused


/-- Offsets in `struct TrapFrame`. -/
def tfRdi : Nat := 72
def tfRsi : Nat := 80
def tfRax : Nat := 112
def tfRip : Nat := 136
def tfCs : Nat := 144
def tfRflags : Nat := 152
def tfRsp : Nat := 160
def tfSs : Nat := 168

/-- The entry state of a program: code selector, entry point, stack selector, stack
    and flags. -/
def setEntryFrame (tf : Nat) : RamM Unit := do
  kstore (tf + tfCs) 8 (0x10 ||| 3)
  kstore (tf + tfRip) 8 0x400000
  kstore (tf + tfSs) 8 (0x18 ||| 3)
  kstore (tf + tfRsp) 8 (0x400000 + pageSize)
  kstore (tf + tfRflags) 8 0x202

/-- The new stack's initial context: `swap` pops six registers and returns to
    `TrapReturn`, with the stack pointer at the trap frame. -/
def setInitialStack (stackTop : Nat) : RamM Unit := do
  let context := stackTop - trapFrameSize - 7 * 8
  kstore (context + 6 * 8) 8 K.trapReturn
  setEntryFrame (stackTop - trapFrameSize)

def allocNewProcess : LowM (Option Slot) := do
  let s ← get
  match findUnusedProcess s with
  | none => return none
  | some proc =>
      setProcess proc fun p => { p with state := .init, pid := s.pidNum }
      modify fun s => { s with pidNum := nextPid s.pidNum }
      let stack ← ram (kalloc K)
      setProcess proc fun p => { p with stack := stack }
      if stack = 0 then
        return none
      else
        ram (kmemset stack 0 pageSize)
        let stackTop := stack + stackSize
        ram (setInitialStack K stackTop)
        setProcess proc fun p =>
          { p with tf := stackTop - trapFrameSize, kont := .trapReturn }
        let pageMap ← ram (setupKvm K)
        setProcess proc fun p => { p with pageMap := pageMap }
        if pageMap = 0 then
          ram (kfree K stack)
          setProcess proc fun _ => Process.zero
          return none
        else
          observe (.created s.pidNum)
          return some proc

def initIdleProcess : KernelM Unit := do
  let s ← get
  let process := findUnusedProcess s
  assertProcess (process = some 0) 94
  setProcess 0 fun p => { p with pid := 0, pageMap := p2v s.cr3, state := .running }
  modify fun s => { s with pc := { s.pc with currentProcess := 0 } }

def initUserProcess : KernelM Unit := do
  match ← low (allocNewProcess K) with
  | none => throw (.process 114)
  | some process =>
      let s ← get
      let status ← low (ram (setupUvm K (s.processTable process).pageMap (p2v 0x30000) 5120))
      assertProcess status 116
      setProcess process fun p => { p with state := .ready }
      low (appendListTail .ready process)

def initProcess : KernelM Unit := do
  initIdleProcess
  initUserProcess K

/-! ## Scheduling -/

/-- Load `Tss.rsp0` and CR3 for the next process, and leave `prev` at `k`. -/
def switchProcess (prev current : Slot) (k : Kont) : KernelM Unit := do
  let s ← get
  let next := s.processTable current
  set { s with rsp0 := u64 (next.stack + stackSize), cr3 := v2p next.pageMap }
  setProcess prev fun p => { p with kont := k }
  observe (.switched prev current)

def schedule (k : Kont) : KernelM Unit := do
  let s ← get
  let prevProc := s.pc.currentProcess
  let currentProc ←
    if isListEmpty s.pc.readyList then do
      assertProcess ((s.processTable prevProc).pid ≠ 0) 147
      pure (some 0)
    else
      low (removeListHead .ready)
  match currentProc with
  | none => throw (.fault .exception)
  | some currentProc =>
      setProcess currentProc fun p => { p with state := .running }
      modify fun s => { s with pc := { s.pc with currentProcess := currentProc } }
      switchProcess prevProc currentProc k

def yield : KernelM Unit := do
  let s ← get
  if isListEmpty s.pc.readyList then
    return
  else
    let process := s.pc.currentProcess
    setProcess process fun p => { p with state := .ready }
    if (s.processTable process).pid ≠ 0 then
      low (appendListTail .ready process)
    schedule .trapReturn

def sleep (wait : Int) (k : Kont) : KernelM Unit := do
  let s ← get
  let process := s.pc.currentProcess
  setProcess process fun p => { p with state := .sleep, wait := wait }
  low (appendListTail .wait process)
  schedule k

/-- The `while` of `wake_up`; each round takes a process off the wait list. -/
def wakeUpLoop (wait : Int) : Nat → LowM Unit
  | 0 => throw .divergence
  | fuel + 1 => do
      match ← removeList .wait wait with
      | none => return
      | some process =>
          setProcess process fun p => { p with state := .ready }
          appendListTail .ready process
          wakeUpLoop wait fuel

def wakeUp (wait : Int) : LowM Unit := wakeUpLoop wait (numProc + 1)

def exit : KernelM Unit := do
  let s ← get
  let process := s.pc.currentProcess
  setProcess process fun p => { p with state := .killed, wait := p.pid }
  low (appendListTail .kill process)
  low (wakeUp (-3))
  observe (.exited s.current.pid)
  schedule .exited

/-- The loop over the descriptors of a reaped process. -/
def closeAll (process : Slot) : LowM Unit := do
  let s ← get
  forM (List.finRange 100) fun i => do
    let desc := (s.processTable process).file i
    if desc ≠ 0 then
      let fcb ← ram (kload (descFcb desc) 8)
      ram (addField (fcbCount fcb) (-1))
      ram (dropDesc desc)

/-- The body of the branch of `wait` that found the process. -/
def reap (process : Slot) : KernelM Unit := do
  let s ← get
  let p := s.processTable process
  assertProcess (p.state = .killed) 246
  low (ram (kfree K p.stack))
  low (ram (freeVm K p.pageMap))
  low (closeAll process)
  setProcess process fun _ => Process.zero
  observe (.waited s.current.pid p.pid)

/-- One round of the loop of `wait`; `some` when it breaks. -/
def waitLoop (pid : Int) : KernelM (Option Unit) := do
  let s ← get
  let found ←
    if isListEmpty s.pc.killList then pure none else low (removeList .kill pid)
  match found with
  | some process => do
      reap K process
      return some ()
  | none => do
      sleep (-3) (.waiting pid)
      return none

/-! ## fork and exec -/

/-- The descriptor loop of `fork`. -/
def shareFiles (process : Slot) : LowM Unit := do
  let s ← get
  forM (List.finRange 100) fun i => do
    let desc := (s.processTable process).file i
    if desc ≠ 0 then
      ram (addField (descCount desc) 1)
      let fcb ← ram (kload (descFcb desc) 8)
      ram (addField (fcbCount fcb) 1)

def fork : KernelM Int := do
  let s ← get
  let parent := s.pc.currentProcess
  match ← low (allocNewProcess K) with
  | none => throw (.process 282)
  | some process =>
      let s ← get
      let copied ← low (ram (copyUvm K (s.processTable process).pageMap
        (s.processTable parent).pageMap pageSize))
      assertProcess copied 287
      setProcess process fun p => { p with file := (s.processTable parent).file }
      low (shareFiles process)
      let tf := (s.processTable process).tf
      low (ram (kmemcpy tf (s.processTable parent).tf trapFrameSize))
      low (ram (kstore (tf + tfRax) 8 0))
      setProcess process fun p => { p with state := .ready }
      low (appendListTail .ready process)
      return (s.processTable process).pid

/-- `memset((void*)0x400000, 0, PAGE_SIZE)` in the current address space. -/
def clearUserPage : LowM Unit :=
  forM (List.range pageSize) fun k => storeVirt K (0x400000 + k) 0

/-- `none` when the process exited. -/
def exec (process : Slot) (name : Nat) : KernelM (Option Int) := do
  let fd ← low (openFile process name)
  if fd = -1 then do
    exit
    return none
  else do
    low (clearUserPage K)
    let size ← low (getFileSize process fd)
    let read ← low (readFile K false process fd 0x400000 size)
    if read = -1 then do
      exit
      return none
    else do
      low (closeFile process fd)
      let s ← get
      let tf := (s.processTable process).tf
      low (ram (kmemset tf 0 trapFrameSize))
      low (ram (setEntryFrame tf))
      return some 0

end Os64
