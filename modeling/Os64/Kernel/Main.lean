/-
  main.c: the boot of the kernel, up to the `hlt` loop of the idle process.
-/
import Os64.Kernel.Trap

namespace Os64

open Os64.Lib

variable (K : Image)

def initKvm : LowM Unit := do
  let pageMap ← ram (setupKvm K)
  ram (assertMem (pageMap ≠ 0) 263)
  modify fun s => { s with cr3 := v2p pageMap }

/-- A zeroed page for a table of file.c. -/
def initTable : LowM Nat := do
  let table ← ram (kalloc K)
  if table ≠ 0 then
    ram (kmemset table 0 pageSize)
  return table

def initFs : LowM Unit := do
  let p ← ram getFsBpb
  let b ← ram (kload (p + 0x1fe) 1)
  let c ← ram (kload (p + 0x1ff) 1)
  assertFile (b = 0x55 ∧ c = 0xaa) 334
  let fcbTable ← initTable K
  assertFile (fcbTable ≠ 0) 337
  modify fun s => { s with fcbTable := fcbTable }
  let fileDescTable ← initTable K
  assertFile (fileDescTable ≠ 0) 338
  modify fun s => { s with fileDescTable := fileDescTable }

/-- The kernel before `KMain`: the memory the loader leaves and cleared statics. -/
def bootKernel (m : Mem) : Kernel where
  ram := ⟨m, 0, 0, []⟩
  fcbTable := 0
  fileDescTable := 0
  processTable := fun _ => Process.zero
  pidNum := 1
  pc := ⟨0, ⟨none, none⟩, ⟨none, none⟩, ⟨none, none⟩⟩
  keyBuffer := ⟨fun _ => 0, 0, 0, 500⟩
  flag := 0
  ticks := 0
  cr3 := 0x70000
  rsp0 := kernelBase + 0x190000
  hist := []

def kMain : KernelM Unit := do
  low (ram (initMemory K))
  low (initKvm K)
  low (initFs K)
  initProcess K

end Os64
