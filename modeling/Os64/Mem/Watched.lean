/-
  The freeing functions on a memory that keeps a log: each load through a table pointer and
  each `kfree` is recorded with the physical address. `freeVm_erases`: without the log they
  are the kernel's functions.
-/
import Os64.Kernel.Memory
import Os64.Lib.Watch

namespace Os64

open Os64.Lib

abbrev WatchM := StateT (List Access) RamM

namespace Watched

variable (K : Image)

def kload (a n : Nat) : WatchM Nat := do
  modify (· ++ [.read (v2p a) n])
  Os64.kload a n

def kfree (v : Nat) : WatchM Unit := do
  modify (· ++ [.free (v2p v)])
  Os64.kfree K v

/-- `find_pml4t_entry` with `alloc` 0. -/
def findPml4tEntry (map v : Nat) : WatchM Nat := do
  let index := (v >>> 39) &&& 0x1FF
  let e ← kload (map + 8 * index) 8
  if e &&& pteP ≠ 0 then
    return p2v (pdeAddr e)
  else
    return 0

/-- `find_pdpt_entry` with `alloc` 0. -/
def findPdptEntry (map v : Nat) : WatchM Nat := do
  let index := (v >>> 30) &&& 0x1FF
  let pdptr ← findPml4tEntry map v
  if pdptr = 0 then
    return 0
  else
    let e ← kload (pdptr + 8 * index) 8
    if e &&& pteP ≠ 0 then
      return p2v (pdeAddr e)
    else
      return 0

/-- Free the page behind an entry of the table at `t`, and clear the entry; `addr` is
    `PTE_ADDR` or `PDE_ADDR`. -/
def release (addr : Nat → Nat) (t i : Nat) : WatchM Unit := do
  let e ← kload (t + 8 * i) 8
  if e &&& pteP ≠ 0 then
    kfree K (p2v (addr e))
    kstore (t + 8 * i) 8 0

def freePagesLoop (map vend : Nat) : Nat → Nat → WatchM Unit
  | 0, _ => (throw .divergence : RamM Unit)
  | fuel + 1, vstart => do
      let pd ← findPdptEntry map vstart
      if pd ≠ 0 then
        release K pteAddr pd ((vstart >>> 21) &&& 0x1FF)
      if u64 (u64 (vstart + pageSize) + pageSize) ≤ vend then
        freePagesLoop map vend fuel (u64 (vstart + pageSize))

def freePages (map vstart vend : Nat) : WatchM Unit := do
  assertMem (vstart % pageSize = 0) 311
  assertMem (vend % pageSize = 0) 312
  freePagesLoop K map vend rounds vstart

/-- The body of the outer loop of `free_pdt`. -/
def freeDirs (map i : Nat) : WatchM Unit := do
  let e ← kload (map + 8 * i) 8
  if e &&& pteP ≠ 0 then
    forM (List.range 512) (release K pdeAddr (p2v (pdeAddr e)))

def freePdt (map : Nat) : WatchM Unit := forM (List.range 512) (freeDirs K map)

def freePdpt (map : Nat) : WatchM Unit := forM (List.range 512) (release K pdeAddr map)

def freeVm (map : Nat) : WatchM Unit := do
  freePages K map 0x400000 (0x400000 + pageSize)
  freePdt K map
  freePdpt K map
  kfree K map

/-! ## Without the log -/

variable {K}

theorem kload_erases (a n : Nat) : Erases (kload a n) (Os64.kload a n) := by
  have h := (Erases.modify (M := RamM) (· ++ [Access.read (v2p a) n])).bind fun _ =>
    Erases.lift (Os64.kload a n)
  rwa [pure_bind] at h

theorem kfree_erases (v : Nat) : Erases (kfree K v) (Os64.kfree K v) := by
  have h := (Erases.modify (M := RamM) (· ++ [Access.free (v2p v)])).bind fun _ =>
    Erases.lift (Os64.kfree K v)
  rwa [pure_bind] at h

theorem findPml4tEntry_erases (map v attr : Nat) :
    Erases (findPml4tEntry map v) (Os64.findPml4tEntry K map v 0 attr) := by
  unfold findPml4tEntry Os64.findPml4tEntry
  refine (kload_erases _ _).bind fun e => .ite (.pure _) ?_
  rw [if_neg (by decide)]
  exact .pure _

theorem findPdptEntry_erases (map v attr : Nat) :
    Erases (findPdptEntry map v) (Os64.findPdptEntry K map v 0 attr) := by
  unfold findPdptEntry Os64.findPdptEntry
  refine (findPml4tEntry_erases map v attr).bind fun pdptr => .ite (.pure _) ?_
  refine (kload_erases _ _).bind fun e => .ite (.pure _) ?_
  rw [if_neg (by decide)]
  exact .pure _

/-- The entries of the tables are freed alike. -/
theorem release_erases (t i : Nat) : Erases (release K pdeAddr t i) (freeEntry K t i) := by
  unfold release freeEntry
  refine (kload_erases _ _).bind fun e => .ite ?_ (.pure _)
  exact (kfree_erases _).bind fun _ => .lift _

theorem freePagesLoop_erases (map vend : Nat) : ∀ fuel v : Nat,
    Erases (freePagesLoop K map vend fuel v) (Os64.freePagesLoop K map vend fuel v) := by
  intro fuel
  induction fuel with
  | zero => exact fun v => .lift _
  | succ fuel ih =>
      intro v
      unfold freePagesLoop Os64.freePagesLoop
      refine (findPdptEntry_erases map v 0).bind fun pd => ?_
      have hnext : Erases
          (if u64 (u64 (v + pageSize) + pageSize) ≤ vend then
            freePagesLoop K map vend fuel (u64 (v + pageSize)) else pure ())
          (if u64 (u64 (v + pageSize) + pageSize) ≤ vend then
            Os64.freePagesLoop K map vend fuel (u64 (v + pageSize)) else pure ()) :=
        .ite (ih _) (.pure _)
      dsimp only
      refine .ite ?_ hnext
      unfold release
      rw [bind_assoc]
      refine (kload_erases _ _).bind fun e => ?_
      by_cases he : e &&& pteP ≠ 0
      · rw [if_pos he, if_pos he, bind_assoc]
        exact (kfree_erases _).bind fun _ => (Erases.lift _).bind fun _ => hnext
      · rw [if_neg he, if_neg he, pure_bind]
        exact hnext

theorem freePages_erases (map v e : Nat) :
    Erases (freePages K map v e) (Os64.freePages K map v e) :=
  (Erases.lift _).bind fun _ => (Erases.lift _).bind fun _ => freePagesLoop_erases map e rounds v

theorem freeVm_erases (map : Nat) : Erases (freeVm K map) (Os64.freeVm K map) := by
  have hdirs : ∀ i, Erases (freeDirs K map i) (do
      let e ← Os64.kload (map + 8 * i) 8
      if e &&& pteP ≠ 0 then
        forM (List.range 512) (freeEntry K (p2v (pdeAddr e)))) := fun i =>
    (kload_erases _ _).bind fun e => .ite (.forM (release_erases _) _) (.pure _)
  exact (freePages_erases map _ _).bind fun _ => (Erases.forM hdirs _).bind fun _ =>
    (Erases.forM (release_erases map) _).bind fun _ => kfree_erases map

end Watched

end Os64
