/-
  memory.c: the page allocator, the page maps of kernel and user space, and the
  boot-time collection of free memory.

  Pointers are the C values (0 is `NULL`). The free list is threaded through the
  first word of each free page. Loops whose bound is an address run on fuel `rounds`:
  an address steps by one page, so more rounds than there are pages in the 64-bit
  space never end.
-/
import Os64.Kernel.State

namespace Os64

open Os64.Lib

variable (K : Image)

/-- The pages of the 64-bit address space. -/
def rounds : Nat := 2 ^ 43

/-- An `ASSERT` of memory.c. -/
def assertMem (c : Prop) [Decidable c] (line : Nat) : RamM Unit :=
  ensure c (.assertion "memory.c" line)

/-! ## The allocator -/

def kfree (v : Nat) : RamM Unit := do
  assertMem (v % pageSize = 0) 94
  assertMem (K.kend ≤ v) 95
  assertMem (u64 (v + pageSize) ≤ memoryLimit) 96
  let r ← get
  kstore v 8 r.freeMemory
  modify fun r => { r with freeMemory := v }

def kalloc : RamM Nat := do
  let r ← get
  let pageAddress := r.freeMemory
  if pageAddress ≠ 0 then
    assertMem (pageAddress % pageSize = 0) 110
    assertMem (K.kend ≤ pageAddress) 111
    assertMem (u64 (pageAddress + pageSize) ≤ memoryLimit) 112
    let next ← kload pageAddress 8
    modify fun r => { r with freeMemory := next }
  return pageAddress

/-! ## Boot-time memory -/

/-- The number of entries of the memory map, which the loader leaves at `0x20000`. -/
def memMapCount (m : Mem) : Int := i32 (load m 0x20000 4)

/-- Entry `i` of the memory map at `0x20008`. -/
def memMap (m : Mem) (i : Nat) : E820 :=
  ⟨load m (0x20008 + 20 * i) 8, load m (0x20010 + 20 * i) 8, load m (0x20018 + 20 * i) 4⟩

def freeRegionLoop (e : Nat) : Nat → Nat → RamM Unit
  | 0, _ => throw .divergence
  | fuel + 1, start => do
      if u64 (start + pageSize) ≤ e then
        if u64 (start + pageSize) ≤ memoryLimit then
          kfree K start
        freeRegionLoop e fuel (u64 (start + pageSize))

def freeRegion (v e : Nat) : RamM Unit := freeRegionLoop K e rounds (paUp v)

/-- The body of the first loop of `init_memory`: keep a type-1 entry. -/
def collectRegion (e : E820) : RamM Unit := do
  if e.type = 1 then
    modify fun r =>
      { r with
        freeMemRegion := r.freeMemRegion ++ [⟨e.address, e.length⟩]
        totalMem := u64 (r.totalMem + e.length) }

/-- The body of the second loop: free the part of a region above the kernel. -/
def releaseRegion (g : FreeMemRegion) : RamM Unit := do
  let vstart := p2v g.address
  let vend := u64 (vstart + g.length)
  if K.kend < vstart then
    freeRegion K vstart vend
  else if K.kend < vend then
    freeRegion K K.kend vend

def initMemory : RamM Unit := do
  let r ← get
  let count := memMapCount r.mem
  modify fun r => { r with freeMemRegion := [] }
  assertMem (count ≤ 50) 26
  forM (List.range count.toNat) fun i => collectRegion (memMap r.mem i)
  let r ← get
  forM r.freeMemRegion (releaseRegion K)

def getTotalMemory (r : Ram) : Nat := r.totalMem / (1024 * 1024)

def getFreeMemory (r : Ram) : Nat :=
  r.freeMemRegion.foldl (fun sum g => u64 (sum + g.length)) 0

def getUsedMemory (r : Ram) : Nat := u64 (r.totalMem + (2 ^ 64 - getFreeMemory r))

/-! ## Page tables -/

def findPml4tEntry (map v alloc attr : Nat) : RamM Nat := do
  let index := (v >>> 39) &&& 0x1FF
  let e ← kload (map + 8 * index) 8
  if e &&& pteP ≠ 0 then
    return p2v (pdeAddr e)
  else if alloc = 1 then
    let pdptr ← kalloc K
    if pdptr ≠ 0 then
      kmemset pdptr 0 pageSize
      kstore (map + 8 * index) 8 (v2p pdptr ||| attr)
    return pdptr
  else
    return 0

def findPdptEntry (map v alloc attr : Nat) : RamM Nat := do
  let index := (v >>> 30) &&& 0x1FF
  let pdptr ← findPml4tEntry K map v alloc attr
  if pdptr = 0 then
    return 0
  else
    let e ← kload (pdptr + 8 * index) 8
    if e &&& pteP ≠ 0 then
      return p2v (pdeAddr e)
    else if alloc = 1 then
      let pd ← kalloc K
      if pd ≠ 0 then
        kmemset pd 0 pageSize
        kstore (pdptr + 8 * index) 8 (v2p pd ||| attr)
      return pd
    else
      return 0

/-- The `do … while` of `map_pages`. -/
def mapPagesLoop (map vend attr : Nat) : Nat → Nat → Nat → RamM Bool
  | 0, _, _ => throw .divergence
  | fuel + 1, vstart, pa => do
      let pd ← findPdptEntry K map vstart 1 attr
      if pd = 0 then
        return false
      else
        let index := (vstart >>> 21) &&& 0x1FF
        let e ← kload (pd + 8 * index) 8
        assertMem (e &&& pteP = 0) 215
        kstore (pd + 8 * index) 8 (pa ||| attr ||| pteEntry)
        if u64 (u64 (vstart + pageSize) + pageSize) ≤ vend then
          mapPagesLoop map vend attr fuel (u64 (vstart + pageSize)) (u64 (pa + pageSize))
        else
          return true

def mapPages (map v e pa attr : Nat) : RamM Bool := do
  let vstart := paDown v
  let vend := paUp e
  assertMem (v < e) 196
  assertMem (pa % pageSize = 0) 198
  assertMem (u64 (pa + vend + (2 ^ 64 - vstart)) ≤ 1024 * 1024 * 1024) 200
  mapPagesLoop K map vend attr rounds vstart pa

/-- The `do … while` of `free_pages`. -/
def freePagesLoop (map vend : Nat) : Nat → Nat → RamM Unit
  | 0, _ => throw .divergence
  | fuel + 1, vstart => do
      let pd ← findPdptEntry K map vstart 0 0
      if pd ≠ 0 then
        let index := (vstart >>> 21) &&& 0x1FF
        let e ← kload (pd + 8 * index) 8
        if e &&& pteP ≠ 0 then
          kfree K (p2v (pteAddr e))
          kstore (pd + 8 * index) 8 0
      if u64 (u64 (vstart + pageSize) + pageSize) ≤ vend then
        freePagesLoop map vend fuel (u64 (vstart + pageSize))

def freePages (map vstart vend : Nat) : RamM Unit := do
  assertMem (vstart % pageSize = 0) 311
  assertMem (vend % pageSize = 0) 312
  freePagesLoop K map vend rounds vstart

/-- Free the table behind entry `i` of the table at `t`, and clear the entry: the body
    of the inner loop of `free_pdt` and of the loop of `free_pdpt`. -/
def freeEntry (t i : Nat) : RamM Unit := do
  let e ← kload (t + 8 * i) 8
  if e &&& pteP ≠ 0 then
    kfree K (p2v (pdeAddr e))
    kstore (t + 8 * i) 8 0

def freePdt (map : Nat) : RamM Unit :=
  forM (List.range 512) fun i => do
    let e ← kload (map + 8 * i) 8
    if e &&& pteP ≠ 0 then
      forM (List.range 512) (freeEntry K (p2v (pdeAddr e)))

def freePdpt (map : Nat) : RamM Unit :=
  forM (List.range 512) (freeEntry K map)

def freePml4t (map : Nat) : RamM Unit := kfree K map

def freeVm (map : Nat) : RamM Unit := do
  freePages K map 0x400000 (0x400000 + pageSize)
  freePdt K map
  freePdpt K map
  freePml4t K map

/-! ## Address spaces -/

def setupKvm : RamM Nat := do
  let pageMap ← kalloc K
  if pageMap ≠ 0 then
    kmemset pageMap 0 pageSize
    let status ← mapPages K pageMap kernelBase (p2v 0x40000000) (v2p kernelBase) (pteP ||| pteW)
    if status then
      return pageMap
    else
      freeVm K pageMap
      return 0
  else
    return 0

/-- The mapping of one zeroed page at `0x400000` that `setup_uvm` and `copy_uvm` share;
    the page's address on success. -/
def mapUserPage (map : Nat) : RamM (Option Nat) := do
  let page ← kalloc K
  if page ≠ 0 then
    kmemset page 0 pageSize
    let status ← mapPages K map 0x400000 (0x400000 + pageSize) (v2p page) (pteP ||| pteW ||| pteU)
    if status then
      return some page
    else
      kfree K page
      freeVm K map
      return none
  else
    return none

def setupUvm (map start size : Nat) : RamM Bool := do
  match ← mapUserPage K map with
  | some page =>
      kmemcpy page start size
      return true
  | none => return false

def copyUvm (dstMap srcMap size : Nat) : RamM Bool := do
  match ← mapUserPage K dstMap with
  | some page =>
      let pd ← findPdptEntry K srcMap 0x400000 0 0
      if pd = 0 then
        freeVm K dstMap
        return false
      else
        let index := (0x400000 >>> 21) &&& 0x1FF
        let e ← kload (pd + 8 * index) 8
        assertMem (e &&& pteP = 1) 408
        kmemcpy page (p2v (pteAddr e)) size
        return true
  | none => return false

end Os64
