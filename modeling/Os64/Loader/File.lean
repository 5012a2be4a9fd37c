/-
  loader/file.c, loader/main.c: the loader's copy of the file system code, and what it loads.

  The functions that look a name up are the kernel's, line for line. They are written here over the
  accesses they make (`byte` for a character of the path, `load` and `bytes` for the volume), and
  the loader's are those functions at the loader's accesses. The loader maps the first GB of
  physical memory twice, at 0 and at `KERNEL_BASE`.
-/
import Os64.Kernel.File

namespace Os64.Loader

open Os64.Lib

/-! ## Names, over the accesses -/

section Names

variable {σ : Type} (byte : Nat → EStateM Fault σ UInt8) (load : Nat → Nat → EStateM Fault σ Nat)
  (bytes : Nat → Nat → EStateM Fault σ (List UInt8))

def isFileNameEqual (dirEntry : Nat) (name ext : List UInt8) : EStateM Fault σ Bool := do
  let n ← bytes dirEntry 8
  let e ← bytes (dirEntry + 8) 3
  return n = name ∧ e = ext

/-- The first loop of `split_path`. -/
def splitName (path : Nat) : Nat → Nat → List UInt8 → EStateM Fault σ (Option (Nat × List UInt8))
  | 0, i, name => return some (i, name)
  | n + 1, i, name => do
      let c ← byte (path + i)
      if c = charDot ∨ c = 0 then
        return some (i, name)
      else if c = charSlash then
        return none
      else
        splitName path n (i + 1) (name.set i c)

/-- The second loop of `split_path`. -/
def splitExt (path : Nat) :
    Nat → Nat → Nat → List UInt8 → EStateM Fault σ (Option (Nat × List UInt8))
  | 0, i, _, ext => return some (i, ext)
  | n + 1, i, j, ext => do
      let c ← byte (path + i)
      if c = 0 then
        return some (i, ext)
      else if c = charSlash then
        return none
      else
        splitExt path n (i + 1) (j + 1) (ext.set j c)

/-- The end of `split_path`. -/
def splitEnd (path i : Nat) (name ext : List UInt8) :
    EStateM Fault σ (Option (List UInt8 × List UInt8)) := do
  let c ← byte (path + i)
  return if c ≠ 0 then none else some (name, ext)

def splitPath (path : Nat) : EStateM Fault σ (Option (List UInt8 × List UInt8)) := do
  let ext := List.replicate 3 charBlank
  match ← splitName byte path 8 0 (List.replicate 8 charBlank) with
  | none => return none
  | some (i, name) =>
      let c ← byte (path + i)
      if c = charDot then
        match ← splitExt byte path 3 (i + 1) 0 ext with
        | none => return none
        | some (i, ext) => splitEnd byte path i name ext
      else
        splitEnd byte path i name ext

/-- The loop of `search_file`, `n` entries before the end. -/
def searchLoop (dirEntry : Nat) (name ext : List UInt8) : Nat → Nat → EStateM Fault σ Nat
  | 0, _ => return 0xffffffff
  | n + 1, i => do
      let entry := u64 (dirEntry + dirEntrySize * i)
      let first ← load entry 1
      if first = entryEmpty ∨ first = entryDeleted then
        searchLoop dirEntry name ext n (i + 1)
      else
        let attributes ← load (entry + 11) 1
        if attributes = 0xf then
          searchLoop dirEntry name ext n (i + 1)
        else
          let equal ← isFileNameEqual bytes entry name ext
          if equal then
            return i
          else
            searchLoop dirEntry name ext n (i + 1)

end Names

/-! ## The loader -/

/-- Programs of the loader, over physical memory. -/
abbrev LoaderM := EStateM Fault Mem

/-- A pointer to `n` bytes that the loader's page tables map. -/
def Ptr (v n : Nat) : Prop := v + n ≤ 0x40000000 ∨ KernelPtr v n

instance (v n : Nat) : Decidable (Ptr v n) := inferInstanceAs (Decidable (_ ∨ _))

def phys (v : Nat) : Nat := if v < 0x40000000 then v else v2p v

def lload (v n : Nat) : LoaderM Nat := do
  ensure (Ptr v n) .exception
  let m ← get
  return load m (phys v) n

def lbyte (v : Nat) : LoaderM UInt8 := do
  ensure (Ptr v 1) .exception
  let m ← get
  return m (phys v)

def lbytes (v n : Nat) : LoaderM (List UInt8) := do
  ensure (Ptr v n) .exception
  let m ← get
  return (List.range n).map fun k => m (phys v + k)

/-- Here `lba * 512` is reduced to 32 bits before the 64-bit sum. -/
def getFsBpb : LoaderM Nat := do
  let lba ← lload (fsBase + 0x1be + 8) 4
  return u64 (fsBase + u32 (lba * 512))

def getRootDirectoryCount : LoaderM Nat := do
  let p ← getFsBpb
  lload (p + 17) 2

def getRootDirectory : LoaderM Nat := do
  let p ← getFsBpb
  let reserved ← lload (p + 14) 2
  let fats ← lload (p + 16) 1
  let perFat ← lload (p + 22) 2
  let bytes ← lload (p + 11) 2
  return u64 (p + u32 ((reserved + fats * perFat) * bytes))

def searchFile (path : Nat) : LoaderM Nat := do
  match ← splitPath lbyte path with
  | none => return 0xffffffff
  | some (name, ext) =>
      let rootCount ← getRootDirectoryCount
      let dirEntry ← getRootDirectory
      searchLoop lload lbytes dirEntry name ext rootCount 0

/-! ## Clusters -/

def getFatTable : LoaderM Nat := do
  let p ← getFsBpb
  let reserved ← lload (p + 14) 2
  let bytes ← lload (p + 11) 2
  return u64 (p + u32 (reserved * bytes))

def getClusterValue (clusterIndex : Nat) : LoaderM Nat := do
  let fatTable ← getFatTable
  lload (u64 (fatTable + 2 * clusterIndex)) 2

def getClusterOffset (index : Nat) : LoaderM Nat := do
  assertFile (2 ≤ index) 36
  let p ← getFsBpb
  let reserved ← lload (p + 14) 2
  let bytes ← lload (p + 11) 2
  let fats ← lload (p + 16) 1
  let perFat ← lload (p + 22) 2
  let roots ← lload (p + 17) 2
  let sectors ← lload (p + 13) 1
  let resSize := u32 (reserved * bytes)
  let fatSize := u32 (fats * perFat * bytes)
  let dirSize := u32 (roots * dirEntrySize)
  return u32 (resSize + fatSize + dirSize + u32 ((index - 2) * u32 (sectors * bytes)))

def getClusterSize : LoaderM Nat := do
  let p ← getFsBpb
  let bytes ← lload (p + 11) 2
  let sectors ← lload (p + 13) 1
  return u32 (bytes * sectors)

/-! ## Loading -/

/-- `memcpy`. The last copy of a file may run past the memory that the loader maps. -/
def lmemcpy (dst src n : Nat) : LoaderM Unit := do
  ensure (n = 0 ∨ Ptr dst n ∧ Ptr src n) .exception
  modify fun m => copy m (phys dst) (phys src) n

/-- The loop of `read_raw_data`. It looks at the next cluster before it copies one, and leaves
    all the rest of the file to the last. -/
def readClusters (bpb clusterSize size : Nat) : Nat → Nat → Nat → Nat → LoaderM Nat
  | 0, _, _, _ => throw .divergence
  | fuel + 1, index, buffer, readSize => do
      if readSize < size then
        let offset ← getClusterOffset index
        let data := u64 (bpb + offset)
        let index ← getClusterValue index
        if 0xfff7 ≤ index then
          lmemcpy buffer data (size - readSize)
          return u32 (readSize + (size - readSize))
        else
          lmemcpy buffer data clusterSize
          readClusters bpb clusterSize size fuel index (u64 (buffer + clusterSize))
            (u32 (readSize + clusterSize))
      else
        return readSize

def readRawData (clusterIndex buffer size : Nat) : LoaderM Nat := do
  let bpb ← getFsBpb
  let clusterSize ← getClusterSize
  if clusterIndex < 2 then
    return 0xffffffff
  else
    readClusters bpb clusterSize size (2 ^ 32) clusterIndex buffer 0

def readFile (clusterIndex buffer size : Nat) : LoaderM Nat := readRawData clusterIndex buffer size

def loadFile (path addr : Nat) : LoaderM Int := do
  let index ← searchFile path
  if index ≠ 0xffffffff then
    let dirEntry ← getRootDirectory
    let entry := u64 (dirEntry + dirEntrySize * index)
    let fileSize ← lload (entry + 28) 4
    let clusterIndex ← lload (entry + 26) 2
    let readSize ← readFile clusterIndex addr fileSize
    return if readSize = fileSize then 0 else -1
  else
    return -1

/-- The message of a volume without its signature is not modelled. -/
def initFs : LoaderM Unit := do
  let p ← getFsBpb
  let first ← lload (p + 0x1fe) 1
  let second ← lload (p + 0x1ff) 1
  assertFile (¬ (first ≠ 0x55 ∨ second ≠ 0xaa)) 216

/-- `EMain`; the arguments are the addresses of its two string literals. -/
def eMain (kernelBin userBin : Nat) : LoaderM Unit := do
  initFs
  let kernel ← loadFile kernelBin 0x200000
  ensure (kernel = 0) (.assertion "main.c" 9)
  let user ← loadFile userBin 0x30000
  ensure (user = 0) (.assertion "main.c" 10)

end Os64.Loader
