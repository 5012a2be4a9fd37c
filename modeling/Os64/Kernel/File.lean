/-
  file.c: the FAT16 image at `FS_BASE`, the file control blocks and the file
  descriptors.

  `fcb_table` and `file_desc_table` are arrays in pages of their own; an `FCB` has 28
  bytes and a `FileDesc` 16. The name and buffer pointers come from user programs and
  are followed through the current page map, byte by byte as `rep movsb` does.
-/
import Os64.Kernel.State

namespace Os64

open Os64.Lib

/-- An `ASSERT` of file.c. -/
def assertFile {σ : Type} (c : Prop) [Decidable c] (line : Nat) : EStateM Fault σ Unit :=
  ensure c (.assertion "file.c" line)

/-! ## The volume -/

def fsBase : Nat := 0x30000000

def entryEmpty : Nat := 0
def entryDeleted : Nat := 0xe5

/-- `sizeof(struct DirEntry)`, `sizeof(struct FCB)`, `sizeof(struct FileDesc)`. -/
def dirEntrySize : Nat := 32
def fcbSize : Nat := 28
def fileDescSize : Nat := 16

def getFsBpb : RamM Nat := do
  let lba ← kload (p2v fsBase + 0x1be + 8) 4
  return p2v (u32 (fsBase + u32 (lba * 512)))

/-- The fields of `struct BPB` that are read. -/
def bytesPerSector (p : Nat) : RamM Nat := kload (p + 11) 2
def sectorsPerCluster (p : Nat) : RamM Nat := kload (p + 13) 1
def reservedSectorCount (p : Nat) : RamM Nat := kload (p + 14) 2
def fatCount (p : Nat) : RamM Nat := kload (p + 16) 1
def rootEntryCount (p : Nat) : RamM Nat := kload (p + 17) 2
def sectorsPerFat (p : Nat) : RamM Nat := kload (p + 22) 2

def getFatTable : RamM Nat := do
  let p ← getFsBpb
  let reserved ← reservedSectorCount p
  let bytes ← bytesPerSector p
  return u64 (p + u32 (reserved * bytes))

def getClusterValue (clusterIndex : Nat) : RamM Nat := do
  let fatTable ← getFatTable
  kload (u64 (fatTable + 2 * clusterIndex)) 2

def getClusterSize : RamM Nat := do
  let p ← getFsBpb
  let bytes ← bytesPerSector p
  let sectors ← sectorsPerCluster p
  return u32 (bytes * sectors)

def getClusterOffset (index : Nat) : RamM Nat := do
  assertFile (2 ≤ index) 46
  let p ← getFsBpb
  let reserved ← reservedSectorCount p
  let bytes ← bytesPerSector p
  let fats ← fatCount p
  let perFat ← sectorsPerFat p
  let roots ← rootEntryCount p
  let sectors ← sectorsPerCluster p
  let resSize := u32 (reserved * bytes)
  let fatSize := u32 (fats * perFat * bytes)
  let dirSize := u32 (roots * dirEntrySize)
  return u32 (resSize + fatSize + dirSize + u32 ((index - 2) * u32 (sectors * bytes)))

def getRootDirectoryCount : RamM Nat := do
  let p ← getFsBpb
  rootEntryCount p

def getRootDirectory : RamM Nat := do
  let p ← getFsBpb
  let reserved ← reservedSectorCount p
  let fats ← fatCount p
  let perFat ← sectorsPerFat p
  let bytes ← bytesPerSector p
  return u64 (p + u32 ((reserved + fats * perFat) * bytes))

/-! ## Names -/

/-- The `n` bytes behind a kernel pointer. -/
def kbytes (v n : Nat) : RamM (List UInt8) := do
  ensure (KernelPtr v n) .exception
  let r ← get
  return (List.range n).map fun k => r.mem (v2p v + k)

def isFileNameEqual (dirEntry : Nat) (name ext : List UInt8) : RamM Bool := do
  let n ← kbytes dirEntry 8
  let e ← kbytes (dirEntry + 8) 3
  return n = name ∧ e = ext

/-- `'.'`, `'/'` and `' '`. -/
def charDot : UInt8 := 46
def charSlash : UInt8 := 47
def charBlank : UInt8 := 32

/-- The first loop of `split_path`, `n` rounds before `i = 8`: the index where it stops
    and the name, or `none` for the `return false` on a slash. -/
def splitName (path : Nat) : Nat → Nat → List UInt8 → LowM (Option (Nat × List UInt8))
  | 0, i, name => return some (i, name)
  | n + 1, i, name => do
      let c ← loadVirt (path + i)
      if c = charDot ∨ c = 0 then
        return some (i, name)
      else if c = charSlash then
        return none
      else
        splitName path n (i + 1) (name.set i c)

/-- The second loop of `split_path`, from `path[i]` into `ext[j]`. -/
def splitExt (path : Nat) : Nat → Nat → Nat → List UInt8 → LowM (Option (Nat × List UInt8))
  | 0, i, _, ext => return some (i, ext)
  | n + 1, i, j, ext => do
      let c ← loadVirt (path + i)
      if c = 0 then
        return some (i, ext)
      else if c = charSlash then
        return none
      else
        splitExt path n (i + 1) (j + 1) (ext.set j c)

/-- The end of `split_path`: nothing may follow. -/
def splitEnd (path i : Nat) (name ext : List UInt8) :
    LowM (Option (List UInt8 × List UInt8)) := do
  let c ← loadVirt (path + i)
  return if c ≠ 0 then none else some (name, ext)

/-- The name and extension of a path in blank-padded arrays; `none` where
    `split_path` returns false. -/
def splitPath (path : Nat) : LowM (Option (List UInt8 × List UInt8)) := do
  let ext := List.replicate 3 charBlank
  match ← splitName path 8 0 (List.replicate 8 charBlank) with
  | none => return none
  | some (i, name) =>
      let c ← loadVirt (path + i)
      if c = charDot then
        match ← splitExt path 3 (i + 1) 0 ext with
        | none => return none
        | some (i, ext) => splitEnd path i name ext
      else
        splitEnd path i name ext

/-- The loop of `search_file`, `n` entries before the end. -/
def searchLoop (dirEntry : Nat) (name ext : List UInt8) : Nat → Nat → RamM Nat
  | 0, _ => return 0xffffffff
  | n + 1, i => do
      let entry := u64 (dirEntry + dirEntrySize * i)
      let first ← kload entry 1
      if first = entryEmpty ∨ first = entryDeleted then
        searchLoop dirEntry name ext n (i + 1)
      else
        let attributes ← kload (entry + 11) 1
        if attributes = 0xf then
          searchLoop dirEntry name ext n (i + 1)
        else
          let equal ← isFileNameEqual entry name ext
          if equal then
            return i
          else
            searchLoop dirEntry name ext n (i + 1)

def searchFile (path : Nat) : LowM Nat := do
  match ← splitPath path with
  | none => return 0xffffffff
  | some (name, ext) =>
      let rootCount ← ram getRootDirectoryCount
      let dirEntry ← ram getRootDirectory
      ram (searchLoop dirEntry name ext rootCount 0)

/-! ## Control blocks and descriptors -/

/-- Fields of `struct FCB` and `struct FileDesc` at `p`. -/
def fcbClusterIndex (p : Nat) : Nat := p + 12
def fcbDirIndex (p : Nat) : Nat := p + 16
def fcbFileSize (p : Nat) : Nat := p + 20
def fcbCount (p : Nat) : Nat := p + 24
def descFcb (p : Nat) : Nat := p
def descPosition (p : Nat) : Nat := p + 8
def descCount (p : Nat) : Nat := p + 12

/-- Add to an `int` field. -/
def addField (field : Nat) (d : Int) : RamM Unit := do
  let c ← kload field 4
  kstore field 4 ((c + d : Int) % 2 ^ 32).toNat

def getFcb (fcbTable index : Nat) : RamM Nat := do
  let fcb := fcbTable + fcbSize * index
  let count ← kload (fcbCount fcb) 4
  if count = 0 then
    let dirTable ← getRootDirectory
    let entry := u64 (dirTable + dirEntrySize * index)
    kstore (fcbDirIndex fcb) 4 index
    let fileSize ← kload (entry + 28) 4
    kstore (fcbFileSize fcb) 4 fileSize
    let clusterIndex ← kload (entry + 26) 2
    kstore (fcbClusterIndex fcb) 4 clusterIndex
    kmemcpy fcb entry 8
    kmemcpy (fcb + 8) (entry + 8) 3
  addField (fcbCount fcb) 1
  return index

def putFcb (fcb : Nat) : RamM Unit := do
  let count ← kload (fcbCount fcb) 4
  assertFile (0 < i32 count) 169
  addField (fcbCount fcb) (-1)

/-- Give up one reference to a descriptor, as `close_file` and the loop of `wait` do;
    the last one clears its `fcb`. -/
def dropDesc (desc : Nat) : RamM Unit := do
  addField (descCount desc) (-1)
  let count ← kload (descCount desc) 4
  if count = 0 then
    kstore (descFcb desc) 8 0

/-- The first free descriptor at or after `i`, `n` before the end of the page. -/
def findFileDesc (table : Nat) : Nat → Nat → RamM (Option Nat)
  | 0, _ => return none
  | n + 1, i => do
      let fcb ← kload (descFcb (table + fileDescSize * i)) 8
      if fcb = 0 then
        return some i
      else
        findFileDesc table n (i + 1)

def openFile (proc : Slot) (pathName : Nat) : LowM Int := do
  let s ← get
  match (List.finRange 100).find? fun i => (s.processTable proc).file i = 0 with
  | none => return -1
  | some fd =>
      match ← ram (findFileDesc s.fileDescTable (pageSize / fileDescSize) 0) with
      | none => return -1
      | some fileDescIndex =>
          let entryIndex ← searchFile pathName
          if entryIndex = 0xffffffff then
            return -1
          else
            let fcbIndex ← ram (getFcb s.fcbTable entryIndex)
            let desc := s.fileDescTable + fileDescSize * fileDescIndex
            ram (kmemset desc 0 fileDescSize)
            ram (kstore (descFcb desc) 8 (s.fcbTable + fcbSize * fcbIndex))
            ram (kstore (descCount desc) 4 1)
            setProcess proc fun p => { p with file := Function.update p.file fd desc }
            return fd.val

/-- `proc->file[fd]`. There is no check of `fd`: outside the array C gives the access no
    meaning. The compiled code takes the fields of `struct Process` and the table that lie
    there for a pointer, and goes on; `undefined` stands for all that. -/
def fileAt (proc : Slot) (fd : Int) : LowM Nat := do
  let s ← get
  if h : 0 ≤ fd ∧ fd < 100 then
    return (s.processTable proc).file ⟨fd.toNat, by omega⟩
  else
    throw .undefined

/-! ## Reading -/

section Reading

variable (K : Image)

/-- `memcpy` through virtual pointers: upwards, or downwards when the destination
    begins inside the source. `supplied` marks a destination that came from a user
    program. -/
def memcpyVirt (supplied : Bool) (dst src size : Nat) : LowM Unit := do
  let order := if dst ≤ src ∨ u64 (src + size) ≤ dst then List.range size else (List.range size).reverse
  forM order fun k => do
    let b ← loadVirt (src + k)
    if supplied then
      observe (.stored (u64 (dst + k)))
    storeVirt K (dst + k) b

/-- Follow the chain over `n` clusters. -/
def skipClusters : Nat → Nat → RamM Nat
  | 0, index => return index
  | n + 1, index => do
      let index ← getClusterValue index
      assertFile (index < 0xfff7) 227
      skipClusters n index

/-- The `while` of `read_raw_data`. The destination moves up with every round, so it
    leaves mapped memory long before the rounds run out. -/
def readClusters (supplied : Bool) (bpb clusterSize size : Nat) :
    Nat → Nat → Nat → Nat → LowM Nat
  | 0, _, _, _ => throw .divergence
  | fuel + 1, index, buffer, readSize => do
      if readSize < size ∧ index < 0xfff7 then
        let offset ← ram (getClusterOffset index)
        let data := u64 (bpb + offset)
        if size ≤ u32 (readSize + clusterSize) then
          memcpyVirt K supplied buffer data (size - readSize)
          return size
        else
          memcpyVirt K supplied buffer data clusterSize
          let index ← ram (getClusterValue index)
          readClusters supplied bpb clusterSize size fuel index (u64 (buffer + clusterSize))
            (u32 (readSize + clusterSize))
      else
        return readSize

def readRawData (supplied : Bool) (clusterIndex buffer position size : Nat) : LowM Nat := do
  let clusterSize ← ram getClusterSize
  ensure (clusterSize ≠ 0) .exception
  let count := position / clusterSize
  let offset := position % clusterSize
  let index ← ram (skipClusters count clusterIndex)
  let bpb ← ram getFsBpb
  if offset ≠ 0 then
    let readSize := if u32 (offset + size) ≤ clusterSize then size else clusterSize - offset
    let start ← ram (getClusterOffset index)
    memcpyVirt K supplied buffer (u64 (bpb + start + offset)) readSize
    let index ← ram (getClusterValue index)
    readClusters K supplied bpb clusterSize size (2 ^ 32) index (u64 (buffer + readSize)) readSize
  else
    readClusters K supplied bpb clusterSize size (2 ^ 32) index buffer 0

def readFile (supplied : Bool) (proc : Slot) (fd : Int) (buffer size : Nat) : LowM Int := do
  let desc ← fileAt proc fd
  let position ← ram (kload (descPosition desc) 4)
  let fcb ← ram (kload (descFcb desc) 8)
  let fileSize ← ram (kload (fcbFileSize fcb) 4)
  if fileSize < u32 (position + size) then
    return -1
  else
    let clusterIndex ← ram (kload (fcbClusterIndex fcb) 4)
    let readSize ← readRawData K supplied clusterIndex buffer position size
    ram (addField (descPosition desc) readSize)
    return i32 readSize

def closeFile (proc : Slot) (fd : Int) : LowM Unit := do
  let desc ← fileAt proc fd
  let fcb ← ram (kload (descFcb desc) 8)
  ram (putFcb fcb)
  ram (dropDesc desc)
  setProcess proc fun p =>
    { p with file := fun i => if (i.val : Int) = fd then 0 else p.file i }

def getFileSize (proc : Slot) (fd : Int) : LowM Nat := do
  let desc ← fileAt proc fd
  let fcb ← ram (kload (descFcb desc) 8)
  ram (kload (fcbFileSize fcb) 4)

def readRootDirectory (buffer : Nat) : LowM Int := do
  let dirEntry ← ram getRootDirectory
  let count ← ram getRootDirectoryCount
  memcpyVirt K true buffer dirEntry (count * dirEntrySize)
  return count

end Reading

end Os64
