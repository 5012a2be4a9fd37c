/-
  The lookups of file.c change nothing: the volume's parameters, the search for a file,
  the search for a free descriptor, and reading the bytes behind a user pointer.
-/
import Os64.Kernel.Syscall
import Os64.Mem.Pages

namespace Os64

open Os64.Lib

/-! ## Lifting -/

theorem reads_ram {α : Type} {x : RamM α} (h : Reads x) : Reads (ram x) := reads_onPart (fun _ => rfl) h

theorem reads_low {α : Type} {x : LowM α} (h : Reads x) : Reads (low x) := reads_onPart (fun _ => rfl) h

theorem assertFile_ok {σ : Type} {c : Prop} [Decidable c] {line : Nat} {s s' : σ} {u : Unit} :
    assertFile c line s = .ok u s' ↔ c ∧ s' = s := ensure_ok

theorem assertFile_run {σ : Type} {c : Prop} [Decidable c] (h : c) (line : Nat) (s : σ) :
    assertFile c line s = .ok () s := ensure_run h _ s

/-! ## The volume -/

theorem reads_getFsBpb : Reads getFsBpb := (reads_kload _ _).bind fun _ => reads_pure _

theorem reads_getFatTable : Reads getFatTable :=
  reads_getFsBpb.bind fun _ => (reads_kload _ _).bind fun _ => (reads_kload _ _).bind fun _ =>
    reads_pure _

theorem reads_getClusterValue (i : Nat) : Reads (getClusterValue i) :=
  reads_getFatTable.bind fun _ => reads_kload _ _

theorem reads_getClusterSize : Reads getClusterSize :=
  reads_getFsBpb.bind fun _ => (reads_kload _ _).bind fun _ => (reads_kload _ _).bind fun _ =>
    reads_pure _

theorem reads_getClusterOffset (i : Nat) : Reads (getClusterOffset i) :=
  (reads_ensure _ _).bind fun _ => reads_getFsBpb.bind fun _ => (reads_kload _ _).bind fun _ =>
    (reads_kload _ _).bind fun _ => (reads_kload _ _).bind fun _ => (reads_kload _ _).bind fun _ =>
      (reads_kload _ _).bind fun _ => (reads_kload _ _).bind fun _ => reads_pure _

theorem reads_getRootDirectoryCount : Reads getRootDirectoryCount :=
  reads_getFsBpb.bind fun _ => reads_kload _ _

theorem reads_getRootDirectory : Reads getRootDirectory :=
  reads_getFsBpb.bind fun _ => (reads_kload _ _).bind fun _ => (reads_kload _ _).bind fun _ =>
    (reads_kload _ _).bind fun _ => (reads_kload _ _).bind fun _ => reads_pure _

theorem reads_skipClusters : ∀ n i, Reads (skipClusters n i)
  | 0, _ => reads_pure _
  | n + 1, _ => (reads_getClusterValue _).bind fun _ => (reads_ensure _ _).bind fun _ =>
      reads_skipClusters n _

/-! ## User pointers -/

theorem reads_loadVirt (va : Nat) : Reads (loadVirt va) := by
  unfold loadVirt
  refine reads_get.bind fun s => ?_
  split
  · exact reads_pure _
  · exact reads_throw _

theorem reads_loadVirtN : ∀ va n, Reads (loadVirtN va n)
  | _, 0 => reads_pure _
  | _, n + 1 => (reads_loadVirt _).bind fun _ => (reads_loadVirtN _ n).bind fun _ => reads_pure _

theorem reads_arg (argptr k : Nat) : Reads (arg argptr k) := reads_loadVirtN _ _

/-! ## Searching -/

theorem reads_splitName (path : Nat) : ∀ n i name, Reads (splitName path n i name)
  | 0, _, _ => reads_pure _
  | n + 1, _, _ => (reads_loadVirt _).bind fun _ => reads_ite (reads_pure _)
      (reads_ite (reads_pure _) (reads_splitName path n _ _))

theorem reads_splitExt (path : Nat) : ∀ n i j ext, Reads (splitExt path n i j ext)
  | 0, _, _, _ => reads_pure _
  | n + 1, _, _, _ => (reads_loadVirt _).bind fun _ => reads_ite (reads_pure _)
      (reads_ite (reads_pure _) (reads_splitExt path n _ _ _))

theorem reads_splitEnd (path i : Nat) (name ext : List UInt8) : Reads (splitEnd path i name ext) :=
  (reads_loadVirt _).bind fun _ => reads_pure _

theorem reads_splitPath (path : Nat) : Reads (splitPath path) := by
  unfold splitPath
  refine (reads_splitName _ _ _ _).bind fun r => ?_
  cases r with
  | none => exact reads_pure _
  | some p =>
      refine (reads_loadVirt _).bind fun c => reads_ite ?_ (reads_splitEnd _ _ _ _)
      refine (reads_splitExt _ _ _ _ _).bind fun r => ?_
      cases r with
      | none => exact reads_pure _
      | some q => exact reads_splitEnd _ _ _ _

theorem reads_isFileNameEqual (dirEntry : Nat) (name ext : List UInt8) :
    Reads (isFileNameEqual dirEntry name ext) := by
  have hbytes : ∀ v n, Reads (kbytes v n) := fun v n =>
    (reads_ensure _ _).bind fun _ => reads_get.bind fun _ => reads_pure _
  exact (hbytes _ _).bind fun _ => (hbytes _ _).bind fun _ => reads_pure _

theorem reads_searchLoop (dirEntry : Nat) (name ext : List UInt8) :
    ∀ n i, Reads (searchLoop dirEntry name ext n i)
  | 0, _ => reads_pure _
  | n + 1, i => by
      have ih := reads_searchLoop dirEntry name ext n (i + 1)
      exact (reads_kload _ _).bind fun _ => reads_ite ih ((reads_kload _ _).bind fun _ =>
        reads_ite ih ((reads_isFileNameEqual _ _ _).bind fun _ => reads_ite (reads_pure _) ih))

theorem reads_searchFile (path : Nat) : Reads (searchFile path) := by
  unfold searchFile
  refine (reads_splitPath path).bind fun r => ?_
  cases r with
  | none => exact reads_pure _
  | some p => exact (reads_ram reads_getRootDirectoryCount).bind fun _ =>
      (reads_ram reads_getRootDirectory).bind fun _ => reads_ram (reads_searchLoop _ _ _ _ _)

theorem reads_fileAt (proc : Slot) (fd : Int) : Reads (fileAt proc fd) := by
  refine reads_get.bind fun s => ?_
  split
  · exact reads_pure _
  · exact reads_throw _

theorem reads_getFileSize (proc : Slot) (fd : Int) : Reads (getFileSize proc fd) :=
  (reads_fileAt _ _).bind fun _ => (reads_ram (reads_kload _ _)).bind fun _ =>
    reads_ram (reads_kload _ _)

/-! ## What the searches find -/

/-- The index that the directory search returns is one of the entries searched. -/
theorem searchLoop_range {dirEntry : Nat} {name ext : List UInt8} :
    ∀ (n i : Nat) (r r' : Ram) (v : Nat), searchLoop dirEntry name ext n i r = .ok v r' →
      v = 0xffffffff ∨ i ≤ v ∧ v < i + n := by
  intro n
  induction n with
  | zero =>
      intro i r r' v h
      cases h
      exact Or.inl rfl
  | succ n ih =>
      intro i r r' v h
      have hnext : ∀ {r₁ : Ram}, searchLoop dirEntry name ext n (i + 1) r₁ = .ok v r' →
          v = 0xffffffff ∨ i ≤ v ∧ v < i + (n + 1) := fun h =>
        (ih (i + 1) _ _ v h).imp id fun h => by omega
      obtain ⟨first, r₁, -, h⟩ := bind_ok.mp h
      split at h
      · exact hnext h
      · obtain ⟨attributes, r₂, -, h⟩ := bind_ok.mp h
        split at h
        · exact hnext h
        · obtain ⟨equal, r₃, -, h⟩ := bind_ok.mp h
          split at h
          · cases h
            exact Or.inr ⟨Nat.le_refl _, by omega⟩
          · exact hnext h

theorem kload_lt {v n x : Nat} {r r' : Ram} (h : kload v n r = .ok x r') : x < 256 ^ n := by
  unfold kload at h
  obtain ⟨_, _, -, h⟩ := bind_ok.mp h
  cases h
  exact load_lt _ _ _

/-- A file that is found has a directory index. -/
theorem searchFile_range {path v : Nat} {s s' : Kernel} (h : searchFile path s = .ok v s')
    (hv : v ≠ 0xffffffff) : v < 65535 := by
  unfold searchFile at h
  obtain ⟨r, s₁, -, h⟩ := bind_ok.mp h
  cases r with
  | none =>
      cases h
      exact absurd rfl hv
  | some p =>
      obtain ⟨count, s₂, hcount, h⟩ := bind_ok.mp h
      obtain ⟨dir, s₃, -, h⟩ := bind_ok.mp h
      obtain ⟨r₁, hcount, -⟩ := onPart_ok.mp hcount
      obtain ⟨bpb, r₂, -, hcount⟩ := bind_ok.mp hcount
      have hlt := kload_lt hcount
      obtain ⟨r₃, h, -⟩ := onPart_ok.mp h
      rcases searchLoop_range _ _ _ _ _ h with h | h
      · exact absurd h hv
      · omega

/-- The free descriptor that is found. -/
theorem findFileDesc_ok {table : Nat} : ∀ (n i : Nat) (r r' : Ram) (d : Nat),
    findFileDesc table n i r = .ok (some d) r' →
      i ≤ d ∧ d < i + n ∧ kload (descFcb (table + fileDescSize * d)) 8 r = .ok 0 r := by
  intro n
  induction n with
  | zero => exact fun i r r' d h => by cases h
  | succ n ih =>
      intro i r r' d h
      obtain ⟨fcb, r₁, hload, hrest⟩ := bind_ok.mp h
      have hr := (reads_kload _ _).ok hload
      rw [hr] at hload hrest
      split at hrest
      · rename_i hz
        obtain rfl : i = d := Option.some.inj (EStateM.Result.ok.inj hrest).1
        rw [hz] at hload
        exact ⟨Nat.le_refl _, by omega, hload⟩
      · obtain ⟨h1, h2, h3⟩ := ih (i + 1) _ _ d hrest
        exact ⟨by omega, by omega, h3⟩

end Os64
