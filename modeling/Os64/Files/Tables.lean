/-
  The tables of file.c as a two-level sharing structure.

  A holder is a process with a descriptor number, a handle an entry of
  `file_desc_table`, an object an entry of `fcb_table`. `FileRep m F D file S`: with
  the tables in the pages `F` and `D` of memory `m`, the pointers `file` of the
  processes and the entries of the tables represent `S`.

  Each store to a table changes one component of `S` (`FileRep.setObject` and its
  companions), and from them follow `release_run`, `retain_run` and `getFcb_ends`, the
  pieces that `open_file`, `close_file`, `fork` and `wait` are made of.
-/
import Os64.Lib.Sharing
import Os64.Kernel.Process
import Os64.Mem.Pages

namespace Os64

open Os64.Lib

variable {K : Image}

/-- A descriptor number of a process. -/
abbrev Holder := Slot × Fin 100

abbrev Handles := Sharing Holder Nat Nat

/-- How many descriptors the table has. -/
def descLimit : Nat := pageSize / fileDescSize

theorem descLimit_eq : descLimit = 131072 := rfl

/-- A bound on directory indices. -/
def fcbLimit : Nat := 65536

def descPtr (D : Nat) : Option Nat → Nat
  | none => 0
  | some d => p2v D + fileDescSize * d

def fcbPtr (F : Nat) : Option Nat → Nat
  | none => 0
  | some c => p2v F + fcbSize * c

structure FileRep (m : Mem) (F D : Nat) (file : Slot → Fin 100 → Nat) (S : Handles) : Prop where
  held : ∀ i fd, file i fd = descPtr D (S.held (i, fd))
  heldLt : ∀ h d, S.held h = some d → d < descLimit
  object : ∀ d < descLimit, load m (D + fileDescSize * d) 8 = fcbPtr F (S.object d)
  objectLt : ∀ d c, S.object d = some c → d < descLimit ∧ c < fcbLimit
  count : ∀ d < descLimit, load m (D + fileDescSize * d + 12) 4 = S.handleCount d
  fcount : ∀ c < fcbLimit, load m (F + fcbSize * c + 24) 4 = S.objectCount c

/-- Two different pages for the tables. -/
structure TablePages (K : Image) (F D : Nat) : Prop where
  fcb : ValidPage K F
  desc : ValidPage K D
  ne : F ≠ D

theorem TablePages.apart {F D : Nat} (h : TablePages K F D) :
    F + pageSize ≤ D ∨ D + pageSize ≤ F := by
  have h1 := h.fcb.aligned
  have h2 := h.desc.aligned
  have h3 := h.ne
  rw [pageSize_eq] at *
  omega

/-- Memory changed in the tables only, in the counts and in the links from descriptors to
    control blocks. -/
structure Counted (F D : Nat) (r r' : Ram) : Prop where
  wrote : Wrote [F, D] r r'
  position : ∀ d < descLimit, ∀ k < 4,
    r'.mem (D + fileDescSize * d + 8 + k) = r.mem (D + fileDescSize * d + 8 + k)
  info : ∀ c < fcbLimit, ∀ k < 24, r'.mem (F + fcbSize * c + k) = r.mem (F + fcbSize * c + k)

namespace Counted

variable {F D : Nat} {r r' r'' : Ram}

theorem refl (F D : Nat) (r : Ram) : Counted F D r r :=
  ⟨.refl _ r, fun _ _ _ _ => rfl, fun _ _ _ _ => rfl⟩

theorem trans (h : Counted F D r r') (h' : Counted F D r' r'') : Counted F D r r'' :=
  ⟨h.wrote.trans h'.wrote, fun d hd k hk => (h'.position d hd k hk).trans (h.position d hd k hk),
    fun c hc k hk => (h'.info c hc k hk).trans (h.info c hc k hk)⟩

end Counted

section Counted

variable {F D : Nat} {r : Ram}

/-- A store to the count of a control block. -/
theorem counted_fcb (hp : TablePages K F D) {c : Nat} (hc : c < fcbLimit) (r : Ram) (x : Nat) :
    Counted F D r { r with mem := store r.mem (F + fcbSize * c + 24) 4 x } := by
  have hap := hp.apart
  unfold fcbLimit at hc
  rw [pageSize_eq] at hap
  refine ⟨(wrote_store r x (p := F) (by omega) ?_).mono (by simp), fun d hd k hk => ?_,
    fun c' hc' k hk => ?_⟩
  · rw [pageSize_eq]
    unfold fcbSize
    omega
  · rw [descLimit_eq] at hd
    refine store_of_outside r.mem _ 4 x ?_
    unfold fcbSize fileDescSize
    omega
  · refine store_of_outside r.mem _ 4 x ?_
    unfold fcbSize
    omega

/-- A store to the link or the count of a descriptor. -/
theorem counted_desc (hp : TablePages K F D) {d : Nat} (hd : d < descLimit) {o n : Nat}
    (ho : o + n ≤ 8 ∨ 12 ≤ o ∧ o + n ≤ 16) (r : Ram) (x : Nat) :
    Counted F D r { r with mem := store r.mem (D + fileDescSize * d + o) n x } := by
  have hap := hp.apart
  rw [descLimit_eq] at hd
  rw [pageSize_eq] at hap
  refine ⟨(wrote_store r x (p := D) (by omega) ?_).mono (by simp), fun d' hd' k hk => ?_,
    fun c hc k hk => ?_⟩
  · rw [pageSize_eq]
    unfold fileDescSize
    omega
  · refine store_of_outside r.mem _ n x ?_
    unfold fileDescSize
    omega
  · unfold fcbLimit at hc
    refine store_of_outside r.mem _ n x ?_
    unfold fcbSize fileDescSize
    omega

end Counted

/-! ## Stores to the tables -/

namespace FileRep

variable {m m' : Mem} {F D : Nat} {file : Slot → Fin 100 → Nat} {S : Handles} {c d x : Nat}

/-- Memory that differs outside the counted fields only. -/
theorem congr (h : FileRep m F D file S)
    (hd : ∀ d < descLimit, load m' (D + fileDescSize * d) 8 = load m (D + fileDescSize * d) 8)
    (hc : ∀ d < descLimit,
      load m' (D + fileDescSize * d + 12) 4 = load m (D + fileDescSize * d + 12) 4)
    (hf : ∀ c < fcbLimit, load m' (F + fcbSize * c + 24) 4 = load m (F + fcbSize * c + 24) 4) :
    FileRep m' F D file S :=
  ⟨h.held, h.heldLt, fun d hlt => (hd d hlt).trans (h.object d hlt), h.objectLt,
    fun d hlt => (hc d hlt).trans (h.count d hlt), fun c hlt => (hf c hlt).trans (h.fcount c hlt)⟩

/-- Other pages do not matter. -/
theorem off {P : List Nat} (h : FileRep m F D file S) (hp : TablePages K F D)
    (hm : AgreeOff P m m') (hP : ∀ p ∈ P, p % pageSize = 0 ∧ p ≠ F ∧ p ≠ D) :
    FileRep m' F D file S := by
  have hal : ∀ p ∈ P, p % pageSize = 0 := fun p hpm => (hP p hpm).1
  refine h.congr (fun d hlt => ?_) (fun d hlt => ?_) fun c hlt => ?_
  · refine hm.load_eq hp.desc.aligned (fun hm' => (hP D hm').2.2 rfl) hal (by omega) ?_
    rw [descLimit_eq] at hlt
    rw [pageSize_eq]
    unfold fileDescSize
    omega
  · refine hm.load_eq hp.desc.aligned (fun hm' => (hP D hm').2.2 rfl) hal (by omega) ?_
    rw [descLimit_eq] at hlt
    rw [pageSize_eq]
    unfold fileDescSize
    omega
  · refine hm.load_eq hp.fcb.aligned (fun hm' => (hP F hm').2.1 rfl) hal (by omega) ?_
    unfold fcbLimit at hlt
    rw [pageSize_eq]
    unfold fcbSize
    omega

/-- Changes below offset 24 of a control block, which are not counted. -/
theorem setInfo (h : FileRep m F D file S) (hp : TablePages K F D) (hc : c < fcbLimit)
    (hm : ∀ x, x < F + fcbSize * c ∨ F + fcbSize * c + 24 ≤ x → m' x = m x) :
    FileRep m' F D file S := by
  have hap := hp.apart
  unfold fcbLimit at hc
  unfold fcbSize at hm
  refine h.congr (fun d hlt => ?_) (fun d hlt => ?_) fun c' hlt => ?_
  · refine load_congr fun x h1 h2 => hm x ?_
    rw [descLimit_eq] at hlt
    rw [pageSize_eq] at hap
    unfold fileDescSize at h1 h2
    omega
  · refine load_congr fun x h1 h2 => hm x ?_
    rw [descLimit_eq] at hlt
    rw [pageSize_eq] at hap
    unfold fileDescSize at h1 h2
    omega
  · refine load_congr fun x h1 h2 => hm x ?_
    unfold fcbSize at h1 h2
    omega

/-- A store to a descriptor's position. -/
theorem setPosition (h : FileRep m F D file S) (hp : TablePages K F D) (hd : d < descLimit)
    (x : Nat) : FileRep (store m (D + fileDescSize * d + 8) 4 x) F D file S := by
  have hap := hp.apart
  rw [descLimit_eq] at hd
  refine h.congr (fun d' hlt => ?_) (fun d' hlt => ?_) fun c hlt => ?_
  · refine load_store_of_disjoint m _ _ x ?_
    unfold fileDescSize
    omega
  · refine load_store_of_disjoint m _ _ x ?_
    unfold fileDescSize
    omega
  · refine load_store_of_disjoint m _ _ x ?_
    unfold fcbLimit at hlt
    rw [pageSize_eq] at hap
    unfold fileDescSize fcbSize
    omega

theorem setObjectCount (h : FileRep m F D file S) (hp : TablePages K F D) (hc : c < fcbLimit)
    (hx : x < 2 ^ 32) : FileRep (store m (F + fcbSize * c + 24) 4 x) F D file
      { S with objectCount := Function.update S.objectCount c x } := by
  have hap := hp.apart
  have hc' := hc
  unfold fcbLimit at hc
  refine ⟨h.held, h.heldLt, fun d hlt => ?_, h.objectLt, fun d hlt => ?_, fun c' hlt => ?_⟩
  · rw [← h.object d hlt]
    refine load_store_of_disjoint m _ _ x ?_
    rw [descLimit_eq] at hlt
    rw [pageSize_eq] at hap
    unfold fileDescSize fcbSize
    omega
  · rw [← h.count d hlt]
    refine load_store_of_disjoint m _ _ x ?_
    rw [descLimit_eq] at hlt
    rw [pageSize_eq] at hap
    unfold fileDescSize fcbSize
    omega
  · by_cases hcc : c' = c
    · subst hcc
      dsimp only
      rw [load_store_self, Function.update_self]
      exact Nat.mod_eq_of_lt (by omega)
    · dsimp only
      rw [Function.update_of_ne hcc, ← h.fcount c' hlt]
      refine load_store_of_disjoint m _ _ x ?_
      unfold fcbSize
      omega

theorem setHandleCount (h : FileRep m F D file S) (hp : TablePages K F D) (hd : d < descLimit)
    (hx : x < 2 ^ 32) : FileRep (store m (D + fileDescSize * d + 12) 4 x) F D file
      { S with handleCount := Function.update S.handleCount d x } := by
  have hap := hp.apart
  have hd' := hd
  rw [descLimit_eq] at hd
  refine ⟨h.held, h.heldLt, fun d' hlt => ?_, h.objectLt, fun d' hlt => ?_, fun c hlt => ?_⟩
  · rw [← h.object d' hlt]
    refine load_store_of_disjoint m _ _ x ?_
    unfold fileDescSize
    omega
  · by_cases hdd : d' = d
    · subst hdd
      dsimp only
      rw [load_store_self, Function.update_self]
      exact Nat.mod_eq_of_lt (by omega)
    · dsimp only
      rw [Function.update_of_ne hdd, ← h.count d' hlt]
      refine load_store_of_disjoint m _ _ x ?_
      unfold fileDescSize
      omega
  · rw [← h.fcount c hlt]
    refine load_store_of_disjoint m _ _ x ?_
    unfold fcbLimit at hlt
    rw [pageSize_eq] at hap
    unfold fileDescSize fcbSize
    omega

theorem setObject (h : FileRep m F D file S) (hp : TablePages K F D) (hd : d < descLimit)
    {o : Option Nat} (ho : ∀ c, o = some c → c < fcbLimit) :
    FileRep (store m (D + fileDescSize * d) 8 (fcbPtr F o)) F D file
      { S with object := Function.update S.object d o } := by
  have hap := hp.apart
  have hptr : fcbPtr F o < 256 ^ 8 := by
    cases o with
    | none =>
        change 0 < 256 ^ 8
        omega
    | some c =>
        have hc := ho c rfl
        have hb := hp.fcb.below
        unfold fcbPtr fcbSize
        unfold fcbLimit at hc
        dsimp only
        rw [hp.fcb.p2v_eq, kernelBase_eq]
        rw [pageSize_eq] at hb
        omega
  have hd' := hd
  rw [descLimit_eq] at hd
  refine ⟨h.held, h.heldLt, fun d' hlt => ?_, fun d' c hdc => ?_, fun d' hlt => ?_, fun c hlt => ?_⟩
  · by_cases hdd : d' = d
    · subst hdd
      dsimp only
      rw [load_store_self, Function.update_self]
      exact Nat.mod_eq_of_lt hptr
    · dsimp only
      rw [Function.update_of_ne hdd, ← h.object d' hlt]
      refine load_store_of_disjoint m _ _ _ ?_
      unfold fileDescSize
      omega
  · by_cases hdd : d' = d
    · subst hdd
      dsimp only at hdc
      rw [Function.update_self] at hdc
      exact ⟨hd', ho c hdc⟩
    · dsimp only at hdc
      rw [Function.update_of_ne hdd] at hdc
      exact h.objectLt d' c hdc
  · rw [← h.count d' hlt]
    refine load_store_of_disjoint m _ _ _ ?_
    unfold fileDescSize
    omega
  · rw [← h.fcount c hlt]
    refine load_store_of_disjoint m _ _ _ ?_
    unfold fcbLimit at hlt
    rw [pageSize_eq] at hap
    unfold fileDescSize fcbSize
    omega

/-- A process's pointer is set. -/
theorem setHeld (h : FileRep m F D file S) (i : Slot) (fd : Fin 100) {o : Option Nat}
    (ho : ∀ d, o = some d → d < descLimit) :
    FileRep m F D (Function.update file i (Function.update (file i) fd (descPtr D o)))
      { S with held := Function.update S.held (i, fd) o } := by
  refine ⟨fun j fd' => ?_, fun x d hxd => ?_, h.object, h.objectLt, h.count, h.fcount⟩
  · by_cases hj : j = i
    · subst hj
      by_cases hf : fd' = fd
      · subst hf
        simp
      · simp [hf, h.held]
    · simp [hj, h.held]
  · by_cases hx : x = (i, fd)
    · subst hx
      dsimp only at hxd
      rw [Function.update_self] at hxd
      exact ho d hxd
    · dsimp only at hxd
      rw [Function.update_of_ne hx] at hxd
      exact h.heldLt x d hxd

end FileRep

end Os64
