/-
  What an operation leaves of the open files.

  * `TablesSame s s'`: the tables of file.c and the image of the volume are as they were.
  * `Settled R s s'`: descriptors may be given up and counts change, and the positions of the
    descriptors `R`; nothing is opened.
  * `Kept R s s'`: besides, something may be opened, from the directory of the volume.
  * `Opens.kept`, `RowChange.settled`: `open_file`, and the closing and sharing of descriptors.
-/
import Os64.Files.Open

namespace Os64

open Os64.Lib

variable {K : Image}

/-! ## The fields of the tables -/

/-- The control block that descriptor `d` points at, and its position. -/
def Kernel.descLink (s : Kernel) (d : Nat) : Nat :=
  load s.ram.mem (v2p s.fileDescTable + fileDescSize * d) 8

def Kernel.descPos (s : Kernel) (d : Nat) : Nat :=
  load s.ram.mem (v2p s.fileDescTable + fileDescSize * d + 8) 4

def Kernel.descCount (s : Kernel) (d : Nat) : Nat :=
  load s.ram.mem (v2p s.fileDescTable + fileDescSize * d + 12) 4

/-- Size, first cluster and count of control block `c`. -/
def Kernel.blockSize (s : Kernel) (c : Nat) : Nat :=
  load s.ram.mem (v2p s.fcbTable + fcbSize * c + 20) 4

def Kernel.blockCluster (s : Kernel) (c : Nat) : Nat :=
  load s.ram.mem (v2p s.fcbTable + fcbSize * c + 12) 4

def Kernel.blockCount (s : Kernel) (c : Nat) : Nat :=
  load s.ram.mem (v2p s.fcbTable + fcbSize * c + 24) 4

structure TablesSame (s s' : Kernel) : Prop where
  fcbTable : s'.fcbTable = s.fcbTable
  fileDescTable : s'.fileDescTable = s.fileDescTable
  tables : ∀ p ∈ s.tablePages, ∀ x, InPage p x → s'.ram.mem x = s.ram.mem x
  image : ∀ x, fsBase ≤ x → s'.ram.mem x = s.ram.mem x

/-- Nothing was opened, and only the descriptors `R` moved. -/
structure Settled (R : Nat → Prop) (s s' : Kernel) : Prop where
  fcbTable : s'.fcbTable = s.fcbTable
  fileDescTable : s'.fileDescTable = s.fileDescTable
  image : ∀ x, fsBase ≤ x → s'.ram.mem x = s.ram.mem x
  link : ∀ d < descLimit, s'.descLink d = s.descLink d ∨ s'.descLink d = 0
  position : ∀ d < descLimit, ¬ R d → s'.descPos d = s.descPos d
  file : ∀ c < fcbLimit, s'.blockSize c = s.blockSize c ∧ s'.blockCluster c = s.blockCluster c
  used : ∀ c < fcbLimit, s'.blockCount c ≠ 0 → s.blockCount c ≠ 0

/-- What was open is as it was, but for the positions of `R`, or was given up; what is opened
    comes from the directory. -/
structure Kept (R : Nat → Prop) (s s' : Kernel) : Prop where
  fcbTable : s'.fcbTable = s.fcbTable
  fileDescTable : s'.fileDescTable = s.fileDescTable
  image : ∀ x, fsBase ≤ x → s'.ram.mem x = s.ram.mem x
  link : ∀ d < descLimit, s.descLink d ≠ 0 → s'.descLink d = s.descLink d ∨ s'.descLink d = 0
  position : ∀ d < descLimit, s.descLink d ≠ 0 → ¬ R d → s'.descPos d = s.descPos d
  file : ∀ c < fcbLimit, s.blockCount c ≠ 0 →
    s'.blockSize c = s.blockSize c ∧ s'.blockCluster c = s.blockCluster c
  entry : Mounted s.ram.mem → ∀ c < fcbLimit, s.blockCount c = 0 → s'.blockCount c ≠ 0 →
    s'.blockSize c = entrySize s.ram.mem c ∧ s'.blockCluster c = entryCluster s.ram.mem c

section Kept

variable {R R' : Nat → Prop} {s s₁ s' : Kernel}

theorem TablesSame.refl (s : Kernel) : TablesSame s s := ⟨rfl, rfl, fun _ _ _ _ => rfl, fun _ _ => rfl⟩

/-- The fields are those they were. -/
theorem TablesSame.desc (h : TablesSame s s') {d : Nat} (hd : d < descLimit) :
    s'.descLink d = s.descLink d ∧ s'.descPos d = s.descPos d := by
  have hend := desc_end (v2p s.fileDescTable) hd
  have hload : ∀ o n, o + n ≤ fileDescSize →
      load s'.ram.mem (v2p s.fileDescTable + fileDescSize * d + o) n =
        load s.ram.mem (v2p s.fileDescTable + fileDescSize * d + o) n := fun o n ho =>
    load_congr fun x h1 h2 => h.tables _ (List.mem_cons_of_mem _ List.mem_cons_self) x
      ⟨by omega, by omega⟩
  have hlink := hload 0 8 (by decide)
  rw [Nat.add_zero] at hlink
  unfold Kernel.descLink Kernel.descPos
  rw [h.fileDescTable]
  exact ⟨hlink, hload 8 4 (by decide)⟩

theorem TablesSame.block (h : TablesSame s s') {c : Nat} (hc : c < fcbLimit) :
    s'.blockSize c = s.blockSize c ∧ s'.blockCluster c = s.blockCluster c ∧
      s'.blockCount c = s.blockCount c := by
  have hend := fcb_end (v2p s.fcbTable) hc
  have hload : ∀ o n, o + n ≤ fcbSize →
      load s'.ram.mem (v2p s.fcbTable + fcbSize * c + o) n =
        load s.ram.mem (v2p s.fcbTable + fcbSize * c + o) n := fun o n ho =>
    load_congr fun x h1 h2 => h.tables _ List.mem_cons_self x ⟨by omega, by omega⟩
  unfold Kernel.blockSize Kernel.blockCluster Kernel.blockCount
  rw [h.fcbTable]
  exact ⟨hload 20 4 (by decide), hload 12 4 (by decide), hload 24 4 (by decide)⟩

theorem TablesSame.settled (h : TablesSame s s') : Settled R s s' where
  fcbTable := h.fcbTable
  fileDescTable := h.fileDescTable
  image := h.image
  link _ hd := Or.inl (h.desc hd).1
  position _ hd _ := (h.desc hd).2
  file _ hc := ⟨(h.block hc).1, (h.block hc).2.1⟩
  used _ hc hne := by
    rw [(h.block hc).2.2] at hne
    exact hne

theorem Settled.kept (h : Settled R s s') : Kept R s s' where
  fcbTable := h.fcbTable
  fileDescTable := h.fileDescTable
  image := h.image
  link d hd _ := h.link d hd
  position d hd _ := h.position d hd
  file c hc _ := h.file c hc
  entry _ c hc h0 hne := absurd h0 (h.used c hc hne)

theorem Settled.trans (h : Settled R s s₁) (h' : Settled R s₁ s') : Settled R s s' where
  fcbTable := h'.fcbTable.trans h.fcbTable
  fileDescTable := h'.fileDescTable.trans h.fileDescTable
  image x hx := (h'.image x hx).trans (h.image x hx)
  link d hd := by
    rcases h'.link d hd with he | h0
    · rw [he]
      exact h.link d hd
    · exact Or.inr h0
  position d hd hR := (h'.position d hd hR).trans (h.position d hd hR)
  file c hc := ⟨(h'.file c hc).1.trans (h.file c hc).1, (h'.file c hc).2.trans (h.file c hc).2⟩
  used c hc hne := h.used c hc (h'.used c hc hne)

theorem Settled.mono (h : Settled R s s') (hR : ∀ d, R d → R' d) : Settled R' s s' :=
  { h with position := fun d hd hno => h.position d hd fun hr => hno (hR d hr) }

theorem Kept.mono (h : Kept R s s') (hR : ∀ d, R d → R' d) : Kept R' s s' :=
  { h with position := fun d hd hl hno => h.position d hd hl fun hr => hno (hR d hr) }

/-- What comes after may move the descriptors that were not in use before. -/
theorem Kept.then_settled (h : Kept R s s₁) (h' : Settled R' s₁ s')
    (hR : ∀ d, R' d → R d ∨ s.descLink d = 0) : Kept R s s' where
  fcbTable := h'.fcbTable.trans h.fcbTable
  fileDescTable := h'.fileDescTable.trans h.fileDescTable
  image x hx := (h'.image x hx).trans (h.image x hx)
  link d hd hl := by
    rcases h'.link d hd with he | h0
    · rw [he]
      exact h.link d hd hl
    · exact Or.inr h0
  position d hd hl hno := by
    refine (h'.position d hd fun hr => ?_).trans (h.position d hd hl hno)
    rcases hR d hr with hr | h0
    · exact hno hr
    · exact hl h0
  file c hc hn := ⟨(h'.file c hc).1.trans (h.file c hc hn).1, (h'.file c hc).2.trans (h.file c hc hn).2⟩
  entry hm c hc h0 hne := by
    obtain ⟨hsize, hcluster⟩ := h.entry hm c hc h0 (h'.used c hc hne)
    exact ⟨(h'.file c hc).1.trans hsize, (h'.file c hc).2.trans hcluster⟩

theorem Kept.then_same (h : Kept R s s₁) (h' : TablesSame s₁ s') : Kept R s s' := by
  have hs : Settled (fun _ => False) s₁ s' := h'.settled
  exact h.then_settled hs nofun

/-- What comes before shows nothing of itself. -/
theorem TablesSame.then_kept (h : TablesSame s s₁) (h' : Kept R s₁ s') : Kept R s s' where
  fcbTable := h'.fcbTable.trans h.fcbTable
  fileDescTable := h'.fileDescTable.trans h.fileDescTable
  image x hx := (h'.image x hx).trans (h.image x hx)
  link d hd hl := by
    have hsame := (h.desc hd).1
    rw [← hsame] at hl ⊢
    exact h'.link d hd hl
  position d hd hl hno := by
    obtain ⟨hlink, hpos⟩ := h.desc hd
    rw [← hlink] at hl
    exact (h'.position d hd hl hno).trans hpos
  file c hc hn := by
    obtain ⟨hsize, hcluster, hcount⟩ := h.block hc
    rw [← hcount] at hn
    exact ⟨(h'.file c hc hn).1.trans hsize, (h'.file c hc hn).2.trans hcluster⟩
  entry hm c hc h0 hne := by
    obtain ⟨-, hsize, hcluster⟩ := entry_congr hm h.image c
    rw [← (h.block hc).2.2] at h0
    rw [← hsize, ← hcluster]
    exact h'.entry (hm.congr h.image) c hc h0 hne

end Kept

/-! ## The operations of file.c -/

section Operations

variable {pool free : List Nat} {s s' : Kernel} {S S' : Handles} {F D : Nat}

/-- Pages of the allocator lie below the image. -/
theorem AgreeOff.image {P : List Nat} {m m' : Mem} (h : AgreeOff P m m')
    (hP : ∀ p ∈ P, ValidPage K p) : ∀ x, fsBase ≤ x → m' x = m x := by
  intro x hx
  refine h x fun p hp hin => ?_
  have hbelow := (hP p hp).below
  unfold InPage at hin
  unfold fsBase at hx
  omega

/-- Other pages do not matter. -/
theorem MemOk.tablesSame {P : List Nat} (h : MemOk K pool free s) (hF : s'.fcbTable = s.fcbTable)
    (hD : s'.fileDescTable = s.fileDescTable) (hm : AgreeOff P s.ram.mem s'.ram.mem)
    (hP : ∀ p ∈ P, ValidPage K p ∧ p ∉ s.tablePages) : TablesSame s s' where
  fcbTable := hF
  fileDescTable := hD
  tables q hq x hx := by
    have hal : q % pageSize = 0 := by
      rcases List.mem_cons.mp hq with he | hq
      · rw [he]
        exact h.fcbValid.aligned
      · rw [List.mem_singleton.mp hq]
        exact h.descValid.aligned
    exact hm.page hal (fun hin => (hP q hin).2 hq) (fun p hp => (hP p hp).1.aligned) hx
  image := hm.image fun p hp => (hP p hp).1

theorem FilesOk.descLink (h : FilesOk s S) {d : Nat} (hd : d < descLimit) :
    s.descLink d = fcbPtr (v2p s.fcbTable) (S.object d) := h.rep.object d hd

theorem FilesOk.blockCount (h : FilesOk s S) {c : Nat} (hc : c < fcbLimit) :
    s.blockCount c = S.objectCount c := h.rep.fcount c hc

theorem FilesOk.descCount (h : FilesOk s S) {d : Nat} (hd : d < descLimit) :
    s.descCount d = S.handleCount d := h.rep.count d hd

/-- The pointers of the table are those of its entries. -/
theorem MemOk.descPtr_eq (h : MemOk K pool free s) (d : Nat) :
    descPtr (v2p s.fileDescTable) (some d) = s.fileDescTable + fileDescSize * d := by
  unfold descPtr
  dsimp only
  rw [← h.fileDescTable]

theorem MemOk.fcbPtr_eq (h : MemOk K pool free s) (c : Nat) :
    fcbPtr (v2p s.fcbTable) (some c) = s.fcbTable + fcbSize * c := by
  unfold fcbPtr
  dsimp only
  rw [← h.fcbTable]

theorem descPtr_eq_iff {D : Nat} (hD : p2v D ≠ 0) {o : Option Nat} {d : Nat} :
    descPtr D o = descPtr D (some d) ↔ o = some d := by
  constructor
  · intro he
    cases o with
    | none =>
        unfold descPtr at he
        dsimp only at he
        omega
    | some d' =>
        unfold descPtr fileDescSize at he
        dsimp only at he
        rw [show d' = d by omega]
  · rintro rfl
    rfl

theorem fcbPtr_eq_iff {F : Nat} (hF : p2v F ≠ 0) {o : Option Nat} {c : Nat} :
    fcbPtr F o = fcbPtr F (some c) ↔ o = some c := by
  constructor
  · intro he
    cases o with
    | none =>
        unfold fcbPtr at he
        dsimp only at he
        omega
    | some c' =>
        unfold fcbPtr fcbSize at he
        dsimp only at he
        rw [show c' = c by omega]
  · rintro rfl
    rfl

theorem fcbPtr_null (F : Nat) : fcbPtr F none = 0 := rfl

/-- Bytes of a field that did not change. -/
theorem load_bytes {m m' : Mem} {a n : Nat} (h : ∀ k < n, m' (a + k) = m (a + k)) :
    load m' a n = load m a n :=
  load_congr fun x h1 h2 => by
    have := h (x - a) (by omega)
    rw [Nat.add_sub_cancel' h1] at this
    exact this

theorem Opens.kept (h : FilesOk s S) (hm : MemOk K pool free s) {holder : Holder} {d c : Nat}
    (h' : FilesOk s' (S.opened holder d c)) (ho : Opens S d c s s') (hfree : S.object d = none)
    (hF : s'.fcbTable = s.fcbTable) (hD : s'.fileDescTable = s.fileDescTable) :
    Kept (fun _ => False) s s' where
  fcbTable := hF
  fileDescTable := hD
  image := ho.wrote.mem.image fun p hp => (hm.data (Kernel.tablePages_data hp)).1
  link d' hd' hl := by
    left
    rw [h'.descLink hd', h.descLink hd', hF]
    rw [h.descLink hd'] at hl
    have hne : d' ≠ d := by
      rintro rfl
      rw [hfree] at hl
      exact hl rfl
    rw [show (S.opened holder d c).object d' = S.object d' from Function.update_of_ne hne _ _]
  position d' hd' hl _ := by
    rw [h.descLink hd'] at hl
    have hne : d' ≠ d := by
      rintro rfl
      rw [hfree] at hl
      exact hl rfl
    unfold Kernel.descPos
    rw [hD]
    exact load_bytes (ho.position d' hd' hne)
  file c' hc' hn := by
    rw [h.blockCount hc'] at hn
    have hinfo := ho.info c' hc' (by
      by_cases hcc : c' = c
      · exact Or.inr (hcc ▸ hn)
      · exact Or.inl hcc)
    unfold Kernel.blockSize Kernel.blockCluster
    rw [hF]
    refine ⟨load_bytes fun k hk => ?_, load_bytes fun k hk => ?_⟩
    · rw [Nat.add_assoc]
      exact hinfo (20 + k) (by omega)
    · rw [Nat.add_assoc]
      exact hinfo (12 + k) (by omega)
  entry hmount c' hc' h0 hne := by
    rw [h.blockCount hc'] at h0
    rw [h'.blockCount hc'] at hne
    have hcc : c' = c := by
      by_contra hcc
      refine hne ?_
      rw [← h0]
      exact Function.update_of_ne hcc _ _
    subst hcc
    unfold Kernel.blockSize Kernel.blockCluster
    rw [hF]
    exact ho.entry hmount h0

/-- Counts went up or down, and descriptors were given up. -/
theorem Counted.settled (hp : TablePages K (v2p s.fcbTable) (v2p s.fileDescTable))
    (hF : s'.fcbTable = s.fcbTable) (hD : s'.fileDescTable = s.fileDescTable)
    {file file' : Slot → Fin 100 → Nat}
    (h : FileRep s.ram.mem (v2p s.fcbTable) (v2p s.fileDescTable) file S)
    (h' : FileRep s'.ram.mem (v2p s.fcbTable) (v2p s.fileDescTable) file' S')
    (hc : Counted (v2p s.fcbTable) (v2p s.fileDescTable) s.ram s'.ram)
    (hlink : ∀ d, S'.object d = S.object d ∨ S'.object d = none)
    (hused : ∀ c, S'.objectCount c ≠ 0 → S.objectCount c ≠ 0) :
    Settled (fun _ => False) s s' where
  fcbTable := hF
  fileDescTable := hD
  image := by
    refine hc.wrote.mem.image (K := K) fun p hpm => ?_
    rcases List.mem_cons.mp hpm with he | hpm
    · exact he ▸ hp.fcb
    · exact List.mem_singleton.mp hpm ▸ hp.desc
  link d hd := by
    unfold Kernel.descLink
    rw [hD, h'.object d hd, h.object d hd]
    rcases hlink d with he | h0
    · exact Or.inl (by rw [he])
    · exact Or.inr (by rw [h0, fcbPtr_null])
  position d hd _ := by
    unfold Kernel.descPos
    rw [hD]
    exact load_bytes (hc.position d hd)
  file c hcl := by
    have hinfo := hc.info c hcl
    unfold Kernel.blockSize Kernel.blockCluster
    rw [hF]
    refine ⟨load_bytes fun k hk => ?_, load_bytes fun k hk => ?_⟩
    · rw [Nat.add_assoc]
      exact hinfo (20 + k) (by omega)
    · rw [Nat.add_assoc]
      exact hinfo (12 + k) (by omega)
  used c hcl hne := by
    unfold Kernel.blockCount at hne ⊢
    rw [hF, h'.fcount c hcl] at hne
    rw [h.fcount c hcl]
    exact hused c hne

/-- A descriptor moved. -/
theorem settled_position (hp : TablePages K (v2p s.fcbTable) (v2p s.fileDescTable)) {d : Nat}
    (hd : d < descLimit) (x : Nat) : Settled (fun d' => d' = d) s { s with
      ram := { s.ram with mem := store s.ram.mem (v2p s.fileDescTable + fileDescSize * d + 8) 4 x } } := by
  have hap := hp.apart
  have hend := desc_end (v2p s.fileDescTable) hd
  have hother : ∀ a n, a + n ≤ v2p s.fileDescTable + fileDescSize * d + 8 ∨
      v2p s.fileDescTable + fileDescSize * d + 8 + 4 ≤ a →
      load (store s.ram.mem (v2p s.fileDescTable + fileDescSize * d + 8) 4 x) a n =
        load s.ram.mem a n := fun a n h => load_store_of_disjoint s.ram.mem _ 4 x h
  have hblock : ∀ c < fcbLimit, ∀ o n, o + n ≤ fcbSize →
      load (store s.ram.mem (v2p s.fileDescTable + fileDescSize * d + 8) 4 x)
        (v2p s.fcbTable + fcbSize * c + o) n = load s.ram.mem (v2p s.fcbTable + fcbSize * c + o) n := by
    intro c hc o n ho
    have hcend := fcb_end (v2p s.fcbTable) hc
    refine hother _ n ?_
    unfold fileDescSize at hend ⊢
    omega
  refine ⟨rfl, rfl, fun y hy => ?_, fun d' hd' => Or.inl (hother _ 8 ?_), fun d' hd' hne => hother _ 4 ?_,
    fun c hc => ⟨hblock c hc 20 4 (by decide), hblock c hc 12 4 (by decide)⟩, fun c hc hn => ?_⟩
  · have hbelow := hp.desc.below
    refine store_of_outside s.ram.mem _ 4 x (Or.inr ?_)
    unfold fileDescSize at hend ⊢
    unfold fsBase at hy
    omega
  · dsimp only
    unfold fileDescSize
    omega
  · dsimp only
    unfold fileDescSize
    omega
  · unfold Kernel.blockCount at hn ⊢
    rw [← hblock c hc 24 4 (by decide)]
    exact hn

end Operations

end Os64
