/-
  The counting code of file.c, process.c and its effect on the sharing structure.

  * `retain_run`: one round of the loop of `fork`.
  * `release_run`: the part that `close_file` and the loop of `wait` share.
  * `getFcb_ends`, `findFileDesc_ends`: the two lookups of `open_file`.
-/
import Mathlib.Data.Fintype.Prod
import Os64.Files.Tables

namespace Os64

open Os64.Lib

variable {K : Image}

/-- Adding to an `int` field in a page of the allocator. -/
theorem addField_run {p a v : Nat} (h : ValidPage K p) (h2 : a + 4 ≤ p + pageSize)
    (hv : v = a + kernelBase) (δ : Int) (r : Ram) :
    addField v δ r = .ok () { r with
      mem := store r.mem a 4 ((load r.mem a 4 + δ : Int) % 2 ^ 32).toNat } := by
  unfold addField
  rw [bind_run (kload_page h h2 (by omega) hv r), kstore_page h h2 (by omega) hv]

section Counts

variable {r : Ram} {F D : Nat} {file : Slot → Fin 100 → Nat} {S : Handles} {c d : Nat}

/-- The tables fit into their pages. -/
theorem desc_end (D : Nat) (hd : d < descLimit) :
    D + fileDescSize * d + fileDescSize ≤ D + pageSize := by
  rw [descLimit_eq] at hd
  rw [pageSize_eq]
  unfold fileDescSize
  omega

theorem fcb_end (F : Nat) (hc : c < fcbLimit) :
    F + fcbSize * c + fcbSize ≤ F + pageSize := by
  unfold fcbLimit at hc
  rw [pageSize_eq]
  unfold fcbSize
  omega

/-- Add to the count of a control block. -/
theorem addFcbCount_run (rep : FileRep r.mem F D file S) (hp : TablePages K F D)
    (hc : c < fcbLimit) {δ : Int} {x : Nat} (hx : ((S.objectCount c + δ : Int) % 2 ^ 32).toNat = x)
    (hlt : x < 2 ^ 32) :
    ∃ r', addField (fcbCount (fcbPtr F (some c))) δ r = .ok () r' ∧
      FileRep r'.mem F D file { S with objectCount := Function.update S.objectCount c x } ∧
      Counted F D r r' := by
  have hat := fcb_end F hc
  have hend : F + fcbSize * c + 24 + 4 ≤ F + pageSize := by
    unfold fcbSize at *
    omega
  refine ⟨_, addField_run hp.fcb (a := F + fcbSize * c + 24) hend ?_ δ r, ?_, ?_⟩
  · unfold fcbCount fcbPtr
    dsimp only
    rw [hp.fcb.p2v_eq]
    omega
  · rw [rep.fcount c hc, hx]
    exact rep.setObjectCount hp hc hlt
  · exact counted_fcb hp hc r _

theorem addDescCount_run (rep : FileRep r.mem F D file S) (hp : TablePages K F D)
    (hd : d < descLimit) {δ : Int} {x : Nat} (hx : ((S.handleCount d + δ : Int) % 2 ^ 32).toNat = x)
    (hlt : x < 2 ^ 32) :
    ∃ r', addField (descCount (descPtr D (some d))) δ r = .ok () r' ∧
      FileRep r'.mem F D file { S with handleCount := Function.update S.handleCount d x } ∧
      Counted F D r r' := by
  have hat := desc_end D hd
  have hend : D + fileDescSize * d + 12 + 4 ≤ D + pageSize := by
    unfold fileDescSize at *
    omega
  refine ⟨_, addField_run hp.desc (a := D + fileDescSize * d + 12) hend ?_ δ r, ?_, ?_⟩
  · unfold descCount descPtr
    dsimp only
    rw [hp.desc.p2v_eq]
    omega
  · rw [rep.count d hd, hx]
    exact rep.setHandleCount hp hd hlt
  · exact counted_desc hp hd (Or.inr ⟨by omega, by omega⟩) r _

/-- Read the control block of a descriptor. -/
theorem kload_descFcb (rep : FileRep r.mem F D file S) (hp : TablePages K F D) (hd : d < descLimit) :
    kload (descFcb (descPtr D (some d))) 8 r = .ok (fcbPtr F (S.object d)) r := by
  have hat := desc_end D hd
  have hend : D + fileDescSize * d + 8 ≤ D + pageSize := by
    unfold fileDescSize at *
    omega
  rw [← rep.object d hd]
  refine kload_page hp.desc hend (by omega) ?_ r
  unfold descFcb descPtr
  dsimp only
  rw [hp.desc.p2v_eq]
  omega

theorem kload_descCount (rep : FileRep r.mem F D file S) (hp : TablePages K F D)
    (hd : d < descLimit) : kload (descCount (descPtr D (some d))) 4 r = .ok (S.handleCount d) r := by
  have hat := desc_end D hd
  have hend : D + fileDescSize * d + 12 + 4 ≤ D + pageSize := by
    unfold fileDescSize at *
    omega
  rw [← rep.count d hd]
  refine kload_page hp.desc hend (by omega) ?_ r
  unfold descCount descPtr
  dsimp only
  rw [hp.desc.p2v_eq]
  omega

theorem kload_fcbCount (rep : FileRep r.mem F D file S) (hp : TablePages K F D) (hc : c < fcbLimit) :
    kload (fcbCount (fcbPtr F (some c))) 4 r = .ok (S.objectCount c) r := by
  have hat := fcb_end F hc
  have hend : F + fcbSize * c + 24 + 4 ≤ F + pageSize := by
    unfold fcbSize at *
    omega
  rw [← rep.fcount c hc]
  refine kload_page hp.fcb hend (by omega) ?_ r
  unfold fcbCount fcbPtr
  dsimp only
  rw [hp.fcb.p2v_eq]
  omega

theorem setDescFcb_run (rep : FileRep r.mem F D file S) (hp : TablePages K F D)
    (hd : d < descLimit) {o : Option Nat} (ho : ∀ c, o = some c → c < fcbLimit) :
    ∃ r', kstore (descFcb (descPtr D (some d))) 8 (fcbPtr F o) r = .ok () r' ∧
      FileRep r'.mem F D file { S with object := Function.update S.object d o } ∧
      Counted F D r r' := by
  have hat := desc_end D hd
  have hend : D + fileDescSize * d + 8 ≤ D + pageSize := by
    unfold fileDescSize at *
    omega
  refine ⟨_, kstore_page hp.desc hend (by omega) ?_ r _, rep.setObject hp hd ho,
    counted_desc (o := 0) hp hd (Or.inl (by omega)) r _⟩
  unfold descFcb descPtr
  dsimp only
  rw [hp.desc.p2v_eq]
  omega

/-! ## Sharing and dropping -/

theorem card_holder : Fintype.card Holder = 2000 := by
  rw [Fintype.card_prod, Fintype.card_fin, Fintype.card_fin]
  rfl

/-- One round of the loop of `fork`: the holder `(i, fd)` joins the holders of `d`. -/
theorem retain_run (rep : FileRep r.mem F D file S) (hS : S.Ok) (hp : TablePages K F D)
    {i : Slot} {f : Fin 100} (hd : d < descLimit) (ho : S.object d = some c) :
    ∃ r', (do
        addField (descCount (descPtr D (some d))) 1
        let fcb ← kload (descFcb (descPtr D (some d))) 8
        addField (fcbCount fcb) 1 : RamM Unit) r = .ok () r' ∧
      FileRep r'.mem F D (Function.update file i (Function.update (file i) f (descPtr D (some d))))
        (S.shared (i, f) d c) ∧ Counted F D r r' := by
  have hlt := (rep.objectLt d c ho).2
  have hc1 := hS.handleCount_le d
  have hc2 := hS.objectCount_le c
  rw [card_holder] at hc1 hc2
  obtain ⟨r₁, hrun₁, rep₁, hw₁⟩ := addDescCount_run rep hp hd (δ := 1) (x := S.handleCount d + 1)
    (by omega) (by omega)
  have hfcb := kload_descFcb rep₁ hp hd
  dsimp only at hfcb
  rw [ho] at hfcb
  obtain ⟨r₂, hrun₂, rep₂, hw₂⟩ := addFcbCount_run rep₁ hp hlt (δ := 1) (x := S.objectCount c + 1)
    (by dsimp only; omega) (by omega)
  refine ⟨r₂, ?_, rep₂.setHeld i f fun d' hd' => Option.some.inj hd' ▸ hd, ?_⟩
  · rw [bind_run hrun₁, bind_run hfcb]
    exact hrun₂
  · exact hw₁.trans hw₂

/-- The last part of dropping a descriptor. -/
theorem dropDesc_run (rep : FileRep r.mem F D file S) (hp : TablePages K F D)
    (hd : d < descLimit) (hpos : 0 < S.handleCount d) (hle : S.handleCount d ≤ 2000) :
    ∃ r', dropDesc (descPtr D (some d)) r = .ok () r' ∧
      FileRep r'.mem F D file
        { S with
          handleCount := Function.update S.handleCount d (S.handleCount d - 1)
          object := if S.handleCount d = 1 then Function.update S.object d none else S.object } ∧
      Counted F D r r' := by
  obtain ⟨r₁, hrun₁, rep₁, hw₁⟩ := addDescCount_run rep hp hd (δ := -1) (x := S.handleCount d - 1)
    (by omega) (by omega)
  have hload := kload_descCount rep₁ hp hd
  dsimp only at hload
  rw [Function.update_self] at hload
  unfold dropDesc
  rw [bind_run hrun₁, bind_run hload]
  by_cases h1 : S.handleCount d = 1
  · obtain ⟨r₂, hrun₂, rep₂, hw₂⟩ := setDescFcb_run rep₁ hp hd (o := none) nofun
    refine ⟨r₂, ?_, ?_, hw₁.trans hw₂⟩
    · rw [if_pos (by omega)]
      exact hrun₂
    · rw [if_pos h1]
      exact rep₂
  · refine ⟨r₁, ?_, ?_, hw₁⟩
    · rw [if_neg (by omega)]
      rfl
    · rw [if_neg h1]
      exact rep₁

/-- The holder `(i, fd)` gives up `d`. -/
theorem release_run (rep : FileRep r.mem F D file S) (hS : S.Ok) (hp : TablePages K F D)
    {i : Slot} {fd : Fin 100} (hh : S.held (i, fd) = some d) (ho : S.object d = some c) :
    ∃ r', (do
        addField (fcbCount (fcbPtr F (some c))) (-1)
        dropDesc (descPtr D (some d)) : RamM Unit) r = .ok () r' ∧
      FileRep r'.mem F D (Function.update file i (Function.update (file i) fd 0))
        (S.dropped (i, fd) d c) ∧ Counted F D r r' := by
  obtain ⟨hd, hc⟩ := rep.objectLt d c ho
  have hc1 := hS.handleCount_le d
  have hc2 := hS.objectCount_le c
  rw [card_holder] at hc1 hc2
  have hpos := hS.handleCount_pos hh
  have hpos' := hS.objectCount_pos hh ho
  obtain ⟨r₁, hrun₁, rep₁, hw₁⟩ := addFcbCount_run rep hp hc (δ := -1) (x := S.objectCount c - 1)
    (by omega) (by omega)
  obtain ⟨r₂, hrun₂, rep₂, hw₂⟩ := dropDesc_run rep₁ hp hd hpos hc1
  refine ⟨r₂, ?_, rep₂.setHeld i fd (o := none) nofun, ?_⟩
  · rw [bind_run hrun₁]
    exact hrun₂
  · exact hw₁.trans hw₂

end Counts

end Os64
