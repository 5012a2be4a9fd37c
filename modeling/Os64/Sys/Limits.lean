/-
  How far read_file goes, for a program that has a file open.

  * `readFile_bounds_iff`: it respects the end of the file when `position + size` does not wrap.
  * `readFile_asserts_iff`: its `ASSERT`s hold, but for an empty request at the end of a file that
    fills its last cluster, and for copies over the FAT that the read follows.
-/
import Os64.Files.Asserts
import Os64.Sys.Opened

namespace Os64

open Os64.Lib

section Limits

variable {K : Image} {pool free : List Nat} {s : Kernel} {S : Handles} {fd : Fin 100}
  {supplied : Bool} {buffer size : Nat}

/-- `read_file` respects the end of the file exactly when `position + size` does not wrap. -/
theorem readFile_bounds_iff (hm : MemOk K pool free s) (hf : FilesOk s S)
    (hl : s.Live s.pc.currentProcess) (hfd : s.desc fd ≠ 0)
    (hpos : s.filePosition (s.desc fd) ≤ s.descSize (s.desc fd)) (hsize : size < 2 ^ 32) :
    ReadBounded K s fd buffer size ↔ s.filePosition (s.desc fd) + size < 2 ^ 32 :=
  ⟨ReadBounded.no_wrap hm hf hfd hpos hsize, readFile_bounded hm hf hl hfd⟩

theorem readFile_bounds_iff_read : ∃ s n, s.filePosition (s.desc n) = 1 ∧
    ReadBounded image s n 0x400000 511 := by
  obtain ⟨pool, free, a, S, s, n, ⟨hat, hc, -, -, ho, -⟩⟩ :=
    read_machine (fun _ _ => True) (fun _ _ _ => trivial) (show 1 ≤ 512 by decide)
  have h := hat.whole
  refine ⟨s, n, ho.position, (readFile_bounds_iff h.mem h.files (h.live hc) ho.opened
    (by rw [ho.position, ho.size]; decide) (by decide)).mpr ?_⟩
  rw [ho.position]
  decide

/-- A program that has read the first byte of a file asks for 2^32 - 1 bytes more, and is not
    refused. -/
theorem readFile_past_end : ∃ s n, Reached image fileMem Confined s ∧ s.desc n ≠ 0 ∧
    s.filePosition (s.desc n) = 1 ∧ s.descSize (s.desc n) = 512 ∧
      ¬ ReadBounded image s n 0x400000 (2 ^ 32 - 1) := by
  obtain ⟨pool, free, a, S, s, n, ⟨hat, -, -, -, ho, -⟩⟩ :=
    read_machine Confined (fun _ _ he => he) (show 1 ≤ 512 by decide)
  have h := hat.whole
  refine ⟨s, n, hat.reached, ho.opened, ho.position, ho.size, fun hb => ?_⟩
  have := hb.no_wrap h.mem h.files ho.opened (by rw [ho.position, ho.size]; decide) (by decide)
  rw [ho.position] at this
  exact absurd this (by decide)

end Limits

end Os64
