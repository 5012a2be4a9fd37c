/-
  Trap frames in kernel stacks.

  A frame stored word by word reads back as stored (`frameAt_putWords`). With the
  invariant of memory, `pushFrame` and `setResult` write the current process's
  stack page and succeed (`pushFrame_run`, `setResult_run`).
-/
import Mathlib.Tactic.IntervalCases
import Os64.Files.Read

namespace Os64

open Os64.Lib

variable {K : Image}

/-! ## Words -/

/-- Memory with the words `ws` from `a` on. -/
def putWords (m : Mem) : Nat → List Nat → Mem
  | _, [] => m
  | a, w :: ws => putWords (store m a 8 w) (a + 8) ws

theorem putWords_of_outside {x : Nat} : ∀ (ws : List Nat) (m : Mem) (a : Nat),
    x < a ∨ a + 8 * ws.length ≤ x → putWords m a ws x = m x
  | [], _, _, _ => rfl
  | w :: ws, m, a, hx => by
      rw [List.length_cons] at hx
      rw [putWords, putWords_of_outside ws _ (a + 8) (by omega)]
      exact store_of_outside m a 8 w (by omega)

theorem load_putWords : ∀ (ws : List Nat) (m : Mem) (a k : Nat) (hk : k < ws.length),
    load (putWords m a ws) (a + 8 * k) 8 = ws[k] % 256 ^ 8
  | w :: ws, m, a, 0, _ => by
      rw [putWords, Nat.mul_zero, Nat.add_zero, List.getElem_cons_zero, ← load_store_self m a 8 w]
      exact load_congr fun x h1 h2 => putWords_of_outside ws _ _ (by omega)
  | w :: ws, m, a, k + 1, hk => by
      have hk' : k < ws.length := by
        rw [List.length_cons] at hk
        omega
      rw [putWords, List.getElem_cons_succ, ← load_putWords ws (store m a 8 w) (a + 8) k hk']
      congr 1
      omega

/-- A frame of 64-bit words reads back as stored. -/
theorem frameAt_putWords (m : Mem) (a : Nat) {f : TrapFrame} (hf : ∀ w ∈ f.words, w < 2 ^ 64) :
    frameAt (putWords m a f.words) a = f := by
  have hword : ∀ (k : Nat) (hk : k < 22),
      load (putWords m a f.words) (a + 8 * k) 8 = f.words.get ⟨k, hk⟩ := by
    intro k hk
    rw [load_putWords f.words m a k hk]
    exact Nat.mod_eq_of_lt (hf _ (List.getElem_mem hk))
  obtain ⟨r15, r14, r13, r12, r11, r10, r9, r8, rbp, rdi, rsi, rdx, rcx, rbx, rax, trapno, errorcode,
    rip, cs, rflags, rsp, ss⟩ := f
  unfold frameAt
  rw [TrapFrame.mk.injEq]
  exact ⟨hword 0 (by decide), hword 1 (by decide), hword 2 (by decide), hword 3 (by decide),
    hword 4 (by decide), hword 5 (by decide), hword 6 (by decide), hword 7 (by decide),
    hword 8 (by decide), hword 9 (by decide), hword 10 (by decide), hword 11 (by decide),
    hword 12 (by decide), hword 13 (by decide), hword 14 (by decide), hword 15 (by decide),
    hword 16 (by decide), hword 17 (by decide), hword 18 (by decide), hword 19 (by decide),
    hword 20 (by decide), hword 21 (by decide)⟩

/-- The words of a frame, one by one. -/
theorem frameAt_words (m : Mem) (a : Nat) {k : Nat} (hk : k < 22) :
    (frameAt m a).words.getD k 0 = load m (a + 8 * k) 8 := by
  interval_cases k <;> rfl

theorem frameAt_congr {m m' : Mem} {a : Nat}
    (h : ∀ x, a ≤ x → x < a + trapFrameSize → m' x = m x) : frameAt m' a = frameAt m a := by
  have hword : ∀ o, o + 8 ≤ 176 → load m' (a + o) 8 = load m (a + o) 8 := fun o ho =>
    load_congr fun x h1 h2 => h x (by omega) (by
      unfold trapFrameSize
      omega)
  have h0 : load m' a 8 = load m a 8 := hword 0 (by omega)
  unfold frameAt
  rw [h0, hword 8 (by omega), hword 16 (by omega), hword 24 (by omega), hword 32 (by omega),
    hword 40 (by omega), hword 48 (by omega), hword 56 (by omega), hword 64 (by omega),
    hword 72 (by omega), hword 80 (by omega), hword 88 (by omega), hword 96 (by omega),
    hword 104 (by omega), hword 112 (by omega), hword 120 (by omega), hword 128 (by omega),
    hword 136 (by omega), hword 144 (by omega), hword 152 (by omega), hword 160 (by omega),
    hword 168 (by omega)]

theorem storeWords_run {p : Nat} (h : ValidPage K p) : ∀ (ws : List Nat) (a v : Nat) (r : Ram),
    p ≤ a → a + 8 * ws.length ≤ p + pageSize → v = a + kernelBase →
    storeWords v ws r = .ok () { r with mem := putWords r.mem a ws }
  | [], _, _, _, _, _, _ => rfl
  | w :: ws, a, v, r, h1, h2, hv => by
      rw [List.length_cons] at h2
      unfold storeWords
      rw [bind_run (kstore_page h (a := a) (n := 8) (by omega) (by omega) hv r w)]
      exact storeWords_run h ws (a + 8) (v + 8) _ (by omega) (by omega) (by omega)

theorem wrote_putWords {p a : Nat} (r : Ram) (ws : List Nat) (h1 : p ≤ a)
    (h2 : a + 8 * ws.length ≤ p + pageSize) : Wrote [p] r { r with mem := putWords r.mem a ws } := by
  refine ⟨fun x hx => ?_, rfl, .refl _⟩
  have := hx p (List.mem_singleton_self p)
  unfold InPage at this
  exact putWords_of_outside ws r.mem a (by omega)

/-! ## The frame of a process -/

/-- The physical address of a process's trap frame, at the top of its stack. -/
def Kernel.frameAddr (s : Kernel) (i : Slot) : Nat := s.stackPage i + (pageSize - trapFrameSize)

/-- The trap frame of a process. -/
def Kernel.frame (s : Kernel) (i : Slot) : TrapFrame := frameAt s.ram.mem (s.frameAddr i)

section Frames

variable {pool free : List Nat} {s : Kernel} {i : Slot}

/-- `Process.tf` points at the frame. -/
theorem MemOk.tf_eq (h : MemOk K pool free s) (hl : s.Live i) :
    (s.processTable i).tf = s.frameAddr i + kernelBase := by
  have hp := h.process i hl
  have hv := h.stackValid hl
  rw [hp.tf, hp.stack, hv.p2v_eq]
  unfold Kernel.frameAddr stackSize trapFrameSize
  rw [pageSize_eq]
  omega

/-- `Tss.rsp0` leads to the current process's frame. -/
theorem MemOk.trapFrame_eq (h : MemOk K pool free s) (hl : s.Live s.pc.currentProcess) :
    s.trapFrame = s.current.tf := by
  have hp := h.process _ hl
  have hv := h.stackValid hl
  have hb := hv.below
  have hstack : s.current.stack = p2v (s.stackPage s.pc.currentProcess) := hp.stack
  have htf : s.current.tf = s.current.stack + stackSize - trapFrameSize := hp.tf
  unfold Kernel.trapFrame
  rw [h.loaded.2 hl.1, htf, hstack, hv.p2v_eq]
  unfold u64 stackSize trapFrameSize
  rw [kernelBase_eq]
  rw [pageSize_eq] at hb
  omega

/-- The frame lies in the stack page. -/
theorem frameAddr_end (s : Kernel) (i : Slot) :
    s.stackPage i ≤ s.frameAddr i ∧ s.frameAddr i + trapFrameSize = s.stackPage i + pageSize := by
  unfold Kernel.frameAddr trapFrameSize
  rw [pageSize_eq]
  omega

/-- A frame is only changed by writing its page. -/
theorem Still.frame {D : List Nat} {s' : Kernel} (hs : Still D s s') (h : MemOk K pool free s)
    (hl : s.Live i) (hD : ∀ p ∈ D, p % pageSize = 0 ∧ p ≠ s.stackPage i) : s'.frame i = s.frame i := by
  obtain ⟨h1, h2⟩ := frameAddr_end s i
  have haddr : s'.frameAddr i = s.frameAddr i := by
    unfold Kernel.frameAddr
    rw [hs.stackPage]
  unfold Kernel.frame
  rw [haddr]
  refine frameAt_congr fun x hx1 hx2 => ?_
  exact hs.mem.page (h.stackValid hl).aligned (fun hm => (hD _ hm).2 rfl) (fun p hp => (hD p hp).1)
    ⟨by omega, by omega⟩

/-- The tables of file.c are not a process's stack. -/
theorem MemOk.tables_off_stack (h : MemOk K pool free s) (hl : s.Live i) :
    ∀ p ∈ [v2p s.fcbTable, v2p s.fileDescTable], p % pageSize = 0 ∧ p ≠ s.stackPage i := by
  have hm := MemOk.stackPage_mem (l := free) hl
  intro p hp
  rcases List.mem_cons.mp hp with he | hp
  · rw [he]
    refine ⟨h.fcbValid.aligned, fun he' => ?_⟩
    exact h.apart (o := .process i) (u := .fcbTable) nofun hm (List.mem_singleton.mpr he'.symm)
  · rw [List.mem_singleton.mp hp]
    refine ⟨h.descValid.aligned, fun he' => ?_⟩
    exact h.apart (o := .process i) (u := .fileDescTable) nofun hm (List.mem_singleton.mpr he'.symm)

/-- `pushFrame` stores the frame of a process's trap. -/
theorem pushFrame_run (h : MemOk K pool free s) (hl : s.Live s.pc.currentProcess) (f : TrapFrame) :
    ∃ r, pushFrame f s = .ok () { s with ram := r } ∧
      r = { s.ram with mem := putWords s.ram.mem (s.frameAddr s.pc.currentProcess) f.words } ∧
      Wrote [s.stackPage s.pc.currentProcess] s.ram r := by
  have hv := h.stackValid hl
  obtain ⟨h1, h2⟩ := frameAddr_end s s.pc.currentProcess
  have hlen : s.frameAddr s.pc.currentProcess + 8 * f.words.length ≤
      s.stackPage s.pc.currentProcess + pageSize := by
    change s.frameAddr s.pc.currentProcess + 8 * 22 ≤ _
    unfold trapFrameSize at h2
    omega
  have htf : s.trapFrame = s.frameAddr s.pc.currentProcess + kernelBase := by
    rw [h.trapFrame_eq hl]
    exact h.tf_eq hl
  refine ⟨_, ?_, rfl, wrote_putWords s.ram f.words h1 hlen⟩
  unfold pushFrame
  rw [bind_run (get_run s), if_pos hl.1]
  exact low_run (ram_run (storeWords_run hv f.words _ _ s.ram h1 hlen htf))

/-- The idle process's frames are not modelled. -/
theorem pushFrame_idle (h : s.pc.currentProcess = 0) (f : TrapFrame) : pushFrame f s = .ok () s := by
  unfold pushFrame
  rw [bind_run (get_run s), if_neg fun hn => hn h]
  rfl

/-- `setResult` stores into the frame of the process. -/
theorem setResult_run (h : MemOk K pool free s) (hl : s.Live i) {tf : Nat}
    (htf : tf = (s.processTable i).tf) (v : Int) :
    ∃ r, setResult tf (some v) s = .ok () { s with ram := r } ∧
      r = { s.ram with mem := store s.ram.mem (s.frameAddr i + 112) 8 (ofInt v) } ∧
      Wrote [s.stackPage i] s.ram r := by
  have hv := h.stackValid hl
  obtain ⟨h1, h2⟩ := frameAddr_end s i
  unfold trapFrameSize at h2
  have hend : s.frameAddr i + 112 + 8 ≤ s.stackPage i + pageSize := by omega
  refine ⟨_, ?_, rfl, wrote_store s.ram (ofInt v) (by omega) hend⟩
  refine low_run (ram_run (kstore_page hv hend (by omega) ?_ s.ram (ofInt v)))
  rw [htf, h.tf_eq hl]
  unfold tfRax
  omega

end Frames

end Os64
