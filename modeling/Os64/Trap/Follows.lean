/-
  The machine of trap.asm follows the kernel of process.c.

  * `Shows`: a machine has the address space, the stacks and the waiting processes of a kernel state;
    at boot it has (`idle_shows`).
  * `switchProcess_loads`, `yield_follows`, `sleep_follows`, `exit_follows`: where scheduling passes
    the processor on, the machine switches.
  * `allocNewProcess_follows`: a new process waits, and its stack holds what the kernel laid out.
  * `step_handles`: C code that writes what a confined step of the kernel writes is a step of a handler,
    as `Machine.Step` asks.
-/
import Os64.Trap.Progress

namespace Os64

open Os64.Lib

variable {K : Image}

/-! ## The initial stack -/

theorem entryFrame_shift {m m' : Mem} {d x : Nat} (h : m' (x + d) = m x) (a : Nat) :
    entryFrame m' (a + d) (x + d) = entryFrame m a x := by
  unfold entryFrame
  simp only [Nat.add_right_comm a d]
  exact store_shift (store_shift (store_shift (store_shift (store_shift h _ _ _) _ _ _) _ _ _) _ _ _) _ _ _

theorem initialStack_shift {m m' : Mem} {d x t top : Nat} (h : m' (x + d) = m x)
    (htop : trapFrameSize + 8 ≤ top) : initialStack t m' (top + d) (x + d) = initialStack t m top x := by
  have hframe : top + d - trapFrameSize = top - trapFrameSize + d := by omega
  have hcontext : top - trapFrameSize + d - 8 = top - trapFrameSize - 8 + d := by omega
  unfold initialStack
  rw [hframe, hcontext]
  exact entryFrame_shift (store_shift h _ _ _) _

/-! ## What the machine has of the kernel -/

/-- Every process but the current one waits in `swap`. -/
structure Shows (s : Kernel) (m : Machine Slot) : Prop where
  current : m.current = s.pc.currentProcess
  cr3 : m.cr3 = s.cr3
  rsp0 : s.pc.currentProcess ≠ 0 → m.rsp0 = s.rsp0
  stack : ∀ i, s.Live i → m.stack i = (s.processTable i).stack
  pageMap : ∀ i, i = 0 ∨ s.Live i → m.pageMap i = (s.processTable i).pageMap
  waits : ∀ i, m.saved i ≠ none ↔ i ≠ s.pc.currentProcess ∧ (i = 0 ∨ s.Live i)

/-- The labels of the image: the variables and the boot stack lie below the pages. -/
structure Linked (K : Image) (L : Labels Slot) : Prop where
  idle : L.idle = 0
  trapReturn : L.trapReturn = K.trapReturn
  contexts : ∀ i, L.context i + 8 ≤ K.kend
  bootTop : L.bootTop ≤ K.kend

variable {L : Labels Slot} {m : Machine Slot} {s s' : Kernel} {pool free : List Nat}
  {a b : Sched} {S : Handles} {c : Slot}

/-- Registers and memory of the processor aside. -/
theorem Shows.withCpu (h : Shows s m) (c : Cpu) : Shows s { m with cpu := c } :=
  ⟨h.current, h.cr3, h.rsp0, h.stack, h.pageMap, h.waits⟩

/-- At boot only the idle process runs. -/
theorem idle_shows {mem : Mem} {r : Ram} {root F D : Nat} (h : Machine.Booted L m) (hK : Linked K L)
    (hcr3 : m.cr3 = root) (hmap : m.pageMap 0 = p2v root) :
    Shows (idleKernel mem r root F D) m := by
  refine ⟨h.idle.trans hK.idle, hcr3, fun h0 => absurd rfl h0, fun i hi => absurd hi (idle_dead i),
    fun i hi => ?_, fun i => iff_of_false (fun hn => hn (h.alone i)) fun hn => ?_⟩
  · rw [hi.resolve_right (idle_dead i)]
    exact hmap
  · exact hn.1 (hn.2.resolve_right (idle_dead i))

/-! ## Scheduling -/

/-- What `switch_process` loads is what the machine loads. -/
theorem switchProcess_loads (h : Shows s m) {j : Slot} (hj : j = 0 ∨ s.Live j) {k : Kont}
    (hrun : switchProcess c j k s = .ok () s') (mem : Mem) :
    (m.switched j mem).cr3 = s'.cr3 ∧ (j ≠ 0 → (m.switched j mem).rsp0 = s'.rsp0) := by
  rw [switchProcess_run] at hrun
  obtain ⟨-, rfl⟩ := EStateM.Result.ok.inj hrun
  refine ⟨congrArg v2p (h.pageMap j hj), fun hne => ?_⟩
  change u64 (m.stack j + stackSize) = u64 ((s.processTable j).stack + stackSize)
  rw [h.stack j (hj.resolve_left hne)]

/-- The processor passes to a process that waits. -/
theorem Shows.switched (h : Shows s m) (hk : Keeps s s') (hlive : ∀ i, s'.Live i ↔ s.Live i)
    (hl : Loaded s') (hne : s'.pc.currentProcess ≠ s.pc.currentProcess)
    (hcur : s.pc.currentProcess = 0 ∨ s.Live s.pc.currentProcess)
    (hj : s'.pc.currentProcess = 0 ∨ s.Live s'.pc.currentProcess) (mem : Mem) :
    Shows s' (m.switched s'.pc.currentProcess mem) := by
  refine ⟨rfl, ?_, fun h0 => ?_, fun i hi => ?_, fun i hi => ?_, fun i => ?_⟩
  · rw [hl.1]
    change v2p (m.pageMap _) = v2p (s'.processTable _).pageMap
    rw [hk.pageMap, h.pageMap _ hj]
  · rw [hl.2 h0]
    change u64 (m.stack _ + stackSize) = u64 ((s'.processTable _).stack + stackSize)
    rw [hk.stack, h.stack _ (hj.resolve_left h0)]
  · rw [hk.stack]
    exact h.stack i ((hlive i).mp hi)
  · rw [hk.pageMap]
    exact h.pageMap i (hi.imp_right (hlive i).mp)
  · have hsaved : (m.switched s'.pc.currentProcess mem).saved = Function.update
        (Function.update m.saved s.pc.currentProcess
          (some ⟨m.cpu.reg, m.cpu.top, m.cpu.reg .rsp + 8⟩)) s'.pc.currentProcess none := by
      rw [← h.current]
      rfl
    rw [hsaved, hlive i]
    by_cases hi : i = s'.pc.currentProcess
    · rw [hi, Function.update_self]
      exact iff_of_false (fun hn => hn rfl) fun hn => hn.1 rfl
    · rw [Function.update_of_ne hi]
      by_cases hi' : i = s.pc.currentProcess
      · rw [hi', Function.update_self]
        exact iff_of_true nofun ⟨hne.symm, hcur⟩
      · rw [Function.update_of_ne hi', h.waits i]
        exact and_congr_left' (iff_of_true hi' hi)

/-- From `m` the machine comes to `s'`: the current process goes on, or the machine switches. -/
def Follows (L : Labels Slot) (m : Machine Slot) (s' : Kernel) : Prop :=
  Shows s' m ∨ ∃ regs mem, ∃ m₁ : Machine Slot, m₁ = { m with cpu := { m.cpu with reg := regs } } ∧
    Machine.Step L m .handler m₁ ∧
      Machine.Step L m₁ (.switch s'.pc.currentProcess) (m₁.switched s'.pc.currentProcess mem) ∧
        Shows s' (m₁.switched s'.pc.currentProcess mem)

section Follows

variable {x : Nat} {f : TrapFrame}

/-- Scheduling in a trap of the current process, with room for `swap` on its stack. -/
theorem Whole.follows (h : Whole K pool free a S s) (hs : Shows s m) (hg : m.Good L)
    (hin : m.inside m.current = some (x, f)) (hroom : m.bottom L m.current + 56 ≤ x)
    (hr : Rep s' b) (hk : Keeps s s') (hb : b.Sane) (hm : Sched.Mute a b) : Follows L m s' := by
  have hlive := hm.live h.rep hr
  have hl := hk.loaded h.mem.loaded
  -- who runs is the idle process or live
  have hruns : ∀ {t : Kernel} {e : Sched}, Rep t e → e.Sane →
      t.pc.currentProcess = 0 ∨ t.Live t.pc.currentProcess := by
    intro t e ht he
    refine or_iff_not_imp_left.mpr fun h0 => ⟨h0, ?_⟩
    rw [ht.state, ht.current, he.current_running]
    decide
  have hnew := (hruns hr hb).imp_right (hlive _).mp
  by_cases hne : s'.pc.currentProcess = s.pc.currentProcess
  · refine Or.inl ⟨hs.current.trans hne.symm, ?_, fun h0 => ?_, fun i hi => ?_, fun i hi => ?_,
      fun i => ?_⟩
    · rw [hs.cr3, h.mem.loaded.1, hl.1]
      unfold Kernel.current
      rw [hk.pageMap, hne]
    · rw [hs.rsp0 (hne ▸ h0), h.mem.loaded.2 (hne ▸ h0), hl.2 h0]
      unfold Kernel.current
      rw [hk.stack, hne]
    · rw [hk.stack]
      exact hs.stack i ((hlive i).mp hi)
    · rw [hk.pageMap]
      exact hs.pageMap i (hi.imp_right (hlive i).mp)
    · rw [hs.waits i, hlive i, hne]
  · have hwaits := (hs.waits _).mpr ⟨hne, hnew⟩
    obtain ⟨sv, hsv⟩ := Option.ne_none_iff_exists'.mp hwaits
    obtain ⟨regs, s₁, s₂⟩ := hg.can_switch hin hroom (hs.current ▸ hne) hsv
    exact Or.inr ⟨regs, m.cpu.mem, _, rfl, s₁, s₂,
      (hs.withCpu _).switched hk hlive hl hne (hruns h.rep h.sane) hnew _⟩

theorem yield_follows (h : Whole K pool free a S s) (hs : Shows s m) (hg : m.Good L)
    (hin : m.inside m.current = some (x, f)) (hroom : m.bottom L m.current + 56 ≤ x)
    (hrun : yield s = .ok () s') : Follows L m s' := by
  obtain ⟨s₁, hrun₁, hr, hk⟩ := yield_run h.rep h.sane.current_free
  rw [hrun] at hrun₁
  obtain ⟨-, rfl⟩ := EStateM.Result.ok.inj hrun₁
  exact h.follows hs hg hin hroom hr hk (Sched.yield_sane h.sane) (Sched.yield_mute h.sane)

theorem sleep_follows (h : Whole K pool free a S s) (hs : Shows s m) (hg : m.Good L)
    (hin : m.inside m.current = some (x, f)) (hroom : m.bottom L m.current + 56 ≤ x)
    (hc : s.pc.currentProcess ≠ 0) {w : Int} {k : Kont} (hrun : sleep w k s = .ok () s') :
    Follows L m s' := by
  have hc : a.current ≠ 0 := h.rep.current ▸ hc
  obtain ⟨hr, hk⟩ := sleep_ok h.rep h.sane.current_free hrun
  exact h.follows hs hg hin hroom hr hk (Sched.sleep_sane h.sane hc w k)
    (Sched.sleep_mute h.sane hc w k)

theorem exit_follows (h : Whole K pool free a S s) (hs : Shows s m) (hg : m.Good L)
    (hin : m.inside m.current = some (x, f)) (hroom : m.bottom L m.current + 56 ≤ x)
    (hc : s.pc.currentProcess ≠ 0) (hrun : exit s = .ok () s') : Follows L m s' := by
  have hc : a.current ≠ 0 := h.rep.current ▸ hc
  obtain ⟨hr, hk⟩ := exit_ok h.rep h.sane.current_free hrun
  exact h.follows hs hg hin hroom hr hk (Sched.exit_sane h.sane hc) (Sched.exit_mute h.sane hc)

end Follows

/-! ## Creation -/

theorem Born.live_iff {i : Slot} {free' : List Nat} {p root : Nat}
    (hb : Born K s s' i free free' p root) (hi : i ≠ 0) (j : Slot) :
    s'.Live j ↔ j = i ∨ s.Live j := by
  unfold Kernel.Live
  by_cases hj : j = i
  · rw [hj, hb.processTable, Function.update_self]
    exact iff_of_true ⟨hi, nofun⟩ (Or.inl rfl)
  · rw [hb.other hj]
    exact (or_iff_right hj).symm

theorem Shows.created (h : Shows s m) {i : Slot} {free' : List Nat} {p root : Nat}
    (hb : Born K s s' i free free' p root) (hi : i ≠ 0) (hcur : i ≠ s.pc.currentProcess) :
    Shows s' (m.created L i (p2v p) (p2v root)) := by
  have hpc : s'.pc = s.pc := by rw [hb.same]
  have hself : s'.processTable i = { s.processTable i with
      state := .init
      pid := s.pidNum
      stack := p2v p
      tf := p2v p + stackSize - trapFrameSize
      kont := .trapReturn
      pageMap := p2v root } := by rw [hb.processTable, Function.update_self]
  refine ⟨hpc ▸ h.current, ?_, fun h0 => ?_, fun j hj => ?_, fun j hj => ?_, fun j => ?_⟩
  · rw [hb.same]
    exact h.cr3
  · rw [hb.same]
    exact h.rsp0 (hpc ▸ h0)
  · change Function.update m.stack i (p2v p) j = _
    by_cases hji : j = i
    · rw [hji, Function.update_self, hself]
    · rw [Function.update_of_ne hji, hb.other hji]
      exact h.stack j (((hb.live_iff hi j).mp hj).resolve_left hji)
  · change Function.update m.pageMap i (p2v root) j = _
    by_cases hji : j = i
    · rw [hji, Function.update_self, hself]
    · rw [Function.update_of_ne hji, hb.other hji]
      exact h.pageMap j (hj.imp_right fun hl => ((hb.live_iff hi j).mp hl).resolve_left hji)
  · change Function.update m.saved i _ j ≠ none ↔ _
    rw [hpc, hb.live_iff hi]
    by_cases hji : j = i
    · rw [hji, Function.update_self]
      exact iff_of_true nofun ⟨hcur, Or.inr (Or.inl rfl)⟩
    · rw [Function.update_of_ne hji, or_iff_right hji]
      exact h.waits j

/-- The stack of the new process is the one that `alloc_new_process` laid out. -/
theorem created_stack (hK : Linked K L) {i : Slot} {free' : List Nat} {p root : Nat}
    (hb : Born K s s' i free free' p root) {x : Nat} (hx : InPage p x) :
    (m.created L i (p2v p) (p2v root)).cpu.mem (x + kernelBase) = s'.ram.mem x := by
  have hps := pageSize_eq
  have hss : stackSize = pageSize := rfl
  have hctx := hK.contexts i
  have habove := hb.valid.above
  obtain ⟨hx1, hx2⟩ := hx
  have hfill : fill m.cpu.mem (p + kernelBase) pageSize 0 (x + kernelBase) =
      fill s.ram.mem p pageSize 0 x := by
    rw [fill_of_inside _ _ (by omega) (by omega), fill_of_inside _ _ hx1 hx2]
  have htop : p + kernelBase + stackSize = p + pageSize + kernelBase := by omega
  rw [hb.laid x ⟨hx1, hx2⟩, hb.valid.p2v_eq]
  change store (initialStack L.trapReturn (fill m.cpu.mem (p + kernelBase) pageSize 0)
    (p + kernelBase + stackSize)) (L.context i) 8 _ (x + kernelBase) = _
  rw [store_of_outside _ _ _ _ (by omega), htop, hK.trapReturn]
  exact initialStack_shift hfill (by unfold trapFrameSize; omega)

/-- The stacks of the machine lie in the pages of the kernel, or in its image. -/
theorem Shows.stack_page (h : Shows s m) (hm : MemOk K pool free s) (hK : Linked K L) {i : Slot}
    (hi : s.Live i) : m.bottom L i = s.stackPage i + kernelBase ∧
      m.top L i = s.stackPage i + pageSize + kernelBase := by
  have hne : i ≠ L.idle := hK.idle ▸ hi.1
  have hstack : m.stack i = s.stackPage i + kernelBase := by
    rw [h.stack i hi, (hm.process i hi).stack, (hm.stackValid hi).p2v_eq]
  have hss : stackSize = pageSize := rfl
  unfold Machine.bottom Machine.top
  rw [if_neg hne, if_neg hne, hstack]
  exact ⟨rfl, by omega⟩

/-- `alloc_new_process` makes a process that waits. -/
theorem allocNewProcess_follows (h : Whole K pool free a S s) (hs : Shows s m)
    (hK : Linked K L) {i : Slot} (hrun : allocNewProcess K s = .ok (some i) s') :
    ∃ p root, Machine.Step L m (.create i) (m.created L i (p2v p) (p2v root)) ∧
      Shows s' (m.created L i (p2v p) (p2v root)) ∧
        ∀ x, InPage p x → (m.created L i (p2v p) (p2v root)).cpu.mem (x + kernelBase) = s'.ram.mem x := by
  have hfound : findUnusedProcess s ≠ none := by
    intro hn
    unfold allocNewProcess at hrun
    rw [bind_run (get_run s)] at hrun
    simp only [hn] at hrun
    cases hrun
  obtain ⟨j, hj⟩ := Option.ne_none_iff_exists'.mp hfound
  rcases allocNewProcess_run h.mem.freeList hj with ⟨-, hnone⟩ | ⟨s₁, p, root, free', hrun₁, hb⟩
  · exact nomatch hnone _ _ hrun
  rw [hrun] at hrun₁
  obtain ⟨hij, rfl⟩ := EStateM.Result.ok.inj hrun₁
  obtain rfl : i = j := Option.some.inj hij
  have hunused : a.state i = .unused := h.rep.state i ▸ hb.unused
  have hi := h.sane.unused_ne hunused
  have hcur : i ≠ s.pc.currentProcess := by
    rintro rfl
    rw [h.rep.current, h.sane.current_running] at hunused
    cases hunused
  have hbase : kernelBase = 0xffff800000000000 := rfl
  have hps := pageSize_eq
  have hss : stackSize = pageSize := rfl
  have habove := hb.valid.above
  have hbelow := hb.valid.below
  refine ⟨p, root, ?_, hs.created hb hi hcur, fun x hx => created_stack hK hb hx⟩
  rw [hb.valid.p2v_eq]
  refine .create _ _ ?_ (hK.idle ▸ hi) (by omega) (by omega) (fun j hj => ?_) fun j => ?_
  · rintro (he | hn)
    · exact hcur (he.trans hs.current)
    · exact ((hs.waits i).mp hn).2.elim hi fun hl => hl.2 hb.unused
  · by_cases h0 : j = 0
    · unfold Machine.top Machine.bottom
      rw [if_pos (h0.trans hK.idle.symm), if_pos (h0.trans hK.idle.symm)]
      have htop := hK.bootTop
      omega
    · -- the page was free
      have hl : s.Live j := by
        rcases hj with he | hn
        · have hl := h.live (h.rep.current ▸ hs.current ▸ he ▸ h0)
          rw [he, hs.current]
          exact hl
        · exact ((hs.waits j).mp hn).2.resolve_left h0
      obtain ⟨hbot, htop⟩ := hs.stack_page h.mem hK hl
      have hne := (h.mem.free_apart (hb.mem_free (Or.inl rfl)) hl).1
      have hal := hb.valid.aligned
      have hal' := (h.mem.stackValid hl).aligned
      rw [pageSize_eq] at hal hal'
      rw [hbot, htop]
      omega
  · have hctx := hK.contexts j
    omega

/-! ## Handlers -/

/-- C code for the current process while the kernel goes from `s` to `s'`, its frame at `x`: it writes
    its stack below the frame, variables of the image and, in the pages, what the kernel writes there. -/
structure Executes (K : Image) (L : Labels Slot) (s s' : Kernel) (m : Machine Slot) (x : Nat)
    (c : Cpu) : Prop where
  wf : c.Wf
  mem : ∀ y, kernelBase ≤ y → c.mem y ≠ m.cpu.mem y →
    (m.bottom L m.current ≤ y ∧ y < x) ∨
      (y < K.kend ∧ (y < L.bootBottom ∨ L.bootTop ≤ y) ∧
        ∀ i, y < L.context i ∨ L.context i + 8 ≤ y) ∨
      K.kend ≤ y ∧ (y < x ∨ m.top L m.current ≤ y) ∧
        s'.ram.mem (y - kernelBase) ≠ s.ram.mem (y - kernelBase)

section Executes

variable {x : Nat} {f : TrapFrame} {c : Cpu}

/-- It writes nothing of a process that waits and keeps its pages. -/
theorem Executes.keeps (hc : Executes K L s s' m x c) (hm : MemOk K pool free s) (hs : Shows s m)
    (hg : m.Good L) (hK : Linked K L) (hin : m.inside m.current = some (x, f)) {i : Slot}
    (hi : m.saved i ≠ none) (hkept : s.Live i → Undisturbed i s s') {y : Nat} (hy : m.Owns L i y) :
    c.mem y = m.cpu.mem y := by
  by_contra hne
  have hbase := hg.owns_kernel (Or.inr hi) hy
  have hout := hg.own_stack hi hy
  have hctx := hK.contexts i
  have hboot := hK.bootTop
  obtain ⟨-, hx, -, -⟩ := hg.inside m.current (Or.inl rfl) x f hin
  rcases hc.mem y hbase hne with hw | ⟨hw, hstack, hfields⟩ | ⟨hw, -, hmem⟩
  · omega
  · have hfield := hfields i
    rcases ((hs.waits i).mp hi).2 with h0 | hl
    · have hbot : m.bottom L i = L.bootBottom := if_pos (h0.trans hK.idle.symm)
      have htop : m.top L i = L.bootTop := if_pos (h0.trans hK.idle.symm)
      rcases hy with hy | hy <;> omega
    · obtain ⟨hbot, -⟩ := hs.stack_page hm hK hl
      have habove := (hm.stackValid hl).above
      rcases hy with hy | hy <;> omega
  · rcases ((hs.waits i).mp hi).2 with h0 | hl
    · have htop : m.top L i = L.bootTop := if_pos (h0.trans hK.idle.symm)
      rcases hy with hy | hy <;> omega
    · obtain ⟨hbot, htop⟩ := hs.stack_page hm hK hl
      refine hmem ((hkept hl).mem _ (MemOk.stackPage_mem hl) _ ⟨?_, ?_⟩)
      · rcases hy with hy | hy <;> omega
      · rcases hy with hy | hy <;> omega

/-- Nor does it write its own frame, or above it. -/
theorem Executes.frame (hc : Executes K L s s' m x c) (hm : MemOk K pool free s) (hs : Shows s m)
    (hg : m.Good L) (hK : Linked K L) (hcur : s.pc.currentProcess = 0 ∨ s.Live s.pc.currentProcess)
    (hin : m.inside m.current = some (x, f)) {y : Nat} (hy1 : x ≤ y) (hy2 : y < m.top L m.current) :
    c.mem y = m.cpu.mem y := by
  by_contra hne
  obtain ⟨hx, -, -, -⟩ := hg.inside m.current (Or.inl rfl) x f hin
  have hbase := (hg.bounds m.current (Or.inl rfl)).1
  rcases hc.mem y (by omega) hne with hw | ⟨hw, hstack, -⟩ | ⟨-, hw, -⟩
  · omega
  · rcases hs.current ▸ hcur with h0 | hl
    · have hbot : m.bottom L m.current = L.bootBottom := if_pos (h0.trans hK.idle.symm)
      have htop : m.top L m.current = L.bootTop := if_pos (h0.trans hK.idle.symm)
      omega
    · have hbot := (hs.stack_page hm hK hl).1
      have habove := (hm.stackValid hl).above
      omega
  · omega

/-- C code of a confined step of the kernel is a step of a handler, after the reaping if it reaps. -/
theorem step_handles (h : Whole K pool free a S s) (hs : Shows s m) (hg : m.Good L)
    (hK : Linked K L) {e : Event} (he : Enabled s e) (hconf : Confined s e)
    (hrun : step K e s = .ok () s') (hin : m.inside m.current = some (x, f))
    (hc : Executes K L s s' m x c) :
    Machine.Step L m .handler { m with cpu := c } ∨ ∃ j, Machine.Step L m (.reap j) (m.reaped j) ∧
      Machine.Step L (m.reaped j) .handler { m.reaped j with cpu := c } := by
  obtain ⟨free', a', S', -, hst⟩ := step_whole h he hconf hrun
  have hcur : s.pc.currentProcess = 0 ∨ s.Live s.pc.currentProcess :=
    or_iff_not_imp_left.mpr fun h0 => h.live (h.rep.current ▸ h0)
  have hframe : ∀ y, x ≤ y → y < m.top L m.current → c.mem y = m.cpu.mem y := fun y hy1 hy2 =>
    hc.frame h.mem hs hg hK hcur hin hy1 hy2
  have hkeeps : ∀ i, m.saved i ≠ none → (s.Live i → s'.Live i) → ∀ y, m.Owns L i y →
      c.mem y = m.cpu.mem y := fun i hi hlive y hy =>
    hc.keeps h.mem hs hg hK hin hi
      (fun hl => hst.others i ((hs.waits i).mp hi).1 hl (hlive hl)) hy
  obtain ⟨os, -, -, hreap⟩ := hst.hist
  rcases hreap with ⟨-, hlive⟩ | ⟨j, hj, -, -, -, hlive⟩
  · exact Or.inl (.handler c hin hc.wf (fun i hi => hkeeps i hi (hlive i)) hframe)
  · have hjm : j ≠ m.current := hs.current ▸ hj
    have hin' : (m.reaped j).inside (m.reaped j).current = some (x, f) :=
      (Function.update_of_ne hjm.symm _ _).trans hin
    refine Or.inr ⟨j, .reap hjm, .handler c hin' hc.wf (fun i hi => ?_) hframe⟩
    have hij : i ≠ j := by
      rintro rfl
      exact hi (Function.update_self _ _ _)
    have hsaved : (m.reaped j).saved i = m.saved i := Function.update_of_ne hij _ _
    exact hkeeps i (hsaved ▸ hi) (hlive i hij)

end Executes

end Os64
