/-
  Creation of processes: alloc_new_process and the memory of fork.

  * `setInitialStack_run`: the words that `alloc_new_process` lays out in a new stack.
  * `allocNewProcess_run`: a process with a stack and a kernel map made of free pages
    (`Born`), or none on a full allocator.
-/
import Os64.Mem.Frames

namespace Os64

open Os64.Lib

variable {K : Image}

/-! ## The first frame -/

/-- Memory with the entry state of a program in the frame at `a`. -/
def entryFrame (m : Mem) (a : Nat) : Mem :=
  store (store (store (store (store m (a + 144) 8 (0x10 ||| 3)) (a + 136) 8 0x400000) (a + 168) 8
    (0x18 ||| 3)) (a + 160) 8 (0x400000 + pageSize)) (a + 152) 8 0x202

/-- Memory with the initial stack below `top`. -/
def initialStack (trapReturn : Nat) (m : Mem) (top : Nat) : Mem :=
  entryFrame (store m (top - trapFrameSize - 8) 8 trapReturn) (top - trapFrameSize)

theorem setEntryFrame_run {p a v : Nat} (h : ValidPage K p) (h1 : p ≤ a)
    (h2 : a + trapFrameSize ≤ p + pageSize) (hv : v = a + kernelBase) (r : Ram) :
    setEntryFrame v r = .ok () { r with mem := entryFrame r.mem a } ∧
      Wrote [p] r { r with mem := entryFrame r.mem a } := by
  unfold trapFrameSize at h2
  have hstore : ∀ (o : Nat), o + 8 ≤ 176 → ∀ x (r : Ram),
      kstore (v + o) 8 x r = .ok () { r with mem := store r.mem (a + o) 8 x } ∧
        Wrote [p] r { r with mem := store r.mem (a + o) 8 x } := fun o ho x r =>
    ⟨kstore_page h (a := a + o) (by omega) (by omega) (by omega) r x,
      wrote_store r x (by omega) (by omega)⟩
  obtain ⟨e1, w1⟩ := hstore 144 (by omega) (0x10 ||| 3) r
  obtain ⟨e2, w2⟩ := hstore 136 (by omega) 0x400000 _
  obtain ⟨e3, w3⟩ := hstore 168 (by omega) (0x18 ||| 3) _
  obtain ⟨e4, w4⟩ := hstore 160 (by omega) (0x400000 + pageSize) _
  obtain ⟨e5, w5⟩ := hstore 152 (by omega) 0x202 _
  refine ⟨?_, (((w1.trans w2).trans w3).trans w4).trans w5⟩
  unfold setEntryFrame tfCs tfRip tfSs tfRsp tfRflags
  rw [bind_run e1, bind_run e2, bind_run e3, bind_run e4]
  exact e5

theorem setInitialStack_run {p v : Nat} (h : ValidPage K p) (hv : v = p2v p + stackSize) (r : Ram) :
    setInitialStack K v r = .ok () { r with mem := initialStack K.trapReturn r.mem (p + pageSize) } ∧
      Wrote [p] r { r with mem := initialStack K.trapReturn r.mem (p + pageSize) } := by
  have hv : v = p + pageSize + kernelBase := by
    rw [hv, h.p2v_eq]
    unfold stackSize
    rw [pageSize_eq]
    omega
  have hps := pageSize_eq
  have e1 := kstore_page h (a := p + pageSize - trapFrameSize - 8) (n := 8)
    (v := v - trapFrameSize - 7 * 8 + 6 * 8) (by unfold trapFrameSize; omega) (by omega)
    (by unfold trapFrameSize; omega) r K.trapReturn
  have w1 : Wrote [p] r { r with
      mem := store r.mem (p + pageSize - trapFrameSize - 8) 8 K.trapReturn } :=
    wrote_store r _ (by unfold trapFrameSize; omega) (by unfold trapFrameSize; omega)
  obtain ⟨e2, w2⟩ := setEntryFrame_run h (a := p + pageSize - trapFrameSize)
    (v := v - trapFrameSize) (by unfold trapFrameSize; omega) (by unfold trapFrameSize; omega)
    (by unfold trapFrameSize; omega)
    { r with mem := store r.mem (p + pageSize - trapFrameSize - 8) 8 K.trapReturn }
  refine ⟨?_, w1.trans w2⟩
  unfold setInitialStack
  rw [bind_run e1]
  exact e2

/-! ## alloc_new_process -/

/-- From `s` to `s'` process `i` was made, with its stack in page `p` and the kernel map
    below `root`; it has no user page yet. -/
structure Born (K : Image) (s s' : Kernel) (i : Slot) (free free' : List Nat) (p root : Nat) :
    Prop where
  unused : (s.processTable i).state = .unused
  same : s' = { s with
    ram := s'.ram
    processTable := Function.update s.processTable i { s.processTable i with
      state := .init
      pid := s.pidNum
      stack := p2v p
      tf := p2v p + stackSize - trapFrameSize
      kont := .trapReturn
      pageMap := p2v root }
    pidNum := nextPid s.pidNum
    hist := s.hist ++ [.created s.pidNum] }
  valid : ValidPage K p
  map : KernelMap K s'.ram.mem root
  freeList : FreeList K s'.ram free'
  taken : ∃ ts, free = p :: ts ++ free' ∧ (tables (entries s'.ram.mem) root).Perm ts ∧
    AgreeOff (p :: ts) s.ram.mem s'.ram.mem
  region : SameRegions s.ram s'.ram
  laid : ∀ x, InPage p x →
    s'.ram.mem x = initialStack K.trapReturn (fill s.ram.mem p pageSize 0) (p + pageSize) x
  length_le : free.length ≤ free'.length + 4

theorem findUnused_state {s : Kernel} {i : Slot} (hf : findUnusedProcess s = some i) :
    (s.processTable i).state = .unused := by
  simpa using List.find?_some hf

theorem load_initialStack (t : Nat) (m : Mem) (top : Nat) (h : trapFrameSize + 8 ≤ top) :
    load (initialStack t m top) (top - trapFrameSize - 8) 8 = t % 2 ^ 64 := by
  have h1 : load (store m (top - trapFrameSize - 8) 8 t) (top - trapFrameSize - 8) 8 = t % 2 ^ 64 :=
    load_store_self m _ 8 t
  rw [← h1]
  unfold initialStack entryFrame
  unfold trapFrameSize at *
  rw [load_store_of_disjoint _ _ _ _ (by omega), load_store_of_disjoint _ _ _ _ (by omega),
    load_store_of_disjoint _ _ _ _ (by omega), load_store_of_disjoint _ _ _ _ (by omega),
    load_store_of_disjoint _ _ _ _ (by omega)]

section Create

variable {s : Kernel} {free : List Nat} {i : Slot}

theorem allocNewProcess_run (h : FreeList K s.ram free) (hf : findUnusedProcess s = some i) :
    (free.length < 4 ∧ ∀ o s', allocNewProcess K s = .ok o s' → o = none) ∨
      ∃ s' p root free', allocNewProcess K s = .ok (some i) s' ∧ Born K s s' i free free' p root := by
  let s₁ : Kernel := { (s.setProcess i fun p => { p with state := .init, pid := s.pidNum }) with
    pidNum := nextPid s.pidNum }
  have hstart : allocNewProcess K s = (do
      let stack ← ram (kalloc K)
      setProcess i fun p => { p with stack := stack }
      if stack = 0 then
        return none
      else
        ram (kmemset stack 0 pageSize)
        ram (setInitialStack K (stack + stackSize))
        setProcess i fun p =>
          { p with tf := stack + stackSize - trapFrameSize, kont := .trapReturn }
        let pageMap ← ram (setupKvm K)
        setProcess i fun p => { p with pageMap := pageMap }
        if pageMap = 0 then
          ram (kfree K stack)
          setProcess i fun _ => Process.zero
          return none
        else
          observe (.created s.pidNum)
          return some i : LowM (Option Slot)) s₁ := by
    unfold allocNewProcess
    rw [bind_run (get_run s)]
    simp only [hf]
    rw [bind_run (setProcess_run i _ _), bind_run (modify_run _ _)]
    rfl
  rw [hstart]
  cases free with
  | nil =>
      refine Or.inl ⟨by decide, fun o s' hrun => ?_⟩
      rw [bind_run (ram_run (s := s₁) (kalloc_nil h)), bind_run (setProcess_run i _ _), if_pos rfl] at hrun
      exact (EStateM.Result.ok.inj hrun).1.symm
  | cons p free =>
      obtain ⟨halloc, hfl⟩ := kalloc_cons h
      have hv := h.valid p List.mem_cons_self
      have hpf := (List.nodup_cons.mp h.nodup).1
      -- the memory with the initial stack
      let r₁ : Ram := { s.ram with
        freeMemory := load s.ram.mem p 8, mem := fill s.ram.mem p pageSize 0 }
      obtain ⟨hstack, hw⟩ := setInitialStack_run hv (v := p2v p + stackSize) rfl r₁
      let r₂ : Ram := { r₁ with mem := initialStack K.trapReturn r₁.mem (p + pageSize) }
      have hm₂ : AgreeOff [p] s.ram.mem r₂.mem := (agreeOff_fill s.ram.mem 0).trans hw.mem
      have hal : ∀ q ∈ [p], q % pageSize = 0 ∧ q ∉ free := fun q hq => by
        rw [List.mem_singleton.mp hq]
        exact ⟨hv.aligned, hpf⟩
      have hfl₂ : FreeList K r₂ free := hfl.congr rfl hm₂ hal
      let t : Kernel := ({ s₁ with ram := r₁ } : Kernel).setProcess i fun q => { q with stack := p2v p }
      have hrun : ∀ tail : Nat → Nat → LowM (Option Slot), (do
          let stack ← ram (kalloc K)
          setProcess i fun p => { p with stack := stack }
          if stack = 0 then
            return none
          else
            ram (kmemset stack 0 pageSize)
            ram (setInitialStack K (stack + stackSize))
            setProcess i fun p =>
              { p with tf := stack + stackSize - trapFrameSize, kont := .trapReturn }
            let pageMap ← ram (setupKvm K)
            tail stack pageMap : LowM (Option Slot)) s₁ = (do
          let pageMap ← ram (setupKvm K)
          tail (p2v p) pageMap : LowM (Option Slot))
          (({ t with ram := r₂ } : Kernel).setProcess i
            fun q => { q with tf := p2v p + stackSize - trapFrameSize, kont := .trapReturn }) := by
        intro tail
        have h1 : ram (kalloc K) s₁ = .ok (p2v p)
            { s₁ with ram := { s.ram with freeMemory := load s.ram.mem p 8 } } :=
          ram_run (s := s₁) halloc
        have h2 : ram (kmemset (p2v p) 0 pageSize) (({ s₁ with
            ram := { s.ram with freeMemory := load s.ram.mem p 8 } } : Kernel).setProcess i
              fun q => { q with stack := p2v p }) = .ok () t :=
          ram_run (kmemset_page hv 0 _)
        have h3 : ram (setInitialStack K (p2v p + stackSize)) t = .ok () { t with ram := r₂ } :=
          ram_run (s := t) hstack
        refine (bind_run h1).trans ((bind_run (setProcess_run i _ _)).trans ?_)
        rw [if_neg hv.p2v_ne_zero]
        exact (bind_run h2).trans ((bind_run h3).trans (bind_run (setProcess_run i _ _)))
      rw [hrun]
      let u : Kernel := ({ t with ram := r₂ } : Kernel).setProcess i
        fun q => { q with tf := p2v p + stackSize - trapFrameSize, kont := .trapReturn }
      rcases setupKvm_run hfl₂ with ⟨hlen, hzero⟩ | ⟨root, r₃, free', hkvm, hmade⟩
      · refine Or.inl ⟨by rw [List.length_cons]; omega, fun o s' hrun' => ?_⟩
        obtain ⟨map, u₁, hmap, hrest⟩ := bind_ok.mp hrun'
        obtain ⟨r₃, hmap, -⟩ := onPart_ok.mp hmap
        rw [hzero map r₃ hmap, bind_run (setProcess_run i _ _), if_pos rfl] at hrest
        obtain ⟨_, _, -, hrest⟩ := bind_ok.mp hrest
        rw [bind_run (setProcess_run i _ _)] at hrest
        exact (EStateM.Result.ok.inj hrest).1.symm
      · have hmap : ram (setupKvm K) u = .ok (p2v root) { u with ram := r₃ } := ram_run (s := u) hkvm
        obtain ⟨ts, hts, hperm, hagree⟩ := hmade.taken
        have hroot := hmade.map.toTreeOk.root_valid
        -- the tables are other pages
        have hpts : p ∉ ts := fun hm => hpf (by rw [hts]; exact List.mem_append_left _ hm)
        have htables : ∀ q ∈ ts, q % pageSize = 0 := fun q hq => by
          refine (h.valid q ?_).aligned
          rw [hts]
          exact List.mem_cons_of_mem p (List.mem_append_left _ hq)
        let w : Kernel := ({ u with ram := r₃ } : Kernel).setProcess i fun q => { q with pageMap := p2v root }
        refine Or.inr ⟨{ w with hist := s.hist ++ [.created s.pidNum] }, p, root, free', ?_,
          findUnused_state hf, ?_, hv, hmade.map, hmade.freeList, ⟨ts, ?_, hperm, ?_⟩, ?_, ?_, ?_⟩
        · rw [bind_run hmap, bind_run (setProcess_run i _ _), if_neg hroot.p2v_ne_zero]
          rfl
        · simp [w, u, t, s₁, Kernel.setProcess]
        · rw [hts]
          rfl
        · refine (hm₂.mono fun q hq => ?_).trans (hagree.mono fun q hq => List.mem_cons_of_mem p hq)
          rw [List.mem_singleton.mp hq]
          exact List.mem_cons_self
        · exact hmade.region
        · exact fun x hx => hagree.page hv.aligned hpts htables hx
        · have := hmade.length_le
          rw [List.length_cons]
          omega

/-! ## The pages of a new process -/

variable {pool free' : List Nat} {s₁ : Kernel} {p root : Nat}

/-- The map of the new process is apart from the free pages that are left. -/
theorem Born.mapOk (hb : Born K s s₁ i free free' p root) (h : FreeList K s.ram free) :
    MapOk K s₁.ram free' root := by
  obtain ⟨ts, hts, hperm, -⟩ := hb.taken
  refine ⟨hb.map.toTreeOk, hb.freeList, fun t ht hf => ?_⟩
  have hnd := h.nodup
  rw [hts] at hnd
  exact List.disjoint_of_nodup_append hnd (List.mem_cons_of_mem p (hperm.mem_iff.mp ht)) hf

theorem Born.processTable (hb : Born K s s₁ i free free' p root) :
    s₁.processTable = Function.update s.processTable i { s.processTable i with
      state := .init
      pid := s.pidNum
      stack := p2v p
      tf := p2v p + stackSize - trapFrameSize
      kont := .trapReturn
      pageMap := p2v root } := by
  rw [hb.same]

theorem Born.other (hb : Born K s s₁ i free free' p root) {j : Slot} (hj : j ≠ i) :
    s₁.processTable j = s.processTable j := by
  rw [hb.processTable, Function.update_of_ne hj]

theorem Born.mem_free (hb : Born K s s₁ i free free' p root) {q : Nat}
    (hq : q = p ∨ q ∈ tables (entries s₁.ram.mem) root) : q ∈ free := by
  obtain ⟨ts, hts, hperm, -⟩ := hb.taken
  rw [hts]
  refine List.mem_append_left _ ?_
  rcases hq with rfl | hq
  · exact List.mem_cons_self
  · exact List.mem_cons_of_mem p (hperm.mem_iff.mp hq)

/-- Memory changed in pages that were free. -/
theorem Born.housed_mem (hb : Born K s s₁ i free free' p root) {r₂ : Ram} {free₂ : List Nat}
    {page : Nat} (hh : Housed K s₁.ram r₂ free' free₂ root page) :
    AgreeOff free s.ram.mem r₂.mem := by
  obtain ⟨ts, hts, -, hagree⟩ := hb.taken
  obtain ⟨ts', hts', -, hagree'⟩ := hh.taken
  refine (hagree.mono fun q hq => ?_).trans (hagree'.mono fun q hq => ?_)
  · rw [hts]
    exact List.mem_append_left _ hq
  · rcases List.mem_append.mp hq with hq | hq
    · rw [hts, hts']
      exact List.mem_append_right _ (List.mem_append_left _ hq)
    · exact hb.mem_free (Or.inr hq)

/-- With its user page the new process owns what was taken off the free list. -/
theorem Born.housed (h : MemOk K pool free s) (hb : Born K s s₁ i free free' p root) (hi : i ≠ 0)
    (hcur : s.pc.currentProcess ≠ i) {r₂ : Ram} {free₂ : List Nat} {page : Nat}
    (hh : Housed K s₁.ram r₂ free' free₂ root page) :
    Handed K pool free₂ i s { s₁ with ram := r₂ } ∧
      ({ s₁ with ram := r₂ } : Kernel).Live i ∧
      ({ s₁ with ram := r₂ } : Kernel).userPage i = page ∧
      ({ s₁ with ram := r₂ } : Kernel).stackPage i = p := by
  have hp : ({ s₁ with ram := r₂ } : Kernel).processTable i = { s.processTable i with
      state := .init
      pid := s.pidNum
      stack := p2v p
      tf := p2v p + stackSize - trapFrameSize
      kont := .trapReturn
      pageMap := p2v root } := by
    change s₁.processTable i = _
    rw [hb.processTable, Function.update_self]
  have hrv := hb.map.toTreeOk.root_valid
  have hlive : ({ s₁ with ram := r₂ } : Kernel).Live i := by
    refine ⟨hi, ?_⟩
    rw [hp]
    exact nofun
  have hroot : ({ s₁ with ram := r₂ } : Kernel).root i = root := by
    unfold Kernel.root
    rw [hp]
    exact hrv.v2p_p2v
  have hstack : ({ s₁ with ram := r₂ } : Kernel).stackPage i = p := by
    unfold Kernel.stackPage
    rw [hp]
    exact hb.valid.v2p_p2v
  have huser : ({ s₁ with ram := r₂ } : Kernel).userPage i = page := by
    unfold Kernel.userPage
    rw [hroot, hh.space.walk_user]
  obtain ⟨ts, hts, hperm, -⟩ := hb.taken
  obtain ⟨ts', hts', hperm', -⟩ := hh.taken
  have hdead : ¬ s.Live i := fun hl => hl.2 hb.unused
  refine ⟨h.transfer ⟨?_, ?_, fun j hj => hb.other hj, hb.housed_mem hh⟩ hi
    (fun q hq => Or.inl hq) hh.freeList ?_ (fun _ => ?_) ?_, hlive, huser, hstack⟩
  · rw [hb.same]
  · rw [hb.same]
  · rw [Kernel.pagesOf_live hlive, Kernel.pagesOf_dead hdead, hstack, huser, hroot, hts, hts']
    refine List.perm_iff_count.mpr fun x => ?_
    have h1 := (hperm'.trans (hperm.append_left ts')).count_eq x
    simp only [List.count_append, List.count_cons, List.count_nil] at h1 ⊢
    rw [h1]
    omega
  · refine ⟨?_, ?_, ?_, ?_⟩
    · rw [hstack, hp]
    · rw [hroot, hp]
    · rw [hp]
    · rw [hroot, huser]
      exact hh.space
  · have hl := h.loaded
    have hc : ({ s₁ with ram := r₂ } : Kernel).pc.currentProcess = s.pc.currentProcess := by
      rw [hb.same]
    unfold Loaded Kernel.current at *
    rw [hc]
    have hproc : ({ s₁ with ram := r₂ } : Kernel).processTable s.pc.currentProcess =
        s.processTable s.pc.currentProcess := hb.other hcur
    have hcr : ({ s₁ with ram := r₂ } : Kernel).cr3 = s.cr3 := by rw [hb.same]
    have hrsp : ({ s₁ with ram := r₂ } : Kernel).rsp0 = s.rsp0 := by rw [hb.same]
    rw [hproc, hcr, hrsp]
    exact hl

end Create

end Os64
