/-
  Exits and waits.

  * `HandlesReleased j s s'`: process `j` gave its descriptors back, each reference once.
  * `handlesReleased`: so it is when the process was reaped.
  * `run_waits`: no exit is missed by a waiter, and every exited process is reaped at most
    once, as a whole.
-/
import Os64.Sys.Kept
import Os64.Sys.Reach

namespace Os64

open Os64.Lib Finset

variable {K : Image}

/-- From `s` to `s'` process `j` gave its descriptors back. The count of a descriptor went
    down by the entries of the process's table that point at it, the count of a control block
    by the entries whose descriptor points at it. A descriptor that is then unused lets go of
    its control block, and no other one does. -/
structure HandlesReleased (j : Slot) (s s' : Kernel) : Prop where
  fcbTable : s'.fcbTable = s.fcbTable
  fileDescTable : s'.fileDescTable = s.fileDescTable
  desc : ∀ d < descLimit, s'.descCount d +
    #{n : Fin 100 | (s.processTable j).file n = s.fileDescTable + fileDescSize * d} = s.descCount d
  block : ∀ c < fcbLimit, s'.blockCount c +
    #{n : Fin 100 | (s.processTable j).file n ≠ 0 ∧
      s.fileFcb ((s.processTable j).file n) = s.fcbTable + fcbSize * c} = s.blockCount c
  link : ∀ d < descLimit, s'.descLink d = if s'.descCount d = 0 then 0 else s.descLink d

/-- Nobody sleeps in `wait` for a killed process; a `wait` that returned had its process exit
    before; every process exits at most once and is reaped at most once; and the step in which
    `wait` returns releases the process with its descriptors, and no other step releases one. -/
structure ExitsHeard (K : Image) (s : Kernel) : Prop where
  heard : ∀ i p, (s.processTable i).state = .sleep → (s.processTable i).kont = .waiting p →
    ∀ j, (s.processTable j).state = .killed → (s.processTable j).pid ≠ p
  ordered : ∀ h₁ w p h₂, s.hist = h₁ ++ .waited w p :: h₂ → p ∈ exits h₁
  exitsOnce : (exits s.hist).Nodup
  waitsOnce : (waits s.hist).Nodup
  release : ∀ e s', Enabled s e → Confined s e → step K e s = .ok () s' →
    ∃ free free' os, FreeList K s.ram free ∧ FreeList K s'.ram free' ∧ s'.hist = s.hist ++ os ∧
      (reapings os = [] ∧ (∀ j, s.Live j → s'.Live j) ∨
        ∃ j, s.Live j ∧ reapings os = [(s.current.pid, (s.processTable j).pid)] ∧
          Released j free free' s s' ∧ HandlesReleased j s s' ∧ ∀ i, i ≠ j → s.Live i → s'.Live i)

section Waits

variable {pool free free' : List Nat} {a a' : Sched} {S S' : Handles} {s s' : Kernel} {j : Slot}

/-- The entries of slot `j`'s table, as holders. -/
theorem card_entries (j : Slot) (p : Holder → Prop) [DecidablePred p] :
    #{h : Holder | h.1 = j ∧ p h} = #{n : Fin 100 | p (j, n)} := by
  refine (card_bij (fun n _ => (j, n)) (fun n hn => ?_) (fun n _ n' _ he => ?_) fun h hh => ?_).symm
  · exact mem_filter.mpr ⟨mem_univ _, rfl, (mem_filter.mp hn).2⟩
  · exact (Prod.mk.inj he).2
  · obtain ⟨i, n⟩ := h
    obtain ⟨-, rfl, hp⟩ := mem_filter.mp hh
    exact ⟨n, mem_filter.mpr ⟨mem_univ _, hp⟩, rfl⟩

/-- In the sharing structure the reaped process left, and nobody else did. -/
theorem FilesOk.left {R : Nat → Prop} (h : FilesOk s S) (hm : MemOk K pool free s)
    (h' : FilesOk s' S') (hk : Kept R s s') (hzero : s'.processTable j = Process.zero)
    (hfiles : ∀ i, i ≠ j → s'.files i = s.files i) :
    Sharing.Left (fun x : Holder => x.1 = j) S S' where
  gone := by
    rintro ⟨i, n⟩ rfl
    have hheld := h'.rep.held i n
    have hnull : s'.files i n = 0 := congrArg (fun p : Process => p.file n) hzero
    rw [hnull, hk.fileDescTable] at hheld
    cases ho : S'.held (i, n) with
    | none => rfl
    | some d =>
        have hne := hm.tablePages.desc.p2v_ne_zero
        rw [ho] at hheld
        unfold descPtr at hheld
        dsimp only at hheld
        omega
  stay := by
    rintro ⟨i, n⟩ hi
    have hne := hm.tablePages.desc.p2v_ne_zero
    have hheld := h'.rep.held i n
    rw [hfiles i hi, h.rep.held i n, hk.fileDescTable] at hheld
    cases ho : S'.held (i, n) with
    | some d =>
        rw [ho] at hheld
        exact ((descPtr_eq_iff hne).mp hheld).symm
    | none =>
        cases ho' : S.held (i, n) with
        | none => rfl
        | some d =>
            rw [ho, ho'] at hheld
            exact absurd ((descPtr_eq_iff hne).mp hheld.symm) nofun
  object d c ho := by
    obtain ⟨hd, hc⟩ := h.rep.objectLt d c ho
    have hne := hm.tablePages.fcb.p2v_ne_zero
    have hlink := h.descLink hd
    have hlink' := h'.descLink hd
    rw [ho, hm.fcbPtr_eq c] at hlink
    rw [hk.fcbTable] at hlink'
    have hopen : s.descLink d ≠ 0 := by
      rw [hlink, ← hm.fcbPtr_eq c]
      unfold fcbPtr
      dsimp only
      omega
    rcases hk.link d hd hopen with he | h0
    · left
      rw [hlink', hlink, ← hm.fcbPtr_eq c] at he
      exact (fcbPtr_eq_iff hne).mp he
    · right
      rw [hlink'] at h0
      cases ho' : S'.object d with
      | none => rfl
      | some c' =>
          rw [ho'] at h0
          unfold fcbPtr at h0
          dsimp only at h0
          omega

/-- The entry `n` of slot `j` as a pointer into the tables. -/
theorem FilesOk.fileFcb_iff (h : FilesOk s S) (hm : MemOk K pool free s) (n : Fin 100) (c : Nat) :
    (s.processTable j).file n ≠ 0 ∧ s.fileFcb ((s.processTable j).file n) = s.fcbTable + fcbSize * c ↔
      (S.held (j, n)).bind S.object = some c := by
  have hne := hm.tablePages.fcb.p2v_ne_zero
  rcases h.rep.pointer h.ok hm.tablePages j n with ⟨hnull, hno⟩ | ⟨d, c', hptr, hheld, ho, hd, -, hopen⟩
  · have hnull : (s.processTable j).file n = 0 := hnull
    simp [hnull, hno]
  · have hptr : (s.processTable j).file n = descPtr (v2p s.fileDescTable) (some d) := hptr
    have hopen : (s.processTable j).file n ≠ 0 := hopen
    rw [hheld, Option.bind_some, hptr, (desc_fields hm hd).2, h.descLink hd, ← hm.fcbPtr_eq c,
      fcbPtr_eq_iff hne, ← hptr]
    exact and_iff_right hopen

/-- A reaped process gave its descriptors back. -/
theorem handlesReleased {R : Nat → Prop} (h : Whole K pool free a S s)
    (h' : Whole K pool free' a' S' s') (hk : Kept R s s')
    (hrel : Released j free free' s s') : HandlesReleased j s s' := by
  have hleft := h.files.left h.mem h'.files hk hrel.zero hrel.files
  have hS := h.files.ok
  have hS' := h'.files.ok
  refine ⟨hk.fcbTable, hk.fileDescTable, fun d hd => ?_, fun c hc => ?_, fun d hd => ?_⟩
  · have hne := h.mem.tablePages.desc.p2v_ne_zero
    rw [h'.files.descCount hd, h.files.descCount hd, ← hleft.handleCount hS hS' d, card_entries j]
    congr 2
    ext n
    have hheld : (s.processTable j).file n = _ := h.files.rep.held j n
    rw [mem_filter, mem_filter, hheld, ← h.mem.descPtr_eq d, descPtr_eq_iff hne]
  · rw [h'.files.blockCount hc, h.files.blockCount hc, ← hleft.objectCount hS hS' c, card_entries j]
    congr 2
    ext n
    rw [mem_filter, mem_filter, h.files.fileFcb_iff h.mem]
  · rw [h'.files.descLink hd, h.files.descLink hd, h'.files.descCount hd, hk.fcbTable,
      hleft.object_eq hS hS' d]
    split
    · exact fcbPtr_null _
    · rfl

/-- In every state reached before 2^31 creations no exit is missed. -/
theorem run_waits {m : Mem} {r : Ram} {s₀ : Kernel} (hbios : BiosOk m)
    (hinit : initMemory K (bootKernel m).ram = .ok () r) (hpool : FreeList K r pool)
    (h₀ : kMain K (bootKernel m) = .ok () s₀) (h : Run K Confined s₀ s)
    (hb : (created s.hist).length < 2 ^ 31) : ExitsHeard K s := by
  obtain ⟨a, hr, ha, -⟩ := run_refines h₀ h hb
  obtain ⟨free₀, hw₀⟩ := boot_whole hbios hinit hpool h₀
  obtain ⟨free, b, S, hw⟩ := run_whole hw₀ (fun _ _ hc => hc) h
  refine ⟨fun i p hs hk j hj => ?_, ?_, ?_, ?_, fun e s' he hc hs => ?_⟩
  · rw [hr.pid]
    rw [hr.state] at hs hj
    rw [hr.kont] at hk
    exact ha.konts.heard i p hs hk j hj
  · rw [hr.hist]
    exact ha.life.ordered
  · rw [hr.hist]
    exact ha.life.exitsOnce
  · rw [hr.hist]
    exact ha.life.waitsOnce
  · obtain ⟨free', a', S', hw', hst⟩ := step_whole hw he hc hs
    have hk := step_kept hw he hc hs
    obtain ⟨os, ho, -, hrest⟩ := hst.hist
    refine ⟨free, free', os, hw.mem.freeList, hw'.mem.freeList, ho, hrest.imp_right ?_⟩
    rintro ⟨j, -, hl, hre, hrel, hlive⟩
    exact ⟨j, hl, hre, hrel, handlesReleased hw hw' hk hrel, hlive⟩

/-- The first program waits for its child, the child has exited, and the next step reaps it. -/
theorem run_waits_machine : ∃ s s', Reached image (machineMem 20 []) Confined s ∧
    exits s.hist = [2] ∧ s.Live 2 ∧ Enabled s .resume ∧ step image .resume s = .ok () s' ∧
      ¬ s'.Live 2 ∧ ExitsHeard image s := by
  obtain ⟨pool, free, S, s, r⟩ := reached_exited Forking.confined
  obtain ⟨s₀, h₀, hrun⟩ := r.reached
  obtain ⟨r₀, pool₀, hinit, hfl, -⟩ := machine_pool (n := 20) (by decide) []
  obtain ⟨s', free', S', hs, h', -⟩ := reap_move r.whole (p := 2) (x := 2) (by decide) (by decide)
  refine ⟨s, s', r.reached, ?_, ⟨by decide, ?_⟩, r.enabled_resume (by decide), hs, fun hl => ?_, ?_⟩
  · rw [r.whole.rep.hist]
    decide
  · rw [r.whole.rep.state]
    decide
  · refine hl.2 ?_
    rw [h'.rep.state]
    decide
  · refine run_waits (machine_bios (by decide)) hinit hfl h₀ hrun ?_
    rw [r.whole.rep.hist]
    decide

end Waits

end Os64
