/-
  wait: the pages and descriptors of a reaped process come back.

  * `reap_run`: reaping a killed process succeeds and gives every page it owned to the
    free list, once (`Reaped`).
  * `waitLoop_reap`, `waitLoop_sleep`: a round of `wait` reaps the process of the given
    pid or sleeps.
-/
import Os64.Proc.Fork

namespace Os64

open Os64.Lib

variable {K : Image}

/-- From `s` to `s'` the process in slot `i` was reaped. -/
structure Reaped (i : Slot) (free free' : List Nat) (s s' : Kernel) : Prop where
  free : free'.Perm (s.pagesOf [] (.process i) ++ free)
  zero : s'.processTable i = Process.zero
  files : ∀ j, j ≠ i → s'.files j = s.files j
  other : ∀ j, j ≠ i → (s'.processTable j).pageMap = (s.processTable j).pageMap ∧
    (s'.processTable j).stack = (s.processTable j).stack ∧
    (s'.processTable j).tf = (s.processTable j).tf
  userPage : ∀ j, j ≠ i → s.Live j → s'.userPage j = s.userPage j
  mem : ∀ j, j ≠ i → s.Live j → ∀ q ∈ s.pagesOf [] (.process j), ∀ x, InPage q x →
    s'.ram.mem x = s.ram.mem x

section Reap

variable {pool free : List Nat} {s : Kernel} {a : Sched} {S : Handles} {i : Slot}

/-- The two calls that free a process's memory. -/
theorem freeProcess_run (h : MemOk K pool free s) (hl : s.Live i) :
    ∃ r₁ r₂ free', kfree K (s.processTable i).stack s.ram = .ok () r₁ ∧
      freeVm K (s.processTable i).pageMap r₁ = .ok () r₂ ∧ FreeList K r₂ free' ∧
      free'.Perm (s.pagesOf [] (.process i) ++ free) ∧
      AgreeOff (s.pagesOf [] (.process i)) s.ram.mem r₂.mem := by
  have hp := h.process i hl
  have hnot : ∀ q ∈ s.pagesOf free (.process i), q ∉ free := fun q hq =>
    h.apart (o := .process i) (u := .free) nofun hq
  have hstack := MemOk.stackPage_mem (l := free) hl
  have hv := h.stackValid hl
  have hwithin := h.within hl
  obtain ⟨hrun₁, hfl₁⟩ := kfree_run h.freeList hv (hnot _ hstack) hp.stack
  let r₁ : Ram := { s.ram with
    mem := store s.ram.mem (s.stackPage i) 8 s.ram.freeMemory
    freeMemory := (s.processTable i).stack }
  have hm₁ : AgreeOff [s.stackPage i] s.ram.mem r₁.mem :=
    agreeOff_store s.ram.mem _ (Nat.le_refl _) (by rw [pageSize_eq]; omega)
  have he₁ : ∀ t ∈ tables (entries s.ram.mem) (s.root i), ∀ k < 512,
      entries r₁.mem t k = entries s.ram.mem t k := hp.space.toTreeOk.entries_eq hm₁ fun q hq => by
    rw [List.mem_singleton.mp hq]
    exact ⟨hv.aligned, hwithin.2.1⟩
  have hsp₁ := hp.space.congr he₁
  have htab : tables (entries r₁.mem) (s.root i) = tables (entries s.ram.mem) (s.root i) :=
    tables_congr he₁
  have hok : MapOk K r₁ (s.stackPage i :: free) (s.root i) := by
    refine ⟨hsp₁.toTreeOk, hfl₁, fun t ht hm => ?_⟩
    rw [htab] at ht
    rcases List.mem_cons.mp hm with he | hm
    · exact hwithin.2.1 (he ▸ ht)
    · exact hnot t (MemOk.table_mem hl ht) hm
  obtain ⟨r₂, free', hrun₂, hfreed⟩ := freeVm_run hok hsp₁.walk_user hp.space.pageValid hsp₁.pageApart (by
    intro hm
    rcases List.mem_cons.mp hm with he | hm
    · exact hwithin.1 he.symm
    · exact hnot _ (MemOk.userPage_mem hl) hm)
  rw [← hp.pageMap] at hrun₂
  have hpages := Kernel.pagesOf_live (l := []) hl
  refine ⟨r₁, r₂, free', hrun₁, hrun₂, hfreed.freeList, ?_, ?_⟩
  · rw [hpages]
    have := hfreed.perm
    rw [htab] at this
    refine this.trans (List.perm_iff_count.mpr fun x => ?_)
    simp only [List.count_append, List.count_cons]
    omega
  · rw [hpages]
    have := hfreed.mem
    rw [htab, List.append_nil] at this
    refine (hm₁.mono fun q hq => ?_).trans (this.mono fun q hq => List.mem_cons_of_mem _ hq)
    rw [List.mem_singleton.mp hq]
    exact List.mem_cons_self

/-- The state with the process's memory free and its slot empty. -/
def Kernel.emptied (s : Kernel) (i : Slot) (r : Ram) : Kernel :=
  ({ s with ram := r } : Kernel).setProcess i fun _ => Process.zero

theorem emptied_self (s : Kernel) (i : Slot) (r : Ram) :
    (s.emptied i r).processTable i = Process.zero := Function.update_self _ _ _

theorem emptied_dead (s : Kernel) (i : Slot) (r : Ram) : ¬ (s.emptied i r).Live i := by
  unfold Kernel.Live
  rw [emptied_self]
  exact fun h => h.2 rfl

theorem emptied_other (s : Kernel) {i j : Slot} (hj : j ≠ i) (r : Ram) :
    (s.emptied i r).processTable j = s.processTable j := Function.update_of_ne hj _ _

/-- The pages of the process passed to the free list. -/
theorem emptied_handed (h : MemOk K pool free s) (hl : s.Live i) (hcur : s.pc.currentProcess ≠ i)
    {r : Ram} {free' : List Nat} (hfree : FreeList K r free')
    (hperm : free'.Perm (s.pagesOf [] (.process i) ++ free))
    (hm : AgreeOff (s.pagesOf [] (.process i)) s.ram.mem r.mem) :
    Handed K pool free' i s (s.emptied i r) := by
  have hdead := emptied_dead s i r
  have hheld : s.pagesOf free (.process i) = s.pagesOf [] (.process i) :=
    Kernel.pagesOf_held (o := .process i) nofun
  refine h.transfer ⟨rfl, rfl, fun j hj => emptied_other s hj r, hm⟩ hl.1 (fun q hq => Or.inr ?_)
    hfree ?_ (fun hl' => absurd hl' hdead) ?_
  · rw [hheld]
    exact hq
  · rw [Kernel.pagesOf_dead hdead, hheld, List.append_nil]
    exact hperm.trans List.perm_append_comm
  · have hload := h.loaded
    have hproc : (s.emptied i r).processTable s.pc.currentProcess =
        s.processTable s.pc.currentProcess := emptied_other s hcur r
    have hc : (s.emptied i r).pc.currentProcess = s.pc.currentProcess := rfl
    unfold Loaded Kernel.current at *
    rw [hc, hproc]
    exact hload

/-- `wait` reaps a killed process: its pages and descriptors are released. -/
theorem reap_run (h : MemOk K pool free s) (hf : FilesOk s S) (hl : s.Live i)
    (hk : (s.processTable i).state = .killed) (hcur : s.pc.currentProcess ≠ i) :
    ∃ s' free' S', reap K i s = .ok () s' ∧ MemOk K pool free' s' ∧ FilesOk s' S' ∧
      Reaped i free free' s s' ∧ Settled (fun _ => False) s s' := by
  obtain ⟨r₁, r₂, free', hrun₁, hrun₂, hfree, hperm, hagree⟩ := freeProcess_run h hl
  have hheld : s.pagesOf free (.process i) = s.pagesOf [] (.process i) :=
    Kernel.pagesOf_held (o := .process i) nofun
  -- the tables of file.c are other pages
  have htab : ∀ p ∈ s.pagesOf [] (.process i), p % pageSize = 0 ∧ p ≠ v2p s.fcbTable ∧
      p ≠ v2p s.fileDescTable := by
    intro p hp
    rw [← hheld] at hp
    refine ⟨(h.validOf hp).aligned, fun he => ?_, fun he => ?_⟩
    · exact h.apart (o := .process i) (u := .fcbTable) nofun hp (List.mem_singleton.mpr he)
    · exact h.apart (o := .process i) (u := .fileDescTable) nofun hp (List.mem_singleton.mpr he)
  have hrep : FileRep r₂.mem (v2p s.fcbTable) (v2p s.fileDescTable) s.files S :=
    hf.rep.off h.tablePages hagree htab
  obtain ⟨_, s₃, hrun₃, S', hch⟩ := (closeAll_ends (s := { s with ram := r₂ }) hrep hf.ok
    h.tablePages i).run
  have hhand := emptied_handed h hl hcur hfree hperm hagree
  -- then the tables are written
  let s' : Kernel := { (s.emptied i s₃.ram) with
    hist := s.hist ++ [.waited s.current.pid (s.processTable i).pid] }
  have hstill : Still [v2p s.fcbTable, v2p s.fileDescTable] (s.emptied i r₂) s' :=
    ⟨rfl, rfl, fun _ => Iff.rfl, fun _ => rfl, fun _ => rfl, fun _ => rfl, hch.wrote.freeMemory,
      hch.wrote.mem, fun hload => hload⟩
  have hstays := hhand.memOk.still hstill fun p hp => Kernel.tablePages_data (s := s.emptied i r₂) hp
  have hlive : ∀ j, j ≠ i → s.Live j → (s.emptied i r₂).Live j := by
    intro j hj hlj
    refine ⟨hlj.1, ?_⟩
    rw [emptied_other s hj]
    exact hlj.2
  have hset : Settled (fun _ => False) s s' := by
    have hsame : TablesSame s { s with ram := r₂ } := by
      refine h.tablesSame rfl rfl hagree fun p hp => ?_
      obtain ⟨-, hne, hne'⟩ := htab p hp
      rw [← hheld] at hp
      refine ⟨h.validOf hp, fun hin => ?_⟩
      rcases List.mem_cons.mp hin with he | hin
      · exact hne he
      · exact hne' (List.mem_singleton.mp hin)
    have hset₃ : Settled (fun _ => False) { s with ram := r₂ } { s with ram := s₃.ram } :=
      Counted.settled h.tablePages rfl rfl hrep hch.rep hch.counted hch.link hch.used
    have hsame' : TablesSame { s with ram := s₃.ram } s' :=
      ⟨rfl, rfl, fun _ _ _ _ => rfl, fun _ _ => rfl⟩
    exact (hsame.settled.trans hset₃).trans hsame'.settled
  refine ⟨s', free', S', ?_, hstays.memOk, ?_, ⟨hperm, emptied_self s i s₃.ram, fun j hj => ?_,
    fun j hj => ?_, fun j hj hlj => ?_, fun j hj hlj q hq x hx => ?_⟩, hset⟩
  · have h3 : low (closeAll i) { s with ram := r₂ } = .ok () { s with ram := s₃.ram } := by
      refine low_run (hrun₃.trans ?_)
      rw [hch.same]
    unfold reap
    rw [bind_run (get_run s), bind_run (show assertProcess ((s.processTable i).state = .killed) 246 s =
      .ok () s from ensure_run hk _ s), bind_run (low_run (ram_run hrun₁)),
      bind_run (low_run (ram_run (s := { s with ram := r₁ }) hrun₂)), bind_run h3,
      bind_run (setProcess_run i _ _)]
    rfl
  · refine .of_tables (s := s) rfl rfl ?_ hch.ok fun j hj fd => ?_
    · have hfiles : s'.files = Function.update s.files i fun _ => 0 :=
        setProcess_files { s with ram := s₃.ram } i fun _ => Process.zero
      rw [hfiles]
      exact hch.rep
    · by_cases hji : j = i
      · change ((s.emptied i s₃.ram).processTable j).file fd = 0
        rw [hji, emptied_self]
        rfl
      · change ((s.emptied i s₃.ram).processTable j).file fd = 0
        rw [emptied_other s hji]
        refine hf.blank j (fun hlj => hj ((hstill.live j).mpr (hlive j hji hlj))) fd
  · change ((s.emptied i s₃.ram).processTable j).file = _
    rw [emptied_other s hj]
    rfl
  · have hp : s'.processTable j = s.processTable j := emptied_other s hj s₃.ram
    rw [hp]
    exact ⟨rfl, rfl, rfl⟩
  · rw [hstays.userPage j (hlive j hj hlj), hhand.userPage j hj hlj]
  · have hne : Owner.process j ≠ .process i := fun he => hj (Owner.process.inj he)
    rw [← hhand.mem (.process j) nofun hne q hq x hx]
    rw [← Kernel.pagesOf_held (o := .process j) (k := free) nofun] at hq
    refine hch.wrote.mem.page (h.validOf hq).aligned (fun hm => ?_) (fun p hp => ?_) hx
    · rcases List.mem_cons.mp hm with he | hm
      · exact h.apart (o := .process j) (u := .fcbTable) nofun hq (List.mem_singleton.mpr he)
      · exact h.apart (o := .process j) (u := .fileDescTable) nofun hq hm
    · rcases List.mem_cons.mp hp with he | hp
      · rw [he]
        exact h.fcbValid.aligned
      · rw [List.mem_singleton.mp hp]
        exact h.descValid.aligned

/-- The same seen from before the lists changed. -/
theorem Reaped.before {s₁ s' : Kernel} {free' : List Nat} (h : MemOk K pool free s)
    (hk : Keeps s s₁) (hlive : ∀ j, s₁.Live j ↔ s.Live j) (hr : Reaped i free free' s₁ s') :
    Reaped i free free' s s' := by
  have hst := h.still (hk.still hlive) nofun
  have hpages : ∀ j, s₁.pagesOf [] (.process j) = s.pagesOf [] (.process j) := by
    intro j
    rw [Kernel.pagesOf_held (s := s₁) (o := .process j) (l := free) nofun,
      Kernel.pagesOf_held (s := s) (o := .process j) (l := free) nofun]
    exact hst.pagesOf (.process j)
  refine ⟨?_, hr.zero, fun j hj => (hr.files j hj).trans (hk.file j), fun j hj => ?_,
    fun j hj hl => ?_, fun j hj hl q hq x hx => ?_⟩
  · rw [← hpages i]
    exact hr.free
  · obtain ⟨h1, h2, h3⟩ := hr.other j hj
    exact ⟨h1.trans (hk.pageMap j), h2.trans (hk.stack j), h3.trans (hk.tf j)⟩
  · rw [hr.userPage j hj ((hlive j).mpr hl), hst.userPage j hl]
  · rw [← hpages j] at hq
    rw [hr.mem j hj ((hlive j).mpr hl) q hq x hx, hk.ram]

theorem Keeps.tablesSame {s' : Kernel} (hk : Keeps s s') : TablesSame s s' :=
  ⟨hk.fcbTable, hk.fileDescTable, fun _ _ _ _ => by rw [hk.ram], fun _ _ => by rw [hk.ram]⟩

theorem FilesOk.keeps {s' : Kernel} (h : FilesOk s S) (hm : MemOk K pool free s) (hk : Keeps s s')
    (hlive : ∀ j, s'.Live j ↔ s.Live j) : FilesOk s' S :=
  h.off hm (hk.still hlive) (funext hk.file) nofun

/-- The first match on the kill list. -/
theorem find_kill {p : Int} {xs ys : List Slot} {x : Slot} (hr : Rep s a)
    (hL : a.queue .kill = xs ++ x :: ys) (hxs : ∀ i ∈ xs, (s.processTable i).wait ≠ p)
    (hx : (s.processTable x).wait = p) : (a.queue .kill).find? (fun j => a.wait j = p) = some x := by
  have hx' : a.wait x = p := by rw [← hr.wait]; exact hx
  rw [hL, List.find?_append, List.find?_eq_none.mpr fun j hj => by simpa [hr.wait] using hxs j hj]
  simp [hx']

/-- A round of `wait` with nobody to reap puts the caller to sleep. -/
theorem waitLoop_sleep (hr : Rep s a) {p : Int}
    (hf : (a.queue .kill).find? (fun j => a.wait j = p) = none) :
    waitLoop K p s = (do sleep (-3) (.waiting p); return none : KernelM (Option Unit)) s := by
  unfold waitLoop
  rw [bind_run (get_run s)]
  cases he : isListEmpty s.pc.killList with
  | true => rfl
  | false =>
      simp only [Bool.false_eq_true, if_false]
      rcases removeList_run hr.lists .kill p with
        ⟨-, hrun⟩ | ⟨xs, x, ys, s₁, hL, hxs, hx, -⟩
      · rw [bind_run (low_run hrun)]
      · rw [find_kill hr hL hxs hx] at hf
        cases hf

/-- A round of `wait` that finds the process reaps it. -/
theorem waitLoop_reap (hr : Rep s a) (ha : a.Sane) (h : MemOk K pool free s) (hf : FilesOk s S)
    {p : Int} {x : Slot} (hfind : (a.queue .kill).find? (fun j => a.wait j = p) = some x) :
    ∃ s' free' S', waitLoop K p s = .ok (some ()) s' ∧ Rep s' (a.reap x) ∧ MemOk K pool free' s' ∧
      FilesOk s' S' ∧ Reaped x free free' s s' ∧ Settled (fun _ => False) s s' := by
  unfold waitLoop
  rw [bind_run (get_run s)]
  cases he : isListEmpty s.pc.killList with
  | true =>
      rw [(isListEmpty_iff hr .kill).mp he] at hfind
      cases hfind
  | false =>
      simp only [Bool.false_eq_true, if_false]
      rcases removeList_run hr.lists .kill p with
        ⟨hn, hrun⟩ | ⟨xs, y, ys, s₁, hL, hxs, hy, hrun, hl, hsame⟩
      · obtain ⟨hm, hw⟩ := Sched.find?_kill hfind
        exact absurd ((hr.wait x).trans hw) (hn x hm)
      · have hxy := find_kill hr hL hxs hy
        rw [hfind] at hxy
        obtain rfl := Option.some.inj hxy
        have hmem := (Sched.find?_kill hfind).1
        obtain ⟨hx0, hkill⟩ := ha.member .kill x hmem
        have hkill : a.state x = .killed := hkill
        have hk₁ := hsame.keeps
        have hlive : ∀ j, s₁.Live j ↔ s.Live j := by
          intro j
          unfold Kernel.Live
          rw [hsame.state]
        have h₁ := (h.still (hk₁.still hlive) nofun).memOk
        have hf₁ := hf.keeps h hk₁ hlive
        have hkx : (s₁.processTable x).state = .killed := by
          rw [hsame.state, hr.state, hkill]
        have hlx : s₁.Live x := ⟨hx0, by rw [hkx]; exact nofun⟩
        have hcx : s₁.pc.currentProcess ≠ x := by
          rw [hsame.current, hr.current]
          rintro rfl
          exact ha.current_free .kill hmem
        obtain ⟨s', free', S', hrun', hm', hf', hreap, hset⟩ := reap_run h₁ hf₁ hlx hkx hcx
        -- the scheduler's view
        have hnd := ha.nodup .kill
        rw [hL, List.nodup_middle] at hnd
        have hxn : x ∉ xs ++ ys := (List.nodup_cons.mp hnd).1
        have hfree : ∀ q, x ∉ (Function.update a.queue .kill (xs ++ ys)) q := by
          intro q
          by_cases hq : q = .kill
          · subst hq
            rw [Function.update_self]
            exact hxn
          · rw [Function.update_of_ne hq]
            exact fun hm => hq (ha.toListed.apart hm hmem)
        have herase : (a.queue .kill).erase x = xs ++ ys := by
          rw [hL, List.erase_append_right _ fun hm => hxn (List.mem_append_left _ hm)]
          simp
        have hr' := (reap_ends (K := K) (b := a) (hsame.rep hr hl) hfree hkill).ok hrun'
        refine ⟨s', free', S', ?_, ?_, hm', hf', hreap.before h hk₁ hlive,
          hk₁.tablesSame.settled.trans hset⟩
        · rw [bind_run (low_run hrun)]
          dsimp only
          rw [bind_run hrun']
          rfl
        · unfold Sched.reap
          rw [herase]
          exact hr'

end Reap

end Os64
