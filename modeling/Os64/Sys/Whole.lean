/-
  The invariant of the whole kernel, and what one step may change.

  `Whole K pool free a S s`: the kernel `s` represents the scheduler `a`, its pages are
  divided among their owners with `free` on the free list, and its descriptors
  represent the sharing structure `S`.

  * `Undisturbed j s s'`: process `j` keeps its pages, and these their contents.
  * `Released j free free' s s'`: process `j` was reaped.
  * `Stepped`: what a step leaves of the other processes, and what a reaped process
    leaves behind.
  * `Whole.keeps`, `Whole.works`: the two kinds of changes that neither make nor reap a
    process, scheduling and work in the pages of the current process.
-/
import Os64.Proc.Reap
import Os64.Files.Read
import Os64.Sched.Sane

namespace Os64

open Os64.Lib

variable {K : Image}

structure Whole (K : Image) (pool free : List Nat) (a : Sched) (S : Handles) (s : Kernel) :
    Prop where
  rep : Rep s a
  sane : a.Sane
  mem : MemOk K pool free s
  files : FilesOk s S

/-- Process `j` keeps its pages, and these their contents. -/
structure Undisturbed (j : Slot) (s s' : Kernel) : Prop where
  pages : s'.pagesOf [] (.process j) = s.pagesOf [] (.process j)
  userPage : s'.userPage j = s.userPage j
  mem : ∀ p ∈ s.pagesOf [] (.process j), ∀ x, InPage p x → s'.ram.mem x = s.ram.mem x

/-- From `s` to `s'` the killed process in slot `j` was reaped: all of its pages are free,
    the slot is empty, and the others hold the descriptors they held. -/
structure Released (j : Slot) (free free' : List Nat) (s s' : Kernel) : Prop where
  killed : (s.processTable j).state = .killed
  free : free'.Perm (s.pagesOf [] (.process j) ++ free)
  zero : s'.processTable j = Process.zero
  files : ∀ i, i ≠ j → s'.files i = s.files i

/-- The reapings in a history: who waited, and the process number it waited for. -/
def Obs.reaping? : Obs → Option (Int × Int)
  | .waited w p => some (w, p)
  | _ => none

def reapings (h : List Obs) : List (Int × Int) := h.filterMap Obs.reaping?

/-- A step of process `c` from `s` to `s'`. -/
structure Stepped (c : Slot) (free free' : List Nat) (s s' : Kernel) : Prop where
  others : ∀ j, j ≠ c → s.Live j → s'.Live j → Undisturbed j s s'
  hist : ∃ os, s'.hist = s.hist ++ os ∧ (∀ va, .stored va ∈ os → InUser va) ∧
    (reapings os = [] ∧ (∀ j, s.Live j → s'.Live j) ∨
      ∃ j, j ≠ c ∧ s.Live j ∧ reapings os = [((s.processTable c).pid, (s.processTable j).pid)] ∧
        Released j free free' s s' ∧ ∀ i, i ≠ j → s.Live i → s'.Live i)

section Changes

variable {pool free free' : List Nat} {a b : Sched} {S S' : Handles} {s s' s₁ : Kernel} {c j : Slot}

theorem Undisturbed.refl (j : Slot) (s : Kernel) : Undisturbed j s s :=
  ⟨rfl, rfl, fun _ _ _ _ => rfl⟩

theorem Undisturbed.trans (h : Undisturbed j s s₁) (h' : Undisturbed j s₁ s') :
    Undisturbed j s s' :=
  ⟨h'.pages.trans h.pages, h'.userPage.trans h.userPage, fun p hp x hx =>
    (h'.mem p (h.pages ▸ hp) x hx).trans (h.mem p hp x hx)⟩

/-- Whatever happens elsewhere: the pages are found through the process's entry and its tables. -/
theorem MemOk.undisturbed_of_mem (h : MemOk K pool free s) (hl : s.Live j) (hl' : s'.Live j)
    (hmap : (s'.processTable j).pageMap = (s.processTable j).pageMap)
    (hstack : (s'.processTable j).stack = (s.processTable j).stack)
    (hm : ∀ p ∈ s.pagesOf [] (.process j), ∀ x, InPage p x → s'.ram.mem x = s.ram.mem x) :
    Undisturbed j s s' := by
  have hroot : s'.root j = s.root j := by
    unfold Kernel.root
    rw [hmap]
  have hpage : s'.stackPage j = s.stackPage j := by
    unfold Kernel.stackPage
    rw [hstack]
  have he : ∀ t ∈ tables (entries s.ram.mem) (s.root j), ∀ i < 512,
      entries s'.ram.mem t i = entries s.ram.mem t i := by
    intro t ht i hi
    refine load_congr fun x h1 h2 => hm t (MemOk.table_mem hl ht) x ⟨by omega, ?_⟩
    rw [pageSize_eq]
    omega
  have hwalk : walk (entries s'.ram.mem) (s.root j) 0x400000 =
      walk (entries s.ram.mem) (s.root j) 0x400000 :=
    (h.process j hl).space.toTreeOk.wf.walk_untouched he _
  have huser : s'.userPage j = s.userPage j := by
    unfold Kernel.userPage
    rw [hroot, hwalk]
  refine ⟨?_, huser, hm⟩
  rw [Kernel.pagesOf_live hl, Kernel.pagesOf_live hl', hroot, hpage, huser, tables_congr he]

/-- Stores outside the pages of a process leave it alone. -/
theorem MemOk.undisturbed {D : List Nat} (h : MemOk K pool free s) (hs : Still D s s')
    (hD : ∀ p ∈ D, s.Data p) (hl : s.Live j) (hj : ∀ p ∈ D, p ∉ s.pagesOf [] (.process j)) :
    Undisturbed j s s' := by
  have hst := h.still hs hD
  have hheld : ∀ t : Kernel, t.pagesOf [] (.process j) = t.pagesOf free (.process j) := fun t =>
    Kernel.pagesOf_held (o := .process j) nofun
  refine ⟨by rw [hheld, hheld, hst.pagesOf], hst.userPage j hl, fun p hp x hx => ?_⟩
  have hv : ValidPage K p := h.validOf (o := .process j) (by rw [← hheld]; exact hp)
  refine hs.mem.page hv.aligned (fun hm => hj p hm hp) (fun q hq => ?_) hx
  exact (h.data (hD q hq)).1.aligned

/-- The pages process `c` works in. -/
def Kernel.workPages (s : Kernel) (c : Slot) : List Nat :=
  s.tablePages ++ [s.userPage c, s.stackPage c]

theorem workPages_data (hl : s.Live c) {p : Nat} (hp : p ∈ s.workPages c) : s.Data p := by
  rcases List.mem_append.mp hp with hp | hp
  · exact Kernel.tablePages_data hp
  · refine Or.inr (Or.inr ⟨c, hl, ?_⟩)
    rcases List.mem_cons.mp hp with he | hp
    · exact Or.inr he
    · exact Or.inl (List.mem_singleton.mp hp)

theorem MemOk.workPages_apart (h : MemOk K pool free s) (hl : s.Live c) (hj : j ≠ c) {p : Nat}
    (hp : p ∈ s.workPages c) : p ∉ s.pagesOf [] (.process j) := by
  have hheld : s.pagesOf [] (.process j) = s.pagesOf free (.process j) :=
    Kernel.pagesOf_held (o := .process j) nofun
  rw [hheld]
  have hne : Owner.process c ≠ .process j := fun he => hj (Owner.process.inj he).symm
  rcases List.mem_append.mp hp with hp | hp
  · rcases List.mem_cons.mp hp with he | hp
    · exact h.apart (o := .fcbTable) nofun (he ▸ List.mem_cons_self)
    · exact h.apart (o := .fileDescTable) nofun hp
  · rcases List.mem_cons.mp hp with he | hp
    · exact h.apart hne (he ▸ MemOk.userPage_mem hl)
    · exact h.apart hne (List.mem_singleton.mp hp ▸ MemOk.stackPage_mem hl)

/-- From `s` to `s'` no process came or went, and what process `c` did left the others
    alone. -/
structure Steady (c : Slot) (s s' : Kernel) : Prop where
  live : ∀ j, s'.Live j ↔ s.Live j
  others : ∀ j, j ≠ c → s.Live j → Undisturbed j s s'
  hist : ∃ os, s'.hist = s.hist ++ os ∧ (∀ va, .stored va ∈ os → InUser va) ∧ reapings os = []

theorem Steady.refl (c : Slot) (s : Kernel) : Steady c s s :=
  ⟨fun _ => Iff.rfl, fun j _ _ => .refl j s, [], (List.append_nil _).symm, nofun, rfl⟩

theorem Steady.trans (h : Steady c s s₁) (h' : Steady c s₁ s') : Steady c s s' := by
  obtain ⟨os, ho, hos, hr⟩ := h.hist
  obtain ⟨os', ho', hos', hr'⟩ := h'.hist
  refine ⟨fun j => (h'.live j).trans (h.live j), fun j hj hl =>
    (h.others j hj hl).trans (h'.others j hj ((h.live j).mpr hl)), os ++ os',
    by rw [ho', ho, List.append_assoc], fun va hm => ?_, ?_⟩
  · rcases List.mem_append.mp hm with hm | hm
    · exact hos va hm
    · exact hos' va hm
  · unfold reapings at *
    rw [List.filterMap_append, hr, hr', List.append_nil]

theorem Steady.stepped (h : Steady c s s') : Stepped c free free' s s' := by
  obtain ⟨os, ho, hos, hr⟩ := h.hist
  exact ⟨fun j hj hl _ => h.others j hj hl, os, ho, hos,
    Or.inl ⟨hr, fun j hl => (h.live j).mpr hl⟩⟩

theorem Sched.Mute.live (h : Sched.Mute a b) (hr : Rep s a) (hr' : Rep s' b) (j : Slot) :
    s'.Live j ↔ s.Live j := by
  unfold Kernel.Live
  rw [hr.state, hr'.state, ne_eq, ne_eq, ne_eq, h.unused]

/-- Scheduling. -/
theorem Whole.keeps (h : Whole K pool free a S s) (hr : Rep s' b) (hk : Keeps s s')
    (hb : b.Sane) (hm : Sched.Mute a b) (c : Slot) :
    Whole K pool free b S s' ∧ Steady c s s' := by
  have hlive := hm.live h.rep hr
  have hst := hk.still hlive
  refine ⟨⟨hr, hb, (h.mem.still hst nofun).memOk, h.files.keeps h.mem hk hlive⟩, hlive,
    fun j _ hl => h.mem.undisturbed hst nofun hl nofun, ?_⟩
  obtain ⟨os, ho, hos⟩ := hm.hist
  refine ⟨os, by rw [hr.hist, h.rep.hist, ho], fun va hv => (hos _ hv).elim, ?_⟩
  refine List.filterMap_eq_nil_iff.mpr fun o hmem => ?_
  have := hos o hmem
  cases o <;> first | rfl | exact this.elim

/-- Work of the current process in its own pages and in the tables of file.c. -/
theorem Whole.works (h : Whole K pool free a S s) {D : List Nat} (hq : Quiet true s s')
    (hw : Wrote D s.ram s'.ram) (hl : D = [] ∨ s.Live c) (hD : ∀ p ∈ D, p ∈ s.workPages c)
    (hf : FilesOk s' S')
    (hu : ∃ os, s'.hist = s.hist ++ os ∧ ∀ o ∈ os, ∃ va, InUser va ∧ o = .stored va) :
    ∃ os, Whole K pool free { a with hist := a.hist ++ os } S' s' ∧ Steady c s s' ∧
      s'.pc = s.pc := by
  obtain ⟨os, -, ho, hr⟩ := hq.rep h.rep
  have hst := hq.still hw
  have hdata : ∀ p ∈ D, s.Data p := by
    rcases hl with rfl | hl
    · exact nofun
    · exact fun p hp => workPages_data hl (hD p hp)
  refine ⟨os, ⟨hr, h.sane.congr rfl rfl rfl rfl rfl, (h.mem.still hst hdata).memOk, hf⟩,
    ⟨hst.live, fun j hj hlj => h.mem.undisturbed hst hdata hlj ?_, ?_⟩, hq.pc⟩
  · rcases hl with rfl | hl
    · exact nofun
    · exact fun p hp => h.mem.workPages_apart hl hj (hD p hp)
  · obtain ⟨os', ho', hos'⟩ := hu
    refine ⟨os', ho', fun va hv => ?_, List.filterMap_eq_nil_iff.mpr fun o hm => ?_⟩
    · obtain ⟨va', hin, he⟩ := hos' _ hv
      rw [Obs.stored.inj he]
      exact hin
    · obtain ⟨va, -, rfl⟩ := hos' o hm
      rfl

/-- Stores of process `c` to its own kernel stack. -/
theorem Whole.stack (h : Whole K pool free a S s) (hl : s.Live c) {r : Ram}
    (hw : Wrote [s.stackPage c] s.ram r) :
    Whole K pool free a S { s with ram := r } ∧ Steady c s { s with ram := r } := by
  have hst : Still [s.stackPage c] s { s with ram := r } :=
    ⟨rfl, rfl, fun _ => Iff.rfl, fun _ => rfl, fun _ => rfl, fun _ => rfl, hw.freeMemory, hw.mem, id⟩
  have hwork : ∀ p ∈ [s.stackPage c], p ∈ s.workPages c := fun p hp =>
    List.mem_append_right _ (List.mem_cons_of_mem _ hp)
  have hdata : ∀ p ∈ [s.stackPage c], s.Data p := fun p hp => workPages_data hl (hwork p hp)
  refine ⟨⟨h.rep.setRam r, h.sane, (h.mem.still hst hdata).memOk, h.files.off h.mem hst rfl ?_⟩,
    fun _ => Iff.rfl, fun j hj hlj => h.mem.undisturbed hst hdata hlj fun p hp =>
      h.mem.workPages_apart hl hj (hwork p hp), [], (List.append_nil _).symm, nofun, rfl⟩
  intro p hp
  rw [List.mem_singleton.mp hp]
  refine ⟨(h.mem.stackValid hl).aligned, fun hin => ?_⟩
  exact (h.mem.tables_off_stack hl _ hin).2 rfl

/-- What comes before a step of a process and shows nothing. -/
theorem Stepped.after (h₁ : Steady c s s₁) (hh : s₁.hist = s.hist) (hf : s₁.files = s.files)
    (hp : ∀ i, (s₁.processTable i).pid = (s.processTable i).pid)
    (hs : ∀ i, (s₁.processTable i).state = (s.processTable i).state)
    (h : Stepped c free free' s₁ s') : Stepped c free free' s s' := by
  refine ⟨fun j hj hl hl' => (h₁.others j hj hl).trans (h.others j hj ((h₁.live j).mpr hl) hl'), ?_⟩
  obtain ⟨os, ho, hos, hr⟩ := h.hist
  refine ⟨os, by rw [ho, hh], hos, ?_⟩
  rcases hr with ⟨hr, hlive⟩ | ⟨j, hj, hl, hr, hrel, hlive⟩
  · exact Or.inl ⟨hr, fun j hl => hlive j ((h₁.live j).mpr hl)⟩
  · have hlj := (h₁.live j).mp hl
    refine Or.inr ⟨j, hj, hlj, by rw [hr, hp, hp], ⟨?_, ?_, hrel.zero, fun i hi => ?_⟩,
      fun i hi hli => hlive i hi ((h₁.live i).mpr hli)⟩
    · rw [← hs]
      exact hrel.killed
    · rw [← (h₁.others j hj hlj).pages]
      exact hrel.free
    · rw [hrel.files i hi, hf]

/-- What comes after a step in the memory of its process. -/
theorem Stepped.then_stack (h : Stepped c free free' s s₁) (hw : Whole K pool free' a S s₁)
    (hl : s₁.Live c) {r : Ram} (hr : Wrote [s₁.stackPage c] s₁.ram r) :
    Stepped c free free' s { s₁ with ram := r } := by
  have h₂ := (hw.stack hl hr).2
  refine ⟨fun j hj hlj hl' => (h.others j hj hlj hl').trans (h₂.others j hj hl'), ?_⟩
  obtain ⟨os, ho, hos, hrest⟩ := h.hist
  refine ⟨os, ho, hos, ?_⟩
  rcases hrest with hrest | ⟨j, hj, hlj, hre, hrel, hlive⟩
  · exact Or.inl hrest
  · exact Or.inr ⟨j, hj, hlj, hre, ⟨hrel.killed, hrel.free, hrel.zero, hrel.files⟩, hlive⟩

end Changes

end Os64
