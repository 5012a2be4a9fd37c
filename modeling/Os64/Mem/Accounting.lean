/-
  The memory figures and the allocator.

  `get_free_memory` adds up the regions that `init_memory` found; `kalloc` and `kfree` do not touch
  them.

  * `initMemory_figures`: the figures after `init_memory`.
  * `Steps.same`: no call of the allocator changes them.
  * `accounting_iff`: they follow the allocator, and reach the user program whole, exactly while
    nothing was allocated or freed and there are fewer than 2^31 bytes.
-/
import Os64.Kernel.Syscall
import Os64.Mem.Boot
import Os64.Sys.Machine

namespace Os64

open Os64.Lib

variable {K : Image}

/-! ## Calls of the allocator -/

inductive AllocCall where
  | kalloc
  | kfree (v : Nat)
  deriving DecidableEq, Repr

/-- The call succeeds: `kalloc` finds a page, and no assertion fails. -/
def AllocCall.Does (K : Image) (r r' : Ram) : AllocCall → Prop
  | .kalloc => ∃ v, v ≠ 0 ∧ Os64.kalloc K r = .ok v r'
  | .kfree v => Os64.kfree K v r = .ok () r'

/-- Successful calls from `r` on, each with the state it leaves. -/
def Steps (K : Image) : Ram → List (AllocCall × Ram) → Prop
  | _, [] => True
  | r, (c, r') :: rest => c.Does K r r' ∧ Steps K r' rest

/-! ## What the figures should do -/

/-- The figures move by a page, in opposite directions. -/
def AllocCall.Counts (r r' : Ram) : AllocCall → Prop
  | .kalloc => getFreeMemory r' + pageSize = getFreeMemory r ∧
      getUsedMemory r' = getUsedMemory r + pageSize
  | .kfree _ => getFreeMemory r' = getFreeMemory r + pageSize ∧
      getUsedMemory r' + pageSize = getUsedMemory r

def StepsCount : Ram → List (AllocCall × Ram) → Prop
  | _, [] => True
  | r, (c, r') :: rest => c.Counts r r' ∧ StepsCount r' rest

/-- The two system calls return the figures, as numbers of bytes. -/
def HandsOver (K : Image) (r : Ram) : Prop :=
  ∀ (s : Kernel) (argptr : Nat), s.ram = r →
    systemCalls K 6 argptr s = .ok (some (getFreeMemory r : Int)) s ∧
      systemCalls K 7 argptr s = .ok (some (getUsedMemory r : Int)) s

/-- Every call counts, and the figures are handed over in every state. -/
def Accounted (K : Image) (r : Ram) (steps : List (AllocCall × Ram)) : Prop :=
  StepsCount r steps ∧ HandsOver K r ∧ ∀ step ∈ steps, HandsOver K step.2

/-! ## The figures -/

section Figures

variable {r r' : Ram}

theorem kfree_regions (v : Nat) (r : Ram) :
    Ends (kfree K v) r (fun _ r' => SameRegions r r') fun _ _ => True := by
  unfold kfree assertMem kstore
  refine (reads_ensure _ _).then (fun _ _ => ?_) fun _ _ => trivial
  refine (reads_ensure _ _).then (fun _ _ => ?_) fun _ _ => trivial
  refine (reads_ensure _ _).then (fun _ _ => ?_) fun _ _ => trivial
  rw [ends_bind, ends_get, ends_bind, ends_bind, ends_ensure]
  refine ⟨fun _ => ?_, fun _ => trivial⟩
  rw [ends_modify, ends_modify]
  exact ⟨rfl, rfl⟩

theorem kalloc_regions (r : Ram) :
    Ends (kalloc K) r (fun _ r' => SameRegions r r') fun _ _ => True := by
  unfold kalloc assertMem
  rw [ends_bind, ends_get]
  dsimp only
  split
  · refine (reads_ensure _ _).then (fun _ _ => ?_) fun _ _ => trivial
    refine (reads_ensure _ _).then (fun _ _ => ?_) fun _ _ => trivial
    refine (reads_ensure _ _).then (fun _ _ => ?_) fun _ _ => trivial
    refine (reads_kload _ _).then (fun next _ => ?_) fun _ _ => trivial
    rw [ends_bind, ends_modify]
    exact ends_pure.mpr ⟨rfl, rfl⟩
  · exact ends_pure.mpr (.refl r)

/-- `init_memory` counts a region in `total_mem` when it stores it. -/
theorem collectRegion_figures (e : E820) (r : Ram) (h : r.totalMem = getFreeMemory r) :
    Ends (collectRegion e) r (fun _ r' => r'.totalMem = getFreeMemory r') fun _ _ => True := by
  unfold collectRegion
  by_cases ht : e.type = 1
  · rw [if_pos ht]
    refine ends_modify.mpr ?_
    unfold getFreeMemory at h ⊢
    rw [List.foldl_append, ← h]
    rfl
  · rw [if_neg ht]
    exact ends_pure.mpr h

theorem freeRegionLoop_regions (e : Nat) : ∀ (n start : Nat) (r : Ram),
    Ends (freeRegionLoop K e n start) r (fun _ r' => SameRegions r r') fun _ _ => True
  | 0, _, _ => ends_throw.mpr trivial
  | n + 1, start, r => by
      unfold freeRegionLoop
      rw [ends_ite]
      refine ⟨fun _ => ?_, fun _ => ends_pure.mpr (.refl r)⟩
      by_cases hlim : u64 (start + pageSize) ≤ memoryLimit
      · rw [if_pos hlim]
        refine (kfree_regions start r).bind (fun _ r₁ h₁ => ?_) fun _ _ h => h
        exact (freeRegionLoop_regions e n _ r₁).mono (fun _ _ h => h₁.trans h) fun _ _ h => h
      · rw [if_neg hlim]
        exact freeRegionLoop_regions e n _ r

theorem releaseRegion_regions (g : FreeMemRegion) (r : Ram) :
    Ends (releaseRegion K g) r (fun _ r' => SameRegions r r') fun _ _ => True := by
  have hfree : ∀ v e, Ends (freeRegion K v e) r (fun _ r' => SameRegions r r')
      fun _ _ => True := fun v e => freeRegionLoop_regions e rounds (paUp v) r
  unfold releaseRegion
  rw [ends_ite]
  refine ⟨fun _ => hfree _ _, fun _ => ?_⟩
  rw [ends_ite]
  exact ⟨fun _ => hfree _ _, fun _ => ends_pure.mpr (.refl r)⟩

/-- The bytes of the type-1 regions of the memory map. -/
def regionBytes (m : Mem) : Nat :=
  u64 (((List.range (memMapCount m).toNat).filterMap (regionOf m)).map FreeMemRegion.length).sum

theorem foldl_length (gs : List FreeMemRegion) (n : Nat) :
    u64 (gs.foldl (fun sum g => u64 (sum + g.length)) n) =
      u64 (n + (gs.map FreeMemRegion.length).sum) := by
  induction gs generalizing n with
  | nil => rfl
  | cons g gs ih =>
      rw [List.foldl_cons, ih, List.map_cons, List.sum_cons]
      unfold u64
      rw [Nat.mod_add_mod, Nat.add_assoc]

theorem getFreeMemory_eq (r : Ram) :
    getFreeMemory r = u64 (r.freeMemRegion.map FreeMemRegion.length).sum := by
  have h := foldl_length r.freeMemRegion 0
  rw [Nat.zero_add] at h
  rw [← h]
  unfold getFreeMemory
  rcases List.eq_nil_or_concat r.freeMemRegion with he | ⟨gs, g, he⟩
  · rw [he]
    rfl
  · rw [he, List.concat_eq_append, List.foldl_append]
    exact (Nat.mod_mod _ _).symm

/-- After `init_memory` all of the regions is free memory and none of it is used. -/
theorem initMemory_figures {m : Mem} {r : Ram}
    (h : initMemory K (bootKernel m).ram = .ok () r) :
    getFreeMemory r = regionBytes m ∧ r.totalMem = getFreeMemory r := by
  unfold initMemory at h
  rw [bind_run (get_run _), bind_run (modify_run _ _)] at h
  obtain ⟨u, r₁, hassert, h⟩ := bind_ok.mp h
  obtain ⟨-, rfl⟩ := ensure_ok.mp hassert
  obtain ⟨r₂, hrun, -, -, hregions⟩ := collect_run m (List.range (memMapCount m).toNat)
    (bootKernel m).ram
  have hcollect := (ends_forM (fun _ r => r.totalMem = getFreeMemory r)
    (fun i _ r hr => collectRegion_figures (memMap m i) r hr)
    (List.range (memMapCount m).toNat) (bootKernel m).ram rfl).ok hrun
  obtain ⟨_, r₂', hrun', h⟩ := bind_ok.mp h
  obtain ⟨-, rfl⟩ := EStateM.Result.ok.inj (hrun.symm.trans hrun')
  rw [bind_run (get_run _)] at h
  have hsame := (ends_forM (fun _ r' => SameRegions r₂ r')
    (fun g _ r' h' => (releaseRegion_regions g r').mono (fun _ _ h => h'.trans h) fun _ _ h => h)
    r₂.freeMemRegion r₂ (.refl r₂)).ok h
  have hfree := getFreeMemory_eq r
  rw [hsame.1, hregions] at hfree
  refine ⟨hfree, ?_⟩
  have hf : getFreeMemory r = getFreeMemory r₂ := by
    unfold getFreeMemory
    rw [hsame.1]
  rw [hsame.2, hf]
  exact hcollect

theorem SameRegions.figures (h : SameRegions r r') :
    getFreeMemory r' = getFreeMemory r ∧ getUsedMemory r' = getUsedMemory r := by
  have hf : getFreeMemory r' = getFreeMemory r := by
    unfold getFreeMemory
    rw [h.1]
  refine ⟨hf, ?_⟩
  unfold getUsedMemory
  rw [hf, h.2]

/-- No call moves a figure. -/
theorem AllocCall.Does.regions {c : AllocCall} (h : c.Does K r r') : SameRegions r r' := by
  cases c with
  | kalloc =>
      obtain ⟨v, -, hrun⟩ := h
      exact (kalloc_regions r).ok hrun
  | kfree v => exact (kfree_regions v r).ok h

theorem Steps.regions {steps : List (AllocCall × Ram)} (h : Steps K r steps) :
    ∀ step ∈ steps, SameRegions r step.2 := by
  induction steps generalizing r with
  | nil => exact nofun
  | cons step rest ih =>
      obtain ⟨c, r₁⟩ := step
      have h₁ := h.1.regions
      intro x hx
      rcases List.mem_cons.mp hx with rfl | hx
      · exact h₁
      · exact h₁.trans (ih h.2 x hx)

/-- A call that counts would move them. -/
theorem AllocCall.Does.not_counts {c : AllocCall} (h : c.Does K r r') : ¬ c.Counts r r' := by
  have hsame := h.regions.figures.1
  have hps := pageSize_eq
  cases c with
  | kalloc =>
      rintro ⟨hfree, -⟩
      omega
  | kfree v =>
      rintro ⟨hfree, -⟩
      omega

/-! ## The system calls -/

/-- The calls convert to `int`. -/
theorem handsOver_iff (r : Ram) :
    HandsOver K r ↔ i32 (getFreeMemory r) = getFreeMemory r ∧ i32 (getUsedMemory r) = getUsedMemory r := by
  constructor
  · intro h
    obtain ⟨hfree, hused⟩ := h { bootKernel r.mem with ram := r } 0 rfl
    obtain ⟨hfree, -⟩ := EStateM.Result.ok.inj hfree
    obtain ⟨hused, -⟩ := EStateM.Result.ok.inj hused
    exact ⟨Option.some.inj hfree, Option.some.inj hused⟩
  · rintro ⟨hfree, hused⟩ s argptr rfl
    rw [← hfree, ← hused]
    exact ⟨rfl, rfl⟩

theorem i32_eq_iff (n : Nat) : i32 n = n ↔ n < 2 ^ 31 := by
  unfold i32
  split <;> omega

end Figures

/-- The figures follow the allocator and are handed over whole exactly while it was not called and
    the regions have fewer than 2^31 bytes. -/
theorem accounting_iff {m : Mem} {r : Ram} {steps : List (AllocCall × Ram)}
    (hinit : initMemory K (bootKernel m).ram = .ok () r) (hsteps : Steps K r steps) :
    Accounted K r steps ↔ steps = [] ∧ regionBytes m < 2 ^ 31 := by
  obtain ⟨hfree, htotal⟩ := initMemory_figures hinit
  have hused : getUsedMemory r = 0 := by
    have hlt : getFreeMemory r < 2 ^ 64 := hfree ▸ Nat.mod_lt _ (by decide)
    unfold getUsedMemory u64
    omega
  have hover : HandsOver K r ↔ regionBytes m < 2 ^ 31 := by
    rw [handsOver_iff, hused, hfree, i32_eq_iff]
    exact and_iff_left rfl
  constructor
  · rintro ⟨hcount, hr, -⟩
    refine ⟨?_, hover.mp hr⟩
    cases steps with
    | nil => rfl
    | cons step rest => exact absurd hcount.1 hsteps.1.not_counts
  · rintro ⟨rfl, hlt⟩
    exact ⟨trivial, hover.mpr hlt, nofun⟩

/-- A machine of 20 pages, before and after a call of `kalloc`. -/
theorem kalloc_machine : ∃ r v r', initMemory image (bootKernel (machineMem 20 [])).ram = .ok () r ∧
    v ≠ 0 ∧ kalloc image r = .ok v r' := by
  obtain ⟨r, pool, hinit, hfl, hperm⟩ := machine_pool (n := 20) (by decide) []
  cases pool with
  | nil => cases hperm.length_eq
  | cons p ps =>
      have hv := hfl.valid p List.mem_cons_self
      exact ⟨r, p2v p, _, hinit, hv.p2v_ne_zero, (kalloc_cons hfl).1⟩

theorem accounting_iff_machine : ∃ r r', initMemory image (bootKernel (machineMem 20 [])).ram = .ok () r ∧
    (Accounted image r [(.kalloc, r')] ↔
      [(AllocCall.kalloc, r')] = [] ∧ regionBytes (machineMem 20 []) < 2 ^ 31) := by
  obtain ⟨r, v, r', hinit, hne, hrun⟩ := kalloc_machine
  exact ⟨r, r', hinit, accounting_iff hinit ⟨⟨v, hne, hrun⟩, trivial⟩⟩

/-- `kalloc` takes a page and the figures stay. -/
theorem kalloc_uncounted : ∃ r r', initMemory image (bootKernel (machineMem 20 [])).ram = .ok () r ∧
    Steps image r [(.kalloc, r')] ∧ ¬ Accounted image r [(.kalloc, r')] := by
  obtain ⟨r, v, r', hinit, hne, hrun⟩ := kalloc_machine
  have hdoes : AllocCall.kalloc.Does image r r' := ⟨v, hne, hrun⟩
  exact ⟨r, r', hinit, ⟨hdoes, trivial⟩, fun h => hdoes.not_counts h.1.1⟩

end Os64
