/-
  init_memory: what the free list holds after boot.

  `Usable K m p`: page `p` is one of those the kernel may hand out, that is, it lies inside
  one type-1 entry of the memory map that the loader left in `m`, at or above the end
  of the kernel and below the file system image.

  * `freeRegionLoop_run`: the loop of `free_region` adds the pages of a stretch.
  * `releaseRegion_run`: one region adds its pages above the kernel.
  * `initMemory_run`: `init_memory` succeeds, and the list is the usable pages.
  * `initMemory_off`: it writes to pages that may be on the list and nowhere else.
-/
import Mathlib.Data.List.Pairwise
import Os64.Mem.Pages

namespace Os64

open Os64.Lib

variable {K : Image}

/-- What the kernel takes from the BIOS: the entries of type 1 are disjoint and end below
    2^46. -/
structure BiosOk (m : Mem) : Prop where
  disjoint : ∀ i j : Nat, i < (memMapCount m).toNat → j < (memMapCount m).toNat → i ≠ j →
    (memMap m i).type = 1 → (memMap m j).type = 1 → ∀ x,
      ¬ ((memMap m i).address ≤ x ∧ x < (memMap m i).address + (memMap m i).length ∧
        (memMap m j).address ≤ x ∧ x < (memMap m j).address + (memMap m j).length)
  bounded : ∀ i : Nat, i < (memMapCount m).toNat → (memMap m i).type = 1 →
    (memMap m i).address + (memMap m i).length < 2 ^ 46

/-- The page lies inside the region. -/
def FreeMemRegion.Holds (g : FreeMemRegion) (p : Nat) : Prop :=
  g.address ≤ p ∧ p + pageSize ≤ g.address + g.length

/-- The pages that the allocator starts with. -/
def Usable (K : Image) (m : Mem) (p : Nat) : Prop :=
  ValidPage K p ∧ ∃ i : Nat, i < (memMapCount m).toNat ∧ (memMap m i).type = 1 ∧
    (memMap m i).address ≤ p ∧ p + pageSize ≤ (memMap m i).address + (memMap m i).length

/-! ## One stretch of memory -/

/-- Rounding a kernel address up to a page. -/
theorem paUp_eq {x : Nat} (h : x < 2 ^ 46) :
    paUp (x + kernelBase) = (x + (pageSize - 1)) / pageSize * pageSize + kernelBase := by
  unfold paUp u64
  rw [Nat.shiftRight_eq_div_pow, Nat.shiftLeft_eq, kernelBase_eq, pageSize_eq]
  omega

/-- One round of the loop of `free_region` that frees nothing more. -/
theorem freeRegionLoop_stop {e fuel start : Nat} (h : ¬ u64 (start + pageSize) ≤ e) (r : Ram) :
    freeRegionLoop K e (fuel + 1) start r = .ok () r := by
  unfold freeRegionLoop
  rw [if_neg h]
  rfl

/-- The loop of `free_region`, at page `p` of a stretch that ends at `b`. -/
theorem freeRegionLoop_run {b : Nat} (hb : b < 2 ^ 46) : ∀ (n p : Nat) {r : Ram} {ps : List Nat},
    FreeList K r ps → p % pageSize = 0 → K.kend ≤ p + kernelBase → p < 2 ^ 46 + pageSize →
    b < p + n * pageSize → (∀ q ∈ ps, ¬ (p ≤ q ∧ q + pageSize ≤ b)) →
    ∃ r' ps', freeRegionLoop K (b + kernelBase) (n + 1) (p + kernelBase) r = .ok () r' ∧
      FreeList K r' ps' ∧
      ∀ q, q ∈ ps' ↔ q ∈ ps ∨ ValidPage K q ∧ p ≤ q ∧ q + pageSize ≤ b := by
  intro n
  have hstep : ∀ p, p < 2 ^ 46 + pageSize →
      u64 (p + kernelBase + pageSize) = p + pageSize + kernelBase := by
    intro p hp
    unfold u64
    rw [kernelBase_eq]
    rw [pageSize_eq] at *
    omega
  induction n with
  | zero =>
      intro p r ps h _ _ hp hbp _
      have hstop : ¬ u64 (p + kernelBase + pageSize) ≤ b + kernelBase := by
        rw [hstep p hp]
        omega
      refine ⟨r, ps, freeRegionLoop_stop hstop r, h, fun q => ?_⟩
      exact ⟨Or.inl, fun hq => hq.elim id fun hq => absurd hq.2 (by omega)⟩
  | succ n ih =>
      intro p r ps h hal hlo hp hbp hnew
      by_cases hend : p + pageSize ≤ b
      · -- the page belongs to the stretch
        have hgo : u64 (p + kernelBase + pageSize) ≤ b + kernelBase := by
          rw [hstep p hp]
          omega
        have hal' : (p + pageSize) % pageSize = 0 := by
          rw [pageSize_eq] at *
          omega
        have hsplit : ∀ q, q % pageSize = 0 →
            (p ≤ q ∧ q + pageSize ≤ b ↔ q = p ∨ p + pageSize ≤ q ∧ q + pageSize ≤ b) := by
          intro q hq
          rw [pageSize_eq] at *
          omega
        by_cases hlim : p + pageSize ≤ 0x30000000
        · have hv : ValidPage K p := ⟨hal, hlo, hlim⟩
          have hpn : p ∉ ps := fun hm => hnew p hm ⟨Nat.le_refl p, hend⟩
          obtain ⟨hrun, hfl⟩ := kfree_run h hv hpn (v := p + kernelBase) hv.p2v_eq.symm
          obtain ⟨r', ps', hrun', hfl', hmem⟩ := ih (p + pageSize) hfl hal' (by omega) (by omega)
            (by rw [Nat.add_mul] at hbp; omega) (by
              intro q hq hqb
              rcases List.mem_cons.mp hq with rfl | hq
              · rw [pageSize_eq] at hqb
                omega
              · exact hnew q hq ⟨by omega, hqb.2⟩)
          have hlim' : u64 (p + kernelBase + pageSize) ≤ memoryLimit := by
            rw [hstep p hp, memoryLimit_eq, kernelBase_eq]
            omega
          refine ⟨r', ps', ?_, hfl', fun q => ?_⟩
          · unfold freeRegionLoop
            rw [if_pos hgo, if_pos hlim', hstep p hp, bind_run hrun]
            exact hrun'
          · rw [hmem q, List.mem_cons]
            constructor
            · rintro ((rfl | hq) | ⟨hqv, hq1, hq2⟩)
              · exact Or.inr ⟨hv, Nat.le_refl q, hend⟩
              · exact Or.inl hq
              · exact Or.inr ⟨hqv, by omega, hq2⟩
            · rintro (hq | ⟨hqv, hq⟩)
              · exact Or.inl (Or.inr hq)
              · rcases (hsplit q hqv.aligned).mp hq with rfl | hq
                · exact Or.inl (Or.inl rfl)
                · exact Or.inr ⟨hqv, hq⟩
        · -- beyond the file system image nothing is freed
          obtain ⟨r', ps', hrun', hfl', hmem⟩ := ih (p + pageSize) h hal' (by omega) (by omega)
            (by rw [Nat.add_mul] at hbp; omega) (fun q hq hqb => hnew q hq ⟨by omega, hqb.2⟩)
          have hlim' : ¬ u64 (p + kernelBase + pageSize) ≤ memoryLimit := by
            rw [hstep p hp, memoryLimit_eq, kernelBase_eq]
            omega
          refine ⟨r', ps', ?_, hfl', fun q => ?_⟩
          · unfold freeRegionLoop
            rw [if_pos hgo, if_neg hlim', hstep p hp]
            exact hrun'
          · rw [hmem q]
            refine or_congr Iff.rfl ⟨fun hq => ⟨hq.1, by omega, hq.2.2⟩, fun hq => ⟨hq.1, ?_, hq.2.2⟩⟩
            have := hq.1.below
            omega
      · have hstop : ¬ u64 (p + kernelBase + pageSize) ≤ b + kernelBase := by
          rw [hstep p hp]
          omega
        refine ⟨r, ps, freeRegionLoop_stop hstop r, h, fun q => ?_⟩
        exact ⟨Or.inl, fun hq => hq.elim id fun hq => absurd hq.2 (by omega)⟩

/-- `free_region` from the first page at or above `a`. -/
theorem freeRegion_run {a b : Nat} (ha : a < 2 ^ 46) (hb : b < 2 ^ 46) {r : Ram} {ps : List Nat}
    (h : FreeList K r ps) (hlo : K.kend ≤ a + kernelBase)
    (hnew : ∀ q ∈ ps, ¬ (a ≤ q ∧ q + pageSize ≤ b)) :
    ∃ r' ps', freeRegion K (a + kernelBase) (b + kernelBase) r = .ok () r' ∧ FreeList K r' ps' ∧
      ∀ q, q ∈ ps' ↔ q ∈ ps ∨ ValidPage K q ∧ a ≤ q ∧ q + pageSize ≤ b := by
  have hup : ∀ q, q % pageSize = 0 → ((a + (pageSize - 1)) / pageSize * pageSize ≤ q ↔ a ≤ q) := by
    intro q hq
    rw [pageSize_eq] at *
    omega
  obtain ⟨r', ps', hrun, hfl, hmem⟩ := freeRegionLoop_run hb (2 ^ 43 - 1)
    ((a + (pageSize - 1)) / pageSize * pageSize) h (Nat.mul_mod_left _ _)
    (by rw [pageSize_eq]; omega) (by rw [pageSize_eq]; omega) (by rw [pageSize_eq]; omega)
    (fun q hq hqb => hnew q hq ⟨(hup q (h.valid q hq).aligned).mp hqb.1, hqb.2⟩)
  refine ⟨r', ps', ?_, hfl, fun q => ?_⟩
  · unfold freeRegion
    rw [paUp_eq ha]
    exact hrun
  · rw [hmem q]
    refine or_congr Iff.rfl ⟨fun hq => ⟨hq.1, (hup q hq.1.aligned).mp hq.2.1, hq.2.2⟩,
      fun hq => ⟨hq.1, (hup q hq.1.aligned).mpr hq.2.1, hq.2.2⟩⟩

/-! ## All regions -/

/-- A region frees the valid pages it holds. -/
theorem releaseRegion_run {g : FreeMemRegion} (hg : g.address + g.length < 2 ^ 46) {r : Ram}
    {ps : List Nat} (h : FreeList K r ps) (hnew : ∀ q ∈ ps, ¬ g.Holds q) :
    ∃ r' ps', releaseRegion K g r = .ok () r' ∧ FreeList K r' ps' ∧
      ∀ q, q ∈ ps' ↔ q ∈ ps ∨ ValidPage K q ∧ g.Holds q := by
  have hbase := K.base_le
  have hstart : p2v g.address = g.address + kernelBase := by
    unfold p2v u64
    rw [kernelBase_eq]
    omega
  have hend : u64 (p2v g.address + g.length) = g.address + g.length + kernelBase := by
    rw [hstart]
    unfold u64
    rw [kernelBase_eq]
    omega
  unfold releaseRegion
  rw [hend, hstart]
  by_cases h1 : K.kend < g.address + kernelBase
  · obtain ⟨r', ps', hrun, hfl, hmem⟩ := freeRegion_run (a := g.address)
      (b := g.address + g.length) (by omega) hg h (by omega) hnew
    rw [if_pos h1]
    exact ⟨r', ps', hrun, hfl, hmem⟩
  · rw [if_neg h1]
    by_cases h2 : K.kend < g.address + g.length + kernelBase
    · -- the region straddles the end of the kernel
      rw [if_pos h2]
      have hk : K.kend = (K.kend - kernelBase) + kernelBase := by omega
      obtain ⟨r', ps', hrun, hfl, hmem⟩ := freeRegion_run (a := K.kend - kernelBase)
        (b := g.address + g.length) (by omega) hg h (by omega)
        (fun q hq hqb => hnew q hq ⟨by omega, hqb.2⟩)
      refine ⟨r', ps', ?_, hfl, fun q => ?_⟩
      · rw [hk]
        exact hrun
      · rw [hmem q]
        refine or_congr Iff.rfl ⟨fun hq => ⟨hq.1, by omega, hq.2.2⟩, fun hq => ⟨hq.1, ?_, hq.2.2⟩⟩
        have := hq.1.above
        omega
    · -- the region ends below it
      rw [if_neg h2]
      refine ⟨r, ps, rfl, h, fun q => ⟨Or.inl, fun hq => hq.elim id fun hq => ?_⟩⟩
      have h3 := hq.1.above
      have h4 := hq.2.2
      rw [pageSize_eq] at h4
      omega

/-- The second loop of `init_memory`. -/
theorem releaseAll_run {gs : List FreeMemRegion}
    (hb : ∀ g ∈ gs, g.address + g.length < 2 ^ 46)
    (hd : gs.Pairwise fun g g' => ∀ q, ¬ (g.Holds q ∧ g'.Holds q)) {r : Ram} {ps : List Nat}
    (h : FreeList K r ps) (hnew : ∀ g ∈ gs, ∀ q ∈ ps, ¬ g.Holds q) :
    ∃ r' ps', (forM gs (releaseRegion K)) r = .ok ⟨⟩ r' ∧ FreeList K r' ps' ∧
      ∀ q, q ∈ ps' ↔ q ∈ ps ∨ ValidPage K q ∧ ∃ g ∈ gs, g.Holds q := by
  induction gs generalizing r ps with
  | nil => exact ⟨r, ps, rfl, h, fun q => by simp⟩
  | cons g gs ih =>
      obtain ⟨hd1, hd2⟩ := List.pairwise_cons.mp hd
      obtain ⟨r₁, ps₁, hrun, hfl, hmem⟩ := releaseRegion_run (hb g List.mem_cons_self) h
        (hnew g List.mem_cons_self)
      obtain ⟨r', ps', hrun', hfl', hmem'⟩ := ih (fun g' hg' => hb g' (List.mem_cons_of_mem g hg'))
        hd2 hfl (by
          intro g' hg' q hq hh
          rcases (hmem q).mp hq with hq | hq
          · exact hnew g' (List.mem_cons_of_mem g hg') q hq hh
          · exact hd1 g' hg' q ⟨hq.2, hh⟩)
      refine ⟨r', ps', ?_, hfl', fun q => ?_⟩
      · rw [List.forM_cons, bind_run hrun]
        exact hrun'
      · rw [hmem' q, hmem q]
        simp only [List.mem_cons, exists_eq_or_imp]
        constructor
        · rintro ((hq | hq) | ⟨hv, hq⟩)
          · exact Or.inl hq
          · exact Or.inr ⟨hq.1, Or.inl hq.2⟩
          · exact Or.inr ⟨hv, Or.inr hq⟩
        · rintro (hq | ⟨hv, hq | hq⟩)
          · exact Or.inl (Or.inl hq)
          · exact Or.inl (Or.inr ⟨hv, hq⟩)
          · exact Or.inr ⟨hv, hq⟩

/-! ## init_memory -/

/-- What the first loop keeps of entry `i`. -/
def regionOf (m : Mem) (i : Nat) : Option FreeMemRegion :=
  if (memMap m i).type = 1 then some ⟨(memMap m i).address, (memMap m i).length⟩ else none

/-- The first loop of `init_memory`. -/
theorem collect_run (m : Mem) (l : List Nat) (r : Ram) :
    ∃ r', (forM l fun i => collectRegion (memMap m i)) r = .ok ⟨⟩ r' ∧ r'.mem = r.mem ∧
      r'.freeMemory = r.freeMemory ∧
      r'.freeMemRegion = r.freeMemRegion ++ l.filterMap (regionOf m) := by
  induction l generalizing r with
  | nil => exact ⟨r, rfl, rfl, rfl, by simp⟩
  | cons i l ih =>
      by_cases ht : (memMap m i).type = 1
      · obtain ⟨r', hrun, hm, hf, hg⟩ := ih { r with
          freeMemRegion := r.freeMemRegion ++ [⟨(memMap m i).address, (memMap m i).length⟩]
          totalMem := u64 (r.totalMem + (memMap m i).length) }
        refine ⟨r', ?_, hm, hf, ?_⟩
        · rw [List.forM_cons]
          have : collectRegion (memMap m i) r = .ok () { r with
              freeMemRegion := r.freeMemRegion ++ [⟨(memMap m i).address, (memMap m i).length⟩]
              totalMem := u64 (r.totalMem + (memMap m i).length) } := by
            unfold collectRegion
            rw [if_pos ht]
            rfl
          rw [bind_run this]
          exact hrun
        · have hr : regionOf m i = some ⟨(memMap m i).address, (memMap m i).length⟩ := if_pos ht
          rw [hg, List.filterMap_cons_some hr, List.append_assoc]
          rfl
      · obtain ⟨r', hrun, hm, hf, hg⟩ := ih r
        refine ⟨r', ?_, hm, hf, ?_⟩
        · rw [List.forM_cons]
          have : collectRegion (memMap m i) r = .ok () r := by
            unfold collectRegion
            rw [if_neg ht]
            rfl
          rw [bind_run this]
          exact hrun
        · have hr : regionOf m i = none := if_neg ht
          rw [hg, List.filterMap_cons_none hr]

theorem mem_regions {m : Mem} {n : Nat} {g : FreeMemRegion} :
    g ∈ (List.range n).filterMap (regionOf m) ↔
      ∃ i < n, (memMap m i).type = 1 ∧ g = ⟨(memMap m i).address, (memMap m i).length⟩ := by
  rw [List.mem_filterMap]
  constructor
  · rintro ⟨i, hi, hg⟩
    unfold regionOf at hg
    split at hg
    · exact ⟨i, List.mem_range.mp hi, ‹_›, (Option.some.inj hg).symm⟩
    · cases hg
  · rintro ⟨i, hi, ht, rfl⟩
    exact ⟨i, List.mem_range.mpr hi, if_pos ht⟩

/-- `init_memory` builds the free list of exactly the usable pages. -/
theorem initMemory_run {r : Ram} (h : FreeList K r []) (hcount : memMapCount r.mem ≤ 50)
    (hbios : BiosOk r.mem) :
    ∃ r' ps, initMemory K r = .ok () r' ∧ FreeList K r' ps ∧ ∀ p, p ∈ ps ↔ Usable K r.mem p := by
  obtain ⟨r₁, hrun₁, hm₁, hf₁, hg₁⟩ := collect_run r.mem (List.range (memMapCount r.mem).toNat)
    { r with freeMemRegion := [] }
  have hfl₁ : FreeList K r₁ [] := ⟨by
    have : r.freeMemory = 0 := h.chain
    change r₁.freeMemory = 0
    rw [hf₁, this], nofun, List.nodup_nil⟩
  have hgs : r₁.freeMemRegion = (List.range (memMapCount r.mem).toNat).filterMap (regionOf r.mem) :=
    hg₁
  have hb : ∀ g ∈ r₁.freeMemRegion, g.address + g.length < 2 ^ 46 := by
    intro g hg
    rw [hgs, mem_regions] at hg
    obtain ⟨i, hi, ht, rfl⟩ := hg
    exact hbios.bounded i hi ht
  have hd : r₁.freeMemRegion.Pairwise fun g g' => ∀ q, ¬ (g.Holds q ∧ g'.Holds q) := by
    rw [hgs, List.pairwise_filterMap]
    refine List.nodup_range.imp_of_mem ?_
    intro i j hi hj hij g hg g' hg' q hq
    unfold regionOf at hg hg'
    split at hg
    swap
    · cases hg
    split at hg'
    swap
    · cases hg'
    cases hg
    cases hg'
    refine hbios.disjoint i j (List.mem_range.mp hi) (List.mem_range.mp hj) hij ‹_› ‹_› q ?_
    obtain ⟨⟨h1, h2⟩, h3, h4⟩ := hq
    dsimp only at h1 h2 h3 h4
    rw [pageSize_eq] at *
    exact ⟨h1, by omega, h3, by omega⟩
  obtain ⟨r', ps, hrun', hfl', hmem⟩ := releaseAll_run hb hd hfl₁ (fun g _ q hq => by cases hq)
  refine ⟨r', ps, ?_, hfl', fun p => ?_⟩
  · unfold initMemory
    rw [bind_run (get_run r), bind_run (modify_run _ r), bind_run (assertMem_run hcount 26 _), bind_run hrun₁,
      bind_run (get_run r₁)]
    exact hrun'
  · rw [hmem p, hgs]
    constructor
    · rintro (hp | ⟨hv, g, hg, hp⟩)
      · cases hp
      · obtain ⟨i, hi, ht, rfl⟩ := mem_regions.mp hg
        exact ⟨hv, i, hi, ht, hp⟩
    · rintro ⟨hv, i, hi, ht, hp⟩
      exact Or.inr ⟨hv, _, mem_regions.mpr ⟨i, hi, ht, rfl⟩, hp⟩

/-! ## What boot leaves alone -/

/-- Memory that no page of the allocator can cover is the same. -/
def OffPages (K : Image) (m m' : Mem) : Prop :=
  ∀ x, (∀ p, ValidPage K p → ¬ InPage p x) → m' x = m x

theorem OffPages.trans {m m' m'' : Mem} (h : OffPages K m m') (h' : OffPages K m' m'') :
    OffPages K m m'' := fun x hx => (h' x hx).trans (h x hx)

theorem AgreeOff.offPages {P : List Nat} {m m' : Mem} (h : AgreeOff P m m')
    (hP : ∀ p ∈ P, ValidPage K p) : OffPages K m m' := fun x hx => h x fun p hp => hx p (hP p hp)

/-- The assertions of `kfree` confine its store. -/
theorem kfree_off (v : Nat) (r : Ram) :
    Ends (kfree K v) r (fun _ r' => OffPages K r.mem r'.mem) fun _ _ => True := by
  unfold kfree assertMem
  rw [ends_bind, ends_ensure]
  refine ⟨fun hal => ?_, fun _ => trivial⟩
  rw [ends_bind, ends_ensure]
  refine ⟨fun hlo => ?_, fun _ => trivial⟩
  rw [ends_bind, ends_ensure]
  refine ⟨fun hhi => ?_, fun _ => trivial⟩
  rw [ends_bind, ends_get]
  unfold kstore
  rw [ends_bind, ends_bind, ends_ensure]
  refine ⟨fun hp => ?_, fun _ => trivial⟩
  rw [ends_modify, ends_modify]
  obtain ⟨h1, h2⟩ := hp
  have hbase := K.base_le
  unfold u64 at hhi
  rw [memoryLimit_eq, pageSize_eq] at hhi
  rw [pageSize_eq] at hal
  rw [kernelBase_eq] at *
  have hv : ValidPage K (v - 0xffff800000000000) := by
    refine ⟨?_, ?_, ?_⟩
    · rw [pageSize_eq]
      omega
    · rw [kernelBase_eq]
      omega
    · rw [pageSize_eq]
      omega
  have hphys : v2p v = v - 0xffff800000000000 := by
    unfold v2p u64
    rw [kernelBase_eq]
    omega
  intro x hx
  refine store_of_outside _ _ _ _ ?_
  have hin := hx _ hv
  unfold InPage at hin
  rw [pageSize_eq] at hin
  rw [hphys]
  omega

theorem freeRegionLoop_off (e : Nat) : ∀ (n start : Nat) (r : Ram),
    Ends (freeRegionLoop K e n start) r (fun _ r' => OffPages K r.mem r'.mem) fun _ _ => True
  | 0, _, _ => ends_throw.mpr trivial
  | n + 1, start, r => by
      unfold freeRegionLoop
      rw [ends_ite]
      refine ⟨fun _ => ?_, fun _ => ends_pure.mpr fun _ _ => rfl⟩
      by_cases hlim : u64 (start + pageSize) ≤ memoryLimit
      · rw [if_pos hlim]
        refine (kfree_off start r).bind (fun _ r₁ h₁ => ?_) fun _ _ h => h
        exact (freeRegionLoop_off e n _ r₁).mono (fun _ _ h => h₁.trans h) fun _ _ h => h
      · rw [if_neg hlim]
        exact freeRegionLoop_off e n _ r

theorem releaseRegion_off (g : FreeMemRegion) (r : Ram) :
    Ends (releaseRegion K g) r (fun _ r' => OffPages K r.mem r'.mem) fun _ _ => True := by
  have hfree : ∀ v e, Ends (freeRegion K v e) r (fun _ r' => OffPages K r.mem r'.mem)
      fun _ _ => True := fun v e => freeRegionLoop_off e rounds (paUp v) r
  unfold releaseRegion
  rw [ends_ite]
  refine ⟨fun _ => hfree _ _, fun _ => ?_⟩
  rw [ends_ite]
  exact ⟨fun _ => hfree _ _, fun _ => ends_pure.mpr fun _ _ => rfl⟩

theorem initMemory_off (r : Ram) :
    Ends (initMemory K) r (fun _ r' => OffPages K r.mem r'.mem) fun _ _ => True := by
  unfold initMemory assertMem
  rw [ends_bind, ends_get, ends_bind, ends_modify, ends_bind, ends_ensure]
  refine ⟨fun _ => ?_, fun _ => trivial⟩
  obtain ⟨r₁, hrun, hm, -, -⟩ := collect_run r.mem (List.range (memMapCount r.mem).toNat)
    { r with freeMemRegion := [] }
  rw [ends_bind, ends_ok_iff hrun, ends_bind, ends_get]
  have hm : OffPages K r.mem r₁.mem := fun x _ => congrFun hm x
  exact ends_forM (fun _ r' => OffPages K r.mem r'.mem)
    (fun g _ r' h' => (releaseRegion_off g r').mono (fun _ _ h => h'.trans h) fun _ _ h => h)
    r₁.freeMemRegion r₁ hm

end Os64
