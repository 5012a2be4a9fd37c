/-
  Physical pages and the free list threaded through them.

  Pages are named by their physical addresses. `FreeList K r ps`: the free list of `r`
  visits exactly the pages `ps`, each once, all of them pages that `kfree` accepts.
  `kalloc_run` and `kfree_run` say what the allocator does to the list; `AgreeOff P`
  relates memories that differ inside the pages `P` only, which is the frame of every
  function above the allocator.
-/
import Mathlib.Data.List.Nodup
import Os64.Kernel.Memory

namespace Os64

open Os64.Lib

variable {K : Image}

/-! ## Addresses -/

theorem pageSize_eq : pageSize = 2097152 := rfl

theorem kernelBase_eq : kernelBase = 0xffff800000000000 := rfl

theorem memoryLimit_eq : memoryLimit = 0xffff800030000000 := rfl

/-- A page that the allocator deals in: aligned, above the kernel, below the file
    system image. -/
structure ValidPage (K : Image) (p : Nat) : Prop where
  aligned : p % pageSize = 0
  above : K.kend ≤ p + kernelBase
  below : p + pageSize ≤ 0x30000000

namespace ValidPage

variable {p q : Nat}

theorem low_le (h : ValidPage K p) : 0x200000 ≤ p := by
  have h1 := h.above
  have h2 := K.base_le
  omega

theorem p2v_eq (h : ValidPage K p) : p2v p = p + kernelBase := by
  have := h.below
  unfold p2v u64
  rw [pageSize_eq] at this
  rw [kernelBase_eq]
  omega

theorem p2v_ne_zero (h : ValidPage K p) : p2v p ≠ 0 := by
  rw [h.p2v_eq, kernelBase_eq]
  omega

/-- Kernel pointers into the page. -/
theorem kernelPtr (h : ValidPage K p) {a n v : Nat} (h2 : a + n ≤ p + pageSize)
    (hv : v = a + kernelBase) : KernelPtr v n := by
  have := h.below
  unfold KernelPtr
  omega

theorem v2p_at (h : ValidPage K p) {a v : Nat} (h2 : a < p + pageSize)
    (hv : v = a + kernelBase) : v2p v = a := by
  have := h.below
  rw [pageSize_eq] at *
  unfold v2p u64
  rw [hv, kernelBase_eq]
  omega

theorem v2p_p2v (h : ValidPage K p) : v2p (p2v p) = p :=
  h.v2p_at (by rw [pageSize_eq]; omega) h.p2v_eq

theorem p2v_pos (h : ValidPage K p) : 0 < p2v p := by
  rw [h.p2v_eq, kernelBase_eq]
  omega

theorem p2v_inj (hp : ValidPage K p) (hq : ValidPage K q) (h : p2v p = p2v q) : p = q := by
  rw [hp.p2v_eq, hq.p2v_eq] at h
  omega

end ValidPage

/-- Byte `x` lies in page `p`. -/
def InPage (p x : Nat) : Prop := p ≤ x ∧ x < p + pageSize

theorem inPage_inj {p q x : Nat} (hp : p % pageSize = 0) (hq : q % pageSize = 0)
    (h : InPage p x) (h' : InPage q x) : p = q := by
  unfold InPage at *
  rw [pageSize_eq] at *
  omega

/-! ## Frames -/

/-- The memories differ inside the pages `P` only. -/
def AgreeOff (P : List Nat) (m m' : Mem) : Prop := ∀ x, (∀ p ∈ P, ¬ InPage p x) → m' x = m x

namespace AgreeOff

variable {P Q : List Nat} {m m' m'' : Mem}

theorem refl (P : List Nat) (m : Mem) : AgreeOff P m m := fun _ _ => rfl

theorem trans (h : AgreeOff P m m') (h' : AgreeOff P m' m'') : AgreeOff P m m'' :=
  fun x hx => (h' x hx).trans (h x hx)

theorem mono (h : AgreeOff P m m') (hPQ : ∀ p ∈ P, p ∈ Q) : AgreeOff Q m m' :=
  fun x hx => h x fun p hp => hx p (hPQ p hp)

/-- Another page is untouched. -/
theorem page (h : AgreeOff P m m') {q : Nat} (hq : q % pageSize = 0) (hqP : q ∉ P)
    (hP : ∀ p ∈ P, p % pageSize = 0) {x : Nat} (hx : InPage q x) : m' x = m x :=
  h x fun p hp hpx => hqP (inPage_inj (hP p hp) hq hpx hx ▸ hp)

/-- So are the values stored in it. -/
theorem load_eq (h : AgreeOff P m m') {q : Nat} (hq : q % pageSize = 0) (hqP : q ∉ P)
    (hP : ∀ p ∈ P, p % pageSize = 0) {a n : Nat} (h1 : q ≤ a) (h2 : a + n ≤ q + pageSize) :
    load m' a n = load m a n :=
  load_congr fun x h1 h2 => h.page hq hqP hP ⟨by omega, by omega⟩

theorem entries_eq (h : AgreeOff P m m') {t : Nat} (ht : t % pageSize = 0) (htP : t ∉ P)
    (hP : ∀ p ∈ P, p % pageSize = 0) {i : Nat} (hi : i < 512) :
    entries m' t i = entries m t i :=
  h.load_eq ht htP hP (by omega) (by rw [pageSize_eq]; omega)

end AgreeOff

theorem agreeOff_store {p a n : Nat} (m : Mem) (v : Nat) (h1 : p ≤ a) (h2 : a + n ≤ p + pageSize) :
    AgreeOff [p] m (store m a n v) := by
  intro x hx
  have := hx p (List.mem_singleton_self p)
  unfold InPage at this
  exact store_of_outside m a n v (by omega)

theorem agreeOff_fill_range {p a n : Nat} (m : Mem) (b : UInt8) (h1 : p ≤ a)
    (h2 : a + n ≤ p + pageSize) : AgreeOff [p] m (fill m a n b) := by
  intro x hx
  have := hx p (List.mem_singleton_self p)
  unfold InPage at this
  exact fill_of_outside m a n b (by omega)

theorem agreeOff_fill {p : Nat} (m : Mem) (b : UInt8) : AgreeOff [p] m (fill m p pageSize b) :=
  agreeOff_fill_range m b (Nat.le_refl p) (Nat.le_refl _)

theorem agreeOff_copy {p a n : Nat} (m : Mem) (src : Nat) (h1 : p ≤ a) (h2 : a + n ≤ p + pageSize) :
    AgreeOff [p] m (copy m a src n) := by
  intro x hx
  have := hx p (List.mem_singleton_self p)
  unfold InPage at this
  exact copy_of_outside m a src n (by omega)

/-- The statics that memory programs other than `init_memory` leave alone. -/
def SameRegions (r r' : Ram) : Prop :=
  r'.freeMemRegion = r.freeMemRegion ∧ r'.totalMem = r.totalMem

theorem SameRegions.refl (r : Ram) : SameRegions r r := ⟨rfl, rfl⟩

theorem SameRegions.trans {r r' r'' : Ram} (h : SameRegions r r') (h' : SameRegions r' r'') :
    SameRegions r r'' := ⟨h'.1.trans h.1, h'.2.trans h.2⟩

/-- Memory changed in the pages `P` only. -/
structure Wrote (P : List Nat) (r r' : Ram) : Prop where
  mem : AgreeOff P r.mem r'.mem
  freeMemory : r'.freeMemory = r.freeMemory
  region : SameRegions r r'

namespace Wrote

variable {P Q : List Nat} {r r' r'' : Ram}

theorem refl (P : List Nat) (r : Ram) : Wrote P r r := ⟨.refl P _, rfl, .refl r⟩

theorem trans (h : Wrote P r r') (h' : Wrote P r' r'') : Wrote P r r'' :=
  ⟨h.mem.trans h'.mem, h'.freeMemory.trans h.freeMemory, h.region.trans h'.region⟩

theorem mono (h : Wrote P r r') (hPQ : ∀ p ∈ P, p ∈ Q) : Wrote Q r r' :=
  ⟨h.mem.mono hPQ, h.freeMemory, h.region⟩

end Wrote

theorem wrote_store {p a n : Nat} (r : Ram) (v : Nat) (h1 : p ≤ a) (h2 : a + n ≤ p + pageSize) :
    Wrote [p] r { r with mem := store r.mem a n v } :=
  ⟨agreeOff_store r.mem v h1 h2, rfl, .refl _⟩

theorem wrote_fill {p a n : Nat} (r : Ram) (b : UInt8) (h1 : p ≤ a) (h2 : a + n ≤ p + pageSize) :
    Wrote [p] r { r with mem := fill r.mem a n b } :=
  ⟨agreeOff_fill_range r.mem b h1 h2, rfl, .refl _⟩

theorem wrote_copy {p a n : Nat} (r : Ram) (src : Nat) (h1 : p ≤ a) (h2 : a + n ≤ p + pageSize) :
    Wrote [p] r { r with mem := copy r.mem a src n } :=
  ⟨agreeOff_copy r.mem src h1 h2, rfl, .refl _⟩

/-! ## The free list -/

/-- Following the links from pointer `v` visits the pages `ps`. -/
def FreeChain (m : Mem) : Nat → List Nat → Prop
  | v, [] => v = 0
  | v, p :: ps => v = p2v p ∧ FreeChain m (load m p 8) ps

theorem FreeChain.congr {m m' : Mem} {v : Nat} {ps : List Nat} (h : FreeChain m v ps)
    (he : ∀ p ∈ ps, load m' p 8 = load m p 8) : FreeChain m' v ps := by
  induction ps generalizing v with
  | nil => exact h
  | cons p ps ih =>
      refine ⟨h.1, ?_⟩
      rw [he p List.mem_cons_self]
      exact ih h.2 fun q hq => he q (List.mem_cons_of_mem p hq)

structure FreeList (K : Image) (r : Ram) (ps : List Nat) : Prop where
  chain : FreeChain r.mem r.freeMemory ps
  valid : ∀ p ∈ ps, ValidPage K p
  nodup : ps.Nodup

/-- The list is read off memory. -/
theorem FreeList.unique {r : Ram} {ps qs : List Nat} (h : FreeList K r ps) (h' : FreeList K r qs) :
    ps = qs := by
  have key : ∀ (ps qs : List Nat) (v : Nat), (∀ p ∈ ps, ValidPage K p) → (∀ q ∈ qs, ValidPage K q) →
      FreeChain r.mem v ps → FreeChain r.mem v qs → ps = qs := by
    intro ps
    induction ps with
    | nil =>
        intro qs v _ hq hc hc'
        cases qs with
        | nil => rfl
        | cons q qs =>
            have hne := (hq q List.mem_cons_self).p2v_pos
            rw [← hc'.1, show v = 0 from hc] at hne
            exact absurd hne (Nat.lt_irrefl 0)
    | cons p ps ih =>
        intro qs v hp hq hc hc'
        cases qs with
        | nil =>
            have hne := (hp p List.mem_cons_self).p2v_pos
            rw [← hc.1, show v = 0 from hc'] at hne
            exact absurd hne (Nat.lt_irrefl 0)
        | cons q qs =>
            have he := (hp p List.mem_cons_self).p2v_inj (hq q List.mem_cons_self)
              (hc.1.symm.trans hc'.1)
            subst he
            rw [ih qs _ (fun x hx => hp x (List.mem_cons_of_mem _ hx))
              (fun x hx => hq x (List.mem_cons_of_mem _ hx)) hc.2 hc'.2]
  exact key ps qs r.freeMemory h.valid h'.valid h.chain h'.chain

/-- Memory changes off the free pages do not matter. -/
theorem FreeList.congr {r r' : Ram} {ps P : List Nat} (h : FreeList K r ps)
    (hf : r'.freeMemory = r.freeMemory) (hm : AgreeOff P r.mem r'.mem)
    (hP : ∀ p ∈ P, p % pageSize = 0 ∧ p ∉ ps) : FreeList K r' ps := by
  refine ⟨?_, h.valid, h.nodup⟩
  rw [hf]
  refine h.chain.congr fun p hp => ?_
  exact hm.load_eq (h.valid p hp).aligned (fun hpP => (hP p hpP).2 hp)
    (fun q hq => (hP q hq).1) (Nat.le_refl p) (by rw [pageSize_eq]; omega)

/-! ## Running memory programs -/

theorem kload_run {v n : Nat} (h : KernelPtr v n) (r : Ram) :
    kload v n r = .ok (load r.mem (v2p v) n) r := by
  simp only [kload, bind_apply, ensure_run h, get_run, pure_run]

theorem reads_kload (v n : Nat) : Reads (kload v n) :=
  (reads_ensure _ _).bind fun _ => reads_get.bind fun _ => reads_pure _

theorem kstore_run {v n : Nat} (h : KernelPtr v n) (x : Nat) (r : Ram) :
    kstore v n x r = .ok () { r with mem := store r.mem (v2p v) n x } := by
  simp only [kstore, bind_apply, ensure_run h, modify_run]

theorem kmemset_run {v n : Nat} (h : KernelPtr v n) (b : UInt8) (r : Ram) :
    kmemset v b n r = .ok () { r with mem := fill r.mem (v2p v) n b } := by
  simp only [kmemset, bind_apply, ensure_run h, modify_run]

theorem kmemcpy_run {dst src n : Nat} (h : KernelPtr dst n) (h' : KernelPtr src n) (r : Ram) :
    kmemcpy dst src n r = .ok () { r with mem := copy r.mem (v2p dst) (v2p src) n } := by
  simp only [kmemcpy, bind_apply, ensure_run h, ensure_run h', modify_run]

theorem assertMem_run {c : Prop} [Decidable c] (h : c) (line : Nat) (r : Ram) :
    assertMem c line r = .ok () r := ensure_run h _ r

section Page

variable {p a n v : Nat} (h : ValidPage K p) (h2 : a + n ≤ p + pageSize)
  (hn : 0 < n) (hv : v = a + kernelBase) (r : Ram)

include h h2 hn hv

theorem kload_page : kload v n r = .ok (load r.mem a n) r := by
  rw [kload_run (h.kernelPtr h2 hv), h.v2p_at (by omega) hv]

theorem kstore_page (x : Nat) :
    kstore v n x r = .ok () { r with mem := store r.mem a n x } := by
  rw [kstore_run (h.kernelPtr h2 hv), h.v2p_at (by omega) hv]

end Page

theorem kmemset_page {p : Nat} (h : ValidPage K p) (b : UInt8) (r : Ram) :
    kmemset (p2v p) b pageSize r = .ok () { r with mem := fill r.mem p pageSize b } := by
  rw [kmemset_run (h.kernelPtr (Nat.le_refl _) h.p2v_eq), h.v2p_p2v]

/-! ## kalloc and kfree -/

theorem kalloc_nil {r : Ram} (h : FreeList K r []) : kalloc K r = .ok 0 r := by
  have hf : r.freeMemory = 0 := h.chain
  unfold kalloc
  rw [bind_run (get_run r)]
  dsimp only
  rw [if_neg (by rw [hf]; exact fun h => h rfl), hf]
  rfl

/-- The assertions of `kalloc` and `kfree` on a valid page. -/
theorem ValidPage.asserts {p v : Nat} (h : ValidPage K p) (hv : v = p2v p) :
    v % pageSize = 0 ∧ K.kend ≤ v ∧ u64 (v + pageSize) ≤ memoryLimit := by
  have h1 := h.aligned
  have h2 := h.above
  have h3 := h.below
  rw [hv, h.p2v_eq, memoryLimit_eq, kernelBase_eq] at *
  rw [pageSize_eq] at *
  unfold u64
  omega

/-- Allocation takes the first page. -/
theorem kalloc_cons {r : Ram} {p : Nat} {ps : List Nat} (h : FreeList K r (p :: ps)) :
    kalloc K r = .ok (p2v p) { r with freeMemory := load r.mem p 8 } ∧
      FreeList K { r with freeMemory := load r.mem p 8 } ps := by
  have hv := h.valid p List.mem_cons_self
  have hf : r.freeMemory = p2v p := h.chain.1
  refine ⟨?_, h.chain.2, fun q hq => h.valid q (List.mem_cons_of_mem p hq),
    (List.nodup_cons.mp h.nodup).2⟩
  obtain ⟨hal, hlo, hhi⟩ := hv.asserts hf
  have hne : r.freeMemory ≠ 0 := by
    rw [hf]
    exact hv.p2v_ne_zero
  have hload : kload r.freeMemory 8 r = .ok (load r.mem p 8) r :=
    kload_page hv (by rw [pageSize_eq]; omega) (by omega)
      (hf.trans hv.p2v_eq) r
  rw [← hf]
  unfold kalloc
  rw [bind_run (get_run r)]
  dsimp only
  rw [if_pos hne, bind_run (assertMem_run hal _ r), bind_run (assertMem_run hlo _ r),
    bind_run (assertMem_run hhi _ r), bind_run hload]
  rfl

/-- Freeing puts a page first; it writes the page's first word only. -/
theorem kfree_run {r : Ram} {p v : Nat} {ps : List Nat} (h : FreeList K r ps)
    (hv : ValidPage K p) (hp : p ∉ ps) (hvp : v = p2v p) :
    kfree K v r = .ok () { r with mem := store r.mem p 8 r.freeMemory, freeMemory := v } ∧
      FreeList K { r with mem := store r.mem p 8 r.freeMemory, freeMemory := v } (p :: ps) := by
  have hagree : AgreeOff [p] r.mem (store r.mem p 8 r.freeMemory) :=
    agreeOff_store r.mem r.freeMemory (Nat.le_refl p) (by rw [pageSize_eq]; omega)
  constructor
  · obtain ⟨hal, hlo, hhi⟩ := hv.asserts hvp
    have hstore := kstore_page hv (n := 8) (by rw [pageSize_eq]; omega) (by omega)
      (hvp.trans hv.p2v_eq) r r.freeMemory
    unfold kfree
    rw [bind_run (assertMem_run hal _ r), bind_run (assertMem_run hlo _ r),
      bind_run (assertMem_run hhi _ r), bind_run (get_run r), bind_run hstore]
    rfl
  · refine ⟨⟨hvp, ?_⟩, ?_, List.nodup_cons.mpr ⟨hp, h.nodup⟩⟩
    · have hlt : r.freeMemory < 256 ^ 8 := by
        cases ps with
        | nil =>
            have : r.freeMemory = 0 := h.chain
            rw [this]
            omega
        | cons q qs =>
            have : r.freeMemory = p2v q := h.chain.1
            rw [this]
            unfold p2v u64
            omega
      dsimp only
      rw [load_store_self, Nat.mod_eq_of_lt hlt]
      refine h.chain.congr fun q hq => ?_
      refine hagree.load_eq (h.valid q hq).aligned ?_ ?_ (Nat.le_refl q)
        (by rw [pageSize_eq]; omega)
      · intro hqp
        rw [List.mem_singleton.mp hqp] at hq
        exact hp hq
      · intro q' hq'
        rw [List.mem_singleton.mp hq']
        exact hv.aligned
    · intro q hq
      rcases List.mem_cons.mp hq with rfl | hq
      · exact hv
      · exact h.valid q hq

/-- Any list of distinct pages can be free. -/
theorem FreeList.exists {ps : List Nat} (hv : ∀ p ∈ ps, ValidPage K p) (hnd : ps.Nodup) :
    ∃ r, FreeList K r ps := by
  induction ps with
  | nil => exact ⟨⟨fun _ => 0, 0, 0, []⟩, rfl, nofun, List.nodup_nil⟩
  | cons p ps ih =>
      obtain ⟨hp, hnd⟩ := List.nodup_cons.mp hnd
      obtain ⟨r, hr⟩ := ih (fun q hq => hv q (List.mem_cons_of_mem p hq)) hnd
      exact ⟨_, (kfree_run hr (hv p List.mem_cons_self) hp rfl).2⟩

end Os64
