/-
  Accesses through the current page map.

  `Pokes P A s s'`: from `s` to `s'` only bytes of the pages `P` changed, and what was
  stored through a pointer of a user program went to addresses in `A`. With a process's
  space in CR3, a store to the lower half of the address space changes that process's
  user page or faults (`storeVirt_ends`), and so does a copy (`memcpyVirt_ends`).
  `memcpyVirt_run`: a copy from the kernel's window into the user page.
  `memcpyVirt_into`: what a copy to any addresses leaves, when it ends well.
-/
import Os64.Files.Lookup
import Os64.Mem.Spaces
import Os64.Sched.Quiet

namespace Os64

open Os64.Lib

variable {K : Image}

structure Pokes (P : List Nat) (A : Nat → Prop) (s s' : Kernel) : Prop where
  same : s' = { s with ram := s'.ram, hist := s'.hist }
  wrote : Wrote P s.ram s'.ram
  hist : ∃ os, s'.hist = s.hist ++ os ∧ ∀ o ∈ os, ∃ va, A va ∧ o = .stored va

/-- Writing the user page does not change the space. -/
theorem Space.written {m m' : Mem} {root page : Nat} (h : Space K m root page)
    (hm : AgreeOff [page] m m') : Space K m' root page := by
  refine h.congr (h.toTreeOk.entries_eq hm fun p hp => ?_)
  rw [List.mem_singleton.mp hp]
  exact ⟨h.pageValid.aligned, h.pageApart⟩

namespace Pokes

variable {P Q : List Nat} {A B : Nat → Prop} {s s' s'' : Kernel}

theorem refl (P : List Nat) (A : Nat → Prop) (s : Kernel) : Pokes P A s s :=
  ⟨rfl, .refl P _, [], (List.append_nil _).symm, nofun⟩

theorem trans (h : Pokes P A s s') (h' : Pokes P A s' s'') : Pokes P A s s'' := by
  refine ⟨?_, h.wrote.trans h'.wrote, ?_⟩
  · have h1 := h'.same
    rw [h.same] at h1
    exact h1
  · obtain ⟨os, ho, hos⟩ := h.hist
    obtain ⟨os', ho', hos'⟩ := h'.hist
    refine ⟨os ++ os', by rw [ho', ho, List.append_assoc], fun o hm => ?_⟩
    exact (List.mem_append.mp hm).elim (hos o) (hos' o)

theorem mono (h : Pokes P A s s') (hP : ∀ p ∈ P, p ∈ Q) (hA : ∀ va, A va → B va) :
    Pokes Q B s s' := by
  obtain ⟨os, ho, hos⟩ := h.hist
  refine ⟨h.same, h.wrote.mono hP, os, ho, fun o hm => ?_⟩
  obtain ⟨va, hva, he⟩ := hos o hm
  exact ⟨va, hA va hva, he⟩

theorem files (h : Pokes P A s s') : s'.processTable = s.processTable := by rw [h.same]

theorem cr3 (h : Pokes P A s s') : s'.cr3 = s.cr3 := by rw [h.same]

theorem space {page : Nat} (h : Pokes [page] A s s') (hs : Space K s.ram.mem s.cr3 page) :
    Space K s'.ram.mem s'.cr3 page := by
  rw [h.cr3]
  exact hs.written h.wrote.mem

end Pokes

/-- A change of memory by a program below the kernel. -/
theorem pokes_ram {P : List Nat} {s : Kernel} {r : Ram} (A : Nat → Prop) (h : Wrote P s.ram r) :
    Pokes P A s { s with ram := r } :=
  ⟨rfl, h, [], (List.append_nil _).symm, nofun⟩

/-! ## Stores -/

/-- The user's part of the address space. -/
def InUser (va : Nat) : Prop := 0x400000 ≤ va ∧ va < 0x600000

instance : DecidablePred InUser := fun _ => inferInstanceAs (Decidable (_ ∧ _))

section Stores

variable {s : Kernel} {page va : Nat}

/-- In the lower half only the user page is mapped. -/
theorem Space.walk_low {m : Mem} {root : Nat} (h : Space K m root page) (hva : va < 2 ^ 47) :
    Lib.walk (entries m) root va =
      if InUser va then some ⟨page + (va - 0x400000), true, true⟩ else none := by
  rw [h.walk]
  have hsum : 0x400000 + pageSize = 0x600000 := rfl
  unfold spaceTarget kernelTarget
  rw [kernelBase_eq, hsum]
  by_cases hin : InUser va
  · rw [if_pos hin]
    exact if_pos hin
  · rw [if_neg hin]
    exact (if_neg hin).trans (if_neg (by omega))

/-- A store to bytes that are not reserved. -/
theorem storeVirt_at {t : Target} (ht : s.translate (u64 va) = some t)
    (hr : ¬ (kernelBase ≤ u64 va ∧ s.Reserved K t.phys)) (b : UInt8) :
    storeVirt K va b s = .ok () { s with
      ram := { s.ram with mem := Function.update s.ram.mem t.phys b } } := by
  unfold storeVirt
  rw [bind_run (get_run s), ht]
  exact bind_run (ensure_run hr _ _)

/-- The lower half of the address space is not the kernel's. -/
theorem low_not_kernel (hva : va < 2 ^ 47) : ¬ kernelBase ≤ u64 va := by
  unfold u64
  rw [kernelBase_eq]
  omega

theorem storeVirt_ends (h : Space K s.ram.mem s.cr3 page) (hva : va < 2 ^ 47) (A : Nat → Prop)
    (b : UInt8) :
    Ends (storeVirt K va b) s (fun _ s' => InUser va ∧ Pokes [page] A s s') fun _ s' => s' = s := by
  have hw := h.walk_low hva
  have hmod : u64 va = va := Nat.mod_eq_of_lt (by omega)
  by_cases hin : InUser va
  · rw [if_pos hin] at hw
    refine ends_of_run (storeVirt_at (by
      unfold Kernel.translate
      rw [hmod, hw]) (fun hr => low_not_kernel hva hr.1) b)
      ⟨hin, pokes_ram A ⟨fun x hx => ?_, rfl, .refl _⟩⟩
    have hout : ¬ (page ≤ x ∧ x < page + pageSize) := hx page (List.mem_singleton_self page)
    dsimp only
    refine Function.update_of_ne (fun he => hout ?_) _ _
    unfold InUser at hin
    rw [he, pageSize_eq]
    omega
  · rw [if_neg hin] at hw
    unfold storeVirt Kernel.translate
    rw [ends_bind, ends_get, hmod, hw]
    exact ends_throw.mpr rfl

/-- A store that succeeds puts the byte into the user page. -/
theorem storeVirt_run (h : Space K s.ram.mem s.cr3 page) (hva : InUser va) (b : UInt8) :
    storeVirt K va b s = .ok () { s with
      ram := { s.ram with mem := Function.update s.ram.mem (page + (va - 0x400000)) b } } := by
  have hlt : va < 2 ^ 47 := by
    unfold InUser at hva
    omega
  have hmod : u64 va = va := Nat.mod_eq_of_lt (by omega)
  have hw := h.walk_low hlt
  rw [if_pos hva] at hw
  refine storeVirt_at (t := ⟨page + (va - 0x400000), true, true⟩) ?_
    (fun hr => low_not_kernel hlt hr.1) b
  unfold Kernel.translate
  rw [hmod, hw]

theorem loadVirt_user (h : Space K s.ram.mem s.cr3 page) (hva : InUser va) :
    loadVirt va s = .ok (s.ram.mem (page + (va - 0x400000))) s := by
  have hlt : va < 2 ^ 47 := by
    unfold InUser at hva
    omega
  have hmod : u64 va = va := Nat.mod_eq_of_lt (by omega)
  unfold loadVirt Kernel.translate
  rw [bind_run (get_run s), hmod, h.walk_low hlt, if_pos hva]
  rfl

/-! ## Copies and fills -/

theorem loadVirt_mapped (h : Space K s.ram.mem s.cr3 page) {b : UInt8} {s' : Kernel}
    (hrun : loadVirt va s = .ok b s') : spaceTarget page (u64 va) ≠ none := by
  intro hnone
  unfold loadVirt Kernel.translate at hrun
  rw [bind_run (get_run s), h.walk, hnone] at hrun
  cases hrun

/-- A copy to the lower half of the address space changes the user page only, and it
    succeeds only if the user page contains all of the destination and the source is mapped. -/
theorem memcpyVirt_ends {supplied : Bool} {dst src size : Nat} (h : Space K s.ram.mem s.cr3 page)
    (hdst : dst + size ≤ 2 ^ 47) {A : Nat → Prop}
    (hA : supplied = true → ∀ k < size, A (dst + k)) :
    Ends (memcpyVirt K supplied dst src size) s
      (fun _ s' => Pokes [page] A s s' ∧
        ∀ k < size, InUser (dst + k) ∧ spaceTarget page (u64 (src + k)) ≠ none)
      fun _ s' => Pokes [page] A s s' := by
  unfold memcpyVirt
  generalize horder : (if dst ≤ src ∨ u64 (src + size) ≤ dst then List.range size
    else (List.range size).reverse) = order
  have hmem : ∀ k, k ∈ order ↔ k < size := by
    intro k
    rw [← horder]
    split
    · exact List.mem_range
    · rw [List.mem_reverse]
      exact List.mem_range
  refine (ends_forM (fun l s' => Pokes [page] A s s' ∧ (∀ k ∈ l, k < size) ∧
    ∀ k < size, k ∈ l ∨ (InUser (dst + k) ∧ spaceTarget page (u64 (src + k)) ≠ none)) ?_ order s
    ⟨.refl _ _ s, fun k hk => (hmem k).mp hk, fun k hk => Or.inl ((hmem k).mpr hk)⟩).mono
    (fun _ _ hI => ⟨hI.1, fun k hk => (hI.2.2 k hk).resolve_left List.not_mem_nil⟩) fun _ _ he => he
  rintro k l s₁ ⟨hp, hlt, hin⟩
  have hk := hlt k List.mem_cons_self
  have hmod : u64 (dst + k) = dst + k := Nat.mod_eq_of_lt (by omega)
  -- after the bytes so far, and the note of this one, the store
  have hstore : ∀ s₂ b, Pokes [page] A s s₂ → spaceTarget page (u64 (src + k)) ≠ none →
      Ends (storeVirt K (dst + k) b) s₂
        (fun _ s' => Pokes [page] A s s' ∧ (∀ k ∈ l, k < size) ∧ ∀ k < size, k ∈ l ∨
          (InUser (dst + k) ∧ spaceTarget page (u64 (src + k)) ≠ none))
        fun _ s' => Pokes [page] A s s' := by
    intro s₂ b h₂ hsrc
    refine (storeVirt_ends (h₂.space h) (by omega) A b).mono (fun _ s₃ h₃ => ?_) fun _ s₃ h₃ => h₃ ▸ h₂
    refine ⟨h₂.trans h₃.2, fun k' hk' => hlt k' (List.mem_cons_of_mem k hk'), fun k' hk' => ?_⟩
    rcases hin k' hk' with hm | hm
    · rcases List.mem_cons.mp hm with he | hm
      · rw [he]
        exact Or.inr ⟨h₃.1, hsrc⟩
      · exact Or.inl hm
    · exact Or.inr hm
  refine (reads_loadVirt _).then (fun b hload => ?_) fun _ _ => hp
  have hsrc := loadVirt_mapped (hp.space h) hload
  cases supplied with
  | false => exact hstore s₁ b hp hsrc
  | true =>
      rw [if_pos rfl, ends_bind, hmod]
      refine ends_of_run (observe_run _ s₁) (hstore _ b (hp.trans ?_) hsrc)
      exact ⟨rfl, .refl _ _, _, rfl, fun o ho => ⟨dst + k, hA rfl k hk, List.mem_singleton.mp ho⟩⟩

theorem memcpyVirt_zero (supplied : Bool) (dst src : Nat) (s : Kernel) :
    memcpyVirt K supplied dst src 0 s = .ok () s := by
  unfold memcpyVirt
  split <;> rfl

/-- A nonempty copy to the lower half of the address space ends inside the user page. -/
theorem memcpyVirt_fits {supplied : Bool} {dst src n : Nat} (hsp : Space K s.ram.mem s.cr3 page)
    (hdst : dst < kernelBase) (hle : dst ≤ src) (hn : 0 < n) (hn32 : n < 2 ^ 32) {u : Unit}
    {s' : Kernel} (h : memcpyVirt K supplied dst src n s = .ok u s') :
    dst + n ≤ 0x600000 ∧ Pokes [page] (fun _ => True) s s' := by
  by_cases hin : dst < 0x600000
  · have hends := (memcpyVirt_ends (A := fun _ => True) hsp (by omega) fun _ _ _ => trivial).ok h
    have := (hends.2 (n - 1) (by omega)).1.2
    exact ⟨by omega, hends.1⟩
  · -- the first byte faults
    exfalso
    obtain ⟨m, rfl⟩ := Nat.exists_eq_add_of_lt hn
    unfold memcpyVirt at h
    rw [if_pos (Or.inl hle), Nat.zero_add, List.range_succ_eq_map, List.forM_cons] at h
    obtain ⟨_, s₁, h₁, -⟩ := bind_ok.mp h
    obtain ⟨b, s₂, hload, h₂⟩ := bind_ok.mp h₁
    obtain rfl := (reads_loadVirt _).ok hload
    have hmod : u64 (dst + 0) = dst := by
      unfold u64
      rw [kernelBase_eq] at hdst
      omega
    have hnone : ∀ t : Kernel, t.ram = s₂.ram → t.cr3 = s₂.cr3 → t.translate (u64 (dst + 0)) = none := by
      intro t hram hcr
      unfold Kernel.translate
      rw [hram, hcr, hsp.walk, hmod]
      unfold spaceTarget kernelTarget
      rw [if_neg (by rw [pageSize_eq]; omega), if_neg (by omega)]
    have hstore : ∀ t : Kernel, t.ram = s₂.ram → t.cr3 = s₂.cr3 →
        storeVirt K (dst + 0) b t ≠ .ok () s₁ := by
      intro t hram hcr hrun
      unfold storeVirt at hrun
      rw [bind_run (get_run t), hnone t hram hcr] at hrun
      cases hrun
    cases supplied with
    | false => exact hstore s₂ rfl rfl h₂
    | true =>
        rw [if_pos rfl, bind_run (observe_run _ s₂)] at h₂
        exact hstore _ (by rfl) (by rfl) h₂

/-- Clearing the user page writes nothing else. -/
theorem clearUserPage_ends (h : Space K s.ram.mem s.cr3 page) (A : Nat → Prop) :
    Ends (clearUserPage K) s (fun _ s' => Pokes [page] A s s') fun _ s' => Pokes [page] A s s' := by
  unfold clearUserPage
  refine (ends_forM (fun l s' => Pokes [page] A s s' ∧ ∀ k ∈ l, k < pageSize) ?_ _ s
    ⟨.refl _ _ s, fun k hk => List.mem_range.mp hk⟩).mono (fun _ _ hI => hI.1) fun _ _ he => he
  rintro k l s₁ ⟨hp, hlt⟩
  have hk := hlt k List.mem_cons_self
  rw [pageSize_eq] at hk
  refine (storeVirt_ends (hp.space h) (by omega) A 0).mono (fun _ s₂ h₂ => ?_) fun _ s₂ h₂ => h₂ ▸ hp
  exact ⟨hp.trans h₂.2, fun k' hk' => hlt k' (List.mem_cons_of_mem k hk')⟩

/-- The user page is zero after it. -/
theorem clearUserPage_run (h : Space K s.ram.mem s.cr3 page) :
    clearUserPage K s = .ok () { s with
      ram := { s.ram with mem := fill s.ram.mem page pageSize 0 } } := by
  have hstep : ∀ k < pageSize, storeVirt K (0x400000 + k) 0
      { s with ram := { s.ram with mem := fill s.ram.mem page k 0 } } =
      .ok () { s with ram := { s.ram with mem := fill s.ram.mem page (k + 1) 0 } } := by
    intro k hk
    rw [pageSize_eq] at hk
    have hw : Wrote [page] s.ram { s.ram with mem := fill s.ram.mem page k 0 } :=
      wrote_fill s.ram 0 le_rfl (by rw [pageSize_eq]; omega)
    have hsp : Space K (fill s.ram.mem page k 0) s.cr3 page := h.written hw.mem
    have hstore := storeVirt_run (s := { s with
      ram := { s.ram with mem := fill s.ram.mem page k 0 } }) hsp
      (show InUser (0x400000 + k) from ⟨by omega, by omega⟩) 0
    rw [Nat.add_sub_cancel_left] at hstore
    refine hstore.trans ?_
    have hfill : Function.update (fill s.ram.mem page k 0) (page + k) 0 =
        fill s.ram.mem page (k + 1) 0 := by
      funext x
      unfold fill
      by_cases hx : x = page + k
      · rw [hx, Function.update_self, if_pos (by omega)]
      · rw [Function.update_of_ne hx]
        exact if_congr (by omega) rfl rfl
    dsimp only
    rw [hfill]
  have hzero : fill s.ram.mem page 0 0 = s.ram.mem := by
    funext x
    exact if_neg (by omega)
  have hrun := forM_range_run (S := fun k =>
    { s with ram := { s.ram with mem := fill s.ram.mem page k 0 } }) hstep
  dsimp only at hrun
  rw [hzero] at hrun
  exact hrun

end Stores

/-! ## Copies to any address -/

section Anywhere

variable {s : Kernel} {page va dst src n : Nat}

/-- The user page and the kernel's window are all that a space maps. -/
theorem spaceTarget_ne_none : spaceTarget page va ≠ none ↔
    InUser va ∨ (kernelBase ≤ va ∧ va < kernelBase + 2 ^ 30) := by
  unfold spaceTarget kernelTarget InUser
  rw [pageSize_eq]
  by_cases hu : 0x400000 ≤ va ∧ va < 0x400000 + 0x200000
  · rw [if_pos hu]
    exact iff_of_true nofun (Or.inl (by omega))
  · rw [if_neg hu]
    by_cases hk : kernelBase ≤ va ∧ va < kernelBase + 0x40000000
    · rw [if_pos hk]
      exact iff_of_true nofun (Or.inr hk)
    · rw [if_neg hk]
      exact iff_of_false (fun h => h rfl) (by omega)

/-- Mapped addresses that follow each other are at most the window. -/
theorem mapped_le (h : ∀ k < n, spaceTarget page (u64 (dst + k)) ≠ none) : n ≤ 2 ^ 30 := by
  by_contra hgt
  have hfirst := spaceTarget_ne_none.mp (h 0 (by omega))
  have hend : ∀ k < n, ¬ (u64 (dst + k) = 0x600000 ∨ u64 (dst + k) = kernelBase + 2 ^ 30) := by
    intro k hk he
    have := spaceTarget_ne_none.mp (h k hk)
    unfold InUser at this
    rw [kernelBase_eq] at this he
    omega
  unfold InUser u64 at hfirst
  unfold u64 at hend
  rw [kernelBase_eq] at hfirst hend
  rcases hfirst with hu | hk
  · exact hend (0x600000 - (dst + 0) % 2 ^ 64) (by omega) (by omega)
  · exact hend (0xffff800040000000 - (dst + 0) % 2 ^ 64) (by omega) (by omega)

/-- A byte outside the tables of a space. -/
theorem Space.stored {m : Mem} {root p : Nat} (h : Space K m root page)
    (hp : ∀ t ∈ tables (entries m) root, ¬ (t ≤ p ∧ p < t + 4096)) (b : UInt8) :
    Space K (Function.update m p b) root page :=
  h.congr fun t ht i hi => load_congr fun x h1 h2 =>
    Function.update_of_ne (fun he => hp t ht ⟨by omega, by omega⟩) b m

/-- The `n` bytes from `dst` on are all mapped, and only the memory behind them changed, no
    table of the space. -/
structure Landed (K : Image) (page dst n : Nat) (s s' : Kernel) : Prop where
  space : Space K s'.ram.mem s'.cr3 page
  mapped : ∀ k < n, spaceTarget page (u64 (dst + k)) ≠ none
  other : ∀ x, (∀ k < n, ∀ t, spaceTarget page (u64 (dst + k)) = some t → t.phys ≠ x) →
    s'.ram.mem x = s.ram.mem x

/-- What can stop a copy. -/
def Fault.OfCopy (e : Fault) : Prop := e = .exception ∨ e = .undefined

theorem loadVirt_exception (va : Nat) (s : Kernel) :
    Ends (loadVirt va) s (fun _ s' => s' = s) fun e _ => e.OfCopy := by
  unfold loadVirt
  rw [ends_bind, ends_get]
  split
  · exact ends_pure.mpr rfl
  · exact ends_throw.mpr (Or.inl rfl)

/-- A store to a mapped address changes the byte there, and no table of the space. -/
theorem storeVirt_into (h : Space K s.ram.mem s.cr3 page) (va : Nat) (b : UInt8) :
    Ends (storeVirt K va b) s (fun _ s' => ∃ t, spaceTarget page (u64 va) = some t ∧
      s'.ram.mem = Function.update s.ram.mem t.phys b ∧ Space K s'.ram.mem s'.cr3 page)
      fun e _ => e.OfCopy := by
  unfold storeVirt Kernel.translate
  rw [ends_bind, ends_get, h.walk]
  generalize ht : spaceTarget page (u64 va) = x
  cases x with
  | none => exact ends_throw.mpr (Or.inl rfl)
  | some t =>
      rw [ends_bind, ends_ensure]
      refine ⟨fun hr => ends_set.mpr ⟨t, rfl, rfl, ?_⟩, fun _ => Or.inr rfl⟩
      dsimp only
      rcases spaceTarget_ne_none.mp (ht ▸ nofun : spaceTarget page (u64 va) ≠ none) with hu | hk
      · -- the user page is not a table
        have hin : 0x400000 ≤ u64 va ∧ u64 va < 0x400000 + pageSize := hu
        unfold spaceTarget at ht
        rw [if_pos hin] at ht
        obtain rfl := Option.some.inj ht
        refine h.written fun x hx => ?_
        have hout : ¬ (page ≤ x ∧ x < page + pageSize) := hx page (List.mem_singleton_self page)
        refine Function.update_of_ne (fun he => hout ?_) _ _
        rw [he]
        dsimp only
        omega
      · exact h.stored (fun p hp hin => hr ⟨hk.1, Or.inl (Or.inr (Or.inr ⟨p, hp, hin⟩))⟩) b

/-- A copy that ends well has landed, wherever it went. -/
theorem memcpyVirt_into (h : Space K s.ram.mem s.cr3 page) (supplied : Bool) (dst src n : Nat) :
    Ends (memcpyVirt K supplied dst src n) s (fun _ s' => Landed K page dst n s s')
      fun e _ => e.OfCopy := by
  unfold memcpyVirt
  generalize horder : (if dst ≤ src ∨ u64 (src + n) ≤ dst then List.range n
    else (List.range n).reverse) = order
  have hmem : ∀ k, k ∈ order ↔ k < n := by
    intro k
    rw [← horder]
    split
    · exact List.mem_range
    · rw [List.mem_reverse]
      exact List.mem_range
  -- what is no longer to do is mapped
  refine (ends_forM (fun l s' => Space K s'.ram.mem s'.cr3 page ∧ (∀ k ∈ l, k < n) ∧
    (∀ k < n, k ∈ l ∨ spaceTarget page (u64 (dst + k)) ≠ none) ∧
    ∀ x, (∀ k < n, ∀ t, spaceTarget page (u64 (dst + k)) = some t → t.phys ≠ x) →
      s'.ram.mem x = s.ram.mem x) ?_ order s
    ⟨h, fun k hk => (hmem k).mp hk, fun k hk => Or.inl ((hmem k).mpr hk), fun _ _ => rfl⟩).mono
    (fun _ _ hI => ⟨hI.1, fun k hk => (hI.2.2.1 k hk).resolve_left List.not_mem_nil, hI.2.2.2⟩)
    fun _ _ he => he
  rintro k l s₁ ⟨hsp, hlt, hdone, hother⟩
  have hk := hlt k List.mem_cons_self
  have hstore : ∀ s₂ b, s₂.ram = s₁.ram → s₂.cr3 = s₁.cr3 →
      Ends (storeVirt K (dst + k) b) s₂ (fun _ s' => Space K s'.ram.mem s'.cr3 page ∧
        (∀ k ∈ l, k < n) ∧ (∀ k < n, k ∈ l ∨ spaceTarget page (u64 (dst + k)) ≠ none) ∧
        ∀ x, (∀ k < n, ∀ t, spaceTarget page (u64 (dst + k)) = some t → t.phys ≠ x) →
          s'.ram.mem x = s.ram.mem x) fun e _ => e.OfCopy := by
    intro s₂ b hram hcr
    refine (storeVirt_into (by rw [hram, hcr]; exact hsp) _ b).mono ?_ fun _ _ he => he
    rintro _ s₃ ⟨t, ht, hmem₃, hsp₃⟩
    refine ⟨hsp₃, fun k' hk' => hlt k' (List.mem_cons_of_mem k hk'), fun k' hk' => ?_, fun x hx => ?_⟩
    · rcases hdone k' hk' with hm | hm
      · rcases List.mem_cons.mp hm with rfl | hm
        · exact Or.inr (ht ▸ nofun)
        · exact Or.inl hm
      · exact Or.inr hm
    · rw [hmem₃, Function.update_of_ne (hx k hk t ht).symm, hram]
      exact hother x hx
  refine (loadVirt_exception _ s₁).bind (fun b s₂ h₂ => ?_) fun _ _ he => he
  cases supplied with
  | false => exact hstore s₂ b (by rw [h₂]) (by rw [h₂])
  | true =>
      rw [if_pos rfl, ends_bind]
      exact ends_of_run (observe_run _ s₂) (hstore _ b (by rw [h₂]) (by rw [h₂]))

end Anywhere

/-! ## The kernel's window -/

section Window

variable {s : Kernel} {page v n : Nat}

theorem translate_kernel (h : Space K s.ram.mem s.cr3 page) (hv : KernelPtr v 1) :
    s.translate (u64 v) = some ⟨v2p v, true, false⟩ := by
  obtain ⟨h1, h2⟩ := hv
  rw [kernelBase_eq] at h1 h2
  have hu : u64 v = v := Nat.mod_eq_of_lt (by omega)
  have hp : v2p v = v - kernelBase := by
    unfold v2p u64
    rw [kernelBase_eq]
    omega
  unfold Kernel.translate
  rw [h.walk, hu, hp]
  unfold spaceTarget kernelTarget
  rw [if_neg (by rw [pageSize_eq]; omega), if_pos (by rw [kernelBase_eq]; omega)]

theorem loadVirt_kernel (h : Space K s.ram.mem s.cr3 page) (hv : KernelPtr v 1) :
    loadVirt v s = .ok (s.ram.mem (v2p v)) s := by
  unfold loadVirt
  rw [bind_run (get_run s), translate_kernel h hv]
  rfl

/-- Nothing keeps a store out of the kernel's part. -/
theorem storeVirt_kernel (h : Space K s.ram.mem s.cr3 page) (hv : KernelPtr v 1)
    (hr : ¬ s.Reserved K (v2p v)) (b : UInt8) :
    storeVirt K v b s = .ok () { s with
      ram := { s.ram with mem := Function.update s.ram.mem (v2p v) b } } :=
  storeVirt_at (translate_kernel h hv) (fun h => hr h.2) b

theorem loadVirtN_kernel (h : Space K s.ram.mem s.cr3 page) (hv : KernelPtr v n) :
    loadVirtN v n s = .ok (load s.ram.mem (v2p v) n) s := by
  induction n generalizing v with
  | zero => rfl
  | succ n ih =>
      obtain ⟨h1, h2⟩ := hv
      rw [kernelBase_eq] at h1 h2
      have hnext : v2p (v + 1) = v2p v + 1 := by
        unfold v2p u64
        rw [kernelBase_eq]
        omega
      have h0 : KernelPtr v 1 := ⟨by rw [kernelBase_eq]; omega, by rw [kernelBase_eq]; omega⟩
      have hrest : KernelPtr (v + 1) n := ⟨by rw [kernelBase_eq]; omega, by rw [kernelBase_eq]; omega⟩
      unfold loadVirtN
      rw [bind_run (loadVirt_kernel h h0), bind_run (ih hrest), hnext]
      rfl

/-- The bytes stored through a pointer that a user program supplied. -/
def storedBytes (supplied : Bool) (dst n : Nat) : List Obs :=
  if supplied then (List.range n).map fun k => .stored (dst + k) else []

/-- The state after `n` bytes from the window at `a` have come to `base`, through `dst`. -/
def Kernel.copied (s : Kernel) (supplied : Bool) (base dst a n : Nat) : Kernel :=
  { s with
    ram := { s.ram with mem := copy s.ram.mem base a n }
    hist := s.hist ++ storedBytes supplied dst n }

theorem storedBytes_zero (supplied : Bool) (dst : Nat) : storedBytes supplied dst 0 = [] := by
  cases supplied <;> rfl

theorem storedBytes_succ (dst n : Nat) :
    storedBytes true dst (n + 1) = storedBytes true dst n ++ [.stored (dst + n)] := by
  unfold storedBytes
  rw [if_pos rfl, if_pos rfl, List.range_succ, List.map_append]
  rfl

theorem Kernel.copied_zero (s : Kernel) (supplied : Bool) (base dst a : Nat) :
    s.copied supplied base dst a 0 = s := by
  unfold Kernel.copied
  rw [copy_zero, storedBytes_zero, List.append_nil]

/-- One round of the copy. -/
theorem copied_round (h : Space K s.ram.mem s.cr3 page) {supplied : Bool} {base dst a k : Nat}
    (hbase : base + 0x400000 = page + dst) (hdst : 0x400000 ≤ dst) (hin : InUser (dst + k))
    (ha : 0x30000000 ≤ a) (hk : a + k < 2 ^ 30) : (do
      let b ← loadVirt (a + kernelBase + k)
      if supplied then
        observe (.stored (u64 (dst + k)))
      storeVirt K (dst + k) b : LowM Unit) (s.copied supplied base dst a k) =
        .ok () (s.copied supplied base dst a (k + 1)) := by
  have hbelow := h.pageValid.below
  rw [pageSize_eq] at hbelow
  have hend := hin.2
  have hptr : KernelPtr (a + kernelBase + k) 1 := by
    unfold KernelPtr
    omega
  have hphys : v2p (a + kernelBase + k) = a + k := by
    unfold v2p u64
    rw [kernelBase_eq]
    omega
  have hspace : Space K (s.copied supplied base dst a k).ram.mem s.cr3 page := by
    refine h.written fun x hx => copy_of_outside s.ram.mem base a k ?_
    have hout : ¬ (page ≤ x ∧ x < page + pageSize) := hx page (List.mem_singleton_self page)
    rw [pageSize_eq] at hout
    omega
  have hsrc : (s.copied supplied base dst a k).ram.mem (a + k) = s.ram.mem (a + k) :=
    copy_of_outside s.ram.mem base a k (by omega)
  have hu : u64 (dst + k) = dst + k := Nat.mod_eq_of_lt (by omega)
  have haddr : page + (dst + k - 0x400000) = base + k := by omega
  rw [bind_run (loadVirt_kernel hspace hptr), hphys, hsrc, hu]
  cases supplied with
  | false =>
      refine (storeVirt_run hspace hin _).trans ?_
      rw [haddr]
      unfold Kernel.copied
      rw [copy_succ]
      rfl
  | true =>
      rw [if_pos rfl, bind_run (observe_run _ _)]
      refine (storeVirt_run (s := { s.copied true base dst a k with
        hist := (s.copied true base dst a k).hist ++ [.stored (dst + k)] }) hspace hin _).trans ?_
      rw [haddr]
      unfold Kernel.copied
      rw [copy_succ, storedBytes_succ, ← List.append_assoc]

/-- A copy from the window above the pages into the user page. -/
theorem memcpyVirt_run (h : Space K s.ram.mem s.cr3 page) (supplied : Bool) {base dst a n : Nat}
    (hbase : base + 0x400000 = page + dst) (hdst : 0x400000 ≤ dst) (hend : dst + n ≤ 0x600000)
    (ha : 0x30000000 ≤ a) (hn : a + n ≤ 2 ^ 30) :
    memcpyVirt K supplied dst (a + kernelBase) n s = .ok () (s.copied supplied base dst a n) := by
  have hle : dst ≤ a + kernelBase := by
    rw [kernelBase_eq]
    omega
  unfold memcpyVirt
  rw [if_pos (Or.inl hle)]
  have hrun := forM_range_run (S := s.copied supplied base dst a) (n := n) fun k hk =>
    copied_round h hbase hdst (show InUser (dst + k) from ⟨by omega, by omega⟩)
      ha (show a + k < 2 ^ 30 by omega)
  rw [Kernel.copied_zero] at hrun
  exact hrun

end Window

end Os64
