/-
  free_vm: the pages of a map go back to the free list.

  * `releaseEntries_run`: a loop of `free_pdpt` or the inner loop of `free_pdt` frees the tables
    behind the entries it visits.
  * `freeDirs_run`: both loops of `free_pdt` free the page directories.
  * `freeVm_frees`: `free_vm` frees the user page, if there is one, and every table of the
    map, each page once, and reads no page that it freed before.
  * `freeVm_run`: the same for a map as the kernel builds it, without the log.
-/
import Os64.Lib.Leaves
import Os64.Mem.Maps
import Os64.Mem.Watched

namespace Os64

open Os64.Lib

variable {K : Image}

/-- The tables behind the entries `l` of `t`. -/
def kidsOn (E : Entries) (t : Nat) (l : List Nat) : List Nat :=
  l.filterMap fun i => if present (E t i) then some (frame (E t i)) else none

theorem kidsOn_range (E : Entries) (t : Nat) : kidsOn E t (List.range 512) = kids E t := rfl

theorem kidsOn_cons_present {E : Entries} {t i : Nat} {l : List Nat} (h : present (E t i)) :
    kidsOn E t (i :: l) = frame (E t i) :: kidsOn E t l := List.filterMap_cons_some (if_pos h)

theorem kidsOn_cons_absent {E : Entries} {t i : Nat} {l : List Nat} (h : ¬ present (E t i)) :
    kidsOn E t (i :: l) = kidsOn E t l := List.filterMap_cons_none (if_neg h)

@[simp] theorem kidsOn_nil (E : Entries) (t : Nat) : kidsOn E t [] = [] := rfl

theorem kidsOn_congr {E F : Entries} {t : Nat} {l : List Nat} (h : ∀ i ∈ l, F t i = E t i) :
    kidsOn F t l = kidsOn E t l := by
  unfold kidsOn
  refine List.filterMap_congr fun i hi => ?_
  rw [h i hi]

/-- The pages `ps` were freed: they joined the free list, and memory changed in the pages
    `ps` and `ts` only. -/
structure Freed (K : Image) (r r' : Ram) (free free' ps ts : List Nat) : Prop where
  freeList : FreeList K r' free'
  perm : free'.Perm (ps ++ free)
  mem : AgreeOff (ps ++ ts) r.mem r'.mem
  region : SameRegions r r'

theorem Freed.refl {r : Ram} {free : List Nat} (h : FreeList K r free) (ts : List Nat) :
    Freed K r r free free [] ts :=
  ⟨h, List.Perm.refl _, AgreeOff.refl _ _, .refl r⟩

theorem Freed.trans {r r' r'' : Ram} {free free' free'' ps ps' ts ts' : List Nat}
    (h : Freed K r r' free free' ps ts) (h' : Freed K r' r'' free' free'' ps' ts') :
    Freed K r r'' free free'' (ps ++ ps') (ts ++ ts') := by
  refine ⟨h'.freeList, ?_, ?_, h.region.trans h'.region⟩
  · refine h'.perm.trans ((h.perm.append_left ps').trans ?_)
    rw [← List.append_assoc]
    exact List.perm_append_comm.append_right _
  · refine (h.mem.mono fun p hp => ?_).trans (h'.mem.mono fun p hp => ?_)
    · simp only [List.mem_append] at hp ⊢
      tauto
    · simp only [List.mem_append] at hp ⊢
      tauto

theorem Freed.mono {r r' : Ram} {free free' ps ts ts' : List Nat}
    (h : Freed K r r' free free' ps ts) (hts : ∀ p ∈ ts, p ∈ ps ∨ p ∈ ts') :
    Freed K r r' free free' ps ts' := by
  refine ⟨h.freeList, h.perm, h.mem.mono fun p hp => ?_, h.region⟩
  rw [List.mem_append] at hp ⊢
  exact hp.elim Or.inl (hts p)

/-- A logged run that frees the pages `ps`, changes the tables `ts` and reads the tables `rs`. -/
structure FreeRun (K : Image) (x : WatchM Unit) (r r' : Ram) (free free' ps ts rs : List Nat) : Prop
    extends Freed K r r' free free' ps ts where
  logged : Logged pageSize x r () r' rs ps

namespace FreeRun

variable {x y : WatchM Unit} {r r' r'' : Ram} {free free' free'' ps ps' ts ts' rs rs' : List Nat}

theorem nil (h : FreeList K r free) (ts rs : List Nat) :
    FreeRun K (pure ()) r r free free [] ts rs := ⟨.refl h ts, .pure () r rs⟩

theorem bind (h : FreeRun K x r r' free free' ps ts rs)
    (h' : FreeRun K y r' r'' free' free'' ps' ts' rs) :
    FreeRun K (do x; y) r r'' free free'' (ps ++ ps') (ts ++ ts') rs :=
  ⟨h.toFreed.trans h'.toFreed, h.logged.bind h'.logged⟩

theorem mono (h : FreeRun K x r r' free free' ps ts rs) (hts : ∀ p ∈ ts, p ∈ ps ∨ p ∈ ts')
    (hrs : ∀ t ∈ rs, t ∈ rs') : FreeRun K x r r' free free' ps ts' rs' :=
  ⟨h.toFreed.mono hts, h.logged.mono hrs⟩

end FreeRun

/-! ## The entries of one table -/

section Loop

variable {t : Nat}

/-- One call of `kfree`. -/
theorem kfree_freed {r : Ram} {free : List Nat} {p v : Nat} (h : FreeList K r free)
    (hv : ValidPage K p) (hp : p ∉ free) (hvp : v = p2v p) :
    ∃ r', kfree K v r = .ok () r' ∧ Freed K r r' free (p :: free) [p] [] := by
  obtain ⟨hrun, hfl⟩ := kfree_run h hv hp hvp
  refine ⟨_, hrun, hfl, List.Perm.refl _, ?_, rfl, rfl⟩
  exact agreeOff_store r.mem _ (Nat.le_refl p) (by rw [pageSize_eq]; omega)

/-- The entry of a table, logged. -/
theorem kload_logged {r : Ram} {i : Nat} {rs : List Nat} (ht : ValidPage K t) (hi : i < 512)
    (hrs : t ∈ rs) :
    Logged pageSize (Watched.kload (p2v t + 8 * i) 8) r (entries r.mem t i) r rs [] := by
  have hv : v2p (p2v t + 8 * i) = t + 8 * i := by
    refine ht.v2p_at (by rw [pageSize_eq]; omega) ?_
    rw [ht.p2v_eq]
    omega
  refine (Logged.note (.readOne hrs ?_ ?_) r).bind (.lift (kload_entry ht hi r) rs)
  · omega
  · rw [hv, pageSize_eq]
    omega

/-- One call of `kfree`, logged. -/
theorem kfree_logged {r : Ram} {free : List Nat} {p v : Nat} (h : FreeList K r free)
    (hv : ValidPage K p) (hp : p ∉ free) (hvp : v = p2v p) (rs : List Nat) :
    ∃ r', FreeRun K (Watched.kfree K v) r r' free (p :: free) [p] [] rs := by
  obtain ⟨r', hrun, hfr⟩ := kfree_freed h hv hp hvp
  refine ⟨r', hfr, ?_⟩
  have hpage : v2p v = p := by rw [hvp, hv.v2p_p2v]
  have hnote : Touches pageSize [.free (v2p v)] rs [p] := by
    rw [hpage]
    exact .freeOne
  exact (Logged.note hnote r).bind (.lift hrun rs)

/-- What `release` frees. -/
def releasedBy (addr : Nat → Nat) (E : Entries) (t i : Nat) : List Nat :=
  if present (E t i) then [addr (E t i)] else []

/-- Free what entry `i` of `t` points at. -/
theorem releaseEntry_run {addr : Nat → Nat} {r : Ram} {free rs : List Nat} {i : Nat}
    (h : FreeList K r free) (ht : ValidPage K t) (htf : t ∉ free) (hi : i < 512) (hrs : t ∈ rs)
    (hk : ∀ p ∈ releasedBy addr (entries r.mem) t i, ValidPage K p ∧ p ∉ free ∧ p ≠ t) :
    ∃ r' free', FreeRun K (Watched.release K addr (p2v t) i) r r' free free'
        (releasedBy addr (entries r.mem) t i) [t] rs ∧
      ∀ j < 512, j ≠ i → entries r'.mem t j = entries r.mem t j := by
  have hload := kload_logged (r := r) ht hi hrs
  by_cases hp : present (entries r.mem t i)
  · have hby : releasedBy addr (entries r.mem) t i = [addr (entries r.mem t i)] := if_pos hp
    rw [hby] at hk ⊢
    obtain ⟨hv, hf, hne⟩ := hk _ (List.mem_singleton_self _)
    obtain ⟨r₁, hfr⟩ := kfree_logged h hv hf rfl rs
    have hstore := kstore_entry ht hi r₁ 0
    have hm : AgreeOff [t] r₁.mem (store r₁.mem (t + 8 * i) 8 0) :=
      agreeOff_store r₁.mem 0 (by omega) (by rw [pageSize_eq]; omega)
    have hfl : FreeList K { r₁ with mem := store r₁.mem (t + 8 * i) 8 0 }
        (addr (entries r.mem t i) :: free) := by
      refine hfr.freeList.congr rfl hm fun p hpm => ?_
      rw [List.mem_singleton.mp hpm]
      refine ⟨ht.aligned, fun hm => ?_⟩
      rcases List.mem_cons.mp hm with he | hm
      · exact hne he.symm
      · exact htf hm
    have hclear : FreeRun K (monadLift (kstore (p2v t + 8 * i) 8 0)) r₁
        { r₁ with mem := store r₁.mem (t + 8 * i) 8 0 } (addr (entries r.mem t i) :: free)
        (addr (entries r.mem t i) :: free) [] [t] rs :=
      ⟨⟨hfl, List.Perm.refl _, hm, .refl _⟩, .lift hstore rs⟩
    have hall := hfr.bind hclear
    refine ⟨_, _, ⟨hall.toFreed, ?_⟩, ?_⟩
    · refine hload.bind ?_
      rw [if_pos ((present_iff _).mpr hp)]
      exact hall.logged
    · intro j hj hji
      have h1 := entries_store_ne r₁.mem 0 ht.aligned ht.aligned hi hj (Or.inr hji)
      refine h1.trans (hfr.mem.entries_eq ht.aligned ?_ ?_ hj)
      · simpa using hne.symm
      · simpa using hv.aligned
  · have hby : releasedBy addr (entries r.mem) t i = [] := if_neg hp
    rw [hby]
    refine ⟨r, free, ⟨.refl h [t], hload.bind ?_⟩, fun _ _ _ => rfl⟩
    rw [if_neg fun hn => hp ((present_iff _).mp hn)]
    exact .pure () r rs

/-- Free the tables behind the entries `l` of `t`. -/
theorem releaseEntries_run (ht : ValidPage K t) : ∀ (l : List Nat) (r : Ram) (free : List Nat),
    FreeList K r free → (∀ i ∈ l, i < 512) → l.Nodup →
    (∀ i ∈ l, present (entries r.mem t i) → entries r.mem t i < 2 ^ 52) →
    (∀ k ∈ kidsOn (entries r.mem) t l, ValidPage K k) →
    (t :: (kidsOn (entries r.mem) t l ++ free)).Nodup →
    ∃ r' free', FreeRun K (forM l (Watched.release K pdeAddr (p2v t))) r r' free free'
      (kidsOn (entries r.mem) t l) [t] [t] := by
  intro l
  induction l with
  | nil => exact fun r free h _ _ _ _ _ => ⟨r, free, .nil h [t] [t]⟩
  | cons i l ih =>
      intro r free h hl hnd hs hv hapart
      obtain ⟨htn, hapart⟩ := List.nodup_cons.mp hapart
      obtain ⟨hil, hnd⟩ := List.nodup_cons.mp hnd
      have hi := hl i List.mem_cons_self
      have hby : releasedBy pdeAddr (entries r.mem) t i = kidsOn (entries r.mem) t [i] := by
        unfold releasedBy
        by_cases hp : present (entries r.mem t i)
        · rw [kidsOn_cons_present hp, if_pos hp, pdeAddr_eq (hs i List.mem_cons_self hp)]
          rfl
        · rw [kidsOn_cons_absent hp, if_neg hp]
          rfl
      have hsplit : kidsOn (entries r.mem) t (i :: l) =
          kidsOn (entries r.mem) t [i] ++ kidsOn (entries r.mem) t l := by
        unfold kidsOn
        rw [← List.filterMap_append, List.singleton_append]
      rw [hsplit] at hv hapart htn
      rw [List.append_assoc] at hapart
      have hk : ∀ p ∈ releasedBy pdeAddr (entries r.mem) t i,
          ValidPage K p ∧ p ∉ free ∧ p ≠ t := by
        rw [hby]
        intro p hp
        refine ⟨hv p (List.mem_append_left _ hp), fun hm => ?_, fun he => htn ?_⟩
        · exact List.disjoint_of_nodup_append hapart hp (List.mem_append_right _ hm)
        · rw [he] at hp
          exact List.mem_append_left _ (List.mem_append_left _ hp)
      obtain ⟨r₁, free₁, hfr, he⟩ := releaseEntry_run h ht
        (fun hm => htn (List.mem_append_right _ hm)) hi List.mem_cons_self hk
      rw [hby] at hfr
      have he' : ∀ j ∈ l, entries r₁.mem t j = entries r.mem t j := fun j hj =>
        he j (hl j (List.mem_cons_of_mem i hj)) fun hji => hil (hji ▸ hj)
      have hkids := kidsOn_congr (E := entries r.mem) (F := entries r₁.mem) he'
      have hperm : (t :: (kidsOn (entries r₁.mem) t l ++ free₁)).Perm
          (t :: (kidsOn (entries r.mem) t (i :: l) ++ free)) := by
        refine List.Perm.cons t ?_
        rw [hkids, hsplit, List.append_assoc]
        refine (hfr.perm.append_left _).trans ?_
        rw [← List.append_assoc, ← List.append_assoc]
        exact List.perm_append_comm.append_right _
      have hs' : ∀ j ∈ l, present (entries r₁.mem t j) → entries r₁.mem t j < 2 ^ 52 := by
        intro j hj hp
        rw [he' j hj] at hp ⊢
        exact hs j (List.mem_cons_of_mem i hj) hp
      have hv' : ∀ k ∈ kidsOn (entries r₁.mem) t l, ValidPage K k := by
        rw [hkids]
        exact fun k hk => hv k (List.mem_append_right _ hk)
      have hnd' : (t :: (kidsOn (entries r₁.mem) t l ++ free₁)).Nodup := by
        refine hperm.nodup_iff.mpr (List.nodup_cons.mpr ⟨?_, ?_⟩)
        · rw [hsplit]
          exact htn
        · rw [hsplit, List.append_assoc]
          exact hapart
      obtain ⟨r', free', hfr'⟩ := ih r₁ free₁ hfr.freeList
        (fun j hj => hl j (List.mem_cons_of_mem i hj)) hnd hs' hv' hnd'
      rw [hkids] at hfr'
      rw [hsplit, List.forM_cons]
      exact ⟨r', free', (hfr.bind hfr').mono (fun p hp => Or.inr (by simpa using hp))
        fun _ ht => ht⟩

end Loop

/-- Tables that were neither freed nor cleared keep their entries. -/
theorem Freed.entries_eq {r r' : Ram} {free free' ps ts : List Nat} {u j : Nat}
    (h : Freed K r r' free free' ps ts) (hP : ∀ p ∈ ps ++ ts, ValidPage K p)
    (hu : ValidPage K u) (hup : u ∉ ps ++ ts) (hj : j < 512) :
    entries r'.mem u j = entries r.mem u j :=
  h.mem.entries_eq hu.aligned hup (fun p hp => (hP p hp).aligned) hj

/-! ## Page directories -/

section Directories

variable {root : Nat}

/-- The outer loop of `free_pdt` over the entries `l`. -/
theorem freeDirs_run (hroot : ValidPage K root) : ∀ (l : List Nat) (r : Ram) (free : List Nat),
    FreeList K r free → (∀ i ∈ l, i < 512) →
    (∀ i ∈ l, present (entries r.mem root i) → entries r.mem root i < 2 ^ 52) →
    (∀ k ∈ kidsOn (entries r.mem) root l, ValidPage K k ∧
      (∀ j < 512, present (entries r.mem k j) → entries r.mem k j < 2 ^ 52) ∧
      ∀ c ∈ kids (entries r.mem) k, ValidPage K c) →
    (root :: (kidsOn (entries r.mem) root l ++
      ((kidsOn (entries r.mem) root l).flatMap (kids (entries r.mem)) ++ free))).Nodup →
    ∃ r' free', FreeRun K (forM l (Watched.freeDirs K (p2v root))) r r' free free'
      ((kidsOn (entries r.mem) root l).flatMap (kids (entries r.mem)))
      (kidsOn (entries r.mem) root l) (root :: kidsOn (entries r.mem) root l) := by
  intro l
  induction l with
  | nil => exact fun r free h _ _ _ _ => ⟨r, free, .nil h [] [root]⟩
  | cons i l ih =>
      intro r free h hl hs hv hnd
      have hi := hl i List.mem_cons_self
      have hl' : ∀ j ∈ l, j < 512 := fun j hj => hl j (List.mem_cons_of_mem i hj)
      by_cases hp : present (entries r.mem root i)
      swap
      · -- nothing behind this entry
        rw [kidsOn_cons_absent hp] at hv hnd ⊢
        obtain ⟨r', free', hfr⟩ := ih r free h hl'
          (fun j hj => hs j (List.mem_cons_of_mem i hj)) hv hnd
        refine ⟨r', free', hfr.toFreed, ?_⟩
        have hbody : Logged pageSize (Watched.freeDirs K (p2v root) i) r () r
            (root :: kidsOn (entries r.mem) root l) [] := by
          refine (kload_logged hroot hi List.mem_cons_self).bind ?_
          rw [if_neg fun hn => hp ((present_iff _).mp hn)]
          exact .pure () r _
        rw [List.forM_cons]
        exact hbody.bind hfr.logged
      rw [kidsOn_cons_present hp] at hv hnd ⊢
      generalize hks : kidsOn (entries r.mem) root l = ks at hv hnd ⊢
      generalize hkv : frame (entries r.mem root i) = k at hv hnd ⊢
      obtain ⟨hk, hksmall, hkids⟩ := hv k List.mem_cons_self
      rw [List.flatMap_cons] at hnd ⊢
      -- the directories below `k`
      have hnd1 : (k :: (kids (entries r.mem) k ++ free)).Nodup := by
        refine hnd.sublist (List.Sublist.cons _ ?_)
        rw [List.cons_append]
        refine List.Sublist.cons_cons k ?_
        refine List.Sublist.trans ?_ (List.sublist_append_right _ _)
        exact (List.sublist_append_left _ _).append_right free
      have hkids' : kidsOn (entries r.mem) k (List.range 512) = kids (entries r.mem) k := rfl
      obtain ⟨r₁, free₁, hfr⟩ := releaseEntries_run hk (List.range 512) r free h
        (fun j hj => List.mem_range.mp hj) List.nodup_range
        (fun j hj => hksmall j (List.mem_range.mp hj)) (by rw [hkids']; exact hkids)
        (by rw [hkids']; exact hnd1)
      rw [hkids'] at hfr
      have hvalid : ∀ p ∈ kids (entries r.mem) k ++ [k], ValidPage K p := by
        intro p hpm
        rcases List.mem_append.mp hpm with hpm | hpm
        · exact hkids p hpm
        · rw [List.mem_singleton.mp hpm]
          exact hk
      obtain ⟨hrn, hnd2⟩ := List.nodup_cons.mp hnd
      have hrootNot : root ∉ kids (entries r.mem) k ++ [k] := by
        intro hm
        rcases List.mem_append.mp hm with hm | hm
        · exact hrn (List.mem_append_right _ (List.mem_append_left _ (List.mem_append_left _ hm)))
        · exact hrn (List.mem_cons.mpr (Or.inl (List.mem_singleton.mp hm)))
      have hksNot : ∀ u ∈ ks, u ∉ kids (entries r.mem) k ++ [k] := by
        intro u hu hm
        rw [List.cons_append, List.nodup_cons] at hnd2
        rcases List.mem_append.mp hm with hm | hm
        · refine List.disjoint_of_nodup_append hnd2.2 hu ?_
          exact List.mem_append_left _ (List.mem_append_left _ hm)
        · rw [List.mem_singleton.mp hm] at hu
          exact hnd2.1 (List.mem_append_left _ hu)
      have heroot : ∀ j < 512, entries r₁.mem root j = entries r.mem root j := fun j hj =>
        hfr.entries_eq hvalid hroot hrootNot hj
      have heks : ∀ u ∈ ks, ∀ j < 512, entries r₁.mem u j = entries r.mem u j := fun u hu j hj =>
        hfr.entries_eq hvalid (hv u (List.mem_cons_of_mem k hu)).1 (hksNot u hu) hj
      have hks₁ : kidsOn (entries r₁.mem) root l = ks := by
        rw [← hks]
        exact kidsOn_congr fun j hj => heroot j (hl' j hj)
      have hflat : ks.flatMap (kids (entries r₁.mem)) = ks.flatMap (kids (entries r.mem)) :=
        List.flatMap_congr fun u hu => kids_congr (heks u hu)
      have hs' : ∀ j ∈ l, present (entries r₁.mem root j) → entries r₁.mem root j < 2 ^ 52 := by
        intro j hj hpj
        rw [heroot j (hl' j hj)] at hpj ⊢
        exact hs j (List.mem_cons_of_mem i hj) hpj
      have hv' : ∀ u ∈ kidsOn (entries r₁.mem) root l, ValidPage K u ∧
          (∀ j < 512, present (entries r₁.mem u j) → entries r₁.mem u j < 2 ^ 52) ∧
          ∀ c ∈ kids (entries r₁.mem) u, ValidPage K c := by
        rw [hks₁]
        intro u hu
        obtain ⟨h1, h2, h3⟩ := hv u (List.mem_cons_of_mem k hu)
        refine ⟨h1, fun j hj hpj => ?_, ?_⟩
        · rw [heks u hu j hj] at hpj ⊢
          exact h2 j hj hpj
        · rw [kids_congr (heks u hu)]
          exact h3
      have hnd' : (root :: (kidsOn (entries r₁.mem) root l ++
          ((kidsOn (entries r₁.mem) root l).flatMap (kids (entries r₁.mem)) ++ free₁))).Nodup := by
        rw [hks₁, hflat]
        have hp1 : (ks ++ (ks.flatMap (kids (entries r.mem)) ++ free₁)).Perm
            (ks ++ (kids (entries r.mem) k ++ ks.flatMap (kids (entries r.mem)) ++ free)) := by
          refine List.Perm.append_left ks ((hfr.perm.append_left _).trans ?_)
          rw [← List.append_assoc]
          exact List.perm_append_comm.append_right free
        refine (hp1.cons root).nodup_iff.mpr (hnd.sublist ?_)
        exact List.Sublist.cons_cons root (List.sublist_cons_self k _)
      obtain ⟨r', free', hfr'⟩ := ih r₁ free₁ hfr.freeList hl' hs' hv' hnd'
      rw [hks₁, hflat] at hfr'
      have hinner : Logged pageSize (if entries r.mem root i &&& pteP ≠ 0 then
          forM (List.range 512) (Watched.release K pdeAddr (p2v (pdeAddr (entries r.mem root i))))
          else pure ()) r () r₁ (root :: k :: ks) (kids (entries r.mem) k) := by
        rw [if_pos ((present_iff _).mpr hp), pdeAddr_eq (hs i List.mem_cons_self hp), hkv]
        refine hfr.logged.mono fun t ht => ?_
        rw [List.mem_singleton.mp ht]
        exact List.mem_cons_of_mem _ List.mem_cons_self
      have hbody : Logged pageSize (Watched.freeDirs K (p2v root) i) r () r₁ (root :: k :: ks)
          (kids (entries r.mem) k) := by
        rw [← List.nil_append (kids (entries r.mem) k)]
        exact (kload_logged hroot hi List.mem_cons_self).bind hinner
      have hlater : FreeRun K (forM l (Watched.freeDirs K (p2v root))) r₁ r' free₁ free'
          (ks.flatMap (kids (entries r.mem))) ks (root :: k :: ks) := by
        refine hfr'.mono (fun p hp => Or.inr hp) fun t ht => ?_
        rcases List.mem_cons.mp ht with he | ht
        · exact he ▸ List.mem_cons_self
        · exact List.mem_cons_of_mem _ (List.mem_cons_of_mem _ ht)
      rw [List.forM_cons]
      exact ⟨r', free', FreeRun.bind ⟨hfr.toFreed, hbody⟩ hlater⟩

end Directories

/-! ## The whole map -/

section Map

variable {r : Ram} {free : List Nat} {root page : Nat} {w u : Bool}

/-- The directory entry behind a translation. -/
theorem WfMap.entry {E : Entries} {va : Nat} {tgt : Target} (h : WfMap E root) (hc : canonical va)
    (hw : walk E root va = some tgt) :
    ∃ t w u, upper E root va = some (t, w, u) ∧ present (E t (idx2 va)) ∧
      tgt.phys = E t (idx2 va) / 2 ^ 21 % 2 ^ 31 * 2 ^ 21 + va % 2 ^ 21 := by
  rw [h.walk_eq hc] at hw
  cases hup : upper E root va with
  | none =>
      rw [hup] at hw
      cases hw
  | some p =>
      obtain ⟨t, w, u⟩ := p
      rw [hup, Option.bind_some] at hw
      split at hw
      · rename_i hp
        refine ⟨t, w, u, rfl, hp, ?_⟩
        rw [← Option.some.inj hw]
      · cases hw

/-- The page that a map has at `0x400000`, if there is one. -/
def userPages (E : Entries) (root : Nat) : List Nat :=
  ((leafEntry E root 0x400000).map pteAddr).toList

/-- That page is a page of the allocator in use, and no table of the map. -/
structure UserHeld (K : Image) (r : Ram) (free : List Nat) (root : Nat) : Prop where
  valid : ∀ p ∈ userPages (entries r.mem) root, ValidPage K p
  apart : ∀ p ∈ userPages (entries r.mem) root, p ∉ tables (entries r.mem) root
  used : ∀ p ∈ userPages (entries r.mem) root, p ∉ free

/-- The table behind entry `i` of `t`, or 0. -/
theorem tableBehind_logged {t i : Nat} {rs : List Nat} (ht : ValidPage K t) (hi : i < 512)
    (hrs : t ∈ rs) (hs : present (entries r.mem t i) → entries r.mem t i < 2 ^ 52) :
    Logged pageSize (do
        let e ← Watched.kload (p2v t + 8 * i) 8
        if e &&& pteP ≠ 0 then return p2v (pdeAddr e) else return 0)
      r (if present (entries r.mem t i) then p2v (frame (entries r.mem t i)) else 0) r rs [] := by
  refine (kload_logged (r := r) ht hi hrs).bind ?_
  by_cases hp : present (entries r.mem t i)
  · rw [if_pos ((present_iff _).mpr hp), if_pos hp, pdeAddr_eq (hs hp)]
    exact .pure _ r rs
  · rw [if_neg fun hn => hp ((present_iff _).mp hn), if_neg hp]
    exact .pure _ r rs

/-- The walk without allocation reads tables of the map. -/
theorem findPdptEntry_logged (h : TableTree K r.mem root) (v : Nat) :
    Logged pageSize (Watched.findPdptEntry (p2v root) v) r
      (((upper (entries r.mem) root v).map fun p => p2v p.1).getD 0) r
      (tables (entries r.mem) root) [] := by
  have h1 := tableBehind_logged (r := r) h.root_valid (idx4_lt v)
    (root_mem_tables (E := entries r.mem)) (h.root_small (idx4_lt v))
  rw [← index4_eq] at h1
  unfold Watched.findPdptEntry
  refine Logged.bind h1 ?_
  rw [index4_eq]
  by_cases h4 : present (entries r.mem root (idx4 v))
  · have hk := frame_mem_kids (idx4_lt v) h4
    have hkv := h.kid_valid hk
    rw [if_pos h4, if_neg hkv.p2v_ne_zero, index3_eq]
    have h2 := tableBehind_logged (r := r) hkv (idx3_lt v) (kids_subset_tables hk)
      (h.kid_small hk (idx3_lt v))
    by_cases h3 : present (entries r.mem (frame (entries r.mem root (idx4 v))) (idx3 v))
    · rw [if_pos h3] at h2
      unfold upper
      dsimp only
      rw [if_pos ⟨h4, h3⟩, Option.map_some, Option.getD_some]
      exact h2
    · rw [if_neg h3] at h2
      unfold upper
      dsimp only
      rw [if_neg fun hc => h3 hc.2, Option.map_none, Option.getD_none]
      exact h2
  · unfold upper
    dsimp only
    rw [if_neg h4, if_pos rfl, if_neg fun hc => h4 hc.1, Option.map_none, Option.getD_none]
    exact .pure 0 r _

/-- One round of `free_pages`. -/
theorem freePagesLoop_once {map vend v : Nat} (h : ¬ u64 (u64 (v + pageSize) + pageSize) ≤ vend)
    (fuel : Nat) : Watched.freePagesLoop K map vend (fuel + 1) v = (do
      let pd ← Watched.findPdptEntry map v
      if pd ≠ 0 then Watched.release K pteAddr pd ((v >>> 21) &&& 0x1FF)) := by
  unfold Watched.freePagesLoop
  refine bind_congr fun pd => ?_
  dsimp only
  rw [if_neg h]
  split
  · exact bind_pure _
  · rfl

/-- `free_pages` on the user page frees it, if there is one. -/
theorem freePages_run (h : MapTree K r free root) (hu : UserHeld K r free root) :
    ∃ r' free', FreeRun K (Watched.freePages K (p2v root) 0x400000 (0x400000 + pageSize)) r r' free
      free' (userPages (entries r.mem) root) (pds (entries r.mem) root)
      (tables (entries r.mem) root) := by
  have hal : 0x400000 % pageSize = 0 := by rw [pageSize_eq]
  have hal' : (0x400000 + pageSize) % pageSize = 0 := by rw [pageSize_eq]
  have hrounds : rounds = 2 ^ 43 - 1 + 1 := by unfold rounds; omega
  have hstop : ¬ u64 (u64 (0x400000 + pageSize) + pageSize) ≤ 0x400000 + pageSize := by
    unfold u64
    rw [pageSize_eq]
    omega
  have hwalk := findPdptEntry_logged h.toTableTree 0x400000
  have key : ∃ r' free', FreeRun K (do
      let pd ← Watched.findPdptEntry (p2v root) 0x400000
      if pd ≠ 0 then Watched.release K pteAddr pd (idx2 0x400000)) r r' free free'
      (userPages (entries r.mem) root) (pds (entries r.mem) root) (tables (entries r.mem) root) := by
    cases hup : upper (entries r.mem) root 0x400000 with
    | none =>
        have hnone : userPages (entries r.mem) root = [] := by
          unfold userPages leafEntry
          rw [hup]
          rfl
        rw [hup, Option.map_none, Option.getD_none] at hwalk
        rw [hnone]
        refine ⟨r, free, .refl h.freeList _, hwalk.bind ?_⟩
        rw [if_neg fun hn => hn rfl]
        exact .pure () r _
    | some q =>
        obtain ⟨t, w, u⟩ := q
        have htp := upper_mem_pds hup
        have htt := pds_subset_tables htp
        have htv := h.pd_valid htp
        have hby : releasedBy pteAddr (entries r.mem) t (idx2 0x400000) =
            userPages (entries r.mem) root := by
          unfold userPages leafEntry releasedBy
          rw [hup, Option.bind_some]
          split
          · rfl
          · rfl
        have hk : ∀ p ∈ releasedBy pteAddr (entries r.mem) t (idx2 0x400000),
            ValidPage K p ∧ p ∉ free ∧ p ≠ t := by
          rw [hby]
          exact fun p hp => ⟨hu.valid p hp, hu.used p hp, fun he => hu.apart p hp (he ▸ htt)⟩
        obtain ⟨r', free', hfr, -⟩ := releaseEntry_run h.freeList htv (h.used t htt)
          (idx2_lt 0x400000) htt hk
        rw [hby] at hfr
        rw [hup, Option.map_some, Option.getD_some] at hwalk
        have hclear := hfr.mono (fun p hp => Or.inr (List.mem_singleton.mp hp ▸ htp))
          fun _ ht => ht
        refine ⟨r', free', hclear.toFreed, ?_⟩
        rw [← List.nil_append (userPages (entries r.mem) root)]
        refine hwalk.bind ?_
        rw [if_pos htv.p2v_ne_zero]
        exact hclear.logged
  obtain ⟨r', free', hfr⟩ := key
  refine ⟨r', free', hfr.toFreed, ?_⟩
  unfold Watched.freePages
  rw [hrounds, freePagesLoop_once hstop, index2_eq, ← List.nil_append (userPages _ _),
    ← List.nil_append (userPages _ _)]
  exact (Logged.lift (assertMem_run hal 311 r) _).bind
    ((Logged.lift (assertMem_run hal' 312 r) _).bind hfr.logged)

/-- Distinct pages do not overlap. -/
theorem apart_of_ne {ps ts : List Nat} (hp : ∀ p ∈ ps, ValidPage K p)
    (ht : ∀ t ∈ ts, ValidPage K t) (hne : ∀ p ∈ ps, p ∉ ts) : Apart pageSize ps ts := by
  intro p hpm t htm
  have h1 := (hp p hpm).aligned
  have h2 := (ht t htm).aligned
  have h3 : p ≠ t := fun he => hne p hpm (he ▸ htm)
  rw [pageSize_eq] at *
  omega

/-- The pages that `free_vm` frees, in its order. -/
def vmPages (E : Entries) (root : Nat) : List Nat :=
  userPages E root ++ (pds E root ++ (kids E root ++ [root]))

theorem mem_vmPages {E : Entries} {p : Nat} :
    p ∈ vmPages E root ↔ p ∈ userPages E root ∨ p ∈ tables E root := by
  have hor : ∀ a b c : Prop, a ∨ b ∨ c ↔ c ∨ b ∨ a := fun a b c => by tauto
  unfold vmPages tables
  rw [List.mem_append, List.mem_append, List.mem_append, List.mem_singleton, List.mem_cons,
    List.mem_append, hor (p ∈ pds E root)]

theorem vmPages_perm (E : Entries) (root : Nat) :
    (vmPages E root).Perm (userPages E root ++ tables E root) := by
  refine List.Perm.append_left _ (List.perm_iff_count.mpr fun x => ?_)
  unfold tables
  simp only [List.count_append, List.count_cons, List.count_nil]
  omega

/-- The four passes of `free_vm`. -/
theorem freeVm_passes (h : MapTree K r free root) (hu : UserHeld K r free root) :
    ∃ r₁ r₂ r₃ r₄ free₁ free₂ free₃,
      FreeRun K (Watched.freePages K (p2v root) 0x400000 (0x400000 + pageSize)) r r₁ free free₁
        (userPages (entries r.mem) root) (pds (entries r.mem) root) (tables (entries r.mem) root) ∧
      FreeRun K (Watched.freePdt K (p2v root)) r₁ r₂ free₁ free₂ (pds (entries r.mem) root)
        (kids (entries r.mem) root) (root :: kids (entries r.mem) root) ∧
      FreeRun K (Watched.freePdpt K (p2v root)) r₂ r₃ free₂ free₃ (kids (entries r.mem) root)
        [root] [root] ∧
      FreeRun K (Watched.kfree K (p2v root)) r₃ r₄ free₃ (root :: free₃) [root] [] [] := by
  obtain ⟨r₁, free₁, hfr₁⟩ := freePages_run h hu
  have hroot := h.root_valid
  have hw := h.unshared
  have hP₁ : ∀ p ∈ userPages (entries r.mem) root ++ pds (entries r.mem) root, ValidPage K p := by
    intro p hp
    rcases List.mem_append.mp hp with hp | hp
    · exact hu.valid p hp
    · exact h.pd_valid hp
  have hsame₁ : ∀ t ∈ root :: kids (entries r.mem) root, ∀ i < 512,
      entries r₁.mem t i = entries r.mem t i := by
    intro t ht i hi
    have htt : t ∈ tables (entries r.mem) root := by
      rcases List.mem_cons.mp ht with he | ht
      · rw [he]
        exact root_mem_tables
      · exact kids_subset_tables ht
    refine hfr₁.entries_eq hP₁ (h.valid t htt) (fun hm => ?_) hi
    rcases List.mem_append.mp hm with hm | hm
    · exact hu.apart t hm htt
    · rcases List.mem_cons.mp ht with he | ht
      · rw [he] at hm
        exact hw.root_not_pd hm
      · exact hw.kid_not_pd ht hm
  have heroot := hsame₁ root List.mem_cons_self
  have hks : kidsOn (entries r₁.mem) root (List.range 512) = kids (entries r.mem) root := by
    rw [kidsOn_range]
    exact kids_congr heroot
  have hkeq : ∀ k ∈ kids (entries r.mem) root, kids (entries r₁.mem) k = kids (entries r.mem) k :=
    fun k hk => kids_congr (hsame₁ k (List.mem_cons_of_mem _ hk))
  have hflat : (kids (entries r.mem) root).flatMap (kids (entries r₁.mem)) =
      pds (entries r.mem) root := List.flatMap_congr hkeq
  have hvk : ∀ k ∈ kidsOn (entries r₁.mem) root (List.range 512), ValidPage K k ∧
      (∀ j < 512, present (entries r₁.mem k j) → entries r₁.mem k j < 2 ^ 52) ∧
      ∀ c ∈ kids (entries r₁.mem) k, ValidPage K c := by
    rw [hks]
    intro k hk
    refine ⟨h.kid_valid hk, fun j hj hp => ?_, ?_⟩
    · rw [hsame₁ k (List.mem_cons_of_mem _ hk) j hj] at hp ⊢
      exact h.kid_small hk hj hp
    · rw [hkeq k hk]
      exact fun c hc => h.pd_valid (mem_pds hk hc)
  have hsroot : ∀ i ∈ List.range 512, present (entries r₁.mem root i) →
      entries r₁.mem root i < 2 ^ 52 := by
    intro i hi hp
    have hi := List.mem_range.mp hi
    rw [heroot i hi] at hp ⊢
    exact h.root_small hi hp
  have hnd : (tables (entries r.mem) root ++ free₁).Nodup := by
    rw [List.nodup_append]
    refine ⟨hw, hfr₁.freeList.nodup, fun a ha b hb hab => ?_⟩
    rw [← hab] at hb
    rcases List.mem_append.mp (hfr₁.perm.mem_iff.mp hb) with hm | hm
    · exact hu.apart a hm ha
    · exact h.used a ha hm
  have hnd₁ : (root :: (kidsOn (entries r₁.mem) root (List.range 512) ++
      ((kidsOn (entries r₁.mem) root (List.range 512)).flatMap (kids (entries r₁.mem)) ++
        free₁))).Nodup := by
    rw [hks, hflat, ← List.append_assoc]
    exact hnd
  obtain ⟨r₂, free₂, hfr₂⟩ := freeDirs_run hroot (List.range 512) r₁ free₁ hfr₁.freeList
    (fun i hi => List.mem_range.mp hi) hsroot hvk hnd₁
  rw [hks, hflat] at hfr₂
  -- the page-directory-pointer tables
  have hroot₂ : ∀ i < 512, entries r₂.mem root i = entries r.mem root i := by
    intro i hi
    rw [← heroot i hi]
    refine hfr₂.entries_eq ?_ hroot ?_ hi
    · intro p hp
      rcases List.mem_append.mp hp with hp | hp
      · exact h.pd_valid hp
      · exact h.kid_valid hp
    · intro hm
      rcases List.mem_append.mp hm with hm | hm
      · exact hw.root_not_pd hm
      · exact hw.root_not_kid hm
  have hks₂ : kidsOn (entries r₂.mem) root (List.range 512) = kids (entries r.mem) root := by
    rw [kidsOn_range]
    exact kids_congr hroot₂
  have hnd₂ : (root :: (kids (entries r.mem) root ++ free₂)).Nodup := by
    have hp : (root :: (kids (entries r.mem) root ++ free₂)).Perm
        (tables (entries r.mem) root ++ free₁) := by
      unfold tables
      rw [List.cons_append, List.append_assoc]
      exact (hfr₂.perm.append_left _).cons root
    exact hp.nodup_iff.mpr hnd
  have hs₂ : ∀ i ∈ List.range 512, present (entries r₂.mem root i) →
      entries r₂.mem root i < 2 ^ 52 := by
    intro i hi hp
    have hi := List.mem_range.mp hi
    rw [hroot₂ i hi] at hp ⊢
    exact h.root_small hi hp
  obtain ⟨r₃, free₃, hfr₃⟩ := releaseEntries_run hroot (List.range 512) r₂ free₂ hfr₂.freeList
    (fun i hi => List.mem_range.mp hi) List.nodup_range hs₂
    (by rw [hks₂]; exact fun k hk => h.kid_valid hk) (by rw [hks₂]; exact hnd₂)
  rw [hks₂] at hfr₃
  have hrf : root ∉ free₃ := by
    intro hm
    exact (List.nodup_cons.mp hnd₂).1 (hfr₃.perm.mem_iff.mp hm)
  obtain ⟨r₄, hfr₄⟩ := kfree_logged hfr₃.freeList hroot hrf rfl []
  exact ⟨r₁, r₂, r₃, r₄, free₁, free₂, free₃, hfr₁, hfr₂, hfr₃, hfr₄⟩

/-- `free_vm` frees the user page and every table of the map, and reads none of them after it
    was freed. -/
theorem freeVm_frees (h : MapTree K r free root) (hu : UserHeld K r free root) :
    ∃ r' free' log, Watched.freeVm K (p2v root) [] r = .ok ((), log) r' ∧ Clean pageSize log ∧
      frees log = vmPages (entries r.mem) root ∧ freeVm K (p2v root) r = .ok () r' ∧
      Freed K r r' free free' (vmPages (entries r.mem) root) [] := by
  obtain ⟨r₁, r₂, r₃, r₄, free₁, free₂, free₃, hfr₁, hfr₂, hfr₃, hfr₄⟩ := freeVm_passes h hu
  have hroot := h.root_valid
  have hw := h.unshared
  have hall := hfr₁.toFreed.trans (hfr₂.toFreed.trans (hfr₃.toFreed.trans hfr₄.toFreed))
  have hpages : Freed K r r₄ free (root :: free₃) (vmPages (entries r.mem) root) [] := by
    refine hall.mono fun p hp => Or.inl (mem_vmPages.mpr (Or.inr ?_))
    rcases List.mem_append.mp hp with hp | hp
    · exact pds_subset_tables hp
    rcases List.mem_append.mp hp with hp | hp
    · exact kids_subset_tables hp
    · rw [List.append_nil, List.mem_singleton] at hp
      rw [hp]
      exact root_mem_tables
  -- no pass reads what an earlier one freed
  have hvk : ∀ t ∈ root :: kids (entries r.mem) root, ValidPage K t := by
    intro t ht
    rcases List.mem_cons.mp ht with he | ht
    · rw [he]
      exact hroot
    · exact h.kid_valid ht
  have hpd : ∀ p ∈ pds (entries r.mem) root, p ∉ root :: kids (entries r.mem) root := by
    intro p hp ht
    rcases List.mem_cons.mp ht with he | ht
    · rw [he] at hp
      exact hw.root_not_pd hp
    · exact hw.kid_not_pd ht hp
  have hclean₄ := hfr₄.logged.cleanRun fun _ _ _ ht => nomatch ht
  have hclean₃ := hfr₃.logged.cleanRun (apart_of_ne (fun p hp => h.kid_valid hp)
    (fun t ht => by rw [List.mem_singleton.mp ht]; exact hroot) fun p hp ht => by
      rw [List.mem_singleton.mp ht] at hp
      exact hw.root_not_kid hp)
  have hclean₂ := hfr₂.logged.cleanRun (apart_of_ne (fun p hp => h.pd_valid hp) hvk hpd)
  have hclean₁ := hfr₁.logged.cleanRun (apart_of_ne hu.valid h.valid hu.apart)
  have hlast : CleanRun pageSize (Watched.freePdpt K (p2v root) >>= fun _ =>
      Watched.kfree K (p2v root)) r₂ () r₄ ([root] ++ []) (kids (entries r.mem) root ++ [root]) :=
    hclean₃.bind hclean₄ fun _ _ _ ht => nomatch ht
  have hmid : CleanRun pageSize (Watched.freePdt K (p2v root) >>= fun _ =>
      Watched.freePdpt K (p2v root) >>= fun _ => Watched.kfree K (p2v root)) r₁ () r₄
      (root :: kids (entries r.mem) root ++ ([root] ++ []))
      (pds (entries r.mem) root ++ (kids (entries r.mem) root ++ [root])) := by
    refine hclean₂.bind hlast (apart_of_ne (fun p hp => h.pd_valid hp) ?_ ?_)
    · intro t ht
      rw [List.append_nil, List.mem_singleton] at ht
      rw [ht]
      exact hroot
    · intro p hp ht
      rw [List.append_nil, List.mem_singleton] at ht
      rw [ht] at hp
      exact hw.root_not_pd hp
  have hwhole : CleanRun pageSize (Watched.freeVm K (p2v root)) r () r₄
      (tables (entries r.mem) root ++ (root :: kids (entries r.mem) root ++ ([root] ++ [])))
      (vmPages (entries r.mem) root) := by
    have hread : ∀ t ∈ root :: kids (entries r.mem) root ++ ([root] ++ []),
        t ∈ root :: kids (entries r.mem) root := by
      intro t ht
      rcases List.mem_append.mp ht with ht | ht
      · exact ht
      · rw [List.append_nil, List.mem_singleton] at ht
        rw [ht]
        exact List.mem_cons_self
    refine hclean₁.bind hmid (apart_of_ne hu.valid (fun t ht => hvk t (hread t ht)) ?_)
    intro p hp ht
    refine hu.apart p hp ?_
    rcases List.mem_cons.mp (hread p ht) with he | ht
    · rw [he]
      exact root_mem_tables
    · exact kids_subset_tables ht
  obtain ⟨log, htouch, hclean, hrun⟩ := hwhole
  have hlogged : Logged pageSize (Watched.freeVm K (p2v root)) r () r₄ _ _ := ⟨log, htouch, hrun⟩
  exact ⟨r₄, _, log, hrun [], hclean, htouch.frees, hlogged.erase (Watched.freeVm_erases _), hpages⟩

/-- `free_vm` on a map as the kernel builds it, with its user page. -/
theorem freeVm_run (h : MapOk K r free root)
    (hwalk : walk (entries r.mem) root 0x400000 = some ⟨page, w, u⟩) (hv : ValidPage K page)
    (hpt : page ∉ tables (entries r.mem) root) (hpf : page ∉ free) :
    ∃ r' free', freeVm K (p2v root) r = .ok () r' ∧
      Freed K r r' free free' (page :: tables (entries r.mem) root) [] := by
  obtain ⟨t, w, u, hup, hpres, hphys⟩ := WfMap.entry h.wf (by decide) hwalk
  have hpte : pteAddr (entries r.mem t (idx2 0x400000)) = page := by
    have hsmall := h.small t (pds_subset_tables (upper_mem_pds hup)) _ (idx2_lt _) hpres
    dsimp only at hphys
    rw [hphys]
    unfold pteAddr
    rw [Nat.shiftRight_eq_div_pow, Nat.shiftLeft_eq]
    omega
  have hpages : userPages (entries r.mem) root = [page] := by
    unfold userPages leafEntry
    rw [hup, Option.bind_some, if_pos hpres, Option.map_some, hpte]
    rfl
  have hmem : ∀ p ∈ userPages (entries r.mem) root, p = page := by
    rw [hpages]
    exact fun p hp => List.mem_singleton.mp hp
  have hheld : UserHeld K r free root :=
    ⟨fun p hp => by rw [hmem p hp]; exact hv, fun p hp => by rw [hmem p hp]; exact hpt,
      fun p hp => by rw [hmem p hp]; exact hpf⟩
  obtain ⟨r', free', -, -, -, -, hrun, hfr⟩ := freeVm_frees h.tree hheld
  have hperm := vmPages_perm (entries r.mem) root
  rw [hpages] at hperm
  refine ⟨r', free', hrun, hfr.freeList, hfr.perm.trans (hperm.append_right free), ?_, hfr.region⟩
  refine hfr.mem.mono fun p hp => ?_
  rw [List.append_nil] at hp ⊢
  exact hperm.mem_iff.mp hp

end Map

end Os64
