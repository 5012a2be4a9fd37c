/-
  map_pages on any range of any map.

  * `findPdptEntry_grow`: the walk with allocation finds the directory of an address or hangs
    the tables that are missing, and maps nothing.
  * `mapPagesLoop_cases`: what one round does.
  * `mapRange_run`: the rounds for a range, as long as the test of the loop lets them go on.
  * `mapPages_range_iff`: `map_pages` maps its range, or a first part of it, exactly when the
    test does not overflow at the top of the address space.
-/
import Os64.Lib.Leaves
import Os64.Mem.Spaces

namespace Os64

open Os64.Lib

variable {K : Image}

section Grow

variable {r : Ram} {free : List Nat} {root attr v : Nat}

/-! ## Walking down with allocation -/

/-- The tree grew without mapping anything. -/
structure Extended (K : Image) (r r' : Ram) (free free' : List Nat) (root : Nat) : Prop
    extends Grown K r r' free free' root where
  leaf : ∀ va, leafEntry (entries r'.mem) root va = leafEntry (entries r.mem) root va

theorem Extended.refl (h : MapTree K r free root) : Extended K r r free free root :=
  ⟨.refl h, fun _ => rfl⟩

theorem Extended.trans {r' r'' : Ram} {free' free'' : List Nat}
    (h : Extended K r r' free free' root) (h' : Extended K r' r'' free' free'' root) :
    Extended K r r'' free free'' root :=
  ⟨h.toGrown.trans h'.toGrown, fun va => (h'.leaf va).trans (h.leaf va)⟩

/-- The first level: the table behind the root's entry, found or new. -/
theorem findPml4tEntry_grow (h : MapTree K r free root) (ha : attr < 4096) (hp : attr % 2 = 1)
    (v : Nat) :
    (¬ present (entries r.mem root (idx4 v)) ∧ free = [] ∧
        findPml4tEntry K (p2v root) v 1 attr r = .ok 0 r) ∨
      ∃ r' free', findPml4tEntry K (p2v root) v 1 attr r =
          .ok (p2v (frame (entries r'.mem root (idx4 v)))) r' ∧
        Extended K r r' free free' root ∧ present (entries r'.mem root (idx4 v)) ∧
        free.length = free'.length + (if present (entries r.mem root (idx4 v)) then 0 else 1) ∧
        (∀ va, upper (entries r'.mem) root va = upper (entries r.mem) root va) ∧
        ∀ j < 512, j ≠ idx4 v → entries r'.mem root j = entries r.mem root j := by
  by_cases h4 : present (entries r.mem root (idx4 v))
  · refine Or.inr ⟨r, free, findPml4tEntry_present h.toTableTree h4, .refl h, h4, ?_, fun _ => rfl,
      fun _ _ _ => rfl⟩
    rw [if_pos h4, Nat.add_zero]
  · have hfind := (findPml4tEntry_absent h.toTableTree h4 attr).2
    rcases hangTable_run h root_mem_tables (idx4_lt v) ha hp h4 with
      ⟨hnil, hrun⟩ | ⟨c, free', r', hcons, hrun, hfl, hc, hh, he, hm, hreg⟩
    · exact Or.inl ⟨h4, hnil, hfind.trans hrun⟩
    · obtain ⟨h1, h3, hlt⟩ := entry_frame hc.aligned hc.below ha hp
      have hg := grown_link4 h hcons hfl hc hh (he ▸ hlt) hm hreg
      refine Or.inr ⟨r', free', ?_, ⟨hg, hh.leafEntry_link4 h.unshared⟩, ?_, ?_,
        hh.upper_link4 h.unshared, fun j hj hne => ?_⟩
      · rw [hfind, hrun, he, h3]
      · rw [he]
        exact h1
      · rw [hcons, if_neg h4]
        rfl
      · exact hh.others root root_mem_tables j hj (Or.inr hne)

/-- `find_pdpt_entry` with allocation uses the missing tables, or fails if there are fewer
    free pages than that. -/
theorem findPdptEntry_grow (h : MapTree K r free root) (ha : attr < 4096) (hp : attr % 2 = 1)
    (v : Nat) :
    ∃ r' free', Extended K r r' free free' root ∧
      (free.length < missing (entries r.mem) root v 1 ∧
          findPdptEntry K (p2v root) v 1 attr r = .ok 0 r' ∨
        ∃ t w u, findPdptEntry K (p2v root) v 1 attr r = .ok (p2v t) r' ∧
          upper (entries r'.mem) root v = some (t, w, u) ∧
          free.length = free'.length + missing (entries r.mem) root v 1 ∧
          Opens (entries r.mem) (entries r'.mem) root v) := by
  rw [missing_one]
  rcases findPml4tEntry_grow h ha hp v with ⟨h4, hnil, hrun⟩ |
    ⟨r₁, free₁, hrun, hx, h4, hlen, hup₁, hother⟩
  · refine ⟨r, free, .refl h, Or.inl ⟨?_, findPdptEntry_none hrun⟩⟩
    rw [hnil, if_neg h4, List.length_nil]
    omega
  have hk := frame_mem_kids (idx4_lt v) h4
  have hv := hx.tree.kid_valid hk
  -- after the first level, an entry of the root is present if it was or if it is that of `v`
  have hentry : ∀ va, present (entries r₁.mem root (idx4 va)) ↔
      present (entries r.mem root (idx4 va)) ∨ idx4 va = idx4 v := by
    intro va
    by_cases heq : idx4 va = idx4 v
    · exact ⟨fun _ => Or.inr heq, fun _ => heq ▸ h4⟩
    · rw [hother _ (idx4_lt va) heq]
      exact ⟨Or.inl, fun hc => hc.resolve_right heq⟩
  by_cases h3 : present (entries r₁.mem (frame (entries r₁.mem root (idx4 v))) (idx3 v))
  · obtain ⟨p, hup⟩ : ∃ p, upper (entries r₁.mem) root v = some p := by
      unfold upper
      dsimp only
      rw [if_pos ⟨h4, h3⟩]
      exact ⟨_, rfl⟩
    have hfst : p.1 = frame (entries r₁.mem (frame (entries r₁.mem root (idx4 v))) (idx3 v)) := by
      unfold upper at hup
      dsimp only at hup
      rw [if_pos ⟨h4, h3⟩] at hup
      rw [← Option.some.inj hup]
    refine ⟨r₁, free₁, hx, Or.inr ⟨p.1, p.2.1, p.2.2, ?_, hup, ?_, ⟨hentry, fun va => ?_⟩⟩⟩
    · rw [hfst]
      exact findPdptEntry_present hrun hv h3 (hx.tree.kid_small hk (idx3_lt v) h3)
    · have hno : ¬ upper (entries r.mem) root v = none := by
        rw [← hup₁ v, hup]
        exact nofun
      rw [if_neg hno, Nat.add_zero]
      exact hlen
    · rw [hup₁ va]
      refine ⟨fun hn => ⟨hn, fun heq => ?_⟩, And.left⟩
      have hsame : upper (entries r₁.mem) root va = upper (entries r₁.mem) root v := by
        unfold upper
        rw [heq.1, heq.2]
      rw [← hup₁ va, hsame, hup] at hn
      cases hn
  have hno : upper (entries r.mem) root v = none := by
    rw [← hup₁ v]
    unfold upper
    dsimp only
    rw [if_neg fun hc => h3 hc.2]
  rw [if_pos hno]
  have hfind := findPdptEntry_absent hrun hv h3
  rw [if_pos rfl] at hfind
  rcases hangTable_run hx.tree (kids_subset_tables hk) (idx3_lt v) ha hp h3 with
    ⟨hnil, hrun'⟩ | ⟨c, free', r', hcons, hrun', hfl, hc, hh, he, hm, hreg⟩
  · refine ⟨r₁, free₁, hx, Or.inl ⟨?_, hfind.trans hrun'⟩⟩
    rw [hlen, hnil, List.length_nil]
    omega
  · obtain ⟨-, -, hlt⟩ := entry_frame hc.aligned hc.below ha hp
    have hg := grown_link3 hx.tree hk hcons hfl hc hh (he ▸ hlt) hm hreg
    have hlink := hh.upper_link3 hx.tree.unshared hk h4 rfl rfl
    obtain ⟨w, u, hup⟩ := (hlink v).1 ⟨rfl, rfl⟩
    have hroot : ∀ j < 512, entries r'.mem root j = entries r₁.mem root j := fun j hj =>
      hh.others root root_mem_tables j hj (Or.inl (hx.tree.unshared.kid_ne_root hk).symm)
    refine ⟨r', free', hx.trans ⟨hg, hh.leafEntry_link3 hx.tree.unshared hk h4 rfl rfl⟩,
      Or.inr ⟨c, w, u, hfind.trans hrun', hup, ?_, ⟨fun va => ?_, fun va => ?_⟩⟩⟩
    · rw [hlen, hcons, List.length_cons]
      omega
    · rw [hroot _ (idx4_lt va)]
      exact hentry va
    · by_cases heq : idx4 va = idx4 v ∧ idx3 va = idx3 v
      · obtain ⟨w', u', hup'⟩ := (hlink va).1 heq
        rw [hup']
        exact ⟨nofun, fun hc => absurd heq hc.2⟩
      · rw [(hlink va).2 heq, hup₁ va]
        exact ⟨fun hn => ⟨hn, heq⟩, And.left⟩

/-! ## One round -/

/-- The entry that `map_pages` stores for page `i` of a range. -/
def rangeEntry (pa attr i : Nat) : Nat := u64 (pa + i * pageSize) ||| attr ||| pteEntry

theorem rangeEntry_lt (ha : attr < 4096) (pa i : Nat) : rangeEntry pa attr i < 2 ^ 64 := by
  have hpa : u64 (pa + i * pageSize) < 2 ^ 64 := Nat.mod_lt _ (by decide)
  exact Nat.or_lt_two_pow (Nat.or_lt_two_pow hpa (by omega)) (by decide)

theorem rangeEntry_present {pa i : Nat} (hp : attr % 2 = 1) : present (rangeEntry pa attr i) := by
  have hbit : (rangeEntry pa attr i).testBit 0 = true := by
    unfold rangeEntry
    rw [Nat.testBit_or, Nat.testBit_or, Nat.testBit_zero attr, decide_eq_true hp, Bool.or_true,
      Bool.true_or]
  rw [Nat.testBit_zero] at hbit
  exact of_decide_eq_true hbit

/-- Where the entry sends the page, and with which bits. -/
theorem rangeEntry_eq {pa : Nat} (hpa : pa % pageSize = 0) (i : Nat) (ha : attr < 4096) :
    pteAddr (rangeEntry pa attr i) = u64 (pa + i * pageSize) ∧
      rangeEntry pa attr i % pageSize = attr ||| pteEntry := by
  have hlow : attr ||| pteEntry < 4096 := Nat.or_lt_two_pow (n := 12) ha (by decide)
  have hal : u64 (pa + i * pageSize) % pageSize = 0 := by
    unfold u64
    rw [pageSize_eq] at *
    omega
  have he : rangeEntry pa attr i = u64 (pa + i * pageSize) + (attr ||| pteEntry) := by
    unfold rangeEntry
    rw [Nat.or_assoc, or_attr hal hlow]
  rw [he]
  unfold pteAddr
  rw [Nat.shiftRight_eq_div_pow, Nat.shiftLeft_eq]
  rw [pageSize_eq] at *
  omega

/-- What the loop of `map_pages` does after a round; its arguments are not yet reduced. -/
def mapNext (K : Image) (map vend attr fuel v pa : Nat) : RamM Bool :=
  if u64 (u64 v + pageSize) ≤ vend then mapPagesLoop K map vend attr fuel (u64 v) (u64 pa)
  else return true

/-- One page was mapped at `v`, with entry `x`. -/
structure PageMapped (K : Image) (r r' : Ram) (free free' : List Nat) (root v x : Nat) : Prop
    extends Grown K r r' free free' root where
  cost : free.length = free'.length + missing (entries r.mem) root v 1
  opens : Opens (entries r.mem) (entries r'.mem) root v
  here : ∀ va, idx4 va = idx4 v ∧ idx3 va = idx3 v ∧ idx2 va = idx2 v →
    leafEntry (entries r'.mem) root va = some x
  rest : ∀ va, ¬ (idx4 va = idx4 v ∧ idx3 va = idx3 v ∧ idx2 va = idx2 v) →
    leafEntry (entries r'.mem) root va = leafEntry (entries r.mem) root va

theorem PageMapped.cost_le {r' : Ram} {free' : List Nat} {x : Nat}
    (h : PageMapped K r r' free free' root v x) : missing (entries r.mem) root v 1 ≤ free.length :=
  h.cost ▸ Nat.le_add_left _ _

/-- A round ends for want of a table, at a page that is mapped, or with a new page. -/
theorem mapPagesLoop_cases (h : MapTree K r free root) (ha : attr < 4096) (hp : attr % 2 = 1)
    (v pa : Nat) (hpa : pa < 2 ^ 64) (vend fuel : Nat) :
    (free.length < missing (entries r.mem) root v 1 ∧ ∃ r' free', Extended K r r' free free' root ∧
        mapPagesLoop K (p2v root) vend attr (fuel + 1) v pa r = .ok false r') ∨
      (missing (entries r.mem) root v 1 ≤ free.length ∧
        leafEntry (entries r.mem) root v ≠ none ∧
        ∃ e r', mapPagesLoop K (p2v root) vend attr (fuel + 1) v pa r = .error e r') ∨
      leafEntry (entries r.mem) root v = none ∧ ∃ r' free',
        PageMapped K r r' free free' root v (rangeEntry pa attr 0) ∧
        mapPagesLoop K (p2v root) vend attr (fuel + 1) v pa r =
          mapNext K (p2v root) vend attr fuel (v + pageSize) (pa + pageSize) r' := by
  obtain ⟨r₁, free₁, hx, ⟨hlen, hrun⟩ | ⟨t, w, u, hrun, hup, hlen, ho⟩⟩ :=
    findPdptEntry_grow h ha hp v
  · exact Or.inl ⟨hlen, r₁, free₁, hx, mapPagesLoop_full hrun⟩
  have htp := upper_mem_pds hup
  have htv := hx.tree.pd_valid htp
  have hleaf : leafEntry (entries r.mem) root v =
      if present (entries r₁.mem t (idx2 v)) then some (entries r₁.mem t (idx2 v)) else none := by
    rw [← hx.leaf v]
    unfold leafEntry
    rw [hup, Option.bind_some]
  have hentry : pa ||| attr ||| pteEntry = rangeEntry pa attr 0 := by
    unfold rangeEntry u64
    rw [Nat.zero_mul, Nat.add_zero, Nat.mod_eq_of_lt hpa]
  by_cases hpr : present (entries r₁.mem t (idx2 v))
  · -- the page is mapped: the assertion fails
    refine Or.inr (Or.inl ⟨by omega, ?_, .assertion "memory.c" 215, r₁, ?_⟩)
    · rw [hleaf, if_pos hpr]
      exact nofun
    · unfold mapPagesLoop
      rw [bind_run hrun, if_neg htv.p2v_ne_zero, index2_eq, bind_run (kload_entry htv (idx2_lt v) r₁)]
      refine bind_error.mpr (Or.inl ?_)
      exact ensure_error.mpr ⟨(present_iff _).mpr hpr, rfl, rfl⟩
  · obtain ⟨hs, hself, -, hg⟩ := hx.tree.setEntry htp (idx2_lt v) (rangeEntry_lt ha pa 0)
    have hzero : entries r₁.mem t (idx2 v) &&& pteP = 0 := by
      by_contra hne
      exact hpr ((present_iff _).mp hne)
    refine Or.inr (Or.inr ⟨by rw [hleaf, if_neg hpr], _, free₁, ⟨hx.toGrown.trans hg, hlen,
      ho.setEntry hs hx.tree.unshared, fun va heq => ?_, fun va hne => ?_⟩, ?_⟩)
    · rw [hs.leafEntry_same hx.tree.unshared hup rfl heq, hself, if_pos (rangeEntry_present hp)]
    · rw [hs.leafEntry_other hx.tree.unshared hup rfl hne, hx.leaf va]
    · conv => lhs; unfold mapPagesLoop
      rw [bind_run hrun, if_neg htv.p2v_ne_zero, index2_eq, hentry]
      rw [bind_run (kload_entry htv (idx2_lt v) r₁), bind_run (assertMem_run hzero 215 r₁),
        bind_run (kstore_entry htv (idx2_lt v) r₁ _)]
      unfold mapNext
      split
      · rfl
      · rfl

/-! ## A range -/

/-- The first `n` pages of a range at `v` are mapped, page `i` to `pa + i * PAGE_SIZE` with the
    bits of `attr`, and every other canonical address translates as before. -/
def Laid (E E' : Entries) (root v pa attr n : Nat) : Prop :=
  ∀ va, canonical va → leafEntry E' root va =
    if v ≤ va ∧ va < v + n * pageSize then some (rangeEntry pa attr ((va - v) / pageSize))
    else leafEntry E root va

theorem Laid.zero {E E' : Entries} {pa : Nat}
    (h : ∀ va, leafEntry E' root va = leafEntry E root va) : Laid E E' root v pa attr 0 := by
  intro va _
  rw [h va, if_neg]
  omega

theorem rangeEntry_succ (pa attr i : Nat) :
    rangeEntry (u64 (pa + pageSize)) attr i = rangeEntry pa attr (i + 1) := by
  have hsum : u64 (u64 (pa + pageSize) + i * pageSize) = u64 (pa + (i + 1) * pageSize) := by
    unfold u64
    rw [Nat.mod_add_mod, Nat.add_assoc, Nat.succ_mul, Nat.add_comm pageSize]
  unfold rangeEntry
  rw [hsum]

/-- A page, then the pages after it. -/
theorem PageMapped.laid {r₁ r' : Ram} {free₁ : List Nat} {pa n : Nat}
    (h : PageMapped K r r₁ free free₁ root v (rangeEntry pa attr 0)) (hc : canonical v)
    (hv : v % pageSize = 0)
    (hl : Laid (entries r₁.mem) (entries r'.mem) root (v + pageSize) (u64 (pa + pageSize)) attr n) :
    Laid (entries r.mem) (entries r'.mem) root v pa attr (n + 1) := by
  intro va hva
  rw [hl va hva]
  have hmul : (n + 1) * pageSize = pageSize + n * pageSize := by ring
  by_cases hin : v + pageSize ≤ va ∧ va < v + pageSize + n * pageSize
  · have hi : (va - v) / pageSize = (va - (v + pageSize)) / pageSize + 1 := by
      rw [pageSize_eq] at *
      omega
    rw [if_pos hin, if_pos ⟨by omega, by omega⟩, rangeEntry_succ, hi]
  rw [if_neg hin]
  by_cases hpage : v ≤ va ∧ va < v + pageSize
  · have hsame : va / 2 ^ 21 = v / 2 ^ 21 := by
      rw [pageSize_eq] at *
      omega
    have hi : (va - v) / pageSize = 0 := Nat.div_eq_of_lt (by omega)
    rw [if_pos ⟨hpage.1, by omega⟩, hi]
    exact h.here va ((same_page_iff hva hc).mpr hsame)
  · have hdiff : ¬ va / 2 ^ 21 = v / 2 ^ 21 := by
      rw [pageSize_eq] at *
      omega
    rw [if_neg (by omega)]
    exact h.rest va fun heq => hdiff ((same_page_iff hva hc).mp heq)

theorem u64_u64_add (a b : Nat) : u64 (u64 a + b) = u64 (a + b) := Nat.mod_add_mod a _ b

/-- The rounds for `n + 1` pages from `v`, whose tests all let the loop go on. -/
theorem mapRange_run (ha : attr < 4096) (hp : attr % 2 = 1) (vend fuel : Nat) :
    ∀ (n v pa : Nat) (r : Ram) (free : List Nat), MapTree K r free root → v % pageSize = 0 →
      v + (n + 1) * pageSize ≤ 2 ^ 64 →
      (∀ x, v ≤ x → x < v + (n + 1) * pageSize → canonical x) → pa < 2 ^ 64 →
      (∀ x, v ≤ x → x < v + (n + 1) * pageSize → leafEntry (entries r.mem) root x = none) →
      (∀ j < n, u64 (v + (j + 1) * pageSize + pageSize) ≤ vend) →
      (free.length < missing (entries r.mem) root v (n + 1) ∧ ∃ k r' free', k ≤ n ∧
          mapPagesLoop K (p2v root) vend attr (fuel + n + 1) v pa r = .ok false r' ∧
          MapTree K r' free' root ∧ Laid (entries r.mem) (entries r'.mem) root v pa attr k) ∨
        missing (entries r.mem) root v (n + 1) ≤ free.length ∧ ∃ q r' free', q < 2 ^ 64 ∧
          MapTree K r' free' root ∧ Laid (entries r.mem) (entries r'.mem) root v pa attr (n + 1) ∧
          mapPagesLoop K (p2v root) vend attr (fuel + n + 1) v pa r =
            mapNext K (p2v root) vend attr fuel (v + (n + 1) * pageSize) q r' := by
  intro n
  induction n with
  | zero =>
      intro v pa r free h hv hend hc hpa hno _
      have hpos : 0 < pageSize := by rw [pageSize_eq]; omega
      have hcv := hc v (Nat.le_refl v) (by omega)
      rcases mapPagesLoop_cases h ha hp v pa hpa vend fuel with
        ⟨hlen, r', free', hx, hrun⟩ | ⟨-, hne, -⟩ | ⟨-, r', free', hm, hrun⟩
      · exact Or.inl ⟨hlen, 0, r', free', Nat.le_refl 0, hrun, hx.tree, .zero hx.leaf⟩
      · exact absurd (hno v (Nat.le_refl v) (by omega)) hne
      · refine Or.inr ⟨hm.cost_le, u64 (pa + pageSize), r', free', Nat.mod_lt _ (by decide), hm.tree,
          hm.laid hcv hv (.zero fun _ => rfl), ?_⟩
        rw [Nat.zero_add, Nat.one_mul, Nat.add_zero, hrun]
        unfold mapNext
        rw [show u64 (u64 (pa + pageSize)) = u64 (pa + pageSize) from Nat.mod_mod _ _]
  | succ n ih =>
      intro v pa r free h hv hend hc hpa hno htest
      have hpos : 0 < pageSize := by rw [pageSize_eq]; omega
      have hmul : (n + 1 + 1) * pageSize = pageSize + (n + 1) * pageSize := by ring
      have hmul1 : (n + 1) * pageSize = pageSize + n * pageSize := by ring
      have hcv := hc v (Nat.le_refl v) (by omega)
      rcases mapPagesLoop_cases h ha hp v pa hpa vend (fuel + n + 1) with
        ⟨hlen, r', free', hx, hrun⟩ | ⟨-, hne, -⟩ | ⟨-, r₁, free₁, hm, hrun⟩
      · have hle : missing (entries r.mem) root v 1 ≤ missing (entries r.mem) root v (n + 1 + 1) :=
          missing_mono _ root v (by omega)
        exact Or.inl ⟨Nat.lt_of_lt_of_le hlen hle, 0, r', free', Nat.zero_le _, hrun, hx.tree,
          .zero hx.leaf⟩
      · exact absurd (hno v (Nat.le_refl v) (by omega)) hne
      have hsplit : missing (entries r.mem) root v (n + 1 + 1) = missing (entries r.mem) root v 1 +
          missing (entries r₁.mem) root (v + pageSize) (n + 1) := missing_succ hm.opens (n + 1)
      have hcost : free.length = missing (entries r.mem) root v 1 + free₁.length :=
        hm.cost.trans (Nat.add_comm _ _)
      have hv1 : u64 (v + pageSize) = v + pageSize := Nat.mod_eq_of_lt (by omega)
      have hgo : mapPagesLoop K (p2v root) vend attr (fuel + (n + 1) + 1) v pa r =
          mapPagesLoop K (p2v root) vend attr (fuel + n + 1) (v + pageSize)
            (u64 (pa + pageSize)) r₁ := by
        have ht := htest 0 (Nat.succ_pos n)
        rw [Nat.zero_add, Nat.one_mul] at ht
        rw [show fuel + (n + 1) + 1 = fuel + n + 1 + 1 by omega, hrun]
        unfold mapNext
        rw [u64_u64_add, if_pos ht, hv1]
      have hno₁ : ∀ x, v + pageSize ≤ x → x < v + pageSize + (n + 1) * pageSize →
          leafEntry (entries r₁.mem) root x = none := by
        intro x h1 h2
        rw [hm.rest x fun heq => ?_, hno x (by omega) (by omega)]
        have hsame := (same_page_iff (hc x (by omega) (by omega)) hcv).mp heq
        rw [pageSize_eq] at *
        omega
      have htest₁ : ∀ j < n, u64 (v + pageSize + (j + 1) * pageSize + pageSize) ≤ vend := by
        intro j hj
        have := htest (j + 1) (by omega)
        rwa [show v + (j + 1 + 1) * pageSize + pageSize =
          v + pageSize + (j + 1) * pageSize + pageSize by ring] at this
      rw [hgo]
      rcases ih (v + pageSize) (u64 (pa + pageSize)) r₁ free₁ hm.tree
        (by rw [Nat.add_mod_right]; exact hv) (by omega) (fun x h1 h2 => hc x (by omega) (by omega))
        (Nat.mod_lt _ (by decide)) hno₁ htest₁ with
        ⟨hlen, k, r', free', hk, hrun', ht, hl⟩ | ⟨hlen, q, r', free', hq, ht, hl, hrun'⟩
      · refine Or.inl ⟨?_, k + 1, r', free', by omega, hrun', ht, hm.laid hcv hv hl⟩
        rw [hsplit, hcost]
        exact Nat.add_lt_add_left hlen _
      · refine Or.inr ⟨?_, q, r', free', hq, ht, hm.laid hcv hv hl, ?_⟩
        · rw [hsplit, hcost]
          exact Nat.add_le_add_left hlen _
        · rw [hrun', hmul, Nat.add_assoc v]

/-! ## The end of the loop -/

/-- Whatever the loop maps, what was mapped stays. -/
theorem mapPagesLoop_keeps (ha : attr < 4096) (hp : attr % 2 = 1) {vend : Nat} :
    ∀ (fuel v pa : Nat) (r : Ram) (free : List Nat), MapTree K r free root → pa < 2 ^ 64 →
      ∀ b r', mapPagesLoop K (p2v root) vend attr fuel v pa r = .ok b r' →
        (∃ free', Grown K r r' free free' root) ∧
        ∀ va, leafEntry (entries r.mem) root va ≠ none →
          leafEntry (entries r'.mem) root va = leafEntry (entries r.mem) root va := by
  intro fuel
  induction fuel with
  | zero => exact fun v pa r free _ _ b r' hrun => nomatch hrun
  | succ fuel ih =>
      intro v pa r free h hpa b r' hrun
      rcases mapPagesLoop_cases h ha hp v pa hpa vend fuel with
        ⟨-, r₁, free₁, hx, hrun₁⟩ | ⟨-, -, e, r₁, hrun₁⟩ | ⟨hno, r₁, free₁, hm, hrun₁⟩
      · rw [hrun₁] at hrun
        obtain ⟨-, rfl⟩ := EStateM.Result.ok.inj hrun
        exact ⟨⟨free₁, hx.toGrown⟩, fun va _ => hx.leaf va⟩
      · rw [hrun₁] at hrun
        cases hrun
      have hkeep : ∀ va, leafEntry (entries r.mem) root va ≠ none →
          leafEntry (entries r₁.mem) root va = leafEntry (entries r.mem) root va := by
        intro va hva
        refine hm.rest va fun heq => hva ?_
        rw [leafEntry_eq_of_idx heq]
        exact hno
      rw [hrun₁] at hrun
      unfold mapNext at hrun
      split at hrun
      · obtain ⟨⟨free', hg⟩, hk⟩ := ih _ _ r₁ free₁ hm.tree (Nat.mod_lt _ (by decide)) b r' hrun
        refine ⟨⟨free', hm.toGrown.trans hg⟩, fun va hva => ?_⟩
        rw [hk va (by rw [hkeep va hva]; exact hva), hkeep va hva]
      · obtain ⟨-, rfl⟩ := EStateM.Result.ok.inj hrun
        exact ⟨⟨free₁, hm.toGrown⟩, hkeep⟩

end Grow

/-! ## map_pages -/

/-- `PA_UP` without the wrap-around of 64-bit addresses. -/
def pageTop (e : Nat) : Nat := (e + pageSize - 1) / pageSize * pageSize

/-- The pages that a range touches. -/
def pageCount (v e : Nat) : Nat := (pageTop e - paDown v) / pageSize

theorem paDown_eq (v : Nat) : paDown v = v / pageSize * pageSize := by
  unfold paDown
  rw [Nat.shiftRight_eq_div_pow, Nat.shiftLeft_eq]
  rfl

theorem paUp_top (e : Nat) : paUp e = u64 (pageTop e) := by
  unfold paUp pageTop u64
  rw [Nat.shiftRight_eq_div_pow, Nat.shiftLeft_eq]
  rw [pageSize_eq]
  omega

/-- A call of `map_pages` for a range that is not mapped yet. -/
structure MapCall (r : Ram) (root v e pa attr : Nat) : Prop where
  lt : v < e
  bound : e < 2 ^ 64
  canonical : ∀ x, v ≤ x → x < e → canonical x
  aligned : pa % pageSize = 0
  pa_lt : pa < 2 ^ 64
  fits : u64 (pa + paUp e + (2 ^ 64 - paDown v)) ≤ 1024 * 1024 * 1024
  attr_lt : attr < 4096
  attr_present : attr % 2 = 1
  unmapped : ∀ x, paDown v ≤ x → x < pageTop e → leafEntry (entries r.mem) root x = none

/-- `map_pages` returns: with `true` after mapping every page of the range, with `false` after
    mapping a first part of it; no other translation changes. -/
def RangeMapped (K : Image) (r : Ram) (root v e pa attr : Nat) : Prop :=
  ∃ b r', mapPages K (p2v root) v e pa attr r = .ok b r' ∧
    (b = true → Laid (entries r.mem) (entries r'.mem) root (paDown v) pa attr (pageCount v e)) ∧
    (b = false → ∃ k ≤ pageCount v e, Laid (entries r.mem) (entries r'.mem) root (paDown v) pa attr k)

section Call

variable {r : Ram} {free : List Nat} {root v e pa attr : Nat}

/-- The range in whole pages. -/
theorem MapCall.pages (h : MapCall r root v e pa attr) :
    paDown v % pageSize = 0 ∧ 0 < pageCount v e ∧
      paDown v + pageCount v e * pageSize = pageTop e ∧ pageTop e ≤ 2 ^ 64 := by
  have h1 := h.lt
  have h2 := h.bound
  unfold pageCount
  rw [paDown_eq]
  unfold pageTop
  rw [pageSize_eq]
  omega

/-- Every address of these pages is canonical. -/
theorem MapCall.canonical_page (h : MapCall r root v e pa attr) {x : Nat} (h1 : paDown v ≤ x)
    (h2 : x < pageTop e) : Lib.canonical x := by
  have hv := h.canonical v (Nat.le_refl v) h.lt
  have he := h.canonical (e - 1) (by have := h.lt; omega) (by have := h.lt; omega)
  have hx := h.canonical x
  have hlt := h.lt
  rw [paDown_eq] at h1
  unfold pageTop at h2
  unfold Lib.canonical at *
  rw [pageSize_eq] at *
  by_cases hlo : x < v
  · omega
  · by_cases hhi : x < e
    · exact hx (by omega) hhi
    · omega

/-- Past its assertions `map_pages` is its loop. -/
theorem MapCall.loop (h : MapCall r root v e pa attr) (map : Nat) :
    mapPages K map v e pa attr r = mapPagesLoop K map (paUp e) attr rounds (paDown v) pa r := by
  unfold mapPages
  rw [bind_run (assertMem_run h.lt 196 r), bind_run (assertMem_run h.aligned 198 r),
    bind_run (assertMem_run h.fits 200 r)]

/-- The first `n + 1` pages of the range, whose tests all let the loop go on. -/
theorem MapCall.run (h : MapCall r root v e pa attr) (ht : MapTree K r free root) {n : Nat}
    (hn : n < pageCount v e)
    (htest : ∀ j < n, u64 (paDown v + (j + 1) * pageSize + pageSize) ≤ paUp e) :
    ∃ fuel, fuel + n + 1 = rounds ∧
      ((free.length < missing (entries r.mem) root (paDown v) (n + 1) ∧ ∃ k r' free', k ≤ n ∧
          mapPages K (p2v root) v e pa attr r = .ok false r' ∧ MapTree K r' free' root ∧
          Laid (entries r.mem) (entries r'.mem) root (paDown v) pa attr k) ∨
        missing (entries r.mem) root (paDown v) (n + 1) ≤ free.length ∧ ∃ q r' free', q < 2 ^ 64 ∧
          MapTree K r' free' root ∧
          Laid (entries r.mem) (entries r'.mem) root (paDown v) pa attr (n + 1) ∧
          mapPages K (p2v root) v e pa attr r =
            mapNext K (p2v root) (paUp e) attr fuel (paDown v + (n + 1) * pageSize) q r') := by
  obtain ⟨hal, -, htop, hle⟩ := h.pages
  have hmul : (n + 1) * pageSize ≤ pageCount v e * pageSize := Nat.mul_le_mul_right _ hn
  have hfuel : n + 1 ≤ rounds := by
    unfold rounds
    rw [pageSize_eq] at hmul htop
    omega
  refine ⟨rounds - (n + 1), by omega, ?_⟩
  rw [h.loop]
  have hrun := mapRange_run h.attr_lt h.attr_present (paUp e) (rounds - (n + 1)) n
    (paDown v) pa r free ht hal (by omega) (fun x h1 h2 => h.canonical_page h1 (by omega)) h.pa_lt
    (fun x h1 h2 => h.unmapped x h1 (by omega)) htest
  rw [show rounds - (n + 1) + n + 1 = rounds by omega] at hrun
  exact hrun

/-- A range that ends two pages below the top of the address space. -/
theorem MapCall.inside (h : MapCall r root v e pa attr) (ht : MapTree K r free root)
    (hend : pageTop e + 2 * pageSize ≤ 2 ^ 64) : RangeMapped K r root v e pa attr := by
  obtain ⟨-, hpos, htop, -⟩ := h.pages
  have hpage : 0 < pageSize := by rw [pageSize_eq]; omega
  have hup : paUp e = pageTop e := (paUp_top e).trans (Nat.mod_eq_of_lt (by omega))
  obtain ⟨n, hn⟩ : ∃ n, pageCount v e = n + 1 := ⟨pageCount v e - 1, by omega⟩
  have htest : ∀ j < n, u64 (paDown v + (j + 1) * pageSize + pageSize) ≤ paUp e := by
    intro j hj
    have hmul : (j + 2) * pageSize ≤ (n + 1) * pageSize := Nat.mul_le_mul_right _ (by omega)
    have hsucc : (j + 2) * pageSize = (j + 1) * pageSize + pageSize := by ring
    rw [hup, ← htop, hn]
    exact (Nat.mod_le _ _).trans (by omega)
  obtain ⟨fuel, -, ⟨-, k, r', free', hk, hrun, -, hl⟩ | ⟨-, q, r', free', -, -, hl, hrun⟩⟩ :=
    h.run ht (n := n) (by omega) htest
  · exact ⟨false, r', hrun, nofun, fun _ => ⟨k, by omega, hl⟩⟩
  · refine ⟨true, r', ?_, fun _ => by rw [hn]; exact hl, nofun⟩
    rw [hrun, ← hn, htop]
    unfold mapNext
    rw [if_neg]
    · rfl
    · rw [u64_u64_add, hup]
      unfold u64
      rw [Nat.mod_eq_of_lt (by omega)]
      omega

/-- At the very top `PA_UP` is 0, and two pages are all that the loop can map. -/
theorem MapCall.topmost (h : MapCall r root v e pa attr) (ht : MapTree K r free root)
    (hend : pageTop e = 2 ^ 64) (hcount : pageCount v e ≤ 2) : RangeMapped K r root v e pa attr := by
  obtain ⟨-, hpos, htop, -⟩ := h.pages
  have hup : paUp e = 0 := by
    rw [paUp_top, hend]
    rfl
  obtain ⟨n, hn⟩ : ∃ n, pageCount v e = n + 1 := ⟨pageCount v e - 1, by omega⟩
  have htest : ∀ j < n, u64 (paDown v + (j + 1) * pageSize + pageSize) ≤ paUp e := by
    intro j hj
    obtain rfl : j = 0 := by omega
    obtain rfl : n = 1 := by omega
    have hsum : paDown v + (0 + 1) * pageSize + pageSize = 2 ^ 64 := by
      rw [← hend, ← htop, hn]
      ring
    rw [hsum]
    exact Nat.zero_le _
  obtain ⟨fuel, -, ⟨-, k, r', free', hk, hrun, -, hl⟩ | ⟨-, q, r', free', -, -, hl, hrun⟩⟩ :=
    h.run ht (n := n) (by omega) htest
  · exact ⟨false, r', hrun, nofun, fun _ => ⟨k, by omega, hl⟩⟩
  · refine ⟨true, r', ?_, fun _ => by rw [hn]; exact hl, nofun⟩
    rw [hrun, ← hn, htop, hend]
    unfold mapNext
    rw [if_neg]
    · rfl
    · rw [u64_u64_add, hup]
      unfold u64
      rw [pageSize_eq]
      omega

/-- From three pages on, the loop leaves after the first one. -/
theorem MapCall.leaves (h : MapCall r root v e pa attr) (ht : MapTree K r free root)
    (hend : pageTop e = 2 ^ 64) (hcount : 2 < pageCount v e)
    (hlen : missing (entries r.mem) root (paDown v) 1 ≤ free.length) :
    ∃ r', mapPages K (p2v root) v e pa attr r = .ok true r' ∧
      Laid (entries r.mem) (entries r'.mem) root (paDown v) pa attr 1 := by
  obtain ⟨hal, hpos, htop, -⟩ := h.pages
  have hup : paUp e = 0 := by
    rw [paUp_top, hend]
    rfl
  have hpage : 0 < pageSize := by rw [pageSize_eq]; omega
  have hmul : 3 * pageSize ≤ pageCount v e * pageSize := Nat.mul_le_mul_right _ hcount
  obtain ⟨fuel, -, ⟨hlt, -⟩ | ⟨-, q, r', free', -, -, hl, hrun⟩⟩ :=
    h.run ht (n := 0) hpos fun j hj => absurd hj (Nat.not_lt_zero j)
  · exact absurd hlt (Nat.not_lt.mpr hlen)
  · refine ⟨r', hrun.trans ?_, hl⟩
    unfold mapNext
    rw [if_neg]
    · rfl
    · rw [u64_u64_add, hup]
      unfold u64
      rw [Nat.mod_eq_of_lt (by omega)]
      omega

/-- The second page of such a range stays unmapped. -/
theorem MapCall.second (h : MapCall r root v e pa attr) {r' : Ram} (hend : pageTop e = 2 ^ 64)
    (hcount : 2 < pageCount v e)
    (hl : Laid (entries r.mem) (entries r'.mem) root (paDown v) pa attr 1) :
    Lib.canonical (paDown v + pageSize) ∧ leafEntry (entries r'.mem) root (paDown v + pageSize) = none := by
  obtain ⟨-, -, htop, -⟩ := h.pages
  have hpage : 0 < pageSize := by rw [pageSize_eq]; omega
  have hmul : 3 * pageSize ≤ pageCount v e * pageSize := Nat.mul_le_mul_right _ hcount
  have hcan : Lib.canonical (paDown v + pageSize) := h.canonical_page (by omega) (by omega)
  refine ⟨hcan, ?_⟩
  rw [hl _ hcan, if_neg (by omega)]
  exact h.unmapped _ (by omega) (by omega)

/-- On such a range `map_pages` does what it should when even the first page lacks memory. -/
theorem MapCall.cut (h : MapCall r root v e pa attr) (ht : MapTree K r free root)
    (hend : pageTop e = 2 ^ 64) (hcount : 2 < pageCount v e) :
    RangeMapped K r root v e pa attr ↔ free.length < missing (entries r.mem) root (paDown v) 1 := by
  have hpage : 0 < pageSize := by rw [pageSize_eq]; omega
  obtain ⟨-, hpos, -, -⟩ := h.pages
  refine ⟨fun ⟨b, r₁, hrun₁, htrue, _⟩ => ?_, fun hlt => ?_⟩
  · by_contra hlen
    obtain ⟨r', hrun, hl⟩ := h.leaves ht hend hcount (Nat.not_lt.mp hlen)
    obtain ⟨hcan, hnone⟩ := h.second hend hcount hl
    obtain ⟨rfl, rfl⟩ := EStateM.Result.ok.inj (hrun.symm.trans hrun₁)
    have hmul : 3 * pageSize ≤ pageCount v e * pageSize := Nat.mul_le_mul_right _ hcount
    rw [htrue rfl _ hcan, if_pos ⟨by omega, by omega⟩] at hnone
    cases hnone
  · obtain ⟨fuel, -, ⟨-, k, r', free', hk, hrun, -, hl⟩ | ⟨hlen, -⟩⟩ :=
      h.run ht (n := 0) hpos fun j hj => absurd hj (Nat.not_lt_zero j)
    · exact ⟨false, r', hrun, nofun, fun _ => ⟨k, by omega, hl⟩⟩
    · exact absurd hlt (Nat.not_lt.mpr hlen)

/-- One page below the top the test of the loop overflows to 0: the page after the range is
    mapped as well, or halts the kernel. -/
theorem MapCall.over (h : MapCall r root v e pa attr) (ht : MapTree K r free root)
    (hend : pageTop e + pageSize = 2 ^ 64) :
    RangeMapped K r root v e pa attr ↔
      free.length < missing (entries r.mem) root (paDown v) (pageCount v e) := by
  obtain ⟨hal, hpos, htop, -⟩ := h.pages
  have hpage : 0 < pageSize := by rw [pageSize_eq]; omega
  have hup : paUp e = pageTop e := (paUp_top e).trans (Nat.mod_eq_of_lt (by omega))
  obtain ⟨n, hn⟩ : ∃ n, pageCount v e = n + 1 := ⟨pageCount v e - 1, by omega⟩
  have htest : ∀ j < n, u64 (paDown v + (j + 1) * pageSize + pageSize) ≤ paUp e := by
    intro j hj
    have hmul : (j + 2) * pageSize ≤ (n + 1) * pageSize := Nat.mul_le_mul_right _ (by omega)
    have hsucc : (j + 2) * pageSize = (j + 1) * pageSize + pageSize := by ring
    rw [hup, ← htop, hn]
    exact (Nat.mod_le _ _).trans (by omega)
  obtain ⟨fuel, hfuel, ⟨hlen, k, r', free', hk, hrun, -, hl⟩ |
    ⟨hlen, q, r', free', hq, ht', hl, hrun⟩⟩ := h.run ht (n := n) (by omega) htest
  · rw [hn]
    exact ⟨fun _ => hlen, fun _ => ⟨false, r', hrun, nofun, fun _ => ⟨k, by omega, hl⟩⟩⟩
  rw [hn]
  refine ⟨fun ⟨b, r₁, hrun₁, htrue, hfalse⟩ => ?_, fun hlt => absurd hlt (Nat.not_lt.mpr hlen)⟩
  rw [← hn] at hl hrun
  rw [htop] at hrun
  have hlow : 2 ^ 63 ≤ pageTop e := by
    rw [pageSize_eq] at hend
    omega
  have hcan : Lib.canonical (pageTop e) := by
    unfold Lib.canonical
    rw [pageSize_eq] at hend
    omega
  obtain ⟨fuel, rfl⟩ : ∃ f, fuel = f + 1 := by
    refine ⟨fuel - 1, ?_⟩
    unfold rounds at hfuel
    rw [hn] at htop
    rw [pageSize_eq] at htop hend
    omega
  have hgo : mapNext K (p2v root) (paUp e) attr (fuel + 1) (pageTop e) q r' =
      mapPagesLoop K (p2v root) (paUp e) attr (fuel + 1) (pageTop e) q r' := by
    unfold mapNext
    have hzero : u64 (pageTop e + pageSize) = 0 := by
      rw [hend]
      rfl
    have htopmod : u64 (pageTop e) = pageTop e := Nat.mod_eq_of_lt (by omega)
    have hqmod : u64 q = q := Nat.mod_eq_of_lt hq
    rw [u64_u64_add, hzero, if_pos (Nat.zero_le _), htopmod, hqmod]
  rw [hrun, hgo] at hrun₁
  -- the directory of the page after the range is that of the last page
  have hlast : leafEntry (entries r'.mem) root (pageTop e - pageSize) ≠ none := by
    have hone : 1 * pageSize ≤ pageCount v e * pageSize := Nat.mul_le_mul_right _ hpos
    rw [hl _ (h.canonical_page (by omega) (by omega)), if_pos ⟨by omega, by omega⟩]
    exact nofun
  have hopen : missing (entries r'.mem) root (pageTop e) 1 = 0 := by
    have h4 : idx4 (pageTop e - pageSize) = idx4 (pageTop e) := by
      unfold idx4
      rw [pageSize_eq] at *
      omega
    have h3 : idx3 (pageTop e - pageSize) = idx3 (pageTop e) := by
      unfold idx3
      rw [pageSize_eq] at *
      omega
    unfold leafEntry at hlast
    have hup : upper (entries r'.mem) root (pageTop e) ≠ none := by
      intro hno
      unfold upper at hlast hno
      rw [h4, h3] at hlast
      rw [hno] at hlast
      exact hlast rfl
    rw [missing_one, if_neg hup, if_pos]
    by_contra hp
    refine hup ?_
    unfold upper
    exact if_neg fun hc => hp hc.1
  have houtside : ∀ {E' : Entries} {k : Nat}, k ≤ pageCount v e →
      Laid (entries r.mem) E' root (paDown v) pa attr k →
      leafEntry E' root (pageTop e) = leafEntry (entries r.mem) root (pageTop e) := by
    intro E' k hk hlaid
    have hmul : k * pageSize ≤ pageCount v e * pageSize := Nat.mul_le_mul_right _ hk
    rw [hlaid _ hcan, if_neg (by omega)]
  rcases mapPagesLoop_cases ht' h.attr_lt h.attr_present (pageTop e) q hq (paUp e) fuel with
    ⟨hlt, -⟩ | ⟨-, -, err, r₂, herr⟩ | ⟨hno, r₂, free₂, hm, hrun₂⟩
  · omega
  · rw [herr] at hrun₁
    cases hrun₁
  · have hsome : leafEntry (entries r₂.mem) root (pageTop e) = some (rangeEntry q attr 0) :=
      hm.here _ ⟨rfl, rfl, rfl⟩
    have hstay : leafEntry (entries r₁.mem) root (pageTop e) = some (rangeEntry q attr 0) := by
      rw [hrun₂] at hrun₁
      unfold mapNext at hrun₁
      split at hrun₁
      · rw [(mapPagesLoop_keeps h.attr_lt h.attr_present _ _ _ r₂ free₂ hm.tree
          (Nat.mod_lt _ (by decide)) b r₁ hrun₁).2 _ (by rw [hsome]; exact nofun), hsome]
      · obtain ⟨-, rfl⟩ := EStateM.Result.ok.inj hrun₁
        exact hsome
    have hsame : leafEntry (entries r₁.mem) root (pageTop e) =
        leafEntry (entries r.mem) root (pageTop e) := by
      cases b with
      | true => exact houtside (Nat.le_refl _) (htrue rfl)
      | false =>
          obtain ⟨k, hk, hlaid⟩ := hfalse rfl
          exact houtside hk hlaid
    rw [← houtside (Nat.le_refl _) hl, hno, hstay] at hsame
    cases hsame

/-- `map_pages` maps what it should unless the test `vstart + PAGE_SIZE <= vend` overflows while
    there are pages left to map, or after the last one. -/
theorem mapPages_range_iff (h : MapCall r root v e pa attr) (ht : MapTree K r free root) :
    RangeMapped K r root v e pa attr ↔
      pageTop e + 2 * pageSize ≤ 2 ^ 64 ∨
        pageTop e = 2 ^ 64 ∧ (pageCount v e ≤ 2 ∨
          free.length < missing (entries r.mem) root (paDown v) 1) ∨
        pageTop e + pageSize = 2 ^ 64 ∧
          free.length < missing (entries r.mem) root (paDown v) (pageCount v e) := by
  have hpage : 0 < pageSize := by rw [pageSize_eq]; omega
  by_cases hin : pageTop e + 2 * pageSize ≤ 2 ^ 64
  · exact ⟨fun _ => Or.inl hin, fun _ => h.inside ht hin⟩
  by_cases htop : pageTop e = 2 ^ 64
  · have hne : ¬ pageTop e + pageSize = 2 ^ 64 := by omega
    by_cases hcount : pageCount v e ≤ 2
    · exact ⟨fun _ => Or.inr (Or.inl ⟨htop, Or.inl hcount⟩), fun _ => h.topmost ht htop hcount⟩
    · rw [h.cut ht htop (by omega)]
      exact ⟨fun hlt => Or.inr (Or.inl ⟨htop, Or.inr hlt⟩), fun hor =>
        (hor.resolve_left hin).elim (fun hc => hc.2.resolve_left hcount) fun hc => absurd hc.1 hne⟩
  · have hover : pageTop e + pageSize = 2 ^ 64 := by
      obtain ⟨-, -, -, hle⟩ := h.pages
      unfold pageTop at *
      rw [pageSize_eq] at *
      omega
    rw [h.over ht hover]
    exact ⟨fun hlt => Or.inr (Or.inr ⟨hover, hlt⟩), fun hor =>
      ((hor.resolve_left hin).resolve_left fun hc => htop hc.1).2⟩

end Call

/-- An image that ends at 4 MB, an empty map in the first page after it, and `n` free pages. -/
theorem emptyMap_image (n : Nat) (hn : n < 300) : ∃ r : Ram, MapTree image r
      ((List.range n).map fun k => 0x600000 + k * pageSize) 0x400000 ∧
    ∀ i < 512, entries r.mem 0x400000 i = 0 := by
  have hend : image.kend = kernelBase + 0x400000 := rfl
  have hroot : ValidPage image 0x400000 :=
    ⟨by rw [pageSize_eq], by omega, by rw [pageSize_eq]; omega⟩
  have hrf : 0x400000 ∉ (List.range n).map fun k => 0x600000 + k * pageSize := by
    intro hm
    obtain ⟨k, -, hk⟩ := List.mem_map.mp hm
    omega
  obtain ⟨r, hfl⟩ := freeList_image 0x600000 n (by rw [pageSize_eq]) (by omega)
    (by rw [pageSize_eq]; omega)
  obtain ⟨hok, -, hz⟩ := emptyMap hfl hroot hrf
  exact ⟨_, hok.tree, hz⟩

/-- Two hundred and fifty-seven pages of an empty map, from the end of the first one on. -/
theorem mapPages_range_many : ∃ r, pageCount 0x1fffff 0x20000001 = 257 ∧
    RangeMapped image r 0x400000 0x1fffff 0x20000001 0 3 := by
  obtain ⟨r, ht, hz⟩ := emptyMap_image 4 (by decide)
  have hcall : MapCall r 0x400000 0x1fffff 0x20000001 0 3 := by
    refine ⟨by decide, by decide, fun x _ hx => ?_, by decide, by decide, by decide, by decide,
      by decide, fun x _ _ => leafEntry_empty hz x⟩
    unfold canonical
    omega
  refine ⟨r, by decide, (mapPages_range_iff hcall ht).mpr (Or.inl ?_)⟩
  decide

/-- The last three pages of the address space: `map_pages` returns `true` with the second and
    the third page unmapped. -/
theorem mapPages_range_top : ∃ (r r' : Ram) (free : List Nat), MapTree image r free 0x400000 ∧
    MapCall r 0x400000 (2 ^ 64 - 3 * 2 ^ 21) (2 ^ 64 - 1) 0 3 ∧
    mapPages image (p2v 0x400000) (2 ^ 64 - 3 * 2 ^ 21) (2 ^ 64 - 1) 0 3 r = .ok true r' ∧
    leafEntry (entries r'.mem) 0x400000 (2 ^ 64 - 2 * 2 ^ 21) = none ∧
    ¬ RangeMapped image r 0x400000 (2 ^ 64 - 3 * 2 ^ 21) (2 ^ 64 - 1) 0 3 := by
  obtain ⟨r, ht, hz⟩ := emptyMap_image 4 (by decide)
  have hcall : MapCall r 0x400000 (2 ^ 64 - 3 * 2 ^ 21) (2 ^ 64 - 1) 0 3 := by
    refine ⟨by decide, by decide, fun x hx hlt => ?_, by decide, by decide, by decide, by decide,
      by decide, fun x _ _ => leafEntry_empty hz x⟩
    unfold canonical
    omega
  have hend : pageTop (2 ^ 64 - 1) = 2 ^ 64 := by decide
  have hcount : 2 < pageCount (2 ^ 64 - 3 * 2 ^ 21) (2 ^ 64 - 1) := by decide
  have hmiss : missing (entries r.mem) 0x400000 (paDown (2 ^ 64 - 3 * 2 ^ 21)) 1 ≤ 4 := by
    rw [missing_one]
    split <;> split <;> omega
  obtain ⟨r', hrun, hl⟩ := hcall.leaves ht hend hcount hmiss
  have hsecond := (hcall.second hend hcount hl).2
  have hpage : paDown (2 ^ 64 - 3 * 2 ^ 21) + pageSize = 2 ^ 64 - 2 * 2 ^ 21 := by decide
  rw [hpage] at hsecond
  refine ⟨r, r', _, ht, hcall, hrun, hsecond, fun hmapped => ?_⟩
  exact absurd ((hcall.cut ht hend hcount).mp hmapped) (Nat.not_lt.mpr hmiss)

end Os64
