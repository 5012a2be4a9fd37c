/-
  Looking a name up in the root directory.

  `Directory` is the directory as a table of entries. `Directory.Found D p v` says that `v` is what
  the lookup of the path `p` has to return: the least index of an entry in use with the name that
  the path spells, or 0xffffffff.

  * `splitPath_text`: what `split_path` makes of a path that ends with NUL.
  * `searchLoop_found`: the loop over the entries.
  * `searchFile_looksUp`: the two functions `search_file`.
-/
import Os64.Files.Open
import Os64.Loader.File
import Os64.Lib.ShortName

namespace Os64

open Os64.Lib

/-! ## Paths -/

/-- The bytes of the path end with a NUL at `a`, read by `byte` in the state `s`. -/
def Text {σ : Type} (byte : Nat → EStateM Fault σ UInt8) (s : σ) : Nat → List UInt8 → Prop
  | a, [] => byte a s = .ok 0 s
  | a, c :: p => c ≠ 0 ∧ byte a s = .ok c s ∧ Text byte s (a + 1) p

/-- The path has a base of at most 8 characters and an extension of at most 3. -/
structure Short (p : List UInt8) : Prop where
  noSlash : charSlash ∉ p
  base_le : (ShortName.base charDot p).length ≤ 8
  ext_le : (ShortName.ext charDot p).length ≤ 3

instance (p : List UInt8) : Decidable (Short p) :=
  decidable_of_iff (charSlash ∉ p ∧ (ShortName.base charDot p).length ≤ 8 ∧
    (ShortName.ext charDot p).length ≤ 3) ⟨fun h => ⟨h.1, h.2.1, h.2.2⟩, fun h => ⟨h.1, h.2, h.3⟩⟩

/-- The two fields that a path spells. -/
def fields (p : List UInt8) : List UInt8 × List UInt8 :=
  (ShortName.pad charBlank 8 (ShortName.base charDot p),
    ShortName.pad charBlank 3 (ShortName.ext charDot p))

section Split

variable {σ : Type} {byte : Nat → EStateM Fault σ UInt8} {s : σ}

open ShortName

/-- The first loop: it stops at the dot, at the end or after the eighth character. -/
theorem splitName_text (path : Nat) : ∀ (n : Nat) (done p : List UInt8),
    Text byte s (path + done.length) p → done.length + n = 8 →
    ∃ q r, p = q ++ r ∧ charDot ∉ q ∧
      (charSlash ∈ q ∧ Loader.splitName byte path n done.length (pad charBlank 8 done) s =
          .ok none s ∨
        charSlash ∉ q ∧ q.length ≤ n ∧ (r.head? ≠ some charDot → r = [] ∨ q.length = n) ∧
          Text byte s (path + (done ++ q).length) r ∧
          Loader.splitName byte path n done.length (pad charBlank 8 done) s =
            .ok (some ((done ++ q).length, pad charBlank 8 (done ++ q))) s) := by
  intro n
  induction n with
  | zero =>
      intro done p ht hn
      refine ⟨[], p, rfl, List.not_mem_nil, Or.inr ⟨List.not_mem_nil, Nat.le_refl _,
        fun _ => Or.inr rfl, ?_, ?_⟩⟩
      · rwa [List.append_nil]
      · rw [List.append_nil]
        rfl
  | succ n ih =>
      intro done p ht hn
      cases p with
      | nil =>
          refine ⟨[], [], rfl, List.not_mem_nil, Or.inr ⟨List.not_mem_nil, Nat.zero_le _,
            fun _ => Or.inl rfl, ?_, ?_⟩⟩
          · rwa [List.append_nil]
          · unfold Loader.splitName
            rw [bind_run ht, if_pos (Or.inr rfl), List.append_nil]
            rfl
      | cons c p =>
          obtain ⟨h0, hc, ht⟩ := ht
          by_cases hd : c = charDot
          · refine ⟨[], c :: p, rfl, List.not_mem_nil, Or.inr ⟨List.not_mem_nil, Nat.zero_le _,
              fun h => absurd (by rw [hd]; rfl) h, ?_, ?_⟩⟩
            · rw [List.append_nil]
              exact ⟨h0, hc, ht⟩
            · unfold Loader.splitName
              rw [bind_run hc, if_pos (Or.inl hd), List.append_nil]
              rfl
          · have hstop : ¬ (c = charDot ∨ c = 0) := fun h => h.elim hd h0
            by_cases hs : c = charSlash
            · refine ⟨[c], p, rfl, ?_, Or.inl ⟨?_, ?_⟩⟩
              · rw [List.mem_singleton]
                exact fun h => hd h.symm
              · rw [hs]
                exact List.mem_singleton_self _
              · unfold Loader.splitName
                rw [bind_run hc, if_neg hstop, if_pos hs]
                rfl
            · have hlen : (done ++ [c]).length = done.length + 1 := by
                rw [List.length_append, List.length_singleton]
              have hset : (pad charBlank 8 done).set done.length c = pad charBlank 8 (done ++ [c]) :=
                pad_set (by omega) c
              have hstep : Loader.splitName byte path (n + 1) done.length (pad charBlank 8 done) s =
                  Loader.splitName byte path n (done ++ [c]).length
                    (pad charBlank 8 (done ++ [c])) s := by
                rw [hlen, ← hset]
                conv => lhs; unfold Loader.splitName
                rw [bind_run hc, if_neg hstop, if_neg hs]
              obtain ⟨q, r, hp, hq, hrest⟩ := ih (done ++ [c]) p (by rwa [hlen]) (by omega)
              have happ : done ++ [c] ++ q = done ++ c :: q := by
                rw [List.append_assoc]
                rfl
              rw [← hstep, happ] at hrest
              refine ⟨c :: q, r, by rw [hp]; rfl, ?_, ?_⟩
              · rw [List.mem_cons]
                exact fun h => h.elim (fun h => hd h.symm) hq
              · rcases hrest with ⟨hsl, hrun⟩ | ⟨hsl, hle, hend, htext, hrun⟩
                · exact Or.inl ⟨List.mem_cons_of_mem _ hsl, hrun⟩
                · refine Or.inr ⟨?_, by rw [List.length_cons]; omega, fun h => ?_, htext, hrun⟩
                  · rw [List.mem_cons]
                    exact fun h => h.elim (fun h => hs h.symm) hsl
                  · rw [List.length_cons]
                    exact (hend h).imp id fun h => by omega

/-- The second loop: it stops at the end or after the third character. -/
theorem splitExt_text (path : Nat) : ∀ (n i : Nat) (done p : List UInt8),
    Text byte s (path + i) p → done.length + n = 3 →
    charSlash ∈ p ∧ Loader.splitExt byte path n i done.length (pad charBlank 3 done) s =
        .ok none s ∨
      ∃ q r, p = q ++ r ∧ charSlash ∉ q ∧ q.length ≤ n ∧ (r = [] ∨ q.length = n) ∧
        Text byte s (path + (i + q.length)) r ∧
        Loader.splitExt byte path n i done.length (pad charBlank 3 done) s =
          .ok (some (i + q.length, pad charBlank 3 (done ++ q))) s := by
  intro n
  induction n with
  | zero =>
      intro i done p ht hn
      refine Or.inr ⟨[], p, rfl, List.not_mem_nil, Nat.le_refl _, Or.inr rfl, ht, ?_⟩
      rw [List.append_nil]
      rfl
  | succ n ih =>
      intro i done p ht hn
      cases p with
      | nil =>
          refine Or.inr ⟨[], [], rfl, List.not_mem_nil, Nat.zero_le _, Or.inl rfl, ht, ?_⟩
          unfold Loader.splitExt
          rw [bind_run ht, if_pos rfl, List.append_nil]
          rfl
      | cons c p =>
          obtain ⟨h0, hc, ht⟩ := ht
          by_cases hs : c = charSlash
          · refine Or.inl ⟨?_, ?_⟩
            · rw [hs]
              exact List.mem_cons_self
            · unfold Loader.splitExt
              rw [bind_run hc, if_neg h0, if_pos hs]
              rfl
          · have hlen : (done ++ [c]).length = done.length + 1 := by
              rw [List.length_append, List.length_singleton]
            have hset : (pad charBlank 3 done).set done.length c = pad charBlank 3 (done ++ [c]) :=
              pad_set (by omega) c
            have hstep : Loader.splitExt byte path (n + 1) i done.length (pad charBlank 3 done) s =
                Loader.splitExt byte path n (i + 1) (done ++ [c]).length
                  (pad charBlank 3 (done ++ [c])) s := by
              rw [hlen, ← hset]
              conv => lhs; unfold Loader.splitExt
              rw [bind_run hc, if_neg h0, if_neg hs]
            have hrest := ih (i + 1) (done ++ [c]) p ht (by omega)
            rw [← hstep] at hrest
            rcases hrest with ⟨hsl, hrun⟩ | ⟨q, r, hp, hsl, hle, hend, htext, hrun⟩
            · exact Or.inl ⟨List.mem_cons_of_mem _ hsl, hrun⟩
            · have hidx : i + 1 + q.length = i + (c :: q).length := by
                rw [List.length_cons]
                omega
              have happ : done ++ [c] ++ q = done ++ c :: q := by
                rw [List.append_assoc]
                rfl
              rw [hidx] at htext hrun
              rw [happ] at hrun
              refine Or.inr ⟨c :: q, r, by rw [hp]; rfl, ?_, by rw [List.length_cons]; omega,
                hend.imp id fun h => by rw [List.length_cons]; omega, htext, hrun⟩
              rw [List.mem_cons]
              exact fun h => h.elim (fun h => hs h.symm) hsl

theorem Text.head {a : Nat} {p : List UInt8} (h : Text byte s a p) :
    byte a s = .ok (p.headD 0) s ∧ (p.headD 0 = 0 ↔ p = []) := by
  cases p with
  | nil => exact ⟨h, fun _ => rfl, fun _ => rfl⟩
  | cons c p => exact ⟨h.2.1, fun h0 => absurd h0 h.1, fun h0 => by cases h0⟩

theorem splitEnd_text (path i : Nat) (name ext : List UInt8) {r : List UInt8}
    (h : Text byte s (path + i) r) : Loader.splitEnd byte path i name ext s =
      .ok (if r = [] then some (name, ext) else none) s := by
  obtain ⟨hc, hnil⟩ := h.head
  unfold Loader.splitEnd
  rw [bind_run hc]
  by_cases hr : r = []
  · rw [if_pos hr, if_neg (not_not_intro (hnil.mpr hr))]
    rfl
  · rw [if_neg hr, if_pos (mt hnil.mp hr)]
    rfl

/-- `split_path` on a path that ends with NUL. -/
theorem splitPath_text {path : Nat} {p : List UInt8} (h : Text byte s path p) :
    Loader.splitPath byte path s = .ok (if Short p then some (fields p) else none) s := by
  obtain ⟨q, r, hp, hq, hrest⟩ := splitName_text path 8 [] p h rfl
  unfold Loader.splitPath
  rcases hrest with ⟨hsl, hrun⟩ | ⟨hsl, hle, hend, htext, hrun⟩
  · have hno : ¬ Short p := fun hs => hs.noSlash (hp ▸ List.mem_append_left _ hsl)
    change Loader.splitName byte path 8 0 (List.replicate 8 charBlank) s = _ at hrun
    rw [bind_run hrun, if_neg hno]
    rfl
  · change Loader.splitName byte path 8 0 (List.replicate 8 charBlank) s = _ at hrun
    rw [bind_run hrun]
    dsimp only
    rw [List.nil_append] at htext ⊢
    obtain ⟨hc, hnil⟩ := htext.head
    rw [bind_run hc]
    by_cases hd : r.head? = some charDot
    · obtain ⟨e, rfl⟩ : ∃ e, r = charDot :: e := by
        cases r with
        | nil => cases hd
        | cons c e => exact ⟨e, by rw [Option.some.inj hd]⟩
      obtain ⟨-, -, hte⟩ := htext
      have hb : base charDot p = q ∧ ext charDot p = e := by
        rw [hp]
        exact base_append hq
      rw [if_pos (show (charDot :: e).headD 0 = charDot from rfl)]
      have hext := splitExt_text path 3 (q.length + 1) [] e hte rfl
      rcases hext with ⟨hsl', hrun'⟩ | ⟨q', r', he, hsl', hle', hend', htext', hrun'⟩
      · have hno : ¬ Short p := fun hs =>
          hs.noSlash (hp ▸ List.mem_append_right _ (List.mem_cons_of_mem _ hsl'))
        change Loader.splitExt byte path 3 (q.length + 1) 0 (List.replicate 3 charBlank) s = _ at hrun'
        rw [bind_run hrun', if_neg hno]
        rfl
      · change Loader.splitExt byte path 3 (q.length + 1) 0 (List.replicate 3 charBlank) s = _ at hrun'
        rw [bind_run hrun']
        dsimp only
        rw [splitEnd_text path _ _ _ htext']
        by_cases hr : r' = []
        · subst hr
          rw [List.append_nil] at he
          have hshort : Short p := by
            refine ⟨?_, hb.1 ▸ hle, ?_⟩
            · rw [hp, List.mem_append, List.mem_cons]
              rintro (hm | hm | hm)
              · exact hsl hm
              · exact absurd hm (by decide)
              · exact hsl' (he ▸ hm)
            · rw [hb.2, he]
              exact hle'
          rw [if_pos rfl, if_pos hshort]
          unfold fields
          rw [hb.1, hb.2, he]
          rfl
        · have hno : ¬ Short p := fun hs => by
            have h3 := hs.ext_le
            have hlen := hend'.resolve_left hr
            have hpos := List.length_pos_of_ne_nil hr
            rw [hb.2, he, List.length_append] at h3
            omega
          rw [if_neg hr, if_neg hno]
    · have hcd : r.headD 0 ≠ charDot := by
        intro hcd
        cases r with
        | nil => cases hcd
        | cons c e => exact hd (congrArg some hcd)
      rw [if_neg hcd, splitEnd_text path _ _ _ htext]
      by_cases hr : r = []
      · subst hr
        rw [List.append_nil] at hp
        subst hp
        have hb := base_of_not_mem hq
        have hshort : Short p := ⟨hsl, by rw [hb.1]; exact hle, by rw [hb.2]; exact Nat.zero_le _⟩
        rw [if_pos rfl, if_pos hshort]
        unfold fields
        rw [hb.1, hb.2]
        rfl
      · have hno : ¬ Short p := fun hs => by
          have h8 := hs.base_le
          have hlen := (hend hd).resolve_left hr
          obtain ⟨c, e, rfl⟩ := List.exists_cons_of_ne_nil hr
          have hall : ∀ x ∈ q, (x != charDot) = true := fun x hx => by
            simp only [bne_iff_ne, ne_eq]
            exact fun he => hq (he ▸ hx)
          unfold base at h8
          rw [hp, List.takeWhile_append_of_pos hall, List.takeWhile_cons_of_pos (by simpa using hcd),
            List.length_append, List.length_cons] at h8
          omega
        rw [if_neg hr, if_neg hno]

end Split

/-! ## The directory -/

/-- The entries of a root directory, as far as the lookup reads them. -/
structure Directory where
  count : Nat
  base : Nat → List UInt8
  ext : Nat → List UInt8
  attributes : Nat → Nat

/-- The directory of `count` entries at `start`. -/
def directoryAt (m : Mem) (start count : Nat) : Directory where
  count := count
  base i := (List.range 8).map fun k => m (start + dirEntrySize * i + k)
  ext i := (List.range 3).map fun k => m (start + dirEntrySize * i + 8 + k)
  attributes i := (m (start + dirEntrySize * i + 11)).toNat

namespace Directory

variable (D : Directory)

/-- Not empty, not deleted and no part of a long name. -/
def Live (i : Nat) : Prop :=
  ¬ (((D.base i).headD 0).toNat = entryEmpty ∨ ((D.base i).headD 0).toNat = entryDeleted) ∧
    D.attributes i ≠ 0xf

def Named (name ext : List UInt8) (i : Nat) : Prop := D.Live i ∧ D.base i = name ∧ D.ext i = ext

/-- `v` is the least index of an entry with this name. -/
def First (name ext : List UInt8) (v : Nat) : Prop :=
  v < D.count ∧ D.Named name ext v ∧ ∀ j < v, ¬ D.Named name ext j

/-- What a lookup of the path `p` returns. -/
def Found (p : List UInt8) (v : Nat) : Prop :=
  Short p ∧ D.First (fields p).1 (fields p).2 v ∨
    v = 0xffffffff ∧ (Short p → ∀ j < D.count, ¬ D.Named (fields p).1 (fields p).2 j)

/-- Whatever the loop reads at the table `dirEntry` is the directory. -/
structure Read {σ : Type} (load : Nat → Nat → EStateM Fault σ Nat)
    (bytes : Nat → Nat → EStateM Fault σ (List UInt8)) (dirEntry : Nat) (s : σ) : Prop where
  first : ∀ i < D.count, ∀ {x s'}, load (u64 (dirEntry + dirEntrySize * i)) 1 s = .ok x s' →
    s' = s ∧ x = ((D.base i).headD 0).toNat
  attributes : ∀ i < D.count, ∀ {x s'},
    load (u64 (dirEntry + dirEntrySize * i) + 11) 1 s = .ok x s' → s' = s ∧ x = D.attributes i
  base : ∀ i < D.count, ∀ {l s'}, bytes (u64 (dirEntry + dirEntrySize * i)) 8 s = .ok l s' →
    s' = s ∧ l = D.base i
  ext : ∀ i < D.count, ∀ {l s'}, bytes (u64 (dirEntry + dirEntrySize * i) + 8) 3 s = .ok l s' →
    s' = s ∧ l = D.ext i

/-- All of the table can be read. -/
structure Mapped {σ : Type} (load : Nat → Nat → EStateM Fault σ Nat)
    (bytes : Nat → Nat → EStateM Fault σ (List UInt8)) (dirEntry : Nat) (s : σ) : Prop where
  load : ∀ i < D.count, ∀ o < 12, ∃ x, load (u64 (dirEntry + dirEntrySize * i) + o) 1 s = .ok x s
  bytes : ∀ i < D.count, ∀ o n, 0 < n → o + n ≤ 11 →
    ∃ l, bytes (u64 (dirEntry + dirEntrySize * i) + o) n s = .ok l s

end Directory

section Search

variable {σ : Type} {load : Nat → Nat → EStateM Fault σ Nat}
  {bytes : Nat → Nat → EStateM Fault σ (List UInt8)} {dirEntry : Nat} {s s' : σ} {D : Directory}
  {name ext : List UInt8}

/-- The rest of the loop, when no entry before `i` has the name. -/
theorem searchLoop_found (h : D.Read load bytes dirEntry s) {v : Nat} : ∀ (n i : Nat),
    i + n = D.count → (∀ j < i, ¬ D.Named name ext j) →
    Loader.searchLoop load bytes dirEntry name ext n i s = .ok v s' →
    s' = s ∧ (D.First name ext v ∨ v = 0xffffffff ∧ ∀ j < D.count, ¬ D.Named name ext j) := by
  intro n
  induction n with
  | zero =>
      intro i hi hno hrun
      cases hrun
      exact ⟨rfl, Or.inr ⟨rfl, fun j hj => hno j (by omega)⟩⟩
  | succ n ih =>
      intro i hi hno hrun
      have hlt : i < D.count := by omega
      -- the entry is passed over
      have hpass : ¬ D.Named name ext i →
          Loader.searchLoop load bytes dirEntry name ext n (i + 1) s = .ok v s' →
          s' = s ∧ (D.First name ext v ∨ v = 0xffffffff ∧ ∀ j < D.count, ¬ D.Named name ext j) :=
        fun hi' => ih (i + 1) (by omega) fun j hj => by
          rcases Nat.lt_succ_iff_lt_or_eq.mp hj with hj | rfl
          · exact hno j hj
          · exact hi'
      obtain ⟨first, s₁, hfirst, hrun⟩ := bind_ok.mp hrun
      obtain ⟨rfl, rfl⟩ := h.first i hlt hfirst
      split at hrun
      · rename_i he
        exact hpass (fun hn => hn.1.1 he) hrun
      · rename_i he
        obtain ⟨attributes, s₂, hattr, hrun⟩ := bind_ok.mp hrun
        obtain ⟨rfl, rfl⟩ := h.attributes i hlt hattr
        split at hrun
        · rename_i hl
          exact hpass (fun hn => hn.1.2 hl) hrun
        · rename_i hl
          obtain ⟨equal, s₃, heq, hlast⟩ := bind_ok.mp hrun
          obtain ⟨b, s₄, hb, heq⟩ := bind_ok.mp heq
          obtain ⟨rfl, rfl⟩ := h.base i hlt hb
          obtain ⟨e, s₅, hext, heq⟩ := bind_ok.mp heq
          obtain ⟨rfl, rfl⟩ := h.ext i hlt hext
          cases heq
          split at hlast
          · rename_i hsame
            cases hlast
            exact ⟨rfl, Or.inl ⟨hlt, ⟨⟨he, hl⟩, of_decide_eq_true hsame⟩, hno⟩⟩
          · rename_i hdiff
            exact hpass (fun hn => hdiff (decide_eq_true hn.2)) hlast

theorem searchLoop_total (name ext : List UInt8) (hm : D.Mapped load bytes dirEntry s) :
    ∀ (n i : Nat), i + n = D.count →
      ∃ v, Loader.searchLoop load bytes dirEntry name ext n i s = .ok v s := by
  intro n
  induction n with
  | zero => exact fun i _ => ⟨_, rfl⟩
  | succ n ih =>
      intro i hi
      have hlt : i < D.count := by omega
      obtain ⟨v, hv⟩ := ih (i + 1) (by omega)
      obtain ⟨first, hfirst⟩ := hm.load i hlt 0 (by decide)
      obtain ⟨attributes, hattr⟩ := hm.load i hlt 11 (by decide)
      obtain ⟨b, hb⟩ := hm.bytes i hlt 0 8 (by decide) (by decide)
      obtain ⟨e, hext⟩ := hm.bytes i hlt 8 3 (by decide) (by decide)
      rw [Nat.add_zero] at hfirst hb
      have hequal : Loader.isFileNameEqual bytes (u64 (dirEntry + dirEntrySize * i)) name ext s =
          .ok (decide (b = name ∧ e = ext)) s := by
        unfold Loader.isFileNameEqual
        rw [bind_run hb, bind_run hext]
        rfl
      unfold Loader.searchLoop
      dsimp only
      rw [bind_run hfirst]
      split
      · exact ⟨v, hv⟩
      · rw [bind_run hattr]
        split
        · exact ⟨v, hv⟩
        · rw [bind_run hequal]
          split
          · exact ⟨i, rfl⟩
          · exact ⟨v, hv⟩

end Search

theorem Directory.base_length (m : Mem) (start count i : Nat) :
    ((directoryAt m start count).base i).length = 8 ∧
      ((directoryAt m start count).ext i).length = 3 := by
  unfold directoryAt
  dsimp only
  rw [List.length_map, List.length_map, List.length_range, List.length_range]
  exact ⟨rfl, rfl⟩

/-- The directory that accesses at physical addresses read. -/
theorem directoryAt_read {σ : Type} {load : Nat → Nat → EStateM Fault σ Nat}
    {bytes : Nat → Nat → EStateM Fault σ (List UInt8)} {dirEntry : Nat} {s : σ} {m : Mem}
    {start count : Nat}
    (hload : ∀ i < count, ∀ o n x s', 0 < n → o + n ≤ dirEntrySize →
      load (u64 (dirEntry + dirEntrySize * i) + o) n s = .ok x s' →
        s' = s ∧ x = Lib.load m (start + dirEntrySize * i + o) n)
    (hbytes : ∀ i < count, ∀ o n l s', 0 < n → o + n ≤ dirEntrySize →
      bytes (u64 (dirEntry + dirEntrySize * i) + o) n s = .ok l s' →
        s' = s ∧ l = (List.range n).map fun k => m (start + dirEntrySize * i + o + k)) :
    (directoryAt m start count).Read load bytes dirEntry s := by
  have hone : ∀ a, Lib.load m a 1 = (m a).toNat := fun a => by
    unfold Lib.load
    rfl
  refine ⟨fun i hi x s' h => ?_, fun i hi x s' h => ?_, fun i hi l s' h => ?_,
    fun i hi l s' h => ?_⟩
  · obtain ⟨h1, h2⟩ := hload i hi 0 1 x s' (by decide) (by decide) h
    exact ⟨h1, h2.trans (hone _)⟩
  · obtain ⟨h1, h2⟩ := hload i hi 11 1 x s' (by decide) (by decide) h
    exact ⟨h1, h2.trans (hone _)⟩
  · exact hbytes i hi 0 8 l s' (by decide) (by decide) h
  · exact hbytes i hi 8 3 l s' (by decide) (by decide) h

/-! ## The two functions -/

/-- A printed name spells the fields of its entry. -/
theorem printed_fields {b e : List UInt8} (hb : b.length = 8) (he : e.length = 3)
    (hdot : charDot ∉ b) (hsb : charSlash ∉ b) (hse : charSlash ∉ e) :
    Short (ShortName.printed charDot charBlank b e) ∧
      fields (ShortName.printed charDot charBlank b e) = (b, e) := by
  obtain ⟨h1, h2⟩ : _ = ShortName.trim charBlank b ∧ _ = ShortName.trim charBlank e :=
    ShortName.base_printed (e := e) hdot
  have hlen : (ShortName.trim charBlank b).length ≤ b.length := ShortName.trim_length b
  have hlen' : (ShortName.trim charBlank e).length ≤ e.length := ShortName.trim_length e
  refine ⟨⟨fun h => ?_, by rw [h1]; omega, by rw [h2]; omega⟩, ?_⟩
  · rcases ShortName.mem_printed h with h | h | h
    · exact hsb h
    · exact absurd h (by decide)
    · exact hse h
  · unfold fields
    rw [h1, h2, ShortName.pad_trim hb, ShortName.pad_trim he]

/-- What a lookup should do: `search` finds nothing but the least entry with the path's
    name, refuses every path that is no short name, and finds printed names. -/
def LooksUp {σ : Type} (search : Nat → EStateM Fault σ Nat) (byte : Nat → EStateM Fault σ UInt8)
    (D : Directory) (mapped : Prop) (s : σ) : Prop :=
  ∀ path p, Text byte s path p →
    (∀ v s', search path s = .ok v s' → v ≠ 0xffffffff → D.First (fields p).1 (fields p).2 v) ∧
      (charSlash ∈ p ∨ 8 < (ShortName.base charDot p).length ∨
        3 < (ShortName.ext charDot p).length → search path s = .ok 0xffffffff s) ∧
      (mapped → ∀ k < D.count, D.Live k → charDot ∉ D.base k → charSlash ∉ D.base k →
        charSlash ∉ D.ext k → p = ShortName.printed charDot charBlank (D.base k) (D.ext k) →
          ∃ v, search path s = .ok v s ∧ D.First (D.base k) (D.ext k) v)

/-- The lookup from its two halves. -/
theorem looksUp_of {σ : Type} {search : Nat → EStateM Fault σ Nat}
    {byte : Nat → EStateM Fault σ UInt8} {m : Mem} {start count : Nat} {mapped : Prop} {s : σ}
    (hfound : ∀ path p v s', Text byte s path p → search path s = .ok v s' →
      s' = s ∧ (directoryAt m start count).Found p v)
    (hlong : ∀ path p, Text byte s path p → ¬ Short p → search path s = .ok 0xffffffff s)
    (htotal : mapped → ∀ path p, Text byte s path p → ∃ v s', search path s = .ok v s') :
    LooksUp search byte (directoryAt m start count) mapped s := by
  intro path p ht
  refine ⟨fun v s' hrun hv => ?_, fun hno => ?_, fun hm k hk hl hdot hsb hse hp => ?_⟩
  · rcases (hfound path p v s' ht hrun).2 with h | h
    · exact h.2
    · exact absurd h.1 hv
  · refine hlong path p ht fun hs => ?_
    rcases hno with h | h | h
    · exact hs.noSlash h
    · exact absurd hs.base_le (by omega)
    · exact absurd hs.ext_le (by omega)
  · obtain ⟨v, s', hrun⟩ := htotal hm path p ht
    obtain ⟨hb, he⟩ := Directory.base_length m start count k
    obtain ⟨hshort, hfields⟩ := printed_fields hb he hdot hsb hse
    rw [← hp] at hshort hfields
    obtain ⟨hs, hf⟩ := hfound path p v s' ht hrun
    rw [hs] at hrun
    unfold Directory.Found at hf
    rw [hfields] at hf
    rcases hf with h | h
    · exact ⟨v, hrun, h.2⟩
    · exact absurd ⟨hl, rfl, rfl⟩ (h.2 hshort k hk)

/-! ## The kernel -/

theorem splitName_eq (path : Nat) : ∀ n i name,
    splitName path n i name = Loader.splitName loadVirt path n i name
  | 0, _, _ => rfl
  | n + 1, i, name => by
      unfold splitName Loader.splitName
      simp only [splitName_eq path n]

theorem splitExt_eq (path : Nat) : ∀ n i j ext,
    splitExt path n i j ext = Loader.splitExt loadVirt path n i j ext
  | 0, _, _, _ => rfl
  | n + 1, i, j, ext => by
      unfold splitExt Loader.splitExt
      simp only [splitExt_eq path n]

theorem splitPath_eq (path : Nat) : splitPath path = Loader.splitPath loadVirt path := by
  unfold splitPath Loader.splitPath
  simp only [splitName_eq, splitExt_eq]
  rfl

theorem searchLoop_eq (dirEntry : Nat) (name ext : List UInt8) : ∀ n i,
    searchLoop dirEntry name ext n i = Loader.searchLoop kload kbytes dirEntry name ext n i
  | 0, _ => rfl
  | n + 1, i => by
      unfold searchLoop Loader.searchLoop
      simp only [searchLoop_eq dirEntry name ext n]
      rfl

/-- The root directory as the kernel sees it. -/
def kernelDirectory (m : Mem) : Directory := directoryAt m (rootStart m) (bpb m 17 2)

/-- The boot sector and the root directory lie in the memory that the kernel maps. -/
structure RootMapped (m : Mem) : Prop where
  sector : volumeStart m + 24 ≤ 2 ^ 30
  root : rootStart m + dirEntrySize * bpb m 17 2 ≤ 2 ^ 30

theorem bpb_ok {r r' : Ram} {o n x : Nat} (ho : o < 2 ^ 10)
    (h : kload (volumeStart r.mem + kernelBase + o) n r = .ok x r') : r' = r ∧ x = bpb r.mem o n := by
  have hlt := volumeStart_lt r.mem
  refine ⟨(reads_kload _ _).ok h, ?_⟩
  have hv : v2p (volumeStart r.mem + kernelBase + o) = volumeStart r.mem + o := by
    unfold v2p u64
    rw [kernelBase_eq]
    omega
  rw [(kload_ok h).2, hv]
  rfl

theorem rootEntryCount_lt (m : Mem) : bpb m 17 2 < fcbLimit := load_lt _ _ _

theorem getRootDirectoryCount_ok {r r' : Ram} {x : Nat} (h : getRootDirectoryCount r = .ok x r') :
    r' = r ∧ x = bpb r.mem 17 2 := by
  unfold getRootDirectoryCount at h
  rw [bind_run (getFsBpb_run r)] at h
  exact bpb_ok (by decide) h

theorem getRootDirectory_ok {r r' : Ram} {x : Nat} (h : getRootDirectory r = .ok x r') :
    r' = r ∧ x = rootStart r.mem + kernelBase := by
  unfold getRootDirectory at h
  rw [bind_run (getFsBpb_run r)] at h
  obtain ⟨reserved, r₁, h1, h⟩ := bind_ok.mp h
  obtain ⟨rfl, rfl⟩ := bpb_ok (by decide) h1
  obtain ⟨fats, r₂, h2, h⟩ := bind_ok.mp h
  obtain ⟨rfl, rfl⟩ := bpb_ok (by decide) h2
  obtain ⟨perFat, r₃, h3, h⟩ := bind_ok.mp h
  obtain ⟨rfl, rfl⟩ := bpb_ok (by decide) h3
  obtain ⟨bytes, r₄, h4, h⟩ := bind_ok.mp h
  obtain ⟨rfl, rfl⟩ := bpb_ok (by decide) h4
  cases h
  refine ⟨rfl, ?_⟩
  have hlt := volumeStart_lt r'.mem
  unfold rootStart u64 u32
  rw [kernelBase_eq]
  omega

theorem kernelDirectory_read (r : Ram) :
    (kernelDirectory r.mem).Read kload kbytes (rootStart r.mem + kernelBase) r := by
  refine directoryAt_read (fun i hi o n x s' _ ho h => ?_) fun i hi o n l s' _ ho h => ?_
  · have hptr := entry_ptr r.mem i (Nat.lt_trans hi (rootEntryCount_lt _)) ho
    refine ⟨(reads_kload _ _).ok h, ?_⟩
    rw [(kload_ok h).2, hptr.1]
  · have hptr := entry_ptr r.mem i (Nat.lt_trans hi (rootEntryCount_lt _)) ho
    obtain ⟨_, r₁, hens, h⟩ := bind_ok.mp h
    obtain ⟨-, rfl⟩ := ensure_ok.mp hens
    cases h
    rw [hptr.1]
    exact ⟨rfl, rfl⟩

theorem kernelDirectory_mapped {r : Ram} (h : RootMapped r.mem) :
    (kernelDirectory r.mem).Mapped kload kbytes (rootStart r.mem + kernelBase) r := by
  have hin : ∀ i < (kernelDirectory r.mem).count, ∀ o n, o + n ≤ 12 →
      KernelPtr (u64 (rootStart r.mem + kernelBase + dirEntrySize * i) + o) n := by
    intro i hi o n hn
    have hptr := entry_ptr r.mem i (Nat.lt_trans hi (rootEntryCount_lt _))
      (show o + n ≤ dirEntrySize from Nat.le_trans hn (by decide))
    have hroot := h.root
    have hi : i < bpb r.mem 17 2 := hi
    unfold dirEntrySize at *
    exact hptr.2.mpr (by omega)
  refine ⟨fun i hi o ho => ⟨_, kload_run (hin i hi o 1 (by omega)) r⟩, fun i hi o n _ hn => ?_⟩
  refine ⟨(List.range n).map fun k => r.mem (v2p (u64 (rootStart r.mem + kernelBase +
    dirEntrySize * i) + o) + k), ?_⟩
  unfold kbytes
  rw [bind_run (ensure_run (hin i hi o n (by omega)) _ r)]
  rfl

theorem searchFile_found {path : Nat} {p : List UInt8} {s s' : Kernel} {v : Nat}
    (h : Text loadVirt s path p) (hrun : searchFile path s = .ok v s') :
    s' = s ∧ (kernelDirectory s.ram.mem).Found p v := by
  unfold searchFile at hrun
  rw [splitPath_eq, bind_run (splitPath_text h)] at hrun
  by_cases hs : Short p
  · rw [if_pos hs] at hrun
    obtain ⟨count, s₁, hcount, hrun⟩ := bind_ok.mp hrun
    have hs₁ : s₁ = s := (reads_ram reads_getRootDirectoryCount).ok hcount
    rw [hs₁] at hrun
    obtain ⟨r₁, hcount, -⟩ := onPart_ok.mp hcount
    rw [(getRootDirectoryCount_ok hcount).2] at hrun
    obtain ⟨dir, s₂, hdir, hrun⟩ := bind_ok.mp hrun
    have hs₂ : s₂ = s := (reads_ram reads_getRootDirectory).ok hdir
    rw [hs₂] at hrun
    obtain ⟨r₂, hdir, -⟩ := onPart_ok.mp hdir
    rw [(getRootDirectory_ok hdir).2] at hrun
    refine ⟨(reads_ram (reads_searchLoop _ _ _ _ _)).ok hrun, ?_⟩
    obtain ⟨r₃, hrun, -⟩ := onPart_ok.mp hrun
    rw [searchLoop_eq] at hrun
    obtain ⟨-, hf⟩ := searchLoop_found (kernelDirectory_read s.ram) (bpb s.ram.mem 17 2) 0
      (Nat.zero_add _) (fun j hj => absurd hj (Nat.not_lt_zero j)) hrun
    exact hf.imp (fun h => ⟨hs, h⟩) fun h => ⟨h.1, fun _ => h.2⟩
  · rw [if_neg hs] at hrun
    cases hrun
    exact ⟨rfl, Or.inr ⟨rfl, fun h => absurd h hs⟩⟩

theorem searchFile_long {path : Nat} {p : List UInt8} {s : Kernel} (h : Text loadVirt s path p)
    (hs : ¬ Short p) : searchFile path s = .ok 0xffffffff s := by
  unfold searchFile
  rw [splitPath_eq, bind_run (splitPath_text h), if_neg hs]
  rfl

theorem searchFile_total {path : Nat} {p : List UInt8} {s : Kernel} (hm : RootMapped s.ram.mem)
    (h : Text loadVirt s path p) : ∃ v s', searchFile path s = .ok v s' := by
  have hfield : ∀ o n, o + n ≤ 24 → kload (volumeStart s.ram.mem + kernelBase + o) n s.ram =
      .ok (bpb s.ram.mem o n) s.ram := fun o n ho =>
    kload_volume s.ram (by have := hm.sector; omega)
  have hcount : getRootDirectoryCount s.ram = .ok (bpb s.ram.mem 17 2) s.ram := by
    unfold getRootDirectoryCount
    rw [bind_run (getFsBpb_run s.ram)]
    exact hfield 17 2 (by decide)
  have hdir : ∃ v, getRootDirectory s.ram = .ok v s.ram := by
    unfold getRootDirectory reservedSectorCount fatCount sectorsPerFat bytesPerSector
    rw [bind_run (getFsBpb_run s.ram), bind_run (hfield 14 2 (by decide)),
      bind_run (hfield 16 1 (by decide)), bind_run (hfield 22 2 (by decide)),
      bind_run (hfield 11 2 (by decide))]
    exact ⟨_, rfl⟩
  obtain ⟨dir, hdir⟩ := hdir
  have hval := (getRootDirectory_ok hdir).2
  rw [hval] at hdir
  by_cases hs : Short p
  · obtain ⟨v, hv⟩ := searchLoop_total (fields p).1 (fields p).2
      (kernelDirectory_mapped hm) (bpb s.ram.mem 17 2) 0 (Nat.zero_add _)
    refine ⟨v, s, ?_⟩
    unfold searchFile
    rw [splitPath_eq, bind_run (splitPath_text h), if_pos hs]
    dsimp only
    rw [bind_run (ram_run hcount), bind_run (ram_run hdir), searchLoop_eq]
    exact ram_run hv
  · exact ⟨_, _, searchFile_long h hs⟩

/-! ## The loader -/

namespace Loader

def volumeStart (m : Mem) : Nat := fsBase + u32 (Lib.load m (fsBase + 0x1be + 8) 4 * 512)

def bpb (m : Mem) (o n : Nat) : Nat := Lib.load m (volumeStart m + o) n

def rootStart (m : Mem) : Nat :=
  volumeStart m + u32 ((bpb m 14 2 + bpb m 16 1 * bpb m 22 2) * bpb m 11 2)

/-- The root directory as the loader sees it. -/
def directory (m : Mem) : Directory := directoryAt m (rootStart m) (bpb m 17 2)

structure RootMapped (m : Mem) : Prop where
  sector : volumeStart m + 24 ≤ 2 ^ 30
  root : rootStart m + dirEntrySize * bpb m 17 2 ≤ 2 ^ 30

theorem lload_run {v n : Nat} (h : v + n ≤ 2 ^ 30) (hn : 0 < n) (m : Mem) :
    lload v n m = .ok (Lib.load m v n) m := by
  have hp : Ptr v n := Or.inl h
  have hv : phys v = v := if_pos (by omega)
  unfold lload
  rw [bind_run (ensure_run hp _ m), hv]
  rfl

theorem lbytes_run {v n : Nat} (h : v + n ≤ 2 ^ 30) (hn : 0 < n) (m : Mem) :
    lbytes v n m = .ok ((List.range n).map fun k => m (v + k)) m := by
  have hp : Ptr v n := Or.inl h
  have hv : phys v = v := if_pos (by omega)
  unfold lbytes
  rw [bind_run (ensure_run hp _ m), hv]
  rfl

/-- Below the kernel's window an access that succeeds is one to the first GB. -/
theorem phys_of_ptr {v n : Nat} (hv : v < 2 ^ 35) (hn : 0 < n) (h : Ptr v n) : phys v = v := by
  rcases h with hlow | hhigh
  · exact if_pos (by omega)
  · unfold KernelPtr at hhigh
    rw [kernelBase_eq] at hhigh
    omega

theorem lload_ok {v n x : Nat} {m m' : Mem} (hv : v < 2 ^ 35) (hn : 0 < n)
    (h : lload v n m = .ok x m') : m' = m ∧ x = Lib.load m v n := by
  obtain ⟨_, m₁, hens, hrest⟩ := bind_ok.mp h
  obtain ⟨hptr, rfl⟩ := ensure_ok.mp hens
  rw [phys_of_ptr hv hn hptr] at hrest
  cases hrest
  exact ⟨rfl, rfl⟩

theorem lbytes_ok {v n : Nat} {l : List UInt8} {m m' : Mem} (hv : v < 2 ^ 35) (hn : 0 < n)
    (h : lbytes v n m = .ok l m') : m' = m ∧ l = (List.range n).map fun k => m (v + k) := by
  obtain ⟨_, m₁, hens, hrest⟩ := bind_ok.mp h
  obtain ⟨hptr, rfl⟩ := ensure_ok.mp hens
  rw [phys_of_ptr hv hn hptr] at hrest
  cases hrest
  exact ⟨rfl, rfl⟩

theorem volumeStart_lt (m : Mem) : volumeStart m < 2 ^ 33 := by
  have : u32 (Lib.load m (fsBase + 0x1be + 8) 4 * 512) < 2 ^ 32 := Nat.mod_lt _ (by decide)
  unfold volumeStart fsBase at *
  omega

theorem rootStart_lt (m : Mem) : rootStart m < 2 ^ 34 := by
  have := volumeStart_lt m
  unfold rootStart u32
  omega

theorem getFsBpb_run (m : Mem) : getFsBpb m = .ok (volumeStart m) m := by
  have hlt := volumeStart_lt m
  have hfs : fsBase + 0x1be + 8 + 4 ≤ 2 ^ 30 := by decide
  unfold getFsBpb
  rw [bind_run (lload_run hfs (by decide) m)]
  have hu : u64 (volumeStart m) = volumeStart m := Nat.mod_eq_of_lt (by omega)
  rw [← hu]
  rfl

theorem bpb_ok {m m' : Mem} {o n x : Nat} (ho : o < 2 ^ 10) (hn : 0 < n)
    (h : lload (volumeStart m + o) n m = .ok x m') : m' = m ∧ x = bpb m o n :=
  lload_ok (by have := volumeStart_lt m; omega) hn h

theorem getRootDirectoryCount_ok {m m' : Mem} {x : Nat} (h : getRootDirectoryCount m = .ok x m') :
    m' = m ∧ x = bpb m 17 2 := by
  unfold getRootDirectoryCount at h
  rw [bind_run (getFsBpb_run m)] at h
  exact bpb_ok (by decide) (by decide) h

theorem getRootDirectory_ok {m m' : Mem} {x : Nat} (h : getRootDirectory m = .ok x m') :
    m' = m ∧ x = rootStart m := by
  unfold getRootDirectory at h
  rw [bind_run (getFsBpb_run m)] at h
  obtain ⟨reserved, m₁, h1, h⟩ := bind_ok.mp h
  obtain ⟨rfl, rfl⟩ := bpb_ok (by decide) (by decide) h1
  obtain ⟨fats, m₂, h2, h⟩ := bind_ok.mp h
  obtain ⟨rfl, rfl⟩ := bpb_ok (by decide) (by decide) h2
  obtain ⟨perFat, m₃, h3, h⟩ := bind_ok.mp h
  obtain ⟨rfl, rfl⟩ := bpb_ok (by decide) (by decide) h3
  obtain ⟨bytes, m₄, h4, h⟩ := bind_ok.mp h
  obtain ⟨rfl, rfl⟩ := bpb_ok (by decide) (by decide) h4
  obtain ⟨hx, rfl⟩ := EStateM.Result.ok.inj h
  refine ⟨rfl, hx.symm.trans ?_⟩
  have hlt := rootStart_lt m₄
  exact Nat.mod_eq_of_lt (Nat.lt_trans hlt (by decide))

/-- The pointer to an entry. -/
theorem entry_eq (m : Mem) {i : Nat} (hi : i < bpb m 17 2) :
    u64 (rootStart m + dirEntrySize * i) = rootStart m + dirEntrySize * i ∧
      rootStart m + dirEntrySize * i < 2 ^ 34 + 2 ^ 32 := by
  have hlt := rootStart_lt m
  have hcount : bpb m 17 2 < 256 ^ 2 := load_lt _ _ _
  have hsmall : rootStart m + dirEntrySize * i < 2 ^ 34 + 2 ^ 32 := by
    unfold dirEntrySize
    omega
  exact ⟨Nat.mod_eq_of_lt (Nat.lt_trans hsmall (by decide)), hsmall⟩

theorem directory_read (m : Mem) : (directory m).Read lload lbytes (rootStart m) m := by
  refine directoryAt_read (fun i hi o n x m' hn ho h => ?_) fun i hi o n l m' hn ho h => ?_
  · obtain ⟨he, hlt⟩ := entry_eq m hi
    rw [he] at h
    unfold dirEntrySize at ho
    exact lload_ok (by omega) hn h
  · obtain ⟨he, hlt⟩ := entry_eq m hi
    rw [he] at h
    unfold dirEntrySize at ho
    exact lbytes_ok (by omega) hn h

theorem directory_mapped {m : Mem} (h : RootMapped m) :
    (directory m).Mapped lload lbytes (rootStart m) m := by
  have hin : ∀ i < bpb m 17 2, ∀ o, o ≤ 12 → rootStart m + dirEntrySize * i + o ≤ 2 ^ 30 := by
    intro i hi o ho
    have hroot := h.root
    unfold dirEntrySize at *
    omega
  refine ⟨fun i hi o ho => ?_, fun i hi o n hpos hn => ?_⟩
  · have := hin i hi (o + 1) (by omega)
    rw [(entry_eq m hi).1]
    exact ⟨_, lload_run (by omega) Nat.one_pos m⟩
  · have := hin i hi (o + n) (by omega)
    rw [(entry_eq m hi).1]
    exact ⟨_, lbytes_run (by omega) hpos m⟩

theorem searchFile_found {path : Nat} {p : List UInt8} {m m' : Mem} {v : Nat}
    (h : Text lbyte m path p) (hrun : searchFile path m = .ok v m') :
    m' = m ∧ (directory m).Found p v := by
  unfold searchFile at hrun
  rw [bind_run (splitPath_text h)] at hrun
  by_cases hs : Short p
  · rw [if_pos hs] at hrun
    obtain ⟨count, m₁, hcount, hrun⟩ := bind_ok.mp hrun
    obtain ⟨rfl, rfl⟩ := getRootDirectoryCount_ok hcount
    obtain ⟨dir, m₂, hdir, hrun⟩ := bind_ok.mp hrun
    obtain ⟨rfl, rfl⟩ := getRootDirectory_ok hdir
    obtain ⟨rfl, hf⟩ := searchLoop_found (directory_read m₂) (bpb m₂ 17 2) 0 (Nat.zero_add _)
      (fun j hj => absurd hj (Nat.not_lt_zero j)) hrun
    exact ⟨rfl, hf.imp (fun h => ⟨hs, h⟩) fun h => ⟨h.1, fun _ => h.2⟩⟩
  · rw [if_neg hs] at hrun
    obtain ⟨rfl, rfl⟩ := EStateM.Result.ok.inj hrun
    exact ⟨rfl, Or.inr ⟨rfl, fun h => absurd h hs⟩⟩

theorem searchFile_long {path : Nat} {p : List UInt8} {m : Mem} (h : Text lbyte m path p)
    (hs : ¬ Short p) : searchFile path m = .ok 0xffffffff m := by
  unfold searchFile
  rw [bind_run (splitPath_text h), if_neg hs]
  rfl

theorem searchFile_total {path : Nat} {p : List UInt8} {m : Mem} (hm : RootMapped m)
    (h : Text lbyte m path p) : ∃ v m', searchFile path m = .ok v m' := by
  have hfield : ∀ o n, 0 < n → o + n ≤ 24 → lload (volumeStart m + o) n m = .ok (bpb m o n) m :=
    fun o n hn ho => lload_run (by have := hm.sector; omega) hn m
  have hcount : getRootDirectoryCount m = .ok (bpb m 17 2) m := by
    unfold getRootDirectoryCount
    rw [bind_run (getFsBpb_run m)]
    exact hfield 17 2 (by decide) (by decide)
  have hdir : ∃ v, getRootDirectory m = .ok v m := by
    unfold getRootDirectory
    rw [bind_run (getFsBpb_run m), bind_run (hfield 14 2 (by decide) (by decide)),
      bind_run (hfield 16 1 (by decide) (by decide)), bind_run (hfield 22 2 (by decide) (by decide)),
      bind_run (hfield 11 2 (by decide) (by decide))]
    exact ⟨_, rfl⟩
  obtain ⟨dir, hdir⟩ := hdir
  have hval := (getRootDirectory_ok hdir).2
  rw [hval] at hdir
  by_cases hs : Short p
  · obtain ⟨v, hv⟩ := searchLoop_total (fields p).1 (fields p).2
      (directory_mapped hm) (bpb m 17 2) 0 (Nat.zero_add _)
    refine ⟨v, m, ?_⟩
    unfold searchFile
    rw [bind_run (splitPath_text h), if_pos hs]
    dsimp only
    rw [bind_run hcount, bind_run hdir]
    exact hv
  · exact ⟨_, _, searchFile_long h hs⟩

end Loader

/-- Both functions `search_file` look names up: they find nothing but the least entry in use with
    the fields that the path spells, they refuse every path that is no short name, and they find
    every printed name. -/
theorem searchFile_looksUp (s : Kernel) (m : Mem) :
    LooksUp searchFile loadVirt (kernelDirectory s.ram.mem) (RootMapped s.ram.mem) s ∧
      LooksUp Loader.searchFile Loader.lbyte (Loader.directory m) (Loader.RootMapped m) m :=
  ⟨looksUp_of (fun _ _ _ _ h hrun => searchFile_found h hrun) (fun _ _ h hs => searchFile_long h hs)
      fun hm _ _ h => searchFile_total hm h,
    looksUp_of (fun _ _ _ _ h hrun => Loader.searchFile_found h hrun)
      (fun _ _ h hs => Loader.searchFile_long h hs) fun hm _ _ h => Loader.searchFile_total hm h⟩

end Os64
