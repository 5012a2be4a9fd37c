/-
  loader.asm: the memory map of the BIOS and the check for the file-system image.

  `getMemInfoStart` is the code from GetMemInfoStart to GetMemDone, in 16-bit mode: offsets in the
  segment at 0x20000 have 16 bits, the entry is tested in 32-bit halves.

  * `accepts_iff`: the test accepts an entry that contains the image, unless the 32-bit sum of
    base and length wraps.
  * `getMemInfo_count`: the count at 0x20000, also when the table runs over it.
  * `memoryCheck_iff`: when the check is right.
-/
import Os64.Kernel.State

namespace Os64.Loader

open Os64.Lib

def u16 (n : Nat) : Nat := n % 2 ^ 16

/-- What `int 0x15` answers, call after call: the carry flag, or an entry with `ebx` zero or not. -/
inductive Bios where
  | carry
  | last (e : E820)
  | more (e : E820) (rest : Bios)

def Bios.entries : Bios → List E820
  | .carry => []
  | .last e => [e]
  | .more e rest => e :: rest.entries

/-- The segment at 0x20000, `edi` and `LoadImage`. -/
structure MemInfo where
  seg : Mem
  edi : Nat
  loadImage : Bool

/-- The five double words of an entry. -/
def dwords (e : E820) : List Nat :=
  [e.address % 2 ^ 32, e.address / 2 ^ 32, e.length % 2 ^ 32, e.length / 2 ^ 32, e.type]

def storeDwords (seg : Mem) (edi : Nat) : List Nat → Mem
  | [] => seg
  | v :: vs => storeDwords (store seg (u16 edi) 4 v) (edi + 4) vs

/-- The BIOS writes the entry at `es:di`. -/
def MemInfo.receive (s : MemInfo) (e : E820) : MemInfo :=
  { s with seg := storeDwords s.seg s.edi (dwords e) }

/-- `dword[es:di+o]`. -/
def MemInfo.dword (s : MemInfo) (o : Nat) : Nat := load s.seg (u16 (s.edi + o)) 4

def imageStart : Nat := 0x30000000

def imageEnd : Nat := 0x30000000 + 100 * 1024 * 1024

/-- The comparisons from GetMemInfo to Find. -/
def MemInfo.test (s : MemInfo) : Bool :=
  if s.dword 16 ≠ 1 then false
  else if s.dword 4 ≠ 0 then false
  else
    let eax := s.dword 0
    if imageStart < eax then false
    else if s.dword 12 ≠ 0 then true
    else
      let eax := u32 (eax + s.dword 8)
      if eax < imageEnd then false else true

/-- From GetMemInfo to the `inc` behind Cont. -/
def MemInfo.entry (s : MemInfo) : MemInfo where
  seg := store s.seg 0 4 (load s.seg 0 4 + 1)
  edi := u32 (s.edi + 20)
  loadImage := s.loadImage || s.test

/-- After `int 0x15`. -/
def getMemInfo : Bios → MemInfo → MemInfo
  | .carry, s => s
  | .last e, s => (s.receive e).entry
  | .more e rest, s => getMemInfo rest (s.receive e).entry

/-- Whether the loader goes on to load the image, and what it leaves in the segment. It stops with
    a message after a first call with carry, and without `LoadImage`. -/
def getMemInfoStart (seg : Mem) (bios : Bios) : Bool × Mem :=
  let s : MemInfo := ⟨store seg 0 4 0, 8, false⟩
  match bios with
  | .carry => (false, s.seg)
  | bios =>
      let s := getMemInfo bios s
      (s.loadImage, s.seg)

/-! ## One entry -/

/-- The values are those of 64-bit and 32-bit fields. -/
structure Fits (e : E820) : Prop where
  address : e.address < 2 ^ 64
  length : e.length < 2 ^ 64
  type : e.type < 2 ^ 32

/-- A type-1 entry with base below 2^32 that contains the place of the image. -/
def Contains (e : E820) : Prop :=
  e.type = 1 ∧ e.address < 2 ^ 32 ∧ e.address ≤ imageStart ∧ imageEnd ≤ e.address + e.length

/-- A short entry that ends at 2^32 or behind it. -/
def Wraps (e : E820) : Prop := e.length < 2 ^ 32 ∧ 2 ^ 32 ≤ e.address + e.length

/-- What the comparisons let through. -/
def Accepts (e : E820) : Prop :=
  e.type = 1 ∧ e.address ≤ imageStart ∧
    (2 ^ 32 ≤ e.length ∨ imageEnd ≤ u32 (e.address + e.length))

theorem accepts_iff (e : E820) : Accepts e ↔ Contains e ∧ ¬ Wraps e := by
  unfold Accepts Contains Wraps imageStart imageEnd u32
  omega

section Entry

variable {seg : Mem} {s : MemInfo} {e : E820} {edi a j : Nat} {vs : List Nat}

theorem load_storeDwords_miss (hedi : edi % 4 = 0) (ha : a % 4 = 0)
    (hoff : ∀ j < vs.length, u16 (edi + 4 * j) ≠ a) :
    load (storeDwords seg edi vs) a 4 = load seg a 4 := by
  induction vs generalizing seg edi with
  | nil => rfl
  | cons v vs ih =>
      have h0 := hoff 0 (Nat.succ_pos _)
      have hrest : load (storeDwords (store seg (u16 edi) 4 v) (edi + 4) vs) a 4 =
          load (store seg (u16 edi) 4 v) a 4 := ih (by omega) fun j hj => by
        have := hoff (j + 1) (Nat.succ_lt_succ hj)
        rw [show edi + 4 + 4 * j = edi + 4 * (j + 1) by omega]
        exact this
      refine hrest.trans (load_store_of_disjoint _ _ _ _ ?_)
      unfold u16 at h0 ⊢
      omega

theorem load_storeDwords_hit (seg : Mem) (hedi : edi % 4 = 0) (hlen : vs.length ≤ 5) (hj : j < vs.length) :
    load (storeDwords seg edi vs) (u16 (edi + 4 * j)) 4 = vs[j] % 2 ^ 32 := by
  induction vs generalizing seg edi j with
  | nil => cases hj
  | cons v vs ih =>
      rw [List.length_cons] at hlen hj
      cases j with
      | zero =>
          have hmiss : load (storeDwords (store seg (u16 edi) 4 v) (edi + 4) vs) (u16 edi) 4 =
              load (store seg (u16 edi) 4 v) (u16 edi) 4 :=
            load_storeDwords_miss (by omega) (by unfold u16; omega) fun j hj => by
              unfold u16
              omega
          exact hmiss.trans (load_store_self _ _ _ _)
      | succ j =>
          have h : load (storeDwords (store seg (u16 edi) 4 v) (edi + 4) vs) (u16 (edi + 4 + 4 * j)) 4 =
              vs[j] % 2 ^ 32 := ih _ (by omega) (by omega) (by omega)
          rw [show edi + 4 + 4 * j = edi + 4 * (j + 1) by omega] at h
          exact h

theorem dwords_lt (he : Fits e) : ∀ v ∈ dwords e, v < 2 ^ 32 := by
  obtain ⟨ha, hl, ht⟩ := he
  intro v hv
  simp only [dwords, List.mem_cons, List.not_mem_nil, or_false] at hv
  rcases hv with rfl | rfl | rfl | rfl | rfl <;> omega

/-- The loop reads back what the BIOS has just written, wherever the offsets wrap. -/
theorem receive_dword (he : Fits e) (hedi : s.edi % 4 = 0) (hj : j < 5) :
    (s.receive e).dword (4 * j) = (dwords e).get ⟨j, hj⟩ := by
  have h := load_storeDwords_hit s.seg hedi (Nat.le_refl (dwords e).length) hj
  rw [Nat.mod_eq_of_lt (dwords_lt he _ (List.getElem_mem hj))] at h
  exact h

/-- The comparisons in 32-bit halves. -/
theorem receive_test (he : Fits e) (hedi : s.edi % 4 = 0) :
    (s.receive e).test = true ↔ Accepts e := by
  have h0 := receive_dword he hedi (show 0 < 5 by decide)
  have h1 := receive_dword he hedi (show 1 < 5 by decide)
  have h2 := receive_dword he hedi (show 2 < 5 by decide)
  have h3 := receive_dword he hedi (show 3 < 5 by decide)
  have h4 := receive_dword he hedi (show 4 < 5 by decide)
  obtain ⟨ha, hl, -⟩ := he
  unfold MemInfo.test Accepts
  rw [h4, h1, h0, h3, h2]
  change (if e.type ≠ 1 then false else if e.address / 2 ^ 32 ≠ 0 then false
    else if imageStart < e.address % 2 ^ 32 then false
    else if e.length / 2 ^ 32 ≠ 0 then true
    else if u32 (e.address % 2 ^ 32 + e.length % 2 ^ 32) < imageEnd then false else true) = true ↔ _
  unfold imageStart imageEnd u32
  split
  · exact ⟨nofun, fun h => by omega⟩
  split
  · exact ⟨nofun, fun h => by omega⟩
  split
  · exact ⟨nofun, fun h => by omega⟩
  split
  · exact ⟨fun _ => by omega, fun _ => rfl⟩
  split
  · exact ⟨nofun, fun h => by omega⟩
  · exact ⟨fun _ => by omega, fun _ => rfl⟩

/-- What entry `k` of the table puts over the count at offset 0, if anything. -/
def overCount (k : Nat) (e : E820) : Option Nat :=
  ((List.finRange 5).find? fun j => u16 (8 + 20 * k + 4 * j.val) = 0).map fun j => (dwords e).getD j.val 0

theorem dwords_getD (e : E820) (j : Fin 5) :
    (dwords e).getD j.val 0 = (dwords e).get ⟨j.val, j.isLt⟩ := by
  have hj : j.val < (dwords e).length := j.isLt
  rw [List.getD_eq_getElem?_getD, List.getElem?_eq_getElem hj]
  rfl

theorem overCount_lt {k d : Nat} (he : Fits e) (h : overCount k e = some d) : d < 2 ^ 32 := by
  obtain ⟨j, -, rfl⟩ := Option.map_eq_some_iff.mp h
  rw [dwords_getD]
  exact dwords_lt he _ (List.getElem_mem _)

theorem receive_count {k : Nat} (he : Fits e) (hedi : s.edi = u32 (8 + 20 * k)) :
    load (s.receive e).seg 0 4 = (overCount k e).getD (load s.seg 0 4) := by
  have hal : s.edi % 4 = 0 := by
    rw [hedi]
    unfold u32
    omega
  have hoff : ∀ j, u16 (s.edi + 4 * j) = u16 (8 + 20 * k + 4 * j) := by
    intro j
    rw [hedi]
    unfold u16 u32
    omega
  unfold overCount
  cases hfind : (List.finRange 5).find? fun j => u16 (8 + 20 * k + 4 * j.val) = 0 with
  | none =>
      refine load_storeDwords_miss hal rfl fun j hj => ?_
      rw [hoff]
      have := List.find?_eq_none.mp hfind ⟨j, hj⟩ (List.mem_finRange _)
      rwa [decide_eq_true_iff] at this
  | some j =>
      have hj := List.find?_some hfind
      rw [decide_eq_true_iff, ← hoff] at hj
      have hlt : j.val < (dwords e).length := j.isLt
      have h := load_storeDwords_hit s.seg hal (Nat.le_refl (dwords e).length) hlt
      rw [hj, Nat.mod_eq_of_lt (dwords_lt he _ (List.getElem_mem hlt))] at h
      exact h.trans (dwords_getD e j).symm

end Entry

/-! ## All entries -/

/-- The last entry that is written over the count, counting from entry `k`, and what it puts there. -/
def lastOver : Nat → List E820 → Option (Nat × Nat)
  | _, [] => none
  | k, e :: es => (lastOver (k + 1) es).or ((overCount k e).map fun d => (k, d))

theorem lastOver_range {es : List E820} {k i d : Nat} (h : lastOver k es = some (i, d)) :
    k ≤ i ∧ i < k + es.length := by
  induction es generalizing k with
  | nil => cases h
  | cons e es ih =>
      unfold lastOver at h
      rw [List.length_cons]
      cases hrest : lastOver (k + 1) es with
      | some p =>
          rw [hrest] at h
          obtain rfl := Option.some.inj h
          have := ih hrest
          omega
      | none =>
          rw [hrest, Option.none_or] at h
          obtain ⟨_, -, he⟩ := Option.map_eq_some_iff.mp h
          obtain ⟨rfl, -⟩ := Prod.mk.inj he
          omega

theorem lastOver_lt {es : List E820} {k i d : Nat} (hfits : ∀ e ∈ es, Fits e)
    (h : lastOver k es = some (i, d)) : d < 2 ^ 32 := by
  induction es generalizing k with
  | nil => cases h
  | cons e es ih =>
      unfold lastOver at h
      cases hrest : lastOver (k + 1) es with
      | some p =>
          rw [hrest] at h
          obtain rfl := Option.some.inj h
          exact ih (fun e' he' => hfits e' (List.mem_cons_of_mem e he')) hrest
      | none =>
          rw [hrest, Option.none_or] at h
          obtain ⟨d', hd', he⟩ := Option.map_eq_some_iff.mp h
          obtain ⟨-, rfl⟩ := Prod.mk.inj he
          exact overCount_lt (hfits e List.mem_cons_self) hd'

/-- A table of 3276 entries fits the segment. -/
theorem lastOver_none {es : List E820} {k : Nat} (h : k + es.length ≤ 3276) :
    lastOver k es = none := by
  induction es generalizing k with
  | nil => rfl
  | cons e es ih =>
      rw [List.length_cons] at h
      have hnone : overCount k e = none := by
        unfold overCount
        rw [Option.map_eq_none_iff, List.find?_eq_none]
        intro j _
        have hj := j.isLt
        have hlt : 8 + 20 * k + 4 * j.val < 2 ^ 16 := by omega
        rw [decide_eq_true_iff, u16, Nat.mod_eq_of_lt hlt]
        omega
      unfold lastOver
      rw [ih (by omega), hnone]
      rfl

section Loop

variable {s : MemInfo} {bios : Bios} {k : Nat}

theorem entry_edi (s : MemInfo) (e : E820) (hedi : s.edi = u32 (8 + 20 * k)) :
    (s.receive e).entry.edi = u32 (8 + 20 * (k + 1)) := by
  change u32 (s.edi + 20) = _
  rw [hedi]
  unfold u32
  omega

theorem entry_loadImage (s : MemInfo) {e : E820} (he : Fits e) (hedi : s.edi = u32 (8 + 20 * k)) :
    (s.receive e).entry.loadImage = true ↔ s.loadImage = true ∨ Accepts e := by
  have hal : s.edi % 4 = 0 := by
    rw [hedi]
    unfold u32
    omega
  rw [← receive_test he hal]
  exact Bool.or_eq_true _ _ ▸ Iff.rfl

theorem entry_count (s : MemInfo) {e : E820} (he : Fits e) (hedi : s.edi = u32 (8 + 20 * k)) :
    load (s.receive e).entry.seg 0 4 = u32 ((overCount k e).getD (load s.seg 0 4) + 1) := by
  rw [← receive_count he hedi]
  exact load_store_self _ _ _ _

/-- The image is to be loaded if one of the entries is accepted. -/
theorem getMemInfo_loadImage (hfits : ∀ e ∈ bios.entries, Fits e) (hedi : s.edi = u32 (8 + 20 * k)) :
    (getMemInfo bios s).loadImage = true ↔
      s.loadImage = true ∨ ∃ e ∈ bios.entries, Accepts e := by
  induction bios generalizing s k with
  | carry => exact ⟨Or.inl, fun h => h.elim id fun ⟨_, he, _⟩ => absurd he List.not_mem_nil⟩
  | last e =>
      refine (entry_loadImage s (hfits e List.mem_cons_self) hedi).trans (or_congr_right ?_)
      exact ⟨fun ha => ⟨e, List.mem_cons_self, ha⟩, fun ⟨_, hm, ha⟩ => List.mem_singleton.mp hm ▸ ha⟩
  | more e rest ih =>
      have hrest : ∀ e' ∈ rest.entries, Fits e' := fun e' he' => hfits e' (List.mem_cons_of_mem e he')
      refine (ih hrest (entry_edi s e hedi)).trans ?_
      rw [entry_loadImage s (hfits e List.mem_cons_self) hedi, or_assoc]
      refine or_congr_right ⟨?_, ?_⟩
      · rintro (ha | ⟨e', hm, ha⟩)
        · exact ⟨e, List.mem_cons_self, ha⟩
        · exact ⟨e', List.mem_cons_of_mem e hm, ha⟩
      · rintro ⟨e', hm, ha⟩
        rcases List.mem_cons.mp hm with rfl | hm
        · exact Or.inl ha
        · exact Or.inr ⟨e', hm, ha⟩

/-- One entry, before `n` others that leave the count alone. -/
theorem overCount_step (k c n : Nat) (e : E820) : u32 ((overCount k e).getD c + 1 + n) =
    match (overCount k e).map fun d => (k, d) with
    | none => u32 (c + (n + 1))
    | some (i, d) => u32 (d + (k + (n + 1) - i)) := by
  cases overCount k e with
  | none => exact congrArg u32 (by rw [Option.getD_none]; omega)
  | some d => exact congrArg u32 (by rw [Option.getD_some]; omega)

/-- The count goes up with every entry; an entry that is written over it starts it anew. -/
theorem getMemInfo_count (hfits : ∀ e ∈ bios.entries, Fits e) (hedi : s.edi = u32 (8 + 20 * k)) :
    load (getMemInfo bios s).seg 0 4 = match lastOver k bios.entries with
      | none => u32 (load s.seg 0 4 + bios.entries.length)
      | some (i, d) => u32 (d + (k + bios.entries.length - i)) := by
  induction bios generalizing s k with
  | carry => exact (Nat.mod_eq_of_lt (load_lt s.seg 0 4)).symm
  | last e =>
      refine (entry_count s (hfits e List.mem_cons_self) hedi).trans ?_
      exact overCount_step k (load s.seg 0 4) 0 e
  | more e rest ih =>
      have hrest : ∀ e' ∈ rest.entries, Fits e' := fun e' he' => hfits e' (List.mem_cons_of_mem e he')
      refine (ih hrest (entry_edi s e hedi)).trans ?_
      change _ = match (lastOver (k + 1) rest.entries).or ((overCount k e).map fun d => (k, d)) with
        | none => u32 (load s.seg 0 4 + (rest.entries.length + 1))
        | some (i, d) => u32 (d + (k + (rest.entries.length + 1) - i))
      cases lastOver (k + 1) rest.entries with
      | none =>
          rw [Option.none_or, ← overCount_step, entry_count s (hfits e List.mem_cons_self) hedi]
          exact Nat.mod_add_mod _ _ _
      | some p =>
          obtain ⟨i, d⟩ := p
          exact congrArg u32 (by omega)

end Loop

/-! ## The check -/

/-- The loader goes on exactly if some entry contains the image, and leaves the number of entries
    at 0x20000. -/
structure MemoryCheck (seg : Mem) (bios : Bios) : Prop where
  loads : (getMemInfoStart seg bios).1 = true ↔ ∃ e ∈ bios.entries, Contains e
  count : load (getMemInfoStart seg bios).2 0 4 = bios.entries.length

theorem getMemInfoStart_eq (seg : Mem) (bios : Bios) :
    getMemInfoStart seg bios = ((getMemInfo bios ⟨store seg 0 4 0, 8, false⟩).loadImage,
      (getMemInfo bios ⟨store seg 0 4 0, 8, false⟩).seg) := by
  cases bios <;> rfl

/-- A count that starts anew with `d` at entry `i` of `n`. -/
theorem count_restart {n i d : Nat} (hi : i < n) (hd : d < 2 ^ 32) :
    u32 (d + (n - i)) = n ↔ n < 2 ^ 32 ∧ d = i := by
  unfold u32
  omega

/-- The count is the number of entries, unless the table runs over it or there are too many. -/
theorem count_iff (seg : Mem) {bios : Bios} (hfits : ∀ e ∈ bios.entries, Fits e) :
    load (getMemInfoStart seg bios).2 0 4 = bios.entries.length ↔
      bios.entries.length < 2 ^ 32 ∧ ∀ i d, lastOver 0 bios.entries = some (i, d) → d = i := by
  have hcount := getMemInfo_count (s := ⟨store seg 0 4 0, 8, false⟩) (k := 0) hfits rfl
  have hzero : load (store seg 0 4 0) 0 4 = 0 := load_store_self _ _ _ _
  have hlt := load_lt (getMemInfo bios ⟨store seg 0 4 0, 8, false⟩).seg 0 4
  rw [getMemInfoStart_eq]
  dsimp only at hcount ⊢
  rw [hcount] at hlt ⊢
  cases hl : lastOver 0 bios.entries with
  | none =>
      rw [hl] at hlt
      dsimp only at hlt ⊢
      rw [hzero, Nat.zero_add] at hlt ⊢
      refine ⟨fun he => ⟨he ▸ hlt, nofun⟩, fun h => Nat.mod_eq_of_lt h.1⟩
  | some p =>
      obtain ⟨i, d⟩ := p
      have hrange := lastOver_range hl
      rw [hl] at hlt
      dsimp only at hlt ⊢
      rw [Nat.zero_add] at hrange hlt ⊢
      have hd := lastOver_lt hfits hl
      rw [count_restart hrange.2 hd]
      refine and_congr_right fun _ => ⟨fun he i' d' h' => ?_, fun h => h i d rfl⟩
      obtain ⟨rfl, rfl⟩ := Prod.mk.inj (Option.some.inj h')
      exact he

/-- Some entry that contains the image, if there is one, has no sum that wraps; and what is written
    over the count, if anything, is the number of entries before it. -/
structure Plain (es : List E820) : Prop where
  sum : (∃ e ∈ es, Contains e) → ∃ e ∈ es, Contains e ∧ ¬ Wraps e
  length : es.length < 2 ^ 32
  table : ∀ i d, lastOver 0 es = some (i, d) → d = i

theorem Plain.short {es : List E820} (h : es.length ≤ 3276)
    (hsum : ∀ e ∈ es, Contains e → ¬ Wraps e) : Plain es where
  sum := fun ⟨e, hm, he⟩ => ⟨e, hm, he, hsum e hm he⟩
  length := by omega
  table := by
    rw [lastOver_none (by omega)]
    exact nofun

theorem memoryCheck_iff (seg : Mem) {bios : Bios} (hfits : ∀ e ∈ bios.entries, Fits e) :
    MemoryCheck seg bios ↔ Plain bios.entries := by
  have hloads : (getMemInfoStart seg bios).1 = true ↔
      ∃ e ∈ bios.entries, Contains e ∧ ¬ Wraps e := by
    rw [getMemInfoStart_eq]
    refine (getMemInfo_loadImage (k := 0) hfits rfl).trans ?_
    simp only [accepts_iff, Bool.false_eq_true, false_or]
  have hcount := count_iff seg hfits
  constructor
  · rintro ⟨hl, hc⟩
    obtain ⟨hlen, hover⟩ := hcount.mp hc
    exact ⟨fun hex => hloads.mp (hl.mpr hex), hlen, hover⟩
  · rintro ⟨hsum, hlen, hover⟩
    refine ⟨hloads.trans ⟨?_, hsum⟩, hcount.mpr ⟨hlen, hover⟩⟩
    rintro ⟨e, hm, he, -⟩
    exact ⟨e, hm, he⟩

/-- The map of a machine with 2 GB: low memory, a reserved part, the rest. -/
def twoGigabytes : Bios :=
  .more ⟨0, 0x9fc00, 1⟩ (.more ⟨0x9fc00, 0x400, 2⟩ (.more ⟨0xf0000, 0x10000, 2⟩
    (.more ⟨0x100000, 0x7fee0000, 1⟩ (.last ⟨0x7ffe0000, 0x20000, 2⟩))))

theorem memoryCheck_iff_gigabytes :
    MemoryCheck (fun _ => 0) twoGigabytes ↔ Plain twoGigabytes.entries :=
  memoryCheck_iff _ fun e he => by
    simp only [twoGigabytes, Bios.entries, List.mem_cons, List.not_mem_nil, or_false] at he
    rcases he with rfl | rfl | rfl | rfl | rfl
    all_goals exact ⟨by decide, by decide, by decide⟩

/-- Memory from 0x10000000 to 0x108000000: the sum of the low halves is 0x08000000. -/
theorem memoryCheck_wraps : ¬ MemoryCheck (fun _ => 0) (.last ⟨0x10000000, 0xf8000000, 1⟩) := by
  intro h
  have hmem : (⟨0x10000000, 0xf8000000, 1⟩ : E820) ∈
      (Bios.last ⟨0x10000000, 0xf8000000, 1⟩).entries := List.mem_cons_self
  have hloads := h.loads.mpr ⟨_, hmem, by decide, by decide, by decide, by decide⟩
  revert hloads
  decide +kernel

end Os64.Loader
