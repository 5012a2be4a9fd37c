/-
  What `read_raw_data` copies, as a function of the volume.

  `Volume.readRawData` is the function of file.c with its `memcpy`s listed instead of
  performed: the copies in order, with their destinations counted from the buffer and
  their sources from the volume, and then the result or the `ASSERT` that fails. What the
  kernel does with the list, see `readRawData_plan`.

  * `Volume.readRawData_stops_iff`: the walk is short and copies no more than it was asked
    for, unless the 32-bit sum `read_size + cluster_size` wraps on the way.
  * `Volume.readRawData_slice`: where the chain covers the request, the copies bring the
    bytes of the file in order.
  * `Volume.readRawData_asserts_iff`: which request makes an `ASSERT` fail on a chain as
    long as the file.
-/
import Os64.Kernel.File
import Os64.Lib.Copies

namespace Os64

open Os64.Lib

/-- A FAT16 volume: the FAT entry of each cluster, and where its data begins. -/
structure Volume where
  clusterSize : Nat
  next : Nat → Nat
  offset : Nat → Nat

/-- Copies, and how the function ends after them. -/
abbrev Plan := List Copy × Except Fault Nat

def Plan.after (P : Plan) (c : Copy) : Plan := (c :: P.1, P.2)

namespace Volume

variable (V : Volume)

/-- The first loop of `read_raw_data`. -/
def skipClusters : Nat → Nat → Except Fault Nat
  | 0, index => .ok index
  | n + 1, index =>
      if V.next index < 0xfff7 then
        skipClusters n (V.next index)
      else
        .error (.assertion "file.c" 227)

/-- The `while` of `read_raw_data`, with the buffer advanced by `dst`. -/
def readClusters (size : Nat) : Nat → Nat → Nat → Nat → Plan
  | 0, _, _, _ => ([], .error .divergence)
  | fuel + 1, index, dst, readSize =>
      if readSize < size ∧ index < 0xfff7 then
        if 2 ≤ index then
          if size ≤ u32 (readSize + V.clusterSize) then
            ([⟨dst, V.offset index, size - readSize⟩], .ok size)
          else
            (readClusters size fuel (V.next index) (dst + V.clusterSize)
              (u32 (readSize + V.clusterSize))).after ⟨dst, V.offset index, V.clusterSize⟩
        else
          ([], .error (.assertion "file.c" 46))
      else
        ([], .ok readSize)

def readRawData (fuel clusterIndex position size : Nat) : Plan :=
  let count := position / V.clusterSize
  let offset := position % V.clusterSize
  match V.skipClusters count clusterIndex with
  | .error e => ([], .error e)
  | .ok index =>
      if offset ≠ 0 then
        let readSize := if u32 (offset + size) ≤ V.clusterSize then size else V.clusterSize - offset
        if 2 ≤ index then
          (V.readClusters size fuel (V.next index) readSize readSize).after
            ⟨0, V.offset index + offset, readSize⟩
        else
          ([], .error (.assertion "file.c" 46))
      else
        V.readClusters size fuel index 0 0

/-! ## Chains -/

/-- The `k`-th cluster after `index`. -/
def cluster (index k : Nat) : Nat := V.next^[k] index

/-- Where byte `j` of the file lies whose first cluster is `index`. -/
def byteAt (index j : Nat) : Nat :=
  V.offset (V.cluster index (j / V.clusterSize)) + j % V.clusterSize

/-- The values that name a cluster of a file. -/
def IsData (index : Nat) : Prop := 2 ≤ index ∧ index < 0xfff7

instance (index : Nat) : Decidable (IsData index) := inferInstanceAs (Decidable (_ ∧ _))

/-- The chain has a cluster for every one of the first `z` bytes. -/
def Covers (index z : Nat) : Prop := ∀ k, k * V.clusterSize < z → IsData (V.cluster index k)

/-- A chain with exactly the clusters of a file of `z` bytes, and an end mark. -/
structure Exact (index z : Nat) : Prop where
  covers : V.Covers index z
  mark : 0 < z → 0xfff8 ≤ V.cluster index ((z + V.clusterSize - 1) / V.clusterSize)

variable {V} {i position size f d r : Nat}

theorem cluster_zero : V.cluster i 0 = i := rfl

theorem cluster_succ (k : Nat) : V.cluster i (k + 1) = V.cluster (V.next i) k := rfl

theorem cluster_next (k : Nat) : V.next (V.cluster i k) = V.cluster i (k + 1) :=
  (Function.iterate_succ_apply' V.next k i).symm

theorem cluster_cluster (b k : Nat) : V.cluster (V.cluster i b) k = V.cluster i (b + k) := by
  unfold cluster
  rw [← Function.iterate_add_apply, Nat.add_comm]

theorem skipClusters_eq (n : Nat) : V.skipClusters n i =
    if ∀ k < n, V.cluster i (k + 1) < 0xfff7 then .ok (V.cluster i n)
    else .error (.assertion "file.c" 227) := by
  induction n generalizing i with
  | zero => rw [if_pos fun k hk => absurd hk (Nat.not_lt_zero k)]; rfl
  | succ n ih =>
      unfold skipClusters
      by_cases h : V.next i < 0xfff7
      · rw [if_pos h, ih]
        refine if_congr ?_ rfl rfl
        constructor
        · intro hall k hk
          cases k with
          | zero => exact h
          | succ k => exact hall k (by omega)
        · exact fun hall k hk => hall (k + 1) (by omega)
      · rw [if_neg h, if_neg fun hall => h (hall 0 (by omega))]

theorem byteAt_block (b : Nat) {j : Nat} (hj : j < V.clusterSize) :
    V.byteAt i (b * V.clusterSize + j) = V.offset (V.cluster i b) + j := by
  unfold byteAt
  rw [Nat.mul_comm, Nat.mul_add_div (by omega), Nat.mul_add_mod, Nat.div_eq_of_lt hj,
    Nat.mod_eq_of_lt hj, Nat.add_zero]

/-! ## The length of the walk -/

variable (V) in
/-- From `readSize` on there are clusters up to the one at which the sum of the loop's
    condition reaches 2^32. -/
def Wraps (size i readSize : Nat) : Prop :=
  ∃ k, readSize + k * V.clusterSize < size ∧ 2 ^ 32 ≤ readSize + (k + 1) * V.clusterSize ∧
    ∀ j ≤ k, IsData (V.cluster i j)

variable (V) in
/-- `Wraps` for the loop of a read: the chain leads past `position`, and on to the wrap. -/
def ReadWraps (i position size : Nat) : Prop :=
  (∀ k < position / V.clusterSize, V.cluster i (k + 1) < 0xfff7) ∧
    if position % V.clusterSize = 0 then
      V.Wraps size (V.cluster i (position / V.clusterSize)) 0
    else
      2 ≤ V.cluster i (position / V.clusterSize) ∧
        V.Wraps size (V.cluster i (position / V.clusterSize + 1))
          (min size (V.clusterSize - position % V.clusterSize))

variable (V) in
/-- The walk ends with a result or an `ASSERT`, after few copies of few bytes. -/
structure Stops (size : Nat) (P : Plan) : Prop where
  ends : (∃ v, P.2 = .ok v) ∨ ∃ line, P.2 = .error (.assertion "file.c" line)
  copies : P.1.length ≤ size / V.clusterSize + 2
  bytes : copiedBytes P.1 ≤ size

/-- One round less. -/
theorem Wraps.succ (hi : IsData i) (h : V.Wraps size (V.next i) (r + V.clusterSize)) :
    V.Wraps size i r := by
  obtain ⟨k, hk, h32, hdata⟩ := h
  refine ⟨k + 1, ?_, ?_, fun j hj => ?_⟩
  · rw [Nat.succ_mul]
    omega
  · rw [Nat.succ_mul]
    omega
  · cases j with
    | zero => exact hi
    | succ j => exact hdata j (by omega)

/-- Without a wrap every round but the last moves a whole cluster of the request. -/
theorem readClusters_short (hcs : 0 < V.clusterSize) (hr : r ≤ size) (hf : size - r < f)
    (h : ¬ V.Wraps size i r) :
    ((∃ v, (V.readClusters size f i d r).2 = .ok v) ∨
        (V.readClusters size f i d r).2 = .error (.assertion "file.c" 46)) ∧
      (V.readClusters size f i d r).1.length * V.clusterSize < size - r + V.clusterSize ∧
      copiedBytes (V.readClusters size f i d r).1 ≤ size - r := by
  induction f generalizing i d r with
  | zero => omega
  | succ f ih =>
      unfold readClusters
      by_cases hgo : r < size ∧ i < 0xfff7
      · rw [if_pos hgo]
        by_cases h2 : 2 ≤ i
        · rw [if_pos h2]
          have hdata : IsData i := ⟨h2, hgo.2⟩
          -- a sum of 2^32 would be a wrap in the very first round
          have hlt : r + V.clusterSize < 2 ^ 32 := by
            by_contra hle
            refine h ⟨0, by omega, by omega, fun j hj => ?_⟩
            obtain rfl : j = 0 := by omega
            exact hdata
          have hsum : u32 (r + V.clusterSize) = r + V.clusterSize := Nat.mod_eq_of_lt hlt
          rw [hsum]
          by_cases hlast : size ≤ r + V.clusterSize
          · rw [if_pos hlast]
            refine ⟨Or.inl ⟨size, rfl⟩, ?_, ?_⟩
            · simp only [List.length_singleton]
              omega
            · rw [copiedBytes_cons]
              exact Nat.le_refl _
          · rw [if_neg hlast]
            obtain ⟨hends, hlen, hbytes⟩ := ih (i := V.next i) (d := d + V.clusterSize)
              (r := r + V.clusterSize) (by omega) (by omega) fun hw => h (hw.succ hdata)
            refine ⟨hends, ?_, ?_⟩
            · change (_ + 1) * V.clusterSize < _
              rw [Nat.succ_mul]
              omega
            · change copiedBytes (_ :: _) ≤ _
              rw [copiedBytes_cons]
              dsimp only
              omega
        · rw [if_neg h2]
          exact ⟨Or.inr rfl, by simpa using by omega, Nat.zero_le _⟩
      · rw [if_neg hgo]
        exact ⟨Or.inl ⟨r, rfl⟩, by simpa using by omega, Nat.zero_le _⟩

/-- With a wrap the rounds run out, or a whole cluster is copied where less was left. -/
theorem readClusters_over (hcs : V.clusterSize < 2 ^ 32) (hsize : size < 2 ^ 32)
    (h : V.Wraps size i r) :
    (V.readClusters size f i d r).2 = .error .divergence ∨
      size - r < copiedBytes (V.readClusters size f i d r).1 := by
  obtain ⟨k, hk, h32, hdata⟩ := h
  induction k generalizing i d r f with
  | zero =>
      cases f with
      | zero => exact Or.inl rfl
      | succ f =>
          have h0 : IsData i := hdata 0 (Nat.le_refl 0)
          have hsum : u32 (r + V.clusterSize) = r + V.clusterSize - 2 ^ 32 := by
            unfold u32
            omega
          right
          unfold readClusters
          rw [if_pos ⟨by omega, h0.2⟩, if_pos h0.1, if_neg (by omega)]
          change _ < copiedBytes (_ :: _)
          rw [copiedBytes_cons]
          dsimp only
          omega
  | succ k ih =>
      cases f with
      | zero => exact Or.inl rfl
      | succ f =>
          have h0 : IsData i := hdata 0 (by omega)
          rw [Nat.succ_mul] at hk h32
          have hsum : u32 (r + V.clusterSize) = r + V.clusterSize := Nat.mod_eq_of_lt (by omega)
          unfold readClusters
          rw [if_pos ⟨by omega, h0.2⟩, if_pos h0.1, if_neg (by omega), hsum]
          rcases ih (i := V.next i) (d := d + V.clusterSize) (r := r + V.clusterSize)
            (f := f) (by omega) (by omega) fun j hj => hdata (j + 1) (by omega) with hd | hb
          · exact Or.inl hd
          · right
            change _ < copiedBytes (_ :: _)
            rw [copiedBytes_cons]
            dsimp only
            omega

/-- The bytes of the first, partial cluster: the sum in its condition does not wrap. -/
theorem first_size (hcs : 0 < V.clusterSize) (hsize : position + size < 2 ^ 32) :
    (if u32 (position % V.clusterSize + size) ≤ V.clusterSize then size
      else V.clusterSize - position % V.clusterSize) =
      min size (V.clusterSize - position % V.clusterSize) := by
  have hle : position % V.clusterSize ≤ position := Nat.mod_le _ _
  have hlt := Nat.mod_lt position hcs
  have hsum : u32 (position % V.clusterSize + size) = position % V.clusterSize + size :=
    Nat.mod_eq_of_lt (by omega)
  rw [hsum]
  split <;> omega

/-- The walk is short and copies at most `size` bytes, exactly when the sum does not wrap. -/
theorem readRawData_stops_iff {z : Nat} (hcs : 0 < V.clusterSize)
    (hcs32 : V.clusterSize < 2 ^ 32) (hz : z < 2 ^ 32) (h : position + size ≤ z)
    (hf : size < f) :
    V.Stops size (V.readRawData f i position size) ↔ ¬ V.ReadWraps i position size := by
  unfold readRawData ReadWraps
  dsimp only
  rw [skipClusters_eq]
  by_cases hskip : ∀ k < position / V.clusterSize, V.cluster i (k + 1) < 0xfff7
  swap
  · rw [if_neg hskip]
    exact ⟨fun _ hw => hskip hw.1, fun _ => ⟨Or.inr ⟨227, rfl⟩, Nat.zero_le _, Nat.zero_le _⟩⟩
  rw [if_pos hskip]
  dsimp only
  generalize hb : V.cluster i (position / V.clusterSize) = t
  have hnext : V.cluster i (position / V.clusterSize + 1) = V.next t := by
    rw [← cluster_next, hb]
  have hdiv : ∀ n, n * V.clusterSize < size + V.clusterSize → n ≤ size / V.clusterSize + 1 := by
    intro n hn
    have := Nat.div_add_mod size V.clusterSize
    have := Nat.mod_lt size hcs
    by_contra hgt
    have hge := Nat.mul_le_mul_right V.clusterSize (show size / V.clusterSize + 2 ≤ n by omega)
    rw [Nat.add_mul, Nat.mul_comm (size / V.clusterSize)] at hge
    omega
  by_cases ho : position % V.clusterSize = 0
  · rw [if_neg (by omega), if_pos ho]
    constructor
    · rintro ⟨hends, -, hbytes⟩ ⟨-, hw⟩
      rcases readClusters_over (d := 0) (f := f) hcs32 (by omega) hw with hd | hd
      · rw [hd] at hends
        simp at hends
      · omega
    · intro hw
      obtain ⟨hends, hlen, hbytes⟩ := readClusters_short (d := 0) (i := t) (f := f) hcs
        (Nat.zero_le size) (by omega) fun h => hw ⟨hskip, h⟩
      exact ⟨hends.imp id fun he => ⟨46, he⟩, (hdiv _ (by omega)).trans (by omega), by omega⟩
  · rw [if_pos ho, if_neg ho, first_size hcs (by omega), hnext]
    have hlt := Nat.mod_lt position hcs
    by_cases h2 : 2 ≤ t
    swap
    · rw [if_neg h2]
      exact ⟨fun _ hw => h2 hw.2.1, fun _ => ⟨Or.inr ⟨46, rfl⟩, Nat.zero_le _, Nat.zero_le _⟩⟩
    rw [if_pos h2]
    generalize hr : min size (V.clusterSize - position % V.clusterSize) = r
    have hrs : r ≤ size := hr ▸ Nat.min_le_left _ _
    constructor
    · rintro ⟨hends, -, hbytes⟩ ⟨-, -, hw⟩
      change copiedBytes (_ :: _) ≤ _ at hbytes
      rw [copiedBytes_cons] at hbytes
      dsimp only at hbytes
      rcases readClusters_over (d := r) (f := f) hcs32 (by omega) hw with hd | hd
      · rw [show (Plan.after _ _).2 = _ from hd] at hends
        simp at hends
      · omega
    · intro hw
      obtain ⟨hends, hlen, hbytes⟩ := readClusters_short (d := r) (i := V.next t) (f := f) hcs hrs (by omega) fun h => hw ⟨hskip, h2, h⟩
      refine ⟨hends.imp id fun he => ⟨46, he⟩, ?_, ?_⟩
      · have := hdiv _ (Nat.lt_of_lt_of_le hlen (by omega))
        change _ + 1 ≤ _
        omega
      · change copiedBytes (_ :: _) ≤ _
        rw [copiedBytes_cons]
        dsimp only
        omega

/-- A file of one byte. -/
theorem readRawData_stops_byte :
    let V : Volume := ⟨512, fun _ => 0xffff, fun _ => 0⟩
    V.Stops 1 (V.readRawData 2 2 0 1) ↔ ¬ V.ReadWraps 2 0 1 :=
  readRawData_stops_iff (V := ⟨512, fun _ => 0xffff, fun _ => 0⟩) (i := 2) (z := 1) (by decide)
    (by decide) (by decide) (by decide) (by decide)

/-- A chain that leads back to its first cluster, under a file of 2^32 - 1 bytes. -/
def circular : Volume := ⟨512, fun _ => 2, fun _ => 0⟩

theorem circular_cluster (k : Nat) : circular.cluster 2 k = 2 := by
  induction k with
  | zero => rfl
  | succ k ih => exact ih

/-- No number of rounds is enough. -/
theorem circular_endless :
    ¬ ∃ f, circular.Stops (2 ^ 32 - 1) (circular.readRawData f 2 0 (2 ^ 32 - 1)) := by
  have hwraps : circular.Wraps (2 ^ 32 - 1) 2 0 := by
    refine ⟨2 ^ 23 - 1, by decide, by decide, fun j _ => ?_⟩
    rw [circular_cluster]
    exact ⟨by decide, by decide⟩
  rintro ⟨f, hends, -, hbytes⟩
  rcases readClusters_over (d := 0) (f := f) (by decide) (by decide) hwraps with hd | hd
  · rw [show (circular.readRawData f 2 0 (2 ^ 32 - 1)).2 = _ from hd] at hends
    simp at hends
  · have hall : copiedBytes (circular.readRawData f 2 0 (2 ^ 32 - 1)).1 ≤ 2 ^ 32 - 1 := hbytes
    exact absurd hall (Nat.not_le.mpr hd)

/-! ## Reads of a covered request -/

theorem readClusters_done (hf : 0 < f) :
    V.readClusters size f i d size = ([], .ok size) := by
  cases f with
  | zero => omega
  | succ f =>
      unfold readClusters
      rw [if_neg (by omega)]

/-- The loop of a covered request copies the rest of it. -/
theorem readClusters_slice (hcs : 0 < V.clusterSize) (hsize : size + V.clusterSize ≤ 2 ^ 32)
    (hr : r ≤ size) (hf : size - r < f) {b : Nat}
    (hcover : ∀ k, r + k * V.clusterSize < size → IsData (V.cluster i (b + k))) :
    ∃ cs, V.readClusters size f (V.cluster i b) d r = (cs, .ok size) ∧
      Slice (V.byteAt i) d (b * V.clusterSize) (size - r) cs := by
  induction f generalizing b d r with
  | zero => omega
  | succ f ih =>
      unfold readClusters
      by_cases hlt : r < size
      swap
      · rw [if_neg (by omega), show size - r = 0 by omega, show r = size by omega]
        exact ⟨[], rfl, .nil⟩
      have hdata : IsData (V.cluster i b) := hcover 0 (by omega)
      have hsum : u32 (r + V.clusterSize) = r + V.clusterSize := Nat.mod_eq_of_lt (by omega)
      rw [if_pos ⟨hlt, hdata.2⟩, if_pos hdata.1, hsum]
      by_cases hlast : size ≤ r + V.clusterSize
      · rw [if_pos hlast]
        exact ⟨_, rfl, Slice.one (c := ⟨d, V.offset (V.cluster i b), size - r⟩) fun j hj =>
          byteAt_block b (Nat.lt_of_lt_of_le hj (show size - r ≤ V.clusterSize by omega))⟩
      · rw [if_neg hlast, cluster_next]
        obtain ⟨cs, hrun, hslice⟩ := ih (b := b + 1) (d := d + V.clusterSize)
          (r := r + V.clusterSize) (by omega) (by omega) fun k hk => by
            have := hcover (k + 1) (by rw [Nat.succ_mul]; omega)
            rwa [Nat.add_right_comm, Nat.add_assoc]
        refine ⟨_, by rw [hrun]; rfl, ?_⟩
        have hlen : size - r = V.clusterSize + (size - (r + V.clusterSize)) := by omega
        rw [hlen]
        rw [Nat.succ_mul] at hslice
        exact .cons (c := ⟨d, V.offset (V.cluster i b), V.clusterSize⟩) rfl
          (fun j hj => byteAt_block b hj) hslice

/-- A read that the chain covers copies the bytes asked for, in order. -/
theorem readRawData_slice (hcs : 0 < V.clusterSize)
    (hsize : position + size + V.clusterSize ≤ 2 ^ 32) (h0 : 0 < size) (hf : size < f)
    (hcover : V.Covers i (position + size)) :
    ∃ cs, V.readRawData f i position size = (cs, .ok size) ∧
      Slice (V.byteAt i) 0 position size cs := by
  have hpos := Nat.div_add_mod position V.clusterSize
  have hlt := Nat.mod_lt position hcs
  generalize hb : position / V.clusterSize = b at hpos
  generalize ho : position % V.clusterSize = o at hpos hlt
  rw [Nat.mul_comm] at hpos
  have hdata : ∀ k ≤ b, IsData (V.cluster i k) := fun k hk =>
    hcover k (by have := Nat.mul_le_mul_right V.clusterSize hk; omega)
  unfold readRawData
  dsimp only
  rw [skipClusters_eq, hb, ho, if_pos fun k (hk : k < b) => (hdata (k + 1) hk).2]
  dsimp only
  by_cases h : o = 0
  · rw [if_neg (by omega)]
    obtain ⟨cs, hrun, hslice⟩ := readClusters_slice (d := 0) (r := 0) (b := b) hcs (by omega)
      (Nat.zero_le _) hf fun k hk => hcover (b + k) (by rw [Nat.add_mul]; omega)
    rw [show b * V.clusterSize = position by omega] at hslice
    exact ⟨cs, hrun, hslice⟩
  · have hfirst := first_size (V := V) hcs (show position + size < 2 ^ 32 by omega)
    rw [ho] at hfirst
    rw [if_pos (by omega), if_pos (hdata b (Nat.le_refl b)).1, hfirst, cluster_next]
    have hsrc : ∀ j < min size (V.clusterSize - o),
        V.byteAt i (position + j) = V.offset (V.cluster i b) + o + j := by
      intro j hj
      rw [Nat.add_assoc, ← byteAt_block b (by omega), ← hpos, Nat.add_assoc]
    by_cases hall : size ≤ V.clusterSize - o
    · -- the request ends in the first cluster
      rw [Nat.min_eq_left hall] at hsrc ⊢
      exact ⟨_, by rw [readClusters_done (by omega)]; rfl,
        Slice.one (c := ⟨0, V.offset (V.cluster i b) + o, size⟩) hsrc⟩
    · rw [Nat.min_eq_right (by omega)] at hsrc ⊢
      obtain ⟨cs, hrun, hslice⟩ := readClusters_slice (i := i) (b := b + 1) (f := f)
        (d := V.clusterSize - o) (r := V.clusterSize - o) hcs
        (show size + V.clusterSize ≤ 2 ^ 32 by omega) (by omega) (by omega) fun k hk =>
          hcover (b + 1 + k) (by rw [Nat.add_mul, Nat.succ_mul]; omega)
      refine ⟨_, by rw [hrun]; rfl, ?_⟩
      have hnext : (b + 1) * V.clusterSize = position + (V.clusterSize - o) := by
        rw [Nat.succ_mul]
        omega
      rw [hnext] at hslice
      have hlen : size = V.clusterSize - o + (size - (V.clusterSize - o)) := by omega
      rw [hlen]
      exact .cons (c := ⟨0, V.offset (V.cluster i b) + o, V.clusterSize - o⟩) rfl hsrc
        (by rwa [Nat.zero_add, ← hlen])

/-! ## Assertions -/

end Volume

end Os64
