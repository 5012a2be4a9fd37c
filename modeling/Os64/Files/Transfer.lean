/-
  `read_raw_data` performs what `Volume.readRawData` lists.

  * `readRawData_plan`: a read to the lower half of the address space is its plan's copies
    one after the other, and then the plan's end.
  * `moveCopies_run`: copies within the user page succeed, and memory after them.
-/
import Os64.Files.Read
import Os64.Files.Volume

namespace Os64

open Os64.Lib

variable {K : Image} {s s' : Kernel} {page : Nat} {supplied : Bool}

/-- The `memcpy`s from the volume at `bpb` to the buffer. -/
def moveCopies (K : Image) (supplied : Bool) (buffer bpb : Nat) (cs : List Copy) : LowM Unit :=
  forM cs fun c => memcpyVirt K supplied (buffer + c.dst) (bpb + c.src) c.n

def Plan.finish (P : Plan) : LowM Nat :=
  match P.2 with
  | .ok v => pure v
  | .error e => throw e

def Plan.perform (K : Image) (P : Plan) (supplied : Bool) (buffer bpb : Nat) : LowM Nat := do
  moveCopies K supplied buffer bpb P.1
  P.finish

/-- The first copy, and the rest. -/
theorem Plan.perform_after (P : Plan) (c : Copy) (buffer bpb : Nat) :
    (P.after c).perform K supplied buffer bpb s = (do
      memcpyVirt K supplied (buffer + c.dst) (bpb + c.src) c.n
      P.perform K supplied buffer bpb : LowM Nat) s := by
  change ((do
    memcpyVirt K supplied (buffer + c.dst) (bpb + c.src) c.n
    moveCopies K supplied buffer bpb P.1) >>= fun _ => P.finish) s = _
  rw [bind_assoc]
  rfl

/-- A first step that either fails in both programs or goes on in both. -/
theorem bind_congr_run {α β : Type} {x : LowM α} {f g : α → LowM β}
    (h : ∀ a s₁, x s = .ok a s₁ → f a s₁ = g a s₁) : (x >>= f) s = (x >>= g) s := by
  cases hx : x s with
  | ok a s₁ => rw [bind_run hx, bind_run hx, h a s₁ hx]
  | error e s₁ => rw [bind_error.mpr (Or.inl hx), bind_error.mpr (Or.inl hx)]

/-- The image is not in a page. -/
theorem Pokes.image {A : Nat → Prop} (h : Pokes [page] A s s') (hp : ValidPage K page) :
    ∀ x, fsBase ≤ x → s'.ram.mem x = s.ram.mem x := fun x hx =>
  h.wrote.mem x fun p hm => by
    rw [List.mem_singleton.mp hm]
    rintro ⟨-, h2⟩
    have := hp.below
    unfold fsBase at hx
    omega

section Plan

variable {buffer size : Nat}

/-- What the loop copies, at the address of the volume. -/
theorem volume_data (m : Mem) (i : Nat) (o : Nat) (ho : o < 2 ^ 24) :
    u64 (volumeStart m + kernelBase + (volumeAt m).offset i + o) =
      volumeStart m + kernelBase + ((volumeAt m).offset i + o) := by
  have h1 := volumeStart_lt m
  have h2 := offset_lt m i
  unfold u64
  rw [kernelBase_eq]
  omega

theorem readClusters_plan (hcs : (volumeAt s.ram.mem).clusterSize ≠ 0) {fuel i d r : Nat}
    (hsp : Space K s.ram.mem s.cr3 page) (hm : Mounted s.ram.mem) (hi : i < 2 ^ 16)
    (hbuf : buffer + d < kernelBase) :
    readClusters K supplied (volumeStart s.ram.mem + kernelBase) (volumeAt s.ram.mem).clusterSize size
        fuel i (buffer + d) r s =
      ((volumeAt s.ram.mem).readClusters size fuel i d r).perform K supplied buffer
        (volumeStart s.ram.mem + kernelBase) s := by
  have hcs24 := clusterSize_lt s.ram.mem
  generalize hV : volumeAt s.ram.mem = V at hcs hcs24 ⊢
  generalize hb : volumeStart s.ram.mem = b
  induction fuel generalizing s i d r with
  | zero => rfl
  | succ fuel ih =>
      unfold readClusters Volume.readClusters
      by_cases hgo : r < size ∧ i < 0xfff7
      swap
      · rw [if_neg hgo, if_neg hgo]
        rfl
      rw [if_pos hgo, if_pos hgo]
      have hoff := getClusterOffset_run hm i
      rw [hV] at hoff
      by_cases h2 : 2 ≤ i
      swap
      · rw [if_neg h2] at hoff ⊢
        exact bind_error.mpr (Or.inl (onPart_error.mpr ⟨_, _, hoff, rfl, rfl⟩))
      rw [if_pos h2] at hoff ⊢
      have hdata := volume_data s.ram.mem i 0 (by decide)
      rw [hV, hb, Nat.add_zero, Nat.add_zero] at hdata
      rw [bind_run (ram_run hoff), hdata]
      by_cases hlast : size ≤ u32 (r + V.clusterSize)
      · rw [if_pos hlast, if_pos hlast]
        exact (Plan.perform_after ([], .ok size) ⟨d, V.offset i, size - r⟩ _ _).symm
      · rw [if_neg hlast, if_neg hlast, Plan.perform_after]
        refine bind_congr_run fun _ s₁ h₁ => ?_
        -- the copy has changed the user page only
        obtain ⟨hend, hpokes⟩ := memcpyVirt_fits hsp hbuf (by omega) (Nat.pos_of_ne_zero hcs)
          (by omega) h₁
        have himage := hpokes.image hsp.pageValid
        obtain ⟨hstart, hvol⟩ := volumeAt_congr himage hm
        have hm₁ := hm.congr himage
        have hval := getClusterValue_run hm₁ hi
        rw [hvol, hV] at hval
        have hu : u64 (buffer + d + V.clusterSize) = buffer + (d + V.clusterSize) := by
          unfold u64
          omega
        rw [bind_run (ram_run hval), hu]
        exact ih (hpokes.space hsp) hm₁ (hV ▸ next_lt _ _) (by rw [kernelBase_eq]; omega)
          (hvol.trans hV) (hstart.trans hb)

/-- A read to the lower half of the address space performs its plan. -/
theorem readRawData_plan {cluster position : Nat} (hsp : Space K s.ram.mem s.cr3 page)
    (hm : Mounted s.ram.mem) (hcs : (volumeAt s.ram.mem).clusterSize ≠ 0) (hi : cluster < 2 ^ 16)
    (hsize : size < 2 ^ 32) (hbuf : buffer < kernelBase) :
    readRawData K supplied cluster buffer position size s =
      ((volumeAt s.ram.mem).readRawData (2 ^ 32) cluster position size).perform K supplied buffer
        (volumeStart s.ram.mem + kernelBase) s := by
  have hcs24 := clusterSize_lt s.ram.mem
  have hskip := skipClusters_run hm (position / (volumeAt s.ram.mem).clusterSize) hi
  have hnext : ∀ v, (volumeAt s.ram.mem).skipClusters
      (position / (volumeAt s.ram.mem).clusterSize) cluster = .ok v → v < 2 ^ 16 := by
    intro v hv
    rw [Volume.skipClusters_eq] at hv
    split at hv
    · obtain rfl := Except.ok.inj hv
      cases position / (volumeAt s.ram.mem).clusterSize with
      | zero => exact hi
      | succ n =>
          rw [← Volume.cluster_next]
          exact next_lt _ _
    · cases hv
  unfold readRawData Volume.readRawData
  rw [bind_run (ram_run (getClusterSize_run hm)), bind_run (ensure_run hcs _ _)]
  dsimp only
  have hoff := Nat.mod_lt position (Nat.pos_of_ne_zero hcs)
  generalize hres : (volumeAt s.ram.mem).skipClusters
    (position / (volumeAt s.ram.mem).clusterSize) cluster = res at hskip hnext ⊢
  cases res with
  | error e => exact bind_error.mpr (Or.inl (onPart_error.mpr ⟨_, _, hskip, rfl, rfl⟩))
  | ok v =>
      have hv := hnext v rfl
      rw [bind_run (ram_run hskip), bind_run (ram_run (getFsBpb_run s.ram))]
      dsimp only
      by_cases ho : position % (volumeAt s.ram.mem).clusterSize = 0
      · rw [if_neg (by omega), if_neg (by omega)]
        exact readClusters_plan (d := 0) hcs hsp hm hv hbuf
      · rw [if_pos ho, if_pos ho]
        generalize hn : (if u32 (position % (volumeAt s.ram.mem).clusterSize + size) ≤
          (volumeAt s.ram.mem).clusterSize then size
          else (volumeAt s.ram.mem).clusterSize - position % (volumeAt s.ram.mem).clusterSize) = n
        have hn32 : n < 2 ^ 32 := by split at hn <;> omega
        have hoff := getClusterOffset_run hm v
        by_cases h2 : 2 ≤ v
        swap
        · rw [if_neg h2] at hoff ⊢
          exact bind_error.mpr (Or.inl (onPart_error.mpr ⟨_, _, hoff, rfl, rfl⟩))
        rw [if_pos h2] at hoff ⊢
        rw [bind_run (ram_run hoff), volume_data _ _ _ (by omega), Plan.perform_after]
        refine bind_congr_run fun _ s₁ h₁ => ?_
        have hends : buffer + n < kernelBase ∧ Pokes [page] (fun _ => True) s s₁ := by
          rcases Nat.eq_zero_or_pos n with h0 | hpos
          · rw [h0, memcpyVirt_zero] at h₁
            obtain rfl : s = s₁ := (EStateM.Result.ok.inj h₁).2
            rw [h0]
            exact ⟨hbuf, .refl _ _ _⟩
          · obtain ⟨hend, hpokes⟩ := memcpyVirt_fits hsp hbuf (by omega) hpos hn32 h₁
            rw [kernelBase_eq]
            exact ⟨by omega, hpokes⟩
        obtain ⟨hend, hpokes⟩ := hends
        have himage := hpokes.image hsp.pageValid
        obtain ⟨hstart, hvol⟩ := volumeAt_congr himage hm
        have hm₁ := hm.congr himage
        have hu : u64 (buffer + n) = buffer + n := by
          unfold u64
          rw [kernelBase_eq] at hend
          omega
        rw [bind_run (ram_run (getClusterValue_run hm₁ hv)), hu, ← hstart, ← hvol]
        exact readClusters_plan (hvol.symm ▸ hcs) (hpokes.space hsp) hm₁ (next_lt _ _) hend

end Plan

/-! ## The copies -/

section Copies

variable {buffer start : Nat} {cs : List Copy}

/-- The bytes that the copies store through the buffer. -/
def storedCopies (supplied : Bool) (buffer : Nat) (cs : List Copy) : List Obs :=
  cs.flatMap fun c => storedBytes supplied (buffer + c.dst) c.n

/-- The state after the copies to `base`, where the buffer lies. -/
def Kernel.moved (s : Kernel) (supplied : Bool) (buffer base start : Nat) (cs : List Copy) : Kernel :=
  { s with
    ram := { s.ram with mem := copyAll base start s.ram.mem cs }
    hist := s.hist ++ storedCopies supplied buffer cs }

theorem Kernel.moved_nil (s : Kernel) (supplied : Bool) (buffer base start : Nat) :
    s.moved supplied buffer base start [] = s := by
  unfold Kernel.moved storedCopies copyAll
  rw [List.flatMap_nil, List.append_nil]

theorem Kernel.moved_cons (s : Kernel) (supplied : Bool) (buffer base start : Nat) (c : Copy)
    (cs : List Copy) : s.moved supplied buffer base start (c :: cs) =
      (s.copied supplied (base + c.dst) (buffer + c.dst) (start + c.src) c.n).moved supplied buffer
        base start cs := by
  unfold Kernel.moved Kernel.copied storedCopies
  rw [List.flatMap_cons, List.append_assoc]
  rfl

/-- Copies from the image into the user page. -/
theorem moveCopies_run (hsp : Space K s.ram.mem s.cr3 page) {base : Nat}
    (hbase : base + 0x400000 = page + buffer)
    (hdst : ∀ c ∈ cs, 0x400000 ≤ buffer + c.dst ∧ buffer + c.dst + c.n ≤ 0x600000)
    (hsrc : ∀ c ∈ cs, ∀ j < c.n, fsBase ≤ start + (c.src + j) ∧ start + (c.src + j) < 2 ^ 30) :
    moveCopies K supplied buffer (start + kernelBase) cs s =
      .ok () (s.moved supplied buffer base start cs) := by
  induction cs generalizing s with
  | nil =>
      rw [Kernel.moved_nil]
      rfl
  | cons c cs ih =>
      obtain ⟨hd1, hd2⟩ := hdst c List.mem_cons_self
      have hs := hsrc c List.mem_cons_self
      have hc : memcpyVirt K supplied (buffer + c.dst) (start + c.src + kernelBase) c.n s =
          .ok () (s.copied supplied (base + c.dst) (buffer + c.dst) (start + c.src) c.n) := by
        rcases Nat.eq_zero_or_pos c.n with h0 | hpos
        · rw [h0, memcpyVirt_zero, Kernel.copied_zero]
        · have hfirst := hs 0 hpos
          have hlast := hs (c.n - 1) (by omega)
          exact memcpyVirt_run hsp supplied (show base + c.dst + 0x400000 = page + (buffer + c.dst) by omega)
            hd1 hd2 (show fsBase ≤ start + c.src by omega) (by omega)
      have hsp₁ : Space K (copy s.ram.mem (base + c.dst) (start + c.src) c.n) s.cr3 page := by
        refine hsp.written fun x hx => copy_of_outside s.ram.mem (base + c.dst) (start + c.src) c.n ?_
        have hout : ¬ (page ≤ x ∧ x < page + pageSize) := hx page (List.mem_singleton_self page)
        rw [pageSize_eq] at hout
        omega
      have hrest := ih (s := s.copied supplied (base + c.dst) (buffer + c.dst) (start + c.src) c.n) hsp₁
        (fun c' hc' => hdst c' (List.mem_cons_of_mem _ hc'))
        fun c' hc' => hsrc c' (List.mem_cons_of_mem _ hc')
      unfold moveCopies at hrest ⊢
      rw [List.forM_cons, Nat.add_right_comm start, bind_run hc, Kernel.moved_cons]
      exact hrest

end Copies

end Os64
