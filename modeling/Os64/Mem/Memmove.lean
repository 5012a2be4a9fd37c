/-
  `memcpy` and `memmove` move a range as if through a buffer.

  * `repMovsb_up`, `repMovsb_down`: what the string instruction has moved after some rounds, in
    each direction.
  * `memmove_copies`: whichever way the ranges overlap, the routine is `copy`.
-/
import Os64.Kernel.LibAsm

namespace Os64

open Os64.Lib

namespace CopyState

variable {s : CopyState} {n d src : Nat}

theorem movsb_mem (s : CopyState) :
    s.movsb.mem = Function.update s.mem s.rdi (s.mem s.rsi) := rfl

theorem movsb_up (hdf : s.df = false) :
    s.movsb.df = false ∧ s.movsb.rdi = u64 (s.rdi + 1) ∧ s.movsb.rsi = u64 (s.rsi + 1) := by
  unfold movsb
  rw [hdf]
  exact ⟨rfl, rfl, rfl⟩

theorem movsb_down (hdf : s.df = true) :
    s.movsb.df = true ∧ s.movsb.rdi = u64 (s.rdi + (2 ^ 64 - 1)) ∧
      s.movsb.rsi = u64 (s.rsi + (2 ^ 64 - 1)) := by
  unfold movsb
  rw [hdf]
  exact ⟨rfl, rfl, rfl⟩

/-- Upwards no byte of the source is read after it was written, if the destination begins below
    the source or behind its end. -/
theorem repMovsb_up (hdf : s.df = false) (hd : s.rdi + n ≤ 2 ^ 64) (hs : s.rsi + n ≤ 2 ^ 64)
    (hle : s.rdi ≤ s.rsi ∨ s.rsi + n ≤ s.rdi) :
    (repMovsb n s).mem = copy s.mem s.rdi s.rsi n := by
  induction n generalizing s with
  | zero => exact (copy_zero _ _ _).symm
  | succ n ih =>
      obtain ⟨hdf', hrdi, hrsi⟩ := movsb_up hdf
      have hrest : (repMovsb n s.movsb).mem = copy s.movsb.mem (s.rdi + 1) (s.rsi + 1) n := by
        rcases Nat.eq_zero_or_pos n with rfl | hn
        · exact (copy_zero _ _ _).symm
        · have hrdi : s.movsb.rdi = s.rdi + 1 := hrdi.trans (Nat.mod_eq_of_lt (by omega))
          have hrsi : s.movsb.rsi = s.rsi + 1 := hrsi.trans (Nat.mod_eq_of_lt (by omega))
          rw [ih hdf' (by omega) (by omega) (by omega), hrdi, hrsi]
      change (repMovsb n s.movsb).mem = _
      rw [hrest, movsb_mem]
      funext x
      by_cases hx : x = s.rdi
      · rw [hx, copy_of_outside _ _ _ _ (by omega), Function.update_self,
          copy_of_inside _ (by omega) (by omega), Nat.sub_self, Nat.add_zero]
      · by_cases hin : s.rdi ≤ x ∧ x < s.rdi + (n + 1)
        · rw [copy_of_inside _ (by omega) (by omega), Function.update_of_ne (by omega),
            copy_of_inside _ hin.1 hin.2]
          congr 1
          omega
        · rw [copy_of_outside _ _ _ _ (by omega), Function.update_of_ne hx,
            copy_of_outside _ _ _ _ (by omega)]

/-- Downwards from the last byte, if the destination begins behind the start of the source. -/
theorem repMovsb_down (hdf : s.df = true) (hd : d + n ≤ 2 ^ 64) (hs : src + n ≤ 2 ^ 64)
    (hlast : 0 < n → s.rdi + 1 = d + n ∧ s.rsi + 1 = src + n) (hle : src ≤ d) :
    (repMovsb n s).mem = copy s.mem d src n := by
  induction n generalizing s with
  | zero => exact (copy_zero _ _ _).symm
  | succ n ih =>
      obtain ⟨hdf', hrdi, hrsi⟩ := movsb_down hdf
      obtain ⟨h1, h2⟩ := hlast (Nat.succ_pos n)
      have hrest : (repMovsb n s.movsb).mem = copy s.movsb.mem d src n := by
        refine ih hdf' (by omega) (by omega) fun hn => ?_
        rw [hrdi, hrsi]
        unfold u64
        omega
      change (repMovsb n s.movsb).mem = _
      rw [hrest, movsb_mem, show s.rdi = d + n by omega, show s.rsi = src + n by omega]
      funext x
      by_cases hx : x = d + n
      · rw [hx, copy_of_outside _ _ _ _ (by omega), Function.update_self,
          copy_of_inside _ (by omega) (by omega), Nat.add_sub_cancel_left]
      · by_cases hin : d ≤ x ∧ x < d + (n + 1)
        · rw [copy_of_inside _ (by omega) (by omega), Function.update_of_ne (by omega),
            copy_of_inside _ hin.1 hin.2]
        · rw [copy_of_outside _ _ _ _ (by omega), Function.update_of_ne hx,
            copy_of_outside _ _ _ _ (by omega)]

theorem copyPart_mem (s : CopyState) :
    (copyPart s).mem = (repMovsb (u32 s.rdx) { s with rcx := u32 s.rdx }).mem := rfl

/-- From any registers the routine moves the `rdx` bytes at `rsi` to `rdi`. -/
theorem memmove_copy (hsize : s.rdx < 2 ^ 32) (hd : s.rdi + s.rdx ≤ 2 ^ 64)
    (hs : s.rsi + s.rdx ≤ 2 ^ 64) : (memmove s).mem = copy s.mem s.rdi s.rsi s.rdx := by
  have hcx : u32 s.rdx = s.rdx := Nat.mod_eq_of_lt hsize
  unfold memmove
  dsimp only
  by_cases hle : s.rdi ≤ s.rsi
  · rw [if_pos hle, copyPart_mem, hcx]
    exact repMovsb_up rfl hd hs (Or.inl hle)
  · rw [if_neg hle]
    have hr8 : u64 (s.rsi + s.rdx) = s.rsi + s.rdx := Nat.mod_eq_of_lt (by omega)
    rw [hr8]
    by_cases hoff : s.rsi + s.rdx ≤ s.rdi
    · rw [if_pos hoff, copyPart_mem]
      dsimp only
      rw [hcx]
      exact repMovsb_up rfl hd hs (Or.inr hoff)
    · rw [if_neg hoff, copyPart_mem]
      unfold overlapPart
      dsimp only
      rw [hcx]
      refine repMovsb_down rfl hd hs (fun _ => ?_) (by omega)
      unfold u64
      dsimp only
      omega

/-- Whichever way the two ranges overlap, the destination ends up with the bytes that the source
    held before the call, and nothing else changes. -/
theorem memmove_copies (s : CopyState) (hsize : s.rdx < 2 ^ 31) (hd : s.rdi + s.rdx ≤ 2 ^ 64)
    (hs : s.rsi + s.rdx ≤ 2 ^ 64) :
    (∀ k < s.rdx, (memmove s).mem (s.rdi + k) = s.mem (s.rsi + k)) ∧
      (∀ x, x < s.rdi ∨ s.rdi + s.rdx ≤ x → (memmove s).mem x = s.mem x) ∧
      memcpy s = memmove s := by
  rw [memmove_copy (by omega) hd hs]
  refine ⟨fun k hk => ?_, fun x hx => copy_of_outside _ _ _ _ hx, rfl⟩
  rw [copy_of_inside _ (by omega) (by omega), Nat.add_sub_cancel_left]

/-- Three bytes, one address up. -/
def overlapping : CopyState := ⟨2, 1, 3, 0, 0, false, fun x => UInt8.ofNat x⟩

theorem memmove_copies_overlapping :
    (∀ k < 3, (memmove overlapping).mem (2 + k) = UInt8.ofNat (1 + k)) ∧
      (∀ x, x < 2 ∨ 5 ≤ x → (memmove overlapping).mem x = UInt8.ofNat x) ∧
      memcpy overlapping = memmove overlapping :=
  memmove_copies overlapping (by decide) (by decide) (by decide)

end CopyState

end Os64
