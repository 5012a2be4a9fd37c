/-
  Byte-addressed memory with little-endian loads and stores.

  `load m a n` is the `n`-byte value at `a`; `store m a n v` writes the low `n`
  bytes of `v` there. `fill` sets a range to one byte and `copy` moves a range;
  `copy` reads the memory it is given, so overlapping ranges are moved as if
  through a buffer.

  Each operation has one lemma for the bytes it writes and one for the bytes it
  leaves alone; `load_congr` turns the latter into equal loads.
-/
import Mathlib.Algebra.Ring.Nat
import Mathlib.Tactic.Ring
import Mathlib.Logic.Function.Basic

namespace Os64.Lib

/-- Memory: one byte at each address. -/
abbrev Mem := Nat → UInt8

/-- The little-endian value of the `n` bytes at `a`. -/
def load (m : Mem) (a : Nat) : Nat → Nat
  | 0 => 0
  | n + 1 => (m a).toNat + 256 * load m (a + 1) n

/-- Write the low `n` bytes of `v` at `a`, least significant first. -/
def store (m : Mem) (a : Nat) : Nat → Nat → Mem
  | 0, _ => m
  | n + 1, v => store (Function.update m a (UInt8.ofNat v)) (a + 1) n (v / 256)

/-- Set the `n` bytes at `a` to `b`. -/
def fill (m : Mem) (a n : Nat) (b : UInt8) : Mem :=
  fun x => if a ≤ x ∧ x < a + n then b else m x

/-- Move the `n` bytes at `src` to `dst`. -/
def copy (m : Mem) (dst src n : Nat) : Mem :=
  fun x => if dst ≤ x ∧ x < dst + n then m (src + (x - dst)) else m x

/-! ## Loads -/

theorem load_lt (m : Mem) (a n : Nat) : load m a n < 256 ^ n := by
  induction n generalizing a with
  | zero => simp [load]
  | succ n ih =>
      have h := ih (a + 1)
      have hb := (m a).toNat_lt
      simp only [load]
      rw [Nat.pow_succ]
      omega

theorem load_congr {m m' : Mem} {a n : Nat} (h : ∀ x, a ≤ x → x < a + n → m x = m' x) :
    load m a n = load m' a n := by
  induction n generalizing a with
  | zero => rfl
  | succ n ih =>
      simp only [load]
      rw [h a (Nat.le_refl a) (by omega), ih (fun x h1 h2 => h x (by omega) (by omega))]

theorem load_zero {m : Mem} {a n : Nat} (h : ∀ x, a ≤ x → x < a + n → m x = 0) :
    load m a n = 0 := by
  induction n generalizing a with
  | zero => rfl
  | succ n ih =>
      simp only [load]
      rw [h a (Nat.le_refl a) (by omega), ih (fun x h1 h2 => h x (by omega) (by omega))]
      rfl

/-! ## Stores -/

theorem store_of_outside (m : Mem) (a n v : Nat) {x : Nat} (hx : x < a ∨ a + n ≤ x) :
    store m a n v x = m x := by
  induction n generalizing m a v with
  | zero => rfl
  | succ n ih =>
      simp only [store]
      rw [ih _ _ _ (by omega), Function.update_of_ne (by omega)]

theorem load_store_self (m : Mem) (a n v : Nat) : load (store m a n v) a n = v % 256 ^ n := by
  induction n generalizing m a v with
  | zero => simp [load, Nat.mod_one]
  | succ n ih =>
      simp only [load, store]
      have hb : (UInt8.ofNat v).toNat = v % 256 := by simp
      rw [ih, store_of_outside _ _ _ _ (Or.inl (Nat.lt_succ_self a)), Function.update_self, hb,
        Nat.pow_succ, Nat.mul_comm (256 ^ n) 256, Nat.mod_mul]

theorem load_store_of_disjoint (m : Mem) (a n v : Nat) {b k : Nat}
    (h : b + k ≤ a ∨ a + n ≤ b) : load (store m a n v) b k = load m b k :=
  load_congr fun _ _ _ => store_of_outside m a n v (by omega)

/-- The same store `d` bytes higher. -/
theorem store_shift {m m' : Mem} {d x : Nat} (h : m' (x + d) = m x) (a n v : Nat) :
    store m' (a + d) n v (x + d) = store m a n v x := by
  induction n generalizing m m' a v with
  | zero => exact h
  | succ n ih =>
      simp only [store]
      rw [Nat.add_right_comm]
      refine ih ?_ (a + 1) (v / 256)
      by_cases hx : x = a
      · rw [hx, Function.update_self, Function.update_self]
      · rw [Function.update_of_ne hx, Function.update_of_ne (by omega)]
        exact h

/-- Another lowest byte. -/
theorem load_update (m : Mem) (a n : Nat) (b : UInt8) :
    load (Function.update m a b) a (n + 1) = b.toNat + 256 * (load m a (n + 1) / 256) := by
  have hb := (m a).toNat_lt
  have hrest : load (Function.update m a b) (a + 1) n = load m (a + 1) n :=
    load_congr fun x h1 _ => Function.update_of_ne (by omega) _ _
  simp only [load]
  rw [Function.update_self, hrest]
  omega

/-! ## Fills and copies -/

theorem fill_of_inside (m : Mem) {a n : Nat} (b : UInt8) {x : Nat} (h1 : a ≤ x) (h2 : x < a + n) :
    fill m a n b x = b := if_pos ⟨h1, h2⟩

theorem fill_of_outside (m : Mem) (a n : Nat) (b : UInt8) {x : Nat} (hx : x < a ∨ a + n ≤ x) :
    fill m a n b x = m x := if_neg (by omega)

theorem load_fill_zero (m : Mem) {a n b k : Nat} (h1 : a ≤ b) (h2 : b + k ≤ a + n) :
    load (fill m a n 0) b k = 0 :=
  load_zero fun _ hx1 hx2 => fill_of_inside m 0 (by omega) (by omega)

theorem copy_of_inside (m : Mem) {dst src n x : Nat} (h1 : dst ≤ x) (h2 : x < dst + n) :
    copy m dst src n x = m (src + (x - dst)) := if_pos ⟨h1, h2⟩

theorem copy_of_outside (m : Mem) (dst src n : Nat) {x : Nat} (hx : x < dst ∨ dst + n ≤ x) :
    copy m dst src n x = m x := if_neg (by omega)

theorem copy_zero (m : Mem) (dst src : Nat) : copy m dst src 0 = m :=
  funext fun x => copy_of_outside m dst src 0 (by omega)

/-- One byte more. -/
theorem copy_succ (m : Mem) (dst src n : Nat) : copy m dst src (n + 1) =
    Function.update (copy m dst src n) (dst + n) (m (src + n)) := by
  funext x
  by_cases hx : x = dst + n
  · rw [hx, Function.update_self, copy_of_inside m (by omega) (by omega), Nat.add_sub_cancel_left]
  · rw [Function.update_of_ne hx]
    by_cases hin : dst ≤ x ∧ x < dst + n
    · rw [copy_of_inside m hin.1 (by omega), copy_of_inside m hin.1 hin.2]
    · rw [copy_of_outside m _ _ _ (by omega), copy_of_outside m _ _ _ (by omega)]

theorem load_copy (m : Mem) {dst src n b k : Nat} (h1 : dst ≤ b) (h2 : b + k ≤ dst + n) :
    load (copy m dst src n) b k = load m (src + (b - dst)) k := by
  induction k generalizing b with
  | zero => rfl
  | succ k ih =>
      simp only [load]
      rw [ih (by omega) (by omega), copy_of_inside m h1 (by omega)]
      congr 3
      omega

end Os64.Lib
