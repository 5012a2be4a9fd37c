/-
  Moving a sequence of bytes in pieces.

  A list of copies gathers the bytes of a sequence that lies scattered over memory into
  one range. `Slice src d p n cs`: the copies bring the bytes at positions `p` to
  `p + n` of the sequence, in order and each once, to the destinations from `d` on.

  * `Slice.append`: a slice and the one that follows it.
  * `Slice.inside`: no copy leaves the `n` bytes of its destination.
  * `Slice.copyAll`: memory after the copies.
-/
import Os64.Lib.Bytes

namespace Os64.Lib

/-- `n` bytes from `src` to `dst`, both counted from where their area begins. -/
structure Copy where
  dst : Nat
  src : Nat
  n : Nat
  deriving DecidableEq, Repr

/-- Memory after the copies; the destinations begin at `base` and the sources at `start`. -/
def copyAll (base start : Nat) (m : Mem) : List Copy → Mem
  | [] => m
  | c :: cs => copyAll base start (copy m (base + c.dst) (start + c.src) c.n) cs

theorem copyAll_concat (base start : Nat) (c : Copy) (cs : List Copy) (m : Mem) :
    copyAll base start m (cs ++ [c]) =
      copy (copyAll base start m cs) (base + c.dst) (start + c.src) c.n := by
  induction cs generalizing m with
  | nil => rfl
  | cons b cs ih => exact ih (copy m (base + b.dst) (start + b.src) b.n)

def copiedBytes (cs : List Copy) : Nat := (cs.map Copy.n).sum

/-- Byte `j` of the sequence lies at `src j`. -/
inductive Slice (src : Nat → Nat) : Nat → Nat → Nat → List Copy → Prop
  | nil {d p : Nat} : Slice src d p 0 []
  | cons {d p n : Nat} {c : Copy} {cs : List Copy} (hd : c.dst = d)
      (hsrc : ∀ j < c.n, src (p + j) = c.src + j) (h : Slice src (d + c.n) (p + c.n) n cs) :
      Slice src d p (c.n + n) (c :: cs)

section Slice

variable {src : Nat → Nat} {d p n : Nat} {cs : List Copy}

theorem copiedBytes_cons (c : Copy) (cs : List Copy) :
    copiedBytes (c :: cs) = c.n + copiedBytes cs := by
  unfold copiedBytes
  rw [List.map_cons, List.sum_cons]

/-- One copy. -/
theorem Slice.one {c : Copy} (hsrc : ∀ j < c.n, src (p + j) = c.src + j) :
    Slice src c.dst p c.n [c] := .cons rfl hsrc .nil

theorem Slice.append {n' : Nat} {cs' : List Copy} (h : Slice src d p n cs)
    (h' : Slice src (d + n) (p + n) n' cs') : Slice src d p (n + n') (cs ++ cs') := by
  induction h with
  | nil => simpa using h'
  | cons hd hsrc _ ih =>
      rw [Nat.add_assoc]
      refine .cons hd hsrc (ih ?_)
      rwa [Nat.add_assoc, Nat.add_assoc]

theorem Slice.inside (h : Slice src d p n cs) : ∀ c ∈ cs, d ≤ c.dst ∧ c.dst + c.n ≤ d + n := by
  induction h with
  | nil => intro c hc; cases hc
  | cons hd _ _ ih =>
      intro c hc
      rcases List.mem_cons.mp hc with rfl | hc
      · omega
      · have := ih c hc
        omega

/-- What a copy needs lies inside the slice. -/
theorem Slice.source (h : Slice src d p n cs) : ∀ c ∈ cs, ∃ k, k + c.n ≤ n ∧ c.dst = d + k ∧
    ∀ j < c.n, src (p + k + j) = c.src + j := by
  induction h with
  | nil => intro c hc; cases hc
  | @cons d p n b cs hd hsrc _ ih =>
      intro c hc
      rcases List.mem_cons.mp hc with rfl | hc
      · exact ⟨0, by omega, hd, hsrc⟩
      · obtain ⟨k, hk, hdst, hj⟩ := ih c hc
        refine ⟨b.n + k, by omega, by omega, fun j hlt => ?_⟩
        rw [← hj j hlt, ← Nat.add_assoc]

/-- The destination holds the slice; all other bytes are as before. The sources lie outside
    the destination. -/
theorem Slice.copyAll {base start : Nat} (h : Slice src d p n cs) {m : Mem}
    (hoff : ∀ j < n, start + src (p + j) < base + d ∨ base + d + n ≤ start + src (p + j)) (x : Nat) :
    copyAll base start m cs x =
      if base + d ≤ x ∧ x < base + d + n then m (start + src (p + (x - (base + d)))) else m x := by
  induction h generalizing m with
  | nil => rw [if_neg (by omega)]; rfl
  | @cons d p n c cs hd hsrc _ ih =>
      subst hd
      -- a byte of the first copy's source, and of a later source, before and after that copy
      have hkeep : ∀ j, j < c.n + n → copy m (base + c.dst) (start + c.src) c.n (start + src (p + j)) =
          m (start + src (p + j)) := fun j hj =>
        copy_of_outside _ _ _ _ (by have := hoff j hj; omega)
      change Os64.Lib.copyAll base start (copy m (base + c.dst) (start + c.src) c.n) cs x = _
      rw [ih fun j hj => by
        have := hoff (c.n + j) (by omega)
        rw [← Nat.add_assoc] at this
        omega]
      by_cases hx : base + (c.dst + c.n) ≤ x ∧ x < base + (c.dst + c.n) + n
      · have hpos : p + c.n + (x - (base + (c.dst + c.n))) = p + (x - (base + c.dst)) := by omega
        rw [if_pos hx, if_pos (by omega), hpos, hkeep _ (by omega)]
      · rw [if_neg hx]
        by_cases hx' : base + c.dst ≤ x ∧ x < base + c.dst + c.n
        · rw [if_pos (by omega), copy_of_inside _ hx'.1 (by omega), hsrc _ (by omega), Nat.add_assoc]
        · rw [if_neg (by omega), copy_of_outside _ _ _ _ (by omega)]

end Slice

end Os64.Lib
