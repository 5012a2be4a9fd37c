/-
  Names of a base and an extension, in fields of fixed width.

  A path is split at its first `dot`. The two parts are kept in fields padded with `blank`, and a
  pair of fields is printed without the padding.

  * `base_printed`, `ext_printed`: a printed name is split into the parts it was made of.
  * `pad_trim`: padding restores a field.
-/
import Mathlib.Data.List.DropRight
import Mathlib.Data.List.TakeWhile

namespace Os64.Lib.ShortName

variable {α : Type} [DecidableEq α] (dot blank : α)

/-- What stands before the first dot. -/
def base (p : List α) : List α := p.takeWhile (· != dot)

/-- What stands after the first dot. -/
def ext (p : List α) : List α := (p.dropWhile (· != dot)).tail

def pad (n : Nat) (l : List α) : List α := l ++ List.replicate (n - l.length) blank

/-- A field without its padding. -/
def trim (l : List α) : List α := l.rdropWhile (· == blank)

/-- The printed form of two fields; the dot stands only before a non-empty extension. -/
def printed (b e : List α) : List α :=
  if trim blank e = [] then trim blank b else trim blank b ++ dot :: trim blank e

variable {dot blank}

theorem trim_subset {l : List α} {x : α} (h : x ∈ trim blank l) : x ∈ l :=
  (List.rdropWhile_prefix (· == blank) l).subset h

theorem trim_length (l : List α) : (trim blank l).length ≤ l.length :=
  (List.rdropWhile_prefix (· == blank) l).length_le

theorem pad_trim {n : Nat} {l : List α} (h : l.length = n) : pad blank n (trim blank l) = l := by
  have hsplit : trim blank l ++ l.rtakeWhile (· == blank) = l :=
    List.rdropWhile_append_rtakeWhile
  have hall : l.rtakeWhile (· == blank) =
      List.replicate (l.rtakeWhile (· == blank)).length blank :=
    List.eq_replicate_of_mem fun x hx => by simpa using List.mem_rtakeWhile_imp hx
  have hlen := congrArg List.length hsplit
  rw [List.length_append] at hlen
  unfold pad
  rw [show n - (trim blank l).length = (l.rtakeWhile (· == blank)).length by omega, ← hall, hsplit]

omit [DecidableEq α] in
/-- The next character of a field goes where its padding begins. -/
theorem pad_set {n : Nat} {l : List α} (h : l.length < n) (c : α) :
    (pad blank n l).set l.length c = pad blank n (l ++ [c]) := by
  unfold pad
  rw [List.set_append_right _ _ (Nat.le_refl _), Nat.sub_self,
    show n - l.length = (n - (l ++ [c]).length) + 1 by rw [List.length_append, List.length_singleton]; omega,
    List.replicate_succ, List.set_cons_zero, List.append_assoc]
  rfl

/-- No character of a base is the dot. -/
theorem base_of_not_mem {p : List α} (h : dot ∉ p) : base dot p = p ∧ ext dot p = [] := by
  have hall : ∀ x ∈ p, (x != dot) = true := fun x hx => by
    simp only [bne_iff_ne, ne_eq]
    exact fun he => h (he ▸ hx)
  constructor
  · exact List.takeWhile_eq_self_iff.mpr hall
  · unfold ext
    rw [List.dropWhile_eq_nil_iff.mpr hall]
    rfl

theorem base_append {b e : List α} (h : dot ∉ b) :
    base dot (b ++ dot :: e) = b ∧ ext dot (b ++ dot :: e) = e := by
  have hall : ∀ x ∈ b, (x != dot) = true := fun x hx => by
    simp only [bne_iff_ne, ne_eq]
    exact fun he => h (he ▸ hx)
  unfold base ext
  rw [List.takeWhile_append_of_pos hall, List.dropWhile_append_of_pos hall]
  simp

/-- A printed name is split into its two fields again. -/
theorem base_printed {b e : List α} (h : dot ∉ b) :
    base dot (printed dot blank b e) = trim blank b ∧
      ext dot (printed dot blank b e) = trim blank e := by
  have hb : dot ∉ trim blank b := fun hm => h (trim_subset hm)
  unfold printed
  split
  · rename_i he
    rw [he]
    exact base_of_not_mem hb
  · exact base_append hb

theorem mem_printed {b e : List α} {x : α} (h : x ∈ printed dot blank b e) :
    x ∈ b ∨ x = dot ∨ x ∈ e := by
  unfold printed at h
  split at h
  · exact Or.inl (trim_subset h)
  · rcases List.mem_append.mp h with h | h
    · exact Or.inl (trim_subset h)
    · rcases List.mem_cons.mp h with h | h
      · exact Or.inr (Or.inl h)
      · exact Or.inr (Or.inr (trim_subset h))

end Os64.Lib.ShortName
