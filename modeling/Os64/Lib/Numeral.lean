/-
  Numbers written in a base.

  `numeral sym base n` is the usual way to write `n`, most significant digit first, with `sym`
  for the symbols. `parse` reads a text back, given the value of each symbol, and `IsNumeral`
  says that a text is read back as `n` and has no zeros in front.

  * `numeral_of_lt`, `numeral_step`: the number of one digit, and the last digit of a longer one.
  * `isNumeral_numeral`: a numeral is one.
  * `numeral_length_le`: how long it is.
-/
import Mathlib.Data.Nat.Digits.Lemmas

namespace Os64.Lib

variable {α : Type} (sym : Nat → α) (value : α → Option Nat) {base : Nat}

/-- `n` in base `base`; 0 has one digit. -/
def numeral (base n : Nat) : List α :=
  (if n = 0 then [0] else (Nat.digits base n).reverse).map sym

/-- One more symbol behind a number that is read. -/
def parseStep (base acc : Nat) (c : α) : Option Nat :=
  (value c).bind fun d => if d < base then some (base * acc + d) else none

/-- The number a text stands for; `none` where a symbol is not a digit of the base. -/
def parse (base : Nat) (text : List α) : Option Nat := text.foldlM (parseStep value base) 0

/-- A text that reads as `n` and has no zeros in front. -/
structure IsNumeral (zero : α) (base n : Nat) (text : List α) : Prop where
  parses : parse value base text = some n
  ne_nil : text ≠ []
  plain : text.head? = some zero → text = [zero]

theorem numeral_of_lt {n : Nat} (h : n < base) : numeral sym base n = [sym n] := by
  unfold numeral
  by_cases h0 : n = 0
  · rw [if_pos h0, h0]
    rfl
  · rw [if_neg h0, Nat.digits_of_lt base n h0 h]
    rfl

theorem numeral_step (hb : 1 < base) {n : Nat} (h : base ≤ n) :
    numeral sym base n = numeral sym base (n / base) ++ [sym (n % base)] := by
  have hdiv : n / base ≠ 0 := (Nat.div_pos h (by omega)).ne'
  unfold numeral
  rw [if_neg (by omega), if_neg hdiv, Nat.digits_def' hb (by omega), List.reverse_cons,
    List.map_append, List.map_singleton]

theorem numeral_ne_nil (hb : 1 < base) (n : Nat) : numeral sym base n ≠ [] := by
  rcases Nat.lt_or_ge n base with h | h
  · rw [numeral_of_lt sym h]
    exact List.cons_ne_nil _ _
  · rw [numeral_step sym hb h]
    exact List.append_ne_nil_of_right_ne_nil _ (List.cons_ne_nil _ _)

theorem parse_concat (text : List α) (c : α) :
    parse value base (text ++ [c]) =
      (parse value base text).bind fun acc => parseStep value base acc c := by
  unfold parse
  rw [List.foldlM_append]
  refine congrArg _ (funext fun acc => ?_)
  simp only [List.foldlM_cons, List.foldlM_nil, bind_pure]

variable {sym value}

theorem parse_numeral (hb : 1 < base) (hval : ∀ d < base, value (sym d) = some d) (n : Nat) :
    parse value base (numeral sym base n) = some n := by
  have hlast : ∀ acc d, d < base → parseStep value base acc (sym d) = some (base * acc + d) := by
    intro acc d hd
    rw [parseStep, hval d hd, Option.bind_some, if_pos hd]
  induction n using Nat.strongRecOn with
  | ind n ih =>
      rcases Nat.lt_or_ge n base with h | h
      · rw [numeral_of_lt sym h, ← List.nil_append [sym n], parse_concat]
        refine (hlast 0 n h).trans ?_
        rw [Nat.mul_zero, Nat.zero_add]
      · rw [numeral_step sym hb h, parse_concat, ih (n / base) (Nat.div_lt_self (by omega) hb),
          Option.bind_some, hlast _ _ (Nat.mod_lt n (by omega)), Nat.div_add_mod]

/-- Only 0 starts with a zero. -/
theorem numeral_head (hb : 1 < base) (hzero : ∀ d < base, sym d = sym 0 → d = 0) {n : Nat}
    (h : (numeral sym base n).head? = some (sym 0)) : n = 0 := by
  induction n using Nat.strongRecOn with
  | ind n ih =>
      rcases Nat.lt_or_ge n base with hlt | hge
      · rw [numeral_of_lt sym hlt] at h
        exact hzero n hlt (Option.some.inj h)
      · rw [numeral_step sym hb hge, List.head?_append_of_ne_nil _ (numeral_ne_nil sym hb _)] at h
        have hdiv : n / base = 0 := ih (n / base) (Nat.div_lt_self (by omega) hb) h
        have := Nat.div_pos hge (by omega)
        omega

theorem isNumeral_numeral (hb : 1 < base) (hval : ∀ d < base, value (sym d) = some d) (n : Nat) :
    IsNumeral value (sym 0) base n (numeral sym base n) where
  parses := parse_numeral hb hval n
  ne_nil := numeral_ne_nil sym hb n
  plain := by
    intro h
    have hzero : ∀ d < base, sym d = sym 0 → d = 0 := by
      intro d hd he
      have h0 := hval 0 (by omega)
      rw [← he, hval d hd] at h0
      exact Option.some.inj h0
    rw [numeral_head hb hzero h, numeral_of_lt sym (by omega)]

theorem numeral_length_le (hb : 1 < base) {n k : Nat} (hk : 0 < k) (h : n < base ^ k) :
    (numeral sym base n).length ≤ k := by
  unfold numeral
  rw [List.length_map]
  split
  · exact hk
  · rw [List.length_reverse]
    exact (Nat.digits_length_le_iff hb n).mpr h

end Os64.Lib
