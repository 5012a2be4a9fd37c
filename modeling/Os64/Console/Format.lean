/-
  What `printk` and `printf` print.

  `pieces` cuts a format string into literal characters and conversions, `Renders` says which
  texts they may turn into, and `rendering` is the one they do turn into. Every function that
  writes to the local buffer appends to what is there: `after` is the buffer that holds a text
  in front of its leftovers, and `Appends` is what they have in common.

  * `numberToString_appends`, `decimalToString_appends`, `readString_appends`: the helpers.
  * `formatLoop_at`: the loop appends the rendering of the rest of the format.
  * `printk_renders`: the text and the result of both functions.
  * `writes_inBounds_iff`: the writes stay in the buffer when the text is at most 1024 bytes.
  * `printf_colour_iff`: the colour of `printf` depends on the leftovers when the text is the
    beginning of the prompt, and not all of it.
-/
import Os64.Kernel.Format
import Os64.Lib.Numeral

namespace Os64

open Os64.Lib

/-! ## Pieces of a format -/

inductive Piece where
  | literal (c : UInt8)
  | hex
  | unsigned
  | signed
  | string

/-- The conversion that a character behind `%` stands for. -/
def conversion (c : UInt8) : Option Piece :=
  if c = ch 'x' then some .hex
  else if c = ch 'u' then some .unsigned
  else if c = ch 'd' then some .signed
  else if c = ch 's' then some .string
  else none

/-- A `%` without a conversion is itself a literal character. -/
def pieces : List UInt8 → List Piece
  | [] => []
  | [c] => [.literal c]
  | c :: d :: rest =>
      if c = ch '%' then
        match conversion d with
        | some p => p :: pieces rest
        | none => .literal c :: pieces (d :: rest)
      else .literal c :: pieces (d :: rest)

theorem pieces_literal {c : UInt8} (h : c ≠ ch '%') (rest : List UInt8) :
    pieces (c :: rest) = .literal c :: pieces rest := by
  cases rest with
  | nil => rfl
  | cons d rest => exact if_neg h

theorem pieces_percent {rest : List UInt8} (h : conversion (rest.headD 0) = none) :
    pieces (ch '%' :: rest) = .literal (ch '%') :: pieces rest := by
  cases rest with
  | nil => rfl
  | cons d rest =>
      conv_lhs => unfold pieces
      rw [if_pos rfl, show conversion d = none from h]

theorem pieces_conversion {rest : List UInt8} {p : Piece}
    (h : conversion (rest.headD 0) = some p) :
    pieces (ch '%' :: rest) = p :: pieces rest.tail := by
  cases rest with
  | nil => cases h
  | cons d rest =>
      conv_lhs => unfold pieces
      rw [if_pos rfl, show conversion d = some p from h]
      rfl

/-- The value of a digit. -/
def digitValue (c : UInt8) : Option Nat :=
  if ch '0' ≤ c ∧ c ≤ ch '9' then some (c.toNat - (ch '0').toNat)
  else if ch 'A' ≤ c ∧ c ≤ ch 'F' then some (c.toNat - (ch 'A').toNat + 10)
  else none

/-- A decimal number with a minus sign in front of a negative one. -/
inductive IsSigned : Int → List UInt8 → Prop
  | nonneg {n : Nat} {text : List UInt8} (h : IsNumeral digitValue (ch '0') 10 n text) :
      IsSigned n text
  | neg {n : Nat} {text : List UInt8} (hn : 0 < n)
      (h : IsNumeral digitValue (ch '0') 10 n text) : IsSigned (-n) (ch '-' :: text)

/-- The text of a signed number: a minus sign and the absolute value, or the value. -/
def signedText (n : BitVec 64) : List UInt8 :=
  if n.toInt < 0 then ch '-' :: numeral digitsMap 10 n.toInt.natAbs
  else numeral digitsMap 10 n.toNat

namespace Piece

/-- How many arguments a piece takes. -/
def takes : Piece → Nat
  | literal _ => 0
  | _ => 1

/-- The texts that a piece may turn into, when `arg` is the next argument. -/
def Writes (strings : BitVec 64 → CString) (arg : BitVec 64) : Piece → List UInt8 → Prop
  | literal c, text => text = [c]
  | hex, text => ∃ digits, IsNumeral digitValue (ch '0') 16 arg.toNat digits ∧
      text = digits ++ [ch 'H']
  | unsigned, text => IsNumeral digitValue (ch '0') 10 arg.toNat text
  | signed, text => IsSigned arg.toInt text
  | string, text => text = (strings arg).bytes

/-- The text that it does turn into. -/
def text (strings : BitVec 64 → CString) (arg : BitVec 64) : Piece → List UInt8
  | literal c => [c]
  | hex => numeral digitsMap 16 arg.toNat ++ [ch 'H']
  | unsigned => numeral digitsMap 10 arg.toNat
  | signed => signedText arg
  | string => (strings arg).bytes

end Piece

section
variable (strings : BitVec 64 → CString) (args : Nat → BitVec 64)

/-- The texts of the pieces in their order, from the argument `k` on. -/
inductive Renders : Nat → List Piece → List UInt8 → Prop
  | nil (k : Nat) : Renders k [] []
  | cons {k : Nat} {p : Piece} {ps : List Piece} {t rest : List UInt8}
      (h : p.Writes strings (args k) t) (hrest : Renders (k + p.takes) ps rest) :
      Renders k (p :: ps) (t ++ rest)

def rendering : Nat → List Piece → List UInt8
  | _, [] => []
  | k, p :: ps => p.text strings (args k) ++ rendering (k + p.takes) ps

/-- The text of a format string. -/
def formattedText (format : CString) : List UInt8 := rendering strings args 0 (pieces format.bytes)

theorem digitValue_digitsMap {base : Nat} (hb : base ≤ 16) :
    ∀ d < base, digitValue (digitsMap d) = some d := by
  have h : ∀ d : Fin 16, digitValue (digitsMap d) = some d.val := by decide
  exact fun d hd => h ⟨d, by omega⟩

theorem isNumeral_digitsMap {base : Nat} (h1 : 1 < base) (h16 : base ≤ 16) (n : Nat) :
    IsNumeral digitValue (ch '0') base n (numeral digitsMap base n) :=
  isNumeral_numeral h1 (digitValue_digitsMap h16) n

theorem Piece.text_writes (arg : BitVec 64) (p : Piece) :
    p.Writes strings arg (p.text strings arg) := by
  cases p with
  | literal c => rfl
  | hex => exact ⟨_, isNumeral_digitsMap (by decide) (by decide) _, rfl⟩
  | unsigned => exact isNumeral_digitsMap (by decide) (by decide) _
  | signed =>
      have hnum := fun n => @isNumeral_digitsMap 10 (by decide) (by decide) n
      show IsSigned arg.toInt (signedText arg)
      unfold signedText
      by_cases hneg : arg.toInt < 0
      · have h := IsSigned.neg (by omega) (hnum arg.toInt.natAbs)
        rw [if_pos hneg]
        rw [show -(arg.toInt.natAbs : Int) = arg.toInt by omega] at h
        exact h
      · have heq : arg.toInt = (arg.toNat : Int) := by
          have hlt := arg.isLt
          rw [BitVec.toInt_eq_toNat_cond] at hneg ⊢
          split at hneg
          · rw [if_pos ‹_›]
          · omega
        rw [if_neg hneg, heq]
        exact .nonneg (hnum arg.toNat)
  | string => rfl

theorem renders_rendering (k : Nat) (ps : List Piece) :
    Renders strings args k ps (rendering strings args k ps) := by
  induction ps generalizing k with
  | nil => exact .nil k
  | cons p ps ih => exact .cons (p.text_writes strings (args k)) (ih (k + p.takes))

end

/-! ## The buffer and its text -/

namespace LocalBuffer

/-- The buffer after the bytes of `text` have been written to it, one after the other. -/
def after (leftover : Nat → UInt8) (text : List UInt8) : LocalBuffer :=
  ⟨fun k => text.getD k (leftover k), List.range text.length⟩

variable {leftover : Nat → UInt8}

theorem after_put (text : List UInt8) (c : UInt8) :
    (after leftover text).put text.length c = after leftover (text ++ [c]) := by
  unfold after put
  refine congrArg₂ LocalBuffer.mk (funext fun k => ?_) ?_
  · simp only [Function.update_apply, List.getD_eq_getElem?_getD]
    rcases Nat.lt_trichotomy k text.length with h | h | h
    · rw [if_neg (by omega), List.getElem?_append_left h]
    · rw [if_pos h, h, List.getElem?_concat_length]
      rfl
    · rw [if_neg (by omega), List.getElem?_eq_none (by omega),
        List.getElem?_eq_none (by rw [List.length_append, List.length_singleton]; omega)]
  · rw [List.length_append, List.length_singleton, List.range_succ]

theorem after_bytes_of_lt {text : List UInt8} {k : Nat} (hk : k < text.length) :
    (after leftover text).bytes k = text[k] := by
  show text.getD k (leftover k) = text[k]
  rw [List.getD_eq_getElem?_getD, List.getElem?_eq_getElem hk]
  rfl

theorem after_bytes_of_ge {text : List UInt8} {k : Nat} (hk : text.length ≤ k) :
    (after leftover text).bytes k = leftover k := by
  show text.getD k (leftover k) = leftover k
  rw [List.getD_eq_getElem?_getD, List.getElem?_eq_none hk]
  rfl

theorem after_bytes (text : List UInt8) :
    (List.range text.length).map (after leftover text).bytes = text := by
  refine List.ext_getElem (by rw [List.length_map, List.length_range]) fun k hk hk' => ?_
  rw [List.getElem_map, List.getElem_range, after_bytes_of_lt hk']

theorem after_inBounds (text : List UInt8) :
    (after leftover text).InBounds ↔ text.length ≤ 1024 := by
  have hmem : ∀ i, i ∈ (after leftover text).writes ↔ i < text.length := fun _ => List.mem_range
  constructor
  · intro h
    by_contra hlt
    have := h 1024 ((hmem 1024).mpr (by omega))
    omega
  · intro h i hi
    have := (hmem i).mp hi
    omega

end LocalBuffer

open LocalBuffer

/-- `f` puts `text` behind what the buffer holds, and returns its length. -/
def Appends (f : LocalBuffer → Nat → LocalBuffer × Nat) (text : List UInt8) : Prop :=
  ∀ leftover before, f (after leftover before) before.length =
    (after leftover (before ++ text), text.length)

/-- The digits come out of the loop in reverse. -/
theorem digitLoop_eq {base : Nat} (hb : 1 < base) (digitsBuffer : List UInt8) (digits : Nat) :
    digitLoop base hb digitsBuffer digits =
      digitsBuffer ++ (numeral digitsMap base digits).reverse := by
  induction digitsBuffer, digits using digitLoop.induct base hb with
  | case1 digitsBuffer digits digitsBuffer' hdiv ih =>
      have hle : base ≤ digits := by
        by_contra hlt
        exact hdiv (Nat.div_eq_of_lt (by omega))
      rw [digitLoop, dif_pos hdiv, ih, numeral_step digitsMap hb hle, List.reverse_append,
        List.append_assoc]
      rfl
  | case2 digitsBuffer digits hdiv =>
      have hlt : digits < base := by
        by_contra hge
        exact hdiv (Nat.div_pos (by omega) (by omega)).ne'
      rw [digitLoop, dif_neg hdiv, numeral_of_lt digitsMap hlt, Nat.mod_eq_of_lt hlt]
      rfl

theorem copyBack_after (digitsBuffer : List UInt8) {n : Nat} (hn : n ≤ digitsBuffer.length)
    (leftover : Nat → UInt8) (before : List UInt8) :
    copyBack digitsBuffer n (after leftover before) before.length =
      after leftover (before ++ (digitsBuffer.take n).reverse) := by
  induction n generalizing before with
  | zero => rw [copyBack, List.take_zero, List.reverse_nil, List.append_nil]
  | succ n ih =>
      have hlt : n < digitsBuffer.length := by omega
      have h := ih (by omega) (before ++ [digitsBuffer[n]])
      rw [List.length_append, List.length_singleton] at h
      rw [copyBack, List.getD_eq_getElem?_getD, List.getElem?_eq_getElem hlt, Option.getD_some,
        after_put, h, List.append_assoc, List.take_succ_eq_append_getElem hlt, List.reverse_append]
      rfl

theorem numberToString_appends {base : Nat} (hb : 1 < base) (digits : Nat) :
    Appends (fun buffer position => numberToString base hb buffer position digits)
      (numeral digitsMap base digits) := by
  intro leftover before
  have hloop := digitLoop_eq hb [] digits
  rw [List.nil_append] at hloop
  unfold numberToString
  dsimp only
  rw [copyBack_after _ (Nat.le_refl _), List.take_length, hloop, List.reverse_reverse,
    List.length_reverse]

/-- The local `digits_buffer[25]` is long enough. -/
theorem digitLoop_length {base : Nat} (hb : 10 ≤ base) (digits : BitVec 64) :
    (digitLoop base (by omega) [] digits.toNat).length ≤ 25 := by
  have hlt : digits.toNat < base ^ 25 := by
    calc digits.toNat < 10 ^ 25 := Nat.lt_trans digits.isLt (by decide)
      _ ≤ base ^ 25 := Nat.pow_le_pow_left hb 25
  rw [digitLoop_eq, List.nil_append, List.length_reverse]
  exact numeral_length_le (by omega) (by decide) hlt

theorem udecimalToString_appends (n : BitVec 64) :
    Appends (udecimalToString · · n) (numeral digitsMap 10 n.toNat) :=
  numberToString_appends _ _

/-- The absolute value of a negative number, also of the least one. -/
theorem neg_toNat {n : BitVec 64} (h : n.toInt < 0) : (-n).toNat = n.toInt.natAbs := by
  have hlt := n.isLt
  rw [BitVec.toInt_eq_toNat_cond] at h ⊢
  rw [BitVec.toNat_neg]
  split at h
  · omega
  · rw [if_neg ‹_›, Nat.mod_eq_of_lt (by omega)]
    omega

theorem decimalToString_appends (n : BitVec 64) :
    Appends (decimalToString · · n) (signedText n) := by
  intro leftover before
  dsimp only
  unfold decimalToString signedText
  by_cases hneg : n.toInt < 0
  · have h := udecimalToString_appends (-n) leftover (before ++ [ch '-'])
    rw [List.length_append, List.length_singleton] at h
    dsimp only at h
    rw [if_pos hneg, if_pos hneg, after_put, h, neg_toNat hneg, List.append_assoc,
      List.length_cons, Nat.add_comm]
    rfl
  · rw [if_neg hneg, if_neg hneg]
    exact udecimalToString_appends n leftover before

theorem hexToString_appends (n : BitVec 64) :
    Appends (hexToString · · n) (numeral digitsMap 16 n.toNat ++ [ch 'H']) := by
  intro leftover before
  have h := @numberToString_appends 16 (by decide) n.toNat leftover before
  dsimp only at h ⊢
  unfold hexToString
  rw [h]
  dsimp only
  rw [← List.length_append, after_put, List.append_assoc, List.length_append,
    List.length_singleton]

theorem CString.drop_eq {string : CString} {i : Nat} (h : string.byte i ≠ 0) :
    string.bytes.drop i = string.byte i :: string.bytes.drop (i + 1) := by
  have hlt := CString.lt_length h
  rw [List.drop_eq_getElem_cons hlt, CString.byte, List.getD_eq_getElem?_getD,
    List.getElem?_eq_getElem hlt]
  rfl

theorem CString.byte_ne_zero {string : CString} {i : Nat} (h : i < string.bytes.length) :
    string.byte i ≠ 0 := by
  intro h0
  rw [CString.byte, List.getD_eq_getElem?_getD, List.getElem?_eq_getElem h] at h0
  exact string.noNul (h0 ▸ List.getElem_mem h)

theorem CString.drop_headD (string : CString) (i : Nat) :
    (string.bytes.drop i).headD 0 = string.byte i := by
  rw [CString.byte, List.getD_eq_getElem?_getD, List.headD_eq_head?_getD, List.head?_drop]

theorem readStringFrom_after (string : CString) (index : Nat) (hi : index ≤ string.bytes.length)
    (leftover : Nat → UInt8) (before : List UInt8) :
    readStringFrom string (after leftover before) before.length index =
      (after leftover (before ++ string.bytes.drop index), string.bytes.length) := by
  induction hn : string.bytes.length - index generalizing index before with
  | zero =>
      rw [readStringFrom, dif_neg (by rw [CString.byte_of_length_le (by omega)]; decide),
        List.drop_eq_nil_of_le (by omega), List.append_nil, show index = string.bytes.length by omega]
  | succ n ih =>
      have h0 : string.byte index ≠ 0 := CString.byte_ne_zero (by omega)
      have h := ih (index + 1) (by omega) (before ++ [string.byte index]) (by omega)
      rw [List.length_append, List.length_singleton] at h
      rw [readStringFrom, dif_pos h0, after_put, h, CString.drop_eq h0, List.append_assoc]
      rfl

theorem readString_appends (string : CString) : Appends (readString · · string) string.bytes := by
  intro leftover before
  exact readStringFrom_after string 0 (Nat.zero_le _) leftover before

/-! ## The loop -/

/-- The variables of the loop when `text` is in the buffer and `k` arguments are taken. -/
def Scan.at (leftover : Nat → UInt8) (text : List UInt8) (k : Nat) : Scan :=
  ⟨after leftover text, text.length, k⟩

theorem Scan.at_putChar (leftover : Nat → UInt8) (text : List UInt8) (k : Nat) (c : UInt8) :
    (Scan.at leftover text k).putChar c = Scan.at leftover (text ++ [c]) k := by
  unfold Scan.putChar Scan.at
  rw [after_put, List.length_append, List.length_singleton]

theorem Scan.at_convert {f : LocalBuffer → Nat → BitVec 64 → LocalBuffer × Nat}
    {args : Nat → BitVec 64} {k : Nat} {t : List UInt8} (h : Appends (f · · (args k)) t)
    (leftover : Nat → UInt8) (text : List UInt8) :
    (Scan.at leftover text k).convert f args = Scan.at leftover (text ++ t) (k + 1) := by
  have h := h leftover text
  dsimp only at h
  unfold Scan.convert Scan.at
  dsimp only
  rw [h, List.length_append]

section
variable (strings : BitVec 64 → CString) (args : Nat → BitVec 64)

/-- From any place of the format the loop appends the rendering of what is left of it. -/
theorem formatLoop_at (format : CString) (i : Nat) (hi : i ≤ format.bytes.length)
    (leftover : Nat → UInt8) (text : List UInt8) (k : Nat) :
    ∃ k', formatLoop strings args format i (Scan.at leftover text k) =
      Scan.at leftover (text ++ rendering strings args k (pieces (format.bytes.drop i))) k' := by
  induction hn : format.bytes.length - i using Nat.strongRecOn generalizing i text k with
  | ind n ih =>
      by_cases h0 : format.byte i = 0
      · have hend : format.bytes.length ≤ i := by
          by_contra hlt
          exact CString.byte_ne_zero (by omega) h0
        refine ⟨k, ?_⟩
        rw [formatLoop, dif_pos h0, List.drop_eq_nil_of_le hend]
        exact (congrArg (Scan.at leftover · k) (List.append_nil text)).symm
      have hlt := CString.lt_length h0
      -- a literal character, which may be a `%`
      have hliteral : ∀ c, pieces (format.bytes.drop i) =
          .literal c :: pieces (format.bytes.drop (i + 1)) →
          ∃ k', formatLoop strings args format (i + 1) ((Scan.at leftover text k).putChar c) =
            Scan.at leftover (text ++ rendering strings args k (pieces (format.bytes.drop i))) k' := by
        intro c hp
        obtain ⟨k', h⟩ := ih (format.bytes.length - (i + 1)) (by omega) (i + 1) (by omega)
          (text ++ [c]) k rfl
        refine ⟨k', ?_⟩
        rw [Scan.at_putChar, h, hp, List.append_assoc]
        rfl
      by_cases hpercent : format.byte i ≠ ch '%'
      · rw [formatLoop, dif_neg h0, if_pos hpercent]
        exact hliteral _ (by rw [CString.drop_eq h0, pieces_literal hpercent])
      have hdrop : format.bytes.drop i = ch '%' :: format.bytes.drop (i + 1) := by
        rw [CString.drop_eq h0, not_not.mp hpercent]
      -- a conversion
      have hconvert : ∀ p f, conversion (format.byte (i + 1)) = some p → p.takes = 1 →
          Appends (f · · (args k)) (p.text strings (args k)) →
          ∃ k', formatLoop strings args format (i + 2) ((Scan.at leftover text k).convert f args) =
            Scan.at leftover (text ++ rendering strings args k (pieces (format.bytes.drop i))) k' := by
        intro p f hp htakes hf
        have h1 : format.byte (i + 1) ≠ 0 := by
          intro h1
          rw [h1] at hp
          cases hp
        have hlt := CString.lt_length h1
        obtain ⟨k', h⟩ := ih (format.bytes.length - (i + 2)) (by omega) (i + 2) (by omega)
          (text ++ p.text strings (args k)) (k + 1) rfl
        refine ⟨k', ?_⟩
        rw [Scan.at_convert hf, h, hdrop, pieces_conversion (by rw [CString.drop_headD, hp]),
          List.tail_drop, List.append_assoc, rendering, htakes]
      rw [formatLoop, dif_neg h0, if_neg hpercent]
      split
      · exact hconvert .hex _ (by rw [‹format.byte (i + 1) = _›]; rfl) rfl (hexToString_appends _)
      split
      · exact hconvert .unsigned _ (by rw [‹format.byte (i + 1) = _›]; rfl) rfl
          (udecimalToString_appends _)
      split
      · exact hconvert .signed _ (by rw [‹format.byte (i + 1) = _›]; rfl) rfl
          (decimalToString_appends _)
      split
      · exact hconvert .string _ (by rw [‹format.byte (i + 1) = _›]; rfl) rfl (readString_appends _)
      · refine hliteral _ ?_
        rw [hdrop]
        refine pieces_percent ?_
        rw [CString.drop_headD, conversion, if_neg ‹_›, if_neg ‹_›, if_neg ‹_›, if_neg ‹_›]

theorem formatted_at (leftover : Nat → UInt8) (format : CString) :
    ∃ k', formatted strings args leftover format =
      Scan.at leftover (formattedText strings args format) k' :=
  formatLoop_at strings args format 0 (Nat.zero_le _) leftover [] 0

/-! ## The text, the buffer and the colour -/

/-- The first seven bytes of the buffer, as `printf` compares them. -/
def StartsWithPrompt (bytes : Nat → UInt8) : Prop := ∀ k < 7, prompt.getD k 0 = bytes k

instance (bytes : Nat → UInt8) : Decidable (StartsWithPrompt bytes) :=
  inferInstanceAs (Decidable (∀ k < 7, prompt.getD k 0 = bytes k))

theorem repeCmpsb_eq (f g : Nat → UInt8) (n k : Nat) :
    repeCmpsb f g n true k = true ↔ ∀ j < n, f (k + j) = g (k + j) := by
  induction n generalizing k with
  | zero => exact iff_of_true rfl nofun
  | succ n ih =>
      rw [repeCmpsb]
      by_cases h : f k = g k
      · rw [if_pos h, ih (k + 1)]
        constructor
        · intro hall j hj
          cases j with
          | zero => exact h
          | succ j =>
              rw [show k + (j + 1) = k + 1 + j by omega]
              exact hall j (by omega)
        · intro hall j hj
          rw [show k + 1 + j = k + (j + 1) by omega]
          exact hall (j + 1) (by omega)
      · rw [if_neg h]
        exact iff_of_false Bool.false_ne_true fun hall => h (hall 0 (by omega))

theorem memcmp_prompt (bytes : Nat → UInt8) :
    memcmp (prompt.getD · 0) bytes 7 = 0 ↔ StartsWithPrompt bytes := by
  have h := repeCmpsb_eq (prompt.getD · 0) bytes 7 0
  simp only [Nat.zero_add] at h
  unfold memcmp
  rw [show u32 7 = 7 from rfl]
  split
  · exact iff_of_true rfl (h.mp ‹_›)
  · exact iff_of_false (by decide) fun hall => ‹¬ _› (h.mpr hall)

theorem printk_eq (leftover : Nat → UInt8) (format : CString) :
    printk strings args leftover format =
      if (formattedText strings args format).length ≤ 1024 then
        some ((formattedText strings args format, 0xf),
          ((formattedText strings args format).length : Int))
      else none := by
  obtain ⟨k', h⟩ := formatted_at strings args leftover format
  unfold printk
  rw [h]
  exact if_congr (after_inBounds _) (by rw [Scan.text, Scan.at, after_bytes]) rfl

theorem printf_eq (leftover : Nat → UInt8) (format : CString) :
    printf strings args leftover format =
      if (formattedText strings args format).length ≤ 1024 then
        some ((formattedText strings args format,
          if StartsWithPrompt (after leftover (formattedText strings args format)).bytes then 0xe
          else 0xf), ((formattedText strings args format).length : Int))
      else none := by
  obtain ⟨k', h⟩ := formatted_at strings args leftover format
  generalize formattedText strings args format = text at h ⊢
  have htext : (Scan.at leftover text k').text = text := by
    rw [Scan.text, Scan.at, after_bytes]
  unfold printf
  rw [h]
  dsimp only
  rw [htext]
  show (if (after leftover text).InBounds then
      if memcmp (prompt.getD · 0) (after leftover text).bytes 7 = 0 then
        some ((text, 0xe), i32 text.length)
      else some ((text, 0xf), i32 text.length)
    else none) = _
  refine if_ctx_congr (after_inBounds _) (fun hfits => ?_) fun _ => rfl
  have hsize : i32 text.length = text.length := by
    unfold i32
    rw [Nat.mod_eq_of_lt (by omega), if_pos (by omega)]
  rw [hsize]
  by_cases hp : StartsWithPrompt (after leftover text).bytes
  · rw [if_pos ((memcmp_prompt _).mpr hp), if_pos hp]
  · rw [if_neg (mt (memcmp_prompt _).mp hp), if_neg hp]

/-- A text that fits is printed piece by piece, and its length returned. -/
theorem printk_renders (leftover : Nat → UInt8) (format : CString)
    (hfits : (formattedText strings args format).length ≤ 1024) :
    Renders strings args 0 (pieces format.bytes) (formattedText strings args format) ∧
    printk strings args leftover format =
      some ((formattedText strings args format, 0xf),
        ((formattedText strings args format).length : Int)) ∧
    ∃ color, printf strings args leftover format =
      some ((formattedText strings args format, color),
        ((formattedText strings args format).length : Int)) := by
  refine ⟨renders_rendering strings args 0 _, ?_, ?_⟩
  · rw [printk_eq, if_pos hfits]
  · rw [printf_eq, if_pos hfits]
    exact ⟨_, rfl⟩

theorem formatted_inBounds (leftover : Nat → UInt8) (format : CString) :
    (formatted strings args leftover format).buffer.InBounds ↔
      (formattedText strings args format).length ≤ 1024 := by
  obtain ⟨k', h⟩ := formatted_at strings args leftover format
  rw [h]
  exact after_inBounds _

/-- Whatever the buffer starts with, its writes are the length of the text. -/
theorem writes_inBounds_iff (format : CString) :
    (∀ leftover, (formatted strings args leftover format).buffer.InBounds) ↔
      (formattedText strings args format).length ≤ 1024 :=
  ⟨fun h => (formatted_inBounds strings args (fun _ => 0) format).mp (h _),
    fun h leftover => (formatted_inBounds strings args leftover format).mpr h⟩

/-- One text and one colour for every content of the buffer, the colour of the prompt when the
text starts with the prompt. -/
def ColourFixed (format : CString) : Prop :=
  ∃ text color result,
    (∀ leftover, printf strings args leftover format = some ((text, color), result)) ∧
    (color = 0xe ↔ prompt <+: text)

theorem prompt_getD {k : Nat} (hk : k < 7) : prompt.getD k 0 = prompt.get ⟨k, hk⟩ := by
  rw [List.getD_eq_getElem?_getD, List.getElem?_eq_getElem hk]
  rfl

theorem startsWithPrompt_after {text : List UInt8} (leftover : Nat → UInt8)
    (h : ¬ (text <+: prompt ∧ text ≠ prompt)) :
    StartsWithPrompt (after leftover text).bytes ↔ prompt <+: text := by
  have hprompt : prompt.length = 7 := rfl
  constructor
  · intro hall
    by_cases hlen : 7 ≤ text.length
    · refine List.prefix_iff_getElem.mpr ⟨hlen, fun k hk => ?_⟩
      have hk' := hall k hk
      rw [prompt_getD hk, after_bytes_of_lt (Nat.lt_of_lt_of_le hk hlen)] at hk'
      exact hk'
    · -- a shorter text would be a proper prefix
      refine absurd ⟨List.prefix_iff_getElem.mpr ⟨by omega, fun k hk => ?_⟩, ?_⟩ h
      · have hk' := hall k (by omega)
        rw [prompt_getD (by omega), after_bytes_of_lt hk] at hk'
        exact hk'.symm
      · rintro rfl
        omega
  · intro hpre k hk
    obtain ⟨hlen, hall⟩ := List.prefix_iff_getElem.mp hpre
    rw [prompt_getD hk, after_bytes_of_lt (Nat.lt_of_lt_of_le hk hlen)]
    exact hall k hk

/-- Leftovers that make the beginning of the prompt look like all of it, and others. -/
theorem startsWithPrompt_leftover {text : List UInt8} (h : text <+: prompt) (hne : text ≠ prompt) :
    StartsWithPrompt (after (prompt.getD · 0) text).bytes ∧
    ¬ StartsWithPrompt (after (fun _ => 0) text).bytes := by
  have hlen : text.length < 7 := by
    have hle : text.length ≤ 7 := h.length_le
    rcases Nat.lt_or_eq_of_le hle with hlt | heq
    · exact hlt
    · exact absurd (h.eq_of_length heq) hne
  constructor
  · intro k hk
    by_cases hin : k < text.length
    · rw [after_bytes_of_lt hin, prompt_getD hk]
      exact (h.getElem hin).symm
    · rw [after_bytes_of_ge (by omega)]
  · intro hall
    have h6 := hall 6 (by decide)
    rw [after_bytes_of_ge (by omega)] at h6
    exact absurd h6 (by decide)

theorem ColourFixed.fits {format : CString} (h : ColourFixed strings args format) :
    (formattedText strings args format).length ≤ 1024 := by
  obtain ⟨text, color, result, hrun, -⟩ := h
  by_contra hlong
  have h := hrun fun _ => 0
  rw [printf_eq, if_neg hlong] at h
  cases h

/-- The beginning of a prompt is printed in two colours. -/
theorem not_colourFixed {format : CString} (hpre : formattedText strings args format <+: prompt)
    (hne : formattedText strings args format ≠ prompt) : ¬ ColourFixed strings args format := by
  intro h
  have hfits := h.fits
  obtain ⟨text, color, result, hrun, -⟩ := h
  obtain ⟨hlike, hunlike⟩ := startsWithPrompt_leftover hpre hne
  have hyellow := hrun (prompt.getD · 0)
  have hwhite := hrun fun _ => 0
  rw [printf_eq, if_pos hfits, if_pos hlike, ← hwhite, printf_eq, if_pos hfits,
    if_neg hunlike] at hyellow
  have hcolor := congrArg (fun r => r.map fun p => p.1.2) hyellow
  exact absurd (show (0xe : UInt8) = 0xf from Option.some.inj hcolor) (by decide)

theorem printf_colour_iff (format : CString) :
    ColourFixed strings args format ↔
      (formattedText strings args format).length ≤ 1024 ∧
      ¬ (formattedText strings args format <+: prompt ∧
        formattedText strings args format ≠ prompt) := by
  constructor
  · intro h
    exact ⟨h.fits, fun ⟨hpre, hne⟩ => not_colourFixed strings args hpre hne h⟩
  · rintro ⟨hfits, hproper⟩
    have hiff := fun leftover => startsWithPrompt_after leftover hproper
    by_cases hpre : prompt <+: formattedText strings args format
    · refine ⟨_, 0xe, (formattedText strings args format).length, fun leftover => ?_,
        iff_of_true rfl hpre⟩
      rw [printf_eq, if_pos hfits, if_pos ((hiff leftover).mpr hpre)]
    · refine ⟨_, 0xf, (formattedText strings args format).length, fun leftover => ?_,
        iff_of_false (by decide) hpre⟩
      rw [printf_eq, if_pos hfits, if_neg (mt (hiff leftover).mp hpre)]

end

/-! ## Three formats -/

/-- `"%s"`. -/
def percentS : CString := ⟨[ch '%', ch 's'], by decide⟩

/-- `"%d"`. -/
def percentD : CString := ⟨[ch '%', ch 'd'], by decide⟩

theorem formattedText_percentS (strings : BitVec 64 → CString) (args : Nat → BitVec 64) :
    formattedText strings args percentS = (strings (args 0)).bytes := List.append_nil _

theorem formattedText_percentD (strings : BitVec 64 → CString) (args : Nat → BitVec 64) :
    formattedText strings args percentD = signedText (args 0) := List.append_nil _

theorem signedText_least :
    signedText (BitVec.intMin 64) = "-9223372036854775808".toList.map ch := by decide +kernel

theorem printk_renders_least :
    printk (fun _ => percentS) (fun _ => BitVec.intMin 64) (fun _ => 0) percentD =
      some (("-9223372036854775808".toList.map ch, 0xf), 20) := by
  have h := (printk_renders (fun _ => percentS) (fun _ => BitVec.intMin 64) (fun _ => 0) percentD
    (by rw [formattedText_percentD, signedText_least]; decide)).2.1
  rw [formattedText_percentD, signedText_least] at h
  exact h

/-- A string of one byte more than the buffer has. -/
def longString : CString :=
  ⟨List.replicate 1025 (ch 'a'), fun h => absurd (List.eq_of_mem_replicate h) (by decide)⟩

theorem writes_overflow : ¬ ∀ leftover,
    (formatted (fun _ => longString) (fun _ => 0) leftover percentS).buffer.InBounds := by
  intro h
  have hfits := (formatted_inBounds _ _ _ _).mp (h fun _ => 0)
  rw [formattedText_percentS, longString, List.length_replicate] at hfits
  exact absurd hfits (by decide)

/-- The echo of an `s` at the keyboard. -/
theorem printf_two_colours :
    ¬ ColourFixed (fun _ => ⟨[ch 's'], by decide⟩) (fun _ => 0) percentS := by
  refine not_colourFixed _ _ ?_ ?_
  · rw [formattedText_percentS]
    exact ⟨"hell# ".toList.map ch, rfl⟩
  · rw [formattedText_percentS]
    decide

end Os64
