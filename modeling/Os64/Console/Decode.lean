/-
  Scan codes: the decoder of `keyboard_read` against a keyboard that knows its keys.

  `Keyboard` keeps which shift keys are down, and `Keyboard.answer` says what a code yields on it.
  The decoder has one `SHIFT` bit for the two keys. It is cleared when either of them is released,
  so after the release of one with the other held the shift is `lost`.

  * `decodeScanCode_flags`: a step of the decoder on the three bits of `flag`.
  * `keyboardReads_iff`: the characters are those of the keyboard exactly when no key with two
    different characters is pressed while the shift is lost.
-/
import Os64.Kernel.Main
import Os64.Lib.Mealy

namespace Os64

open Os64.Lib

/-- A keyboard: what the codes so far have left pressed and locked. `lost` marks that one shift
    key was released with the other held, and that neither has been touched since. -/
structure Keyboard where
  prefixed : Bool
  left : Bool
  right : Bool
  caps : Bool
  lost : Bool
  deriving DecidableEq, Repr

namespace Keyboard

def idle : Keyboard := ⟨false, false, false, false, false⟩

/-- At least one of the two shift keys is held down. -/
def shifted (k : Keyboard) : Bool := k.left || k.right

/-- The keyboard after a code. -/
def next (k : Keyboard) (code : Nat) : Keyboard :=
  if code = 0xE0 then { k with prefixed := true }
  else if k.prefixed then { k with prefixed := false }
  else if code = 0x2A then { k with left := true, lost := false }
  else if code = 0x36 then { k with right := true, lost := false }
  else if code = 0xAA then { k with left := false, lost := k.right }
  else if code = 0xB6 then { k with right := false, lost := k.left }
  else if code = 0x3A then { k with caps := !k.caps }
  else k

/-- What a code yields: nothing (0) for a prefix, a prefixed code and a break code. -/
def typed (k : Keyboard) (code : Nat) : Nat :=
  if code = 0xE0 ∨ k.prefixed ∨ 0x80 ≤ code then 0
  else if 97 ≤ keyMap code ∧ keyMap code ≤ 122 then
    if (k.next code).shifted = (k.next code).caps then keyMap code else keyMap code - 32
  else if (k.next code).shifted then shiftKeyMap code
  else keyMap code

/-- The key reads alike in the two tables, or the shift is not lost. -/
def Reads (k : Keyboard) (code : Nat) : Prop :=
  k.lost → k.prefixed = false → keyMap code = shiftKeyMap code

instance (k : Keyboard) (code : Nat) : Decidable (k.Reads code) :=
  inferInstanceAs (Decidable (_ → _))

end Keyboard

/-! ## The decoder on its three bits -/

/-- `flag` with the given bits. -/
def flagOf (e0 sh caps : Bool) : Nat := e0.toNat + 2 * sh.toNat + 4 * caps.toNat

theorem break_bit : ∀ code < 256, (code &&& 0x80 ≠ 0 ↔ 0x80 ≤ code) := by
  decide +kernel

theorem getD_past {l : List Nat} {i : Nat} (h : l.length ≤ i) : l.getD i 0 = 0 := by
  rw [List.getD_eq_getElem?_getD, List.getElem?_eq_none h]
  rfl

/-- Past the rows both tables are 0. -/
theorem keyMap_break {code : Nat} (h : 0x80 ≤ code) : keyMap code = shiftKeyMap code := by
  have h1 : keyMap code = 0 := getD_past (Nat.le_trans (by decide) h)
  have h2 : shiftKeyMap code = 0 := getD_past (Nat.le_trans (by decide) h)
  rw [h1, h2]

theorem keyMap_shift {code : Nat} (h : code = 0x2A ∨ code = 0x36) :
    keyMap code = shiftKeyMap code := by
  have hsame : keyMap 0x2A = shiftKeyMap 0x2A ∧ keyMap 0x36 = shiftKeyMap 0x36 := by decide +kernel
  rcases h with h | h
  · rw [h]
    exact hsame.1
  · rw [h]
    exact hsame.2

/-- The two tables: a letter stands over its capital, and no other key has a letter. -/
theorem keyMap_letter : ∀ code < 0x80,
    if 97 ≤ keyMap code ∧ keyMap code ≤ 122 then shiftKeyMap code = keyMap code - 32
    else ¬ (65 ≤ keyMap code ∧ keyMap code ≤ 90) ∧
      ¬ (97 ≤ shiftKeyMap code ∧ shiftKeyMap code ≤ 122) ∧
      ¬ (65 ≤ shiftKeyMap code ∧ shiftKeyMap code ≤ 90) := by
  decide +kernel

/-- The character of a make code, from the shift and caps bits. -/
def keyChar (sh caps : Bool) (code : Nat) : Nat :=
  if 97 ≤ keyMap code ∧ keyMap code ≤ 122 then
    if sh = caps then keyMap code else keyMap code - 32
  else if sh then shiftKeyMap code
  else keyMap code

theorem decodeScanCode_extended (e0 sh caps : Bool) :
    decodeScanCode (flagOf e0 sh caps) 0xE0 = (flagOf true sh caps, 0) := by
  cases e0 <;> cases sh <;> cases caps <;> rfl

theorem decodeScanCode_afterPrefix (sh caps : Bool) {code : Nat} (h : code ≠ 0xE0) :
    decodeScanCode (flagOf true sh caps) code = (flagOf false sh caps, 0) := by
  unfold decodeScanCode
  rw [if_neg h]
  cases sh <;> cases caps <;> rfl

theorem decodeScanCode_break (sh caps : Bool) {code : Nat} (h : code ≠ 0xE0) (h1 : 0x80 ≤ code)
    (h2 : code < 256) : decodeScanCode (flagOf false sh caps) code =
      (flagOf false (sh && shiftCode code = 0) caps, 0) := by
  have he : ¬ (flagOf false sh caps &&& e0Sign ≠ 0) := by cases sh <;> cases caps <;> decide
  unfold decodeScanCode
  rw [if_neg h, if_neg he, if_pos ((break_bit code h2).mpr h1)]
  have hcode : shiftCode code = shift ∨ shiftCode code = 0 := by
    unfold shiftCode
    split
    · exact Or.inl rfl
    · exact Or.inr rfl
  rcases hcode with hc | hc
  · rw [hc]
    cases sh <;> cases caps <;> rfl
  · rw [hc]
    cases sh <;> cases caps <;> rfl

theorem decodeScanCode_make (sh caps : Bool) {code : Nat} (h : code < 0x80) :
    decodeScanCode (flagOf false sh caps) code =
      (flagOf false (sh || (code = 0x2A ∨ code = 0x36)) (caps != decide (code = 0x3A)),
        keyChar (sh || (code = 0x2A ∨ code = 0x36)) (caps != decide (code = 0x3A)) code) := by
  have he : ¬ (flagOf false sh caps &&& e0Sign ≠ 0) := by cases sh <;> cases caps <;> decide
  have hb := mt (break_bit code (by omega)).mp (by omega)
  have hflag : (flagOf false sh caps ||| shiftCode code) ^^^ lockCode code =
      flagOf false (sh || (code = 0x2A ∨ code = 0x36)) (caps != decide (code = 0x3A)) := by
    by_cases hs : code = 0x2A ∨ code = 0x36
    · have hne : code ≠ 0x3A := by omega
      unfold shiftCode lockCode
      rw [if_pos (by omega), if_neg hne, decide_eq_true hs, decide_eq_false hne]
      cases sh <;> cases caps <;> rfl
    · unfold shiftCode lockCode
      rw [if_neg (by omega), decide_eq_false hs]
      by_cases hl : code = 0x3A
      · rw [if_pos hl, decide_eq_true hl]
        cases sh <;> cases caps <;> rfl
      · rw [if_neg hl, decide_eq_false hl]
        cases sh <;> cases caps <;> rfl
  unfold decodeScanCode
  rw [if_neg (by omega), if_neg he, if_neg hb]
  dsimp only
  rw [hflag]
  generalize (sh || (decide (code = 0x2A ∨ code = 0x36))) = sh'
  generalize (caps != decide (code = 0x3A)) = caps'
  have hsh : (flagOf false sh' caps' &&& shift ≠ 0) ↔ sh' = true := by
    cases sh' <;> cases caps' <;> decide
  have hcaps : (flagOf false sh' caps' &&& capsLock ≠ 0) ↔ caps' = true := by
    cases sh' <;> cases caps' <;> decide
  simp only [hsh, hcaps]
  have hmap := keyMap_letter code h
  unfold keyChar
  by_cases hl : 97 ≤ keyMap code ∧ keyMap code ≤ 122
  · rw [if_pos hl] at hmap
    rw [if_pos hl]
    cases sh' <;> cases caps'
    · simp
    · simp [hl]
    · simp [hmap]
    · have h1 : ¬ (97 ≤ shiftKeyMap code ∧ shiftKeyMap code ≤ 122) := by omega
      have h2 : 65 ≤ shiftKeyMap code ∧ shiftKeyMap code ≤ 90 := by omega
      have h3 : shiftKeyMap code + 32 = keyMap code := by omega
      simp [h1, h2, h3]
  · rw [if_neg hl] at hmap
    rw [if_neg hl]
    cases sh' <;> cases caps' <;> simp [hl, hmap]

/-- The shift shows on a key exactly when the tables have different characters for it. -/
theorem keyChar_iff (caps : Bool) (code : Nat) :
    keyChar false caps code = keyChar true caps code ↔ keyMap code = shiftKeyMap code := by
  unfold keyChar
  by_cases hl : 97 ≤ keyMap code ∧ keyMap code ≤ 122
  · have hlt : code < 0x80 := by
      by_contra h
      have h0 : keyMap code = 0 := getD_past (Nat.le_trans (by decide) (Nat.le_of_not_lt h))
      omega
    have hmap := keyMap_letter code hlt
    rw [if_pos hl] at hmap
    rw [if_pos hl, if_pos hl]
    cases caps <;> simp <;> omega
  · rw [if_neg hl, if_neg hl]
    simp

namespace Keyboard

theorem next_make (k : Keyboard) (hp : k.prefixed = false) {code : Nat} (h : code < 0x80) :
    (k.next code).prefixed = false ∧
      (k.next code).shifted = (k.shifted || decide (code = 0x2A ∨ code = 0x36)) ∧
      (k.next code).lost = (k.lost && !decide (code = 0x2A ∨ code = 0x36)) ∧
      (k.next code).caps = (k.caps != decide (code = 0x3A)) := by
  obtain ⟨e0, l, r, caps, lost⟩ := k
  cases hp
  unfold next
  rw [if_neg (by omega), if_neg (by simp)]
  by_cases h1 : code = 0x2A
  · rw [if_pos h1]
    simp [h1, shifted]
  · rw [if_neg h1]
    by_cases h2 : code = 0x36
    · rw [if_pos h2]
      simp [h2, shifted]
    · rw [if_neg h2, if_neg (by omega), if_neg (by omega)]
      by_cases h3 : code = 0x3A
      · rw [if_pos h3]
        simp [h3, shifted]
      · rw [if_neg h3]
        simp [h1, h2, h3]

theorem typed_make (k : Keyboard) (hp : k.prefixed = false) {code : Nat} (h : code < 0x80) :
    k.typed code = keyChar (k.next code).shifted (k.next code).caps code := by
  unfold typed keyChar
  rw [if_neg (by rw [hp]; simp; omega)]

end Keyboard

/-! ## The decoder against the keyboard -/

/-- The flag of `keyboard_read` after the codes that left the keyboard at `k`. -/
structure Flags (flag : Nat) (k : Keyboard) : Prop where
  flag_eq : flag = flagOf k.prefixed (k.shifted && !k.lost) k.caps
  held : k.lost → k.shifted

/-- The machine of the reference keyboard. -/
def keyboardMachine : Mealy Keyboard UInt8 Nat := fun k code =>
  (k.typed code.toNat, k.next code.toNat)

/-- `keyboard_read` as a machine on `flag`. -/
def decoder : Mealy Nat UInt8 Nat := fun flag code =>
  ((decodeScanCode flag code.toNat).2, (decodeScanCode flag code.toNat).1)

theorem Flags.idle : Flags 0 .idle := ⟨rfl, fun h => by cases h⟩

/-- One code, on a flag that agrees with the keyboard. -/
theorem Flags.step {flag : Nat} {k : Keyboard} (h : Flags flag k) {code : Nat}
    (hc : code < 256) : Flags (decodeScanCode flag code).1 (k.next code) ∧
      ((decodeScanCode flag code).2 = k.typed code ↔ k.Reads code) := by
  obtain ⟨rfl, hheld⟩ := h
  obtain ⟨e0, l, r, caps, lost⟩ := k
  dsimp only [Keyboard.shifted] at hheld ⊢
  by_cases hE : code = 0xE0
  · subst hE
    rw [decodeScanCode_extended]
    exact ⟨⟨rfl, hheld⟩, fun _ _ _ => keyMap_break (by omega), fun _ => rfl⟩
  · cases e0 with
    | true =>
        rw [decodeScanCode_afterPrefix _ _ hE]
        unfold Keyboard.next Keyboard.typed
        rw [if_neg hE, if_pos rfl, if_pos (Or.inr (Or.inl rfl))]
        exact ⟨⟨rfl, hheld⟩, fun _ _ h => (nomatch h), fun _ => rfl⟩
    | false =>
        by_cases hb : 0x80 ≤ code
        · rw [decodeScanCode_break _ _ hE hb hc]
          refine ⟨?_, fun _ _ _ => keyMap_break hb, fun _ => ?_⟩
          · unfold Keyboard.next
            rw [if_neg hE, if_neg (by simp), if_neg (by omega), if_neg (by omega)]
            by_cases hl : code = 0xAA
            · rw [if_pos hl]
              refine ⟨?_, fun h => by simpa [Keyboard.shifted] using h⟩
              subst hl
              cases l <;> cases r <;> cases lost <;> rfl
            · rw [if_neg hl]
              by_cases hr : code = 0xB6
              · rw [if_pos hr]
                refine ⟨?_, fun h => by simpa [Keyboard.shifted] using h⟩
                subst hr
                cases l <;> cases r <;> cases lost <;> rfl
              · have hs : shiftCode code = 0 := if_neg (by omega)
                rw [if_neg hr, if_neg (by omega), hs, decide_eq_true rfl, Bool.and_true]
                exact ⟨rfl, hheld⟩
          · unfold Keyboard.typed
            rw [if_pos (Or.inr (Or.inr hb))]
        · have hlt : code < 0x80 := by omega
          rw [decodeScanCode_make _ _ hlt]
          obtain ⟨hp, hsh, hlost, hcaps⟩ := Keyboard.next_make ⟨false, l, r, caps, lost⟩ rfl hlt
          refine ⟨⟨?_, ?_⟩, ?_⟩
          · rw [hp, hsh, hlost, hcaps]
            dsimp only [Keyboard.shifted]
            generalize decide (code = 0x2A ∨ code = 0x36) = sh
            cases sh <;> cases (l || r) <;> cases lost <;> rfl
          · rw [hsh, hlost]
            intro hk
            rw [Bool.and_eq_true] at hk
            exact (Bool.or_eq_true _ _).mpr (Or.inl (hheld hk.1))
          · rw [Keyboard.typed_make _ rfl hlt, hsh, hcaps]
            dsimp only [Keyboard.shifted, Keyboard.Reads]
            by_cases hs : code = 0x2A ∨ code = 0x36
            · rw [decide_eq_true hs, Bool.or_true, Bool.or_true]
              exact ⟨fun _ _ _ => keyMap_shift hs, fun _ => rfl⟩
            · rw [decide_eq_false hs, Bool.or_false, Bool.or_false]
              cases lost with
              | false =>
                  rw [Bool.not_false, Bool.and_true]
                  exact ⟨fun _ h => (nomatch h), fun _ => rfl⟩
              | true =>
                  rw [hheld rfl, Bool.not_true, Bool.and_false, keyChar_iff]
                  exact ⟨fun h _ _ => h, fun h => h rfl rfl⟩

/-- `keyboard_read`, once for each code, from a keyboard at rest. -/
def keyboardReads (codes : List UInt8) : LowM (List Nat) := do
  modify fun s => { s with flag := 0 }
  codes.mapM fun code => keyboardRead code.toNat

theorem keyboardRead_mapM (codes : List UInt8) (s : Kernel) :
    ∃ s', codes.mapM (fun code => keyboardRead code.toNat) s =
      .ok (decoder.outputs s.flag codes) s' := by
  induction codes generalizing s with
  | nil => exact ⟨s, rfl⟩
  | cons c codes ih =>
      have hread : keyboardRead c.toNat s = .ok (decodeScanCode s.flag c.toNat).2
        { s with flag := (decodeScanCode s.flag c.toNat).1 } := rfl
      obtain ⟨s', hs'⟩ := ih { s with flag := (decodeScanCode s.flag c.toNat).1 }
      refine ⟨s', ?_⟩
      rw [List.mapM_cons, bind_run hread, bind_run hs']
      rfl

theorem keyboardReads_run (codes : List UInt8) (s : Kernel) :
    ∃ s', keyboardReads codes s = .ok (decoder.outputs 0 codes) s' :=
  keyboardRead_mapM codes { s with flag := 0 }

/-- The characters read from a keyboard at rest are those of the reference keyboard exactly when
    every key pressed while the shift is lost has one character in both tables. -/
theorem keyboardReads_iff (codes : List UInt8) (s : Kernel) :
    (∃ s', keyboardReads codes s = .ok (keyboardMachine.outputs .idle codes) s') ↔
      keyboardMachine.Along (fun k code => k.Reads code.toNat) .idle codes := by
  obtain ⟨s', hrun⟩ := keyboardReads_run codes s
  have hiff : decoder.outputs 0 codes = keyboardMachine.outputs .idle codes ↔ _ :=
    Mealy.outputs_eq_iff (R := Flags) (P := fun k code => k.Reads code.toNat)
    (fun _ _ code h => (h.step code.toNat_lt).1) (fun _ _ code h => (h.step code.toNat_lt).2)
    Flags.idle codes
  rw [← hiff, hrun]
  constructor
  · rintro ⟨_, h⟩
    injection h
  · intro h
    exact ⟨s', by rw [h]⟩

/-- Both shift keys go down, the left one comes up and `a` is typed: the decoder reads a small
    letter. -/
theorem shift_released : ¬ ∃ s', keyboardReads [0x2A, 0x36, 0xAA, 0x1E] (bootKernel fun _ => 0) =
    .ok (keyboardMachine.outputs .idle [0x2A, 0x36, 0xAA, 0x1E]) s' := by
  obtain ⟨s', hrun⟩ := keyboardReads_run [0x2A, 0x36, 0xAA, 0x1E] (bootKernel fun _ => 0)
  have hread : decoder.outputs 0 [0x2A, 0x36, 0xAA, 0x1E] = [0, 0, 0, 97] := by decide +kernel
  have htyped : keyboardMachine.outputs .idle [0x2A, 0x36, 0xAA, 0x1E] = [0, 0, 0, 65] := by
    decide +kernel
  rintro ⟨_, h⟩
  rw [hrun, hread, htyped] at h
  injection h with h
  cases h

end Os64
