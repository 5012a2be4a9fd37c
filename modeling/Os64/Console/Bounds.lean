/-
  The console stays on its screen.

  `Console` is print.c's screen with `int` variables, as C has them, and with a log of the
  indices of `sb->buffer` that are read and written. The rows and columns may be negative here and
  an index may be anything.

  * `Inside`: the cursor is between characters and every index so far is one of the 4000.
  * `writeChar_inside`, `clearScreen_inside`: what one character and one clearing keep.
  * `console_bounds`: every state between characters.
  * `between_shadows`: it is the screen of the other modules.
-/
import Os64.Console.Screen
import Mathlib.Data.Int.Order.Basic

namespace Os64

open Os64.Lib

structure Console where
  buffer : Int → UInt8
  column : Int
  row : Int
  log : List Int

namespace Console

/-- The indices from `i` on, `n` of them. -/
def span (i : Int) (n : Nat) : List Int := (List.range n).map fun k : Nat => i + k

def memcpy (c : Console) (dst src : Int) (n : Nat) : Console :=
  { c with
    buffer := fun x => if dst ≤ x ∧ x < dst + n then c.buffer (src + (x - dst)) else c.buffer x
    log := c.log ++ span src n ++ span dst n }

def memset (c : Console) (i : Int) (n : Nat) : Console :=
  { c with
    buffer := fun x => if i ≤ x ∧ x < i + n then 0 else c.buffer x
    log := c.log ++ span i n }

/-- `sb->buffer[i] = b`. -/
def put (c : Console) (i : Int) (b : UInt8) : Console :=
  { c with buffer := Function.update c.buffer i b, log := c.log ++ [i] }

/-- The cell of the cursor gets a character and its colour. -/
def putCell (c : Console) (ch color : UInt8) : Console :=
  (c.put (c.column * 2 + c.row * 160) ch).put (c.column * 2 + c.row * 160 + 1) color

def scroll (c : Console) : Console :=
  if 25 ≤ c.row then
    let c := (c.memcpy 0 160 (160 * 24)).memset (160 * 24) 160
    { c with row := c.row - 1 }
  else c

/-- The loop body of `write_screen`. -/
def writeChar (color : UInt8) (c : Console) (ch : UInt8) : Console :=
  let c := c.scroll
  if ch = 10 then
    { c with column := 0, row := c.row + 1 }
  else if ch = 8 then
    if c.column = 0 ∧ c.row = 0 then c
    else
      let c := if c.column = 0 then { c with row := c.row - 1, column := 80 } else c
      let c := { c with column := c.column - 1 }
      c.putCell 0 0
  else
    let c := c.putCell ch color
    let c := { c with column := c.column + 1 }
    if 80 ≤ c.column then { c with column := 0, row := c.row + 1 } else c

/-- `write_screen` with the first `size` bytes at `buffer`. -/
def writeScreen (buffer : List UInt8) (size : Int) (color : UInt8) (c : Console) : Console :=
  (buffer.take size.toNat).foldl (writeChar color) c

def clearScreen (c : Console) : Console :=
  let c := (List.range 24).foldl (fun c (i : Nat) => c.memset (160 * i) 160) c
  { c with column := 0, row := 0 }

/-! ## The bounds -/

/-- The cursor is on the screen, or at the head of a row 25 for which the scroll waits; the
    indices are those of the 25 rows of 160 bytes. -/
structure Inside (c : Console) : Prop where
  column_nonneg : 0 ≤ c.column
  column_lt : c.column < 80
  row_nonneg : 0 ≤ c.row
  row_le : c.row ≤ 25
  log : ∀ i ∈ c.log, 0 ≤ i ∧ i < 4000

/-- At the head of a row. -/
theorem inside_head {b : Int → UInt8} {r : Int} {l : List Int} (hr0 : 0 ≤ r) (hr : r ≤ 25)
    (hl : ∀ i ∈ l, 0 ≤ i ∧ i < 4000) : Inside ⟨b, 0, r, l⟩ :=
  ⟨Int.le_refl 0, show (0 : Int) < 80 by decide, hr0, hr, hl⟩

theorem mem_span {i x : Int} {n : Nat} (h : x ∈ span i n) : i ≤ x ∧ x < i + n := by
  obtain ⟨k, hk, rfl⟩ := List.mem_map.mp h
  have := List.mem_range.mp hk
  omega

variable {c : Console}

theorem log_append {l l' : List Int} (h : ∀ i ∈ l, 0 ≤ i ∧ i < 4000)
    (h' : ∀ i ∈ l', 0 ≤ i ∧ i < 4000) : ∀ i ∈ l ++ l', 0 ≤ i ∧ i < 4000 := fun i hi =>
  (List.mem_append.mp hi).elim (h i) (h' i)

theorem memset_log {i : Int} {n : Nat} (h : ∀ x ∈ c.log, 0 ≤ x ∧ x < 4000) (hi : 0 ≤ i)
    (hn : i + n ≤ 4000) : ∀ x ∈ (c.memset i n).log, 0 ≤ x ∧ x < 4000 :=
  log_append h fun x hx => by
    have := mem_span hx
    omega

/-- The scroll reads and writes on the screen, and leaves the cursor on it. -/
theorem scroll_inside (h : c.Inside) : c.scroll.Inside ∧ c.scroll.row ≤ 24 := by
  obtain ⟨hc0, hc, hr0, hr, hlog⟩ := h
  unfold scroll
  by_cases hs : 25 ≤ c.row
  · rw [if_pos hs]
    have hcopy : ∀ i ∈ (c.memcpy 0 160 (160 * 24)).log, 0 ≤ i ∧ i < 4000 := by
      refine log_append (log_append hlog fun i hi => ?_) fun i hi => ?_
      · have := mem_span hi
        omega
      · have := mem_span hi
        omega
    refine ⟨⟨hc0, hc, ?_, ?_, memset_log hcopy (by decide) (by decide)⟩, ?_⟩
    · change 0 ≤ c.row - 1
      omega
    · change c.row - 1 ≤ 25
      omega
    · change c.row - 1 ≤ 24
      omega
  · rw [if_neg hs]
    exact ⟨⟨hc0, hc, hr0, hr, hlog⟩, by omega⟩

theorem putCell_log (h : ∀ i ∈ c.log, 0 ≤ i ∧ i < 4000) (hc0 : 0 ≤ c.column) (hc : c.column < 80)
    (hr0 : 0 ≤ c.row) (hr : c.row ≤ 24) (ch color : UInt8) :
    ∀ i ∈ (c.putCell ch color).log, 0 ≤ i ∧ i < 4000 := by
  refine log_append (log_append h fun i hi => ?_) fun i hi => ?_
  · rw [List.mem_singleton.mp hi]
    omega
  · rw [List.mem_singleton.mp hi]
    omega

theorem writeChar_inside (h : c.Inside) (color ch : UInt8) : (writeChar color c ch).Inside := by
  obtain ⟨⟨hc0, hc, hr0, -, hlog⟩, hr⟩ := scroll_inside h
  unfold writeChar
  generalize c.scroll = t at hc0 hc hr0 hlog hr ⊢
  dsimp only
  by_cases hn : ch = 10
  · rw [if_pos hn]
    exact inside_head (by omega) (by omega) hlog
  · rw [if_neg hn]
    by_cases hb : ch = 8
    · rw [if_pos hb]
      by_cases h0 : t.column = 0 ∧ t.row = 0
      · rw [if_pos h0]
        exact ⟨hc0, hc, hr0, by omega, hlog⟩
      · rw [if_neg h0]
        -- one cell back, from column 0 to the end of the row above
        by_cases hz : t.column = 0
        · rw [if_pos hz]
          refine ⟨?_, ?_, ?_, ?_, putCell_log (c := { t with row := t.row - 1, column := 80 - 1 })
            hlog (show (0 : Int) ≤ 80 - 1 by decide) (show (80 : Int) - 1 < 80 by decide) ?_ ?_ 0 0⟩
          · change (0 : Int) ≤ 80 - 1
            decide
          · change (80 : Int) - 1 < 80
            decide
          · change 0 ≤ t.row - 1
            omega
          · change t.row - 1 ≤ 25
            omega
          · dsimp only
            omega
          · dsimp only
            omega
        · rw [if_neg hz]
          refine ⟨?_, ?_, hr0, ?_, putCell_log (c := { t with column := t.column - 1 })
            hlog ?_ ?_ hr0 hr 0 0⟩
          · change 0 ≤ t.column - 1
            omega
          · change t.column - 1 < 80
            omega
          · change t.row ≤ 25
            omega
          · dsimp only
            omega
          · dsimp only
            omega
    · rw [if_neg hb]
      have hcell := putCell_log hlog hc0 hc hr0 hr ch color
      by_cases hwrap : 80 ≤ (t.putCell ch color).column + 1
      · rw [if_pos hwrap]
        refine inside_head ?_ ?_ hcell
        · change 0 ≤ t.row + 1
          omega
        · change t.row + 1 ≤ 25
          omega
      · rw [if_neg hwrap]
        refine ⟨?_, ?_, hr0, ?_, hcell⟩
        · change 0 ≤ t.column + 1
          omega
        · dsimp only
          omega
        · change t.row ≤ 25
          omega

theorem clearScreen_inside (h : c.Inside) : c.clearScreen.Inside := by
  have hrows : ∀ n ≤ 24, ∀ i ∈ ((List.range n).foldl (fun c (i : Nat) => c.memset (160 * i) 160)
      c).log, 0 ≤ i ∧ i < 4000 := by
    intro n
    induction n with
    | zero => exact fun _ => h.log
    | succ n ih =>
        intro hn
        rw [List.range_succ, List.foldl_append]
        exact memset_log (ih (by omega)) (by omega) (by omega)
  exact inside_head (Int.le_refl 0) (by decide) (hrows 24 (Nat.le_refl 24))

/-- The states between characters: the screen starts with whatever the video memory holds, and
    calls write characters and clear it. -/
inductive Between : Console → Prop
  | start (m : Int → UInt8) : Between ⟨m, 0, 0, []⟩
  | char {c : Console} (h : Between c) (color ch : UInt8) : Between (writeChar color c ch)
  | clear {c : Console} (h : Between c) : Between c.clearScreen

/-- The characters of a call lead from one such state to the next. -/
theorem Between.call (h : Between c) (buffer : List UInt8) (size : Int) (color : UInt8) :
    Between (writeScreen buffer size color c) := by
  unfold writeScreen
  generalize buffer.take size.toNat = text
  induction text generalizing c with
  | nil => exact h
  | cons ch text ih => exact ih (h.char color ch)

/-- The cursor stays in its bounds and every index in the 4000 bytes of the screen: between
    characters, and so after every call, whatever its text, size and colour. -/
theorem console_bounds (h : Between c) : c.Inside ∧ c.clearScreen.Inside ∧
    ∀ buffer size color, (writeScreen buffer size color c).Inside := by
  have hall : ∀ {c}, Between c → c.Inside := by
    intro c h
    induction h with
    | start m => exact inside_head (Int.le_refl 0) (by decide) nofun
    | char _ color ch ih => exact writeChar_inside ih color ch
    | clear _ ih => exact clearScreen_inside ih
  exact ⟨hall h, hall h.clear, fun buffer size color => hall (h.call buffer size color)⟩

/-- The screen is written over, cleared, and gets more backspaces than it has characters. -/
def overwritten : Console :=
  writeScreen (List.replicate 200 8) 200 0xf
    (writeScreen (List.replicate 3000 120) 3000 0xf ⟨fun _ => 0, 0, 0, []⟩).clearScreen

theorem console_bounds_overwritten : overwritten.Inside ∧ overwritten.clearScreen.Inside ∧
    ∀ buffer size color, (writeScreen buffer size color overwritten).Inside :=
  console_bounds (.call (.clear (.call (.start _) (List.replicate 3000 120) 3000 0xf))
    (List.replicate 200 8) 200 0xf)

/-! ## The screen of print.c -/

/-- The same screen: no variable is negative. -/
structure Shadow (c : Console) (sb : ScreenBuffer) : Prop where
  column : c.column = sb.column
  row : c.row = sb.row
  buffer : ∀ x : Nat, c.buffer x = sb.buffer x

variable {sb : ScreenBuffer}

theorem Shadow.memset (h : Shadow c sb) (i n : Nat) :
    Shadow (c.memset i n) { sb with buffer := fill sb.buffer i n 0 } := by
  refine ⟨h.column, h.row, fun x => ?_⟩
  change (if (i : Int) ≤ x ∧ (x : Int) < i + n then 0 else c.buffer x) = fill sb.buffer i n 0 x
  unfold fill
  rw [h.buffer x]
  by_cases hx : i ≤ x ∧ x < i + n
  · rw [if_pos (by omega), if_pos hx]
  · rw [if_neg (by omega), if_neg hx]

theorem Shadow.memcpy (h : Shadow c sb) (dst src n : Nat) :
    Shadow (c.memcpy dst src n) { sb with buffer := copy sb.buffer dst src n } := by
  refine ⟨h.column, h.row, fun x => ?_⟩
  change (if (dst : Int) ≤ x ∧ (x : Int) < dst + n then c.buffer (src + (x - dst)) else c.buffer x) =
    copy sb.buffer dst src n x
  unfold copy
  rw [h.buffer x]
  by_cases hx : dst ≤ x ∧ x < dst + n
  · rw [if_pos (by omega), if_pos hx, ← h.buffer]
    congr 1
    omega
  · rw [if_neg (by omega), if_neg hx]

theorem Shadow.put (h : Shadow c sb) {i : Int} {j : Nat} (hij : i = j) (b : UInt8) :
    Shadow (c.put i b) { sb with buffer := Function.update sb.buffer j b } := by
  refine ⟨h.column, h.row, fun x => ?_⟩
  change Function.update c.buffer i b x = Function.update sb.buffer j b x
  by_cases hx : x = j
  · rw [hij, hx, Function.update_self, Function.update_self]
  · rw [Function.update_of_ne (by omega), Function.update_of_ne hx, h.buffer x]

theorem Shadow.putCell (h : Shadow c sb) (ch color : UInt8) :
    Shadow (c.putCell ch color) { sb with buffer := sb.setCell sb.column sb.row ch color } := by
  have hcol := h.column
  have hrow := h.row
  have hat : c.column * 2 + c.row * 160 = ((sb.column * 2 + sb.row * lineSize : Nat) : Int) := by
    unfold lineSize
    omega
  exact (h.put hat ch).put (by omega) color

theorem Shadow.scroll (h : Shadow c sb) : Shadow c.scroll sb.scroll := by
  have hrow := h.row
  unfold Console.scroll ScreenBuffer.scroll
  by_cases hs : 25 ≤ sb.row
  · rw [if_pos (by omega), if_pos hs]
    have hset := (h.memcpy 0 160 (160 * 24)).memset (160 * 24) 160
    refine ⟨h.column, ?_, hset.buffer⟩
    change c.row - 1 = ((sb.row - 1 : Nat) : Int)
    omega
  · rw [if_neg (by omega), if_neg hs]
    exact h

theorem Shadow.writeChar (h : Shadow c sb) (color ch : UInt8) :
    Shadow (writeChar color c ch) (ScreenBuffer.writeChar color sb ch) := by
  have hs := h.scroll
  unfold Console.writeChar ScreenBuffer.writeChar
  generalize c.scroll = t at hs ⊢
  generalize sb.scroll = u at hs ⊢
  have hcol := hs.column
  have hrow := hs.row
  dsimp only
  by_cases hn : ch = 10
  · rw [if_pos hn, if_pos hn]
    refine ⟨rfl, ?_, hs.buffer⟩
    change t.row + 1 = ((u.row + 1 : Nat) : Int)
    omega
  · rw [if_neg hn, if_neg hn]
    by_cases hb : ch = 8
    · rw [if_pos hb, if_pos hb]
      by_cases h0 : u.column = 0 ∧ u.row = 0
      · rw [if_pos (by omega), if_pos h0]
        exact hs
      · rw [if_neg (by omega), if_neg h0]
        by_cases hz : u.column = 0
        · rw [if_pos (by omega), if_pos hz, if_pos hz]
          have hback : Shadow { t with row := t.row - 1, column := 80 - 1 }
              { u with row := u.row - 1, column := 80 - 1 } := by
            refine ⟨rfl, ?_, hs.buffer⟩
            change t.row - 1 = ((u.row - 1 : Nat) : Int)
            omega
          exact hback.putCell 0 0
        · rw [if_neg (by omega), if_neg hz, if_neg hz]
          have hback : Shadow { t with column := t.column - 1 } { u with column := u.column - 1 } := by
            refine ⟨?_, hs.row, hs.buffer⟩
            change t.column - 1 = ((u.column - 1 : Nat) : Int)
            omega
          exact hback.putCell 0 0
    · rw [if_neg hb, if_neg hb]
      have hcell := hs.putCell ch color
      have hsame : (t.putCell ch color).column = t.column := rfl
      by_cases hwrap : 80 ≤ u.column + 1
      · rw [if_pos (by omega), if_pos hwrap, if_pos hwrap]
        refine ⟨rfl, ?_, hcell.buffer⟩
        change t.row + 1 = ((u.row + 1 : Nat) : Int)
        omega
      · rw [if_neg (by omega), if_neg hwrap, if_neg hwrap]
        refine ⟨?_, hs.row, hcell.buffer⟩
        change t.column + 1 = ((u.column + 1 : Nat) : Int)
        omega

theorem Shadow.clearScreen (h : Shadow c sb) : Shadow c.clearScreen sb.clearScreen := by
  have hrows : ∀ n : Nat, Shadow ((List.range n).foldl (fun c (i : Nat) => c.memset (160 * i) 160) c)
      ⟨(List.range n).foldl (fun m i => fill m (lineSize * i) lineSize 0) sb.buffer, sb.column,
        sb.row⟩ := by
    intro n
    induction n with
    | zero => exact h
    | succ n ih =>
        rw [List.range_succ, List.foldl_append, List.foldl_append]
        exact ih.memset (160 * n) 160
  exact ⟨rfl, rfl, (hrows 24).buffer⟩

/-- It is the screen of print.c, with its log. -/
theorem between_shadows (h : Between c) : ∃ sb : ScreenBuffer, sb.Reached ∧ Shadow c sb := by
  induction h with
  | start m => exact ⟨⟨fun x => m x, 0, 0⟩, .start _, rfl, rfl, fun _ => rfl⟩
  | char _ color ch ih =>
      obtain ⟨sb, hr, hs⟩ := ih
      exact ⟨_, hr.write [ch] color, hs.writeChar color ch⟩
  | clear _ ih =>
      obtain ⟨sb, hr, hs⟩ := ih
      exact ⟨_, hr.clear, hs.clearScreen⟩

end Console

end Os64
