/-
  The screen shows the end of an unbounded page.

  `layout text` is a text laid out on a page of 80 columns that never scrolls. `Shows T sb p`: the
  25 rows of the screen `sb` are the rows of `p` from row `T` on.

  * `Shows.put`: one character keeps the correspondence, scrolling when it needs a row.
  * `writeScreen_placed`: no call stores behind the screen, and the cursor stays on it.
  * `writeScreen_layout`: the screen after any calls of `write_screen` from a blank screen.
  * `clearScreen_fresh_iff`: `clear_screen` is a fresh start exactly when row 24 is blank; its
    loop stops before that row.
-/
import Os64.Kernel.Print
import Mathlib.Data.List.Induction

namespace Os64

open Os64.Lib

/-! ## The page -/

/-- A character with its colour. -/
abbrev Cell := UInt8 × UInt8

/-- A page with the position where the next character goes. -/
structure Page where
  cell : Nat → Nat → Cell
  row : Nat
  column : Nat

namespace Page

def blank : Page := ⟨fun _ _ => (0, 0), 0, 0⟩

def put (p : Page) (c : Cell) : Page :=
  if c.1 = 10 then { p with row := p.row + 1, column := 0 }
  else
    { cell := fun i j => if i = p.row ∧ j = p.column then c else p.cell i j
      row := if p.column + 1 = 80 then p.row + 1 else p.row
      column := if p.column + 1 = 80 then 0 else p.column + 1 }

/-- The cells from the position on are unwritten. -/
structure Tidy (p : Page) : Prop where
  column_lt : p.column < 80
  unwritten : ∀ i j, p.row < i ∨ i = p.row ∧ p.column ≤ j → p.cell i j = (0, 0)

theorem Tidy.blank : Tidy blank := ⟨by decide, fun _ _ _ => rfl⟩

theorem Tidy.put {p : Page} (h : p.Tidy) (c : Cell) : (p.put c).Tidy := by
  have hcol := h.column_lt
  unfold Page.put
  split
  · exact ⟨Nat.succ_pos _, fun i j hij => h.unwritten i j (by dsimp only at hij; omega)⟩
  · refine ⟨?_, fun i j hij => ?_⟩
    · dsimp only
      split <;> omega
    · dsimp only at hij ⊢
      rw [if_neg (by split at hij <;> omega)]
      exact h.unwritten i j (by split at hij <;> omega)

end Page

/-- A text laid out. -/
def layout (text : List Cell) : Page := text.foldl Page.put .blank

/-- The page row at which the last character was processed. -/
def lastRow (text : List Cell) : Nat := (layout text.dropLast).row

theorem layout_concat (text : List Cell) (c : Cell) :
    layout (text ++ [c]) = (layout text).put c := by
  unfold layout
  rw [List.foldl_append]
  rfl

theorem layout_tidy (text : List Cell) : (layout text).Tidy := by
  induction text using List.reverseRecOn with
  | nil => exact .blank
  | append_singleton text c ih =>
      rw [layout_concat]
      exact ih.put c

namespace ScreenBuffer

/-! ## The screen's cells -/

def cell (sb : ScreenBuffer) (i j : Nat) : Cell :=
  (sb.buffer (j * 2 + i * lineSize), sb.buffer (j * 2 + i * lineSize + 1))

/-- The cell at a place of the screen, after a store in the cell at another. -/
theorem cell_setCell (sb : ScreenBuffer) {column j : Nat} (row i : Nat) (ch color : UInt8)
    (hc : column < 80) (hj : j < 80) :
    ScreenBuffer.cell ⟨sb.setCell column row ch color, column, row⟩ i j =
      if i = row ∧ j = column then (ch, color) else sb.cell i j := by
  unfold cell setCell lineSize
  dsimp only
  split
  · rename_i h
    obtain ⟨rfl, rfl⟩ := h
    rw [Function.update_self, Function.update_of_ne (by omega), Function.update_self]
  · rw [Function.update_of_ne (by omega), Function.update_of_ne (by omega),
      Function.update_of_ne (by omega), Function.update_of_ne (by omega)]

theorem cell_scroll {sb : ScreenBuffer} (h : 25 ≤ sb.row) {i j : Nat} (hi : i < 25) (hj : j < 80) :
    sb.scroll.cell i j = if i = 24 then (0, 0) else sb.cell (i + 1) j := by
  unfold scroll
  rw [if_pos h]
  unfold cell lineSize
  dsimp only
  split
  · rw [fill_of_inside _ _ (by omega) (by omega), fill_of_inside _ _ (by omega) (by omega)]
  · rw [fill_of_outside _ _ _ _ (by omega), fill_of_outside _ _ _ _ (by omega),
      copy_of_inside _ (by omega) (by omega), copy_of_inside _ (by omega) (by omega)]
    congr 2 <;> omega

/-- Where a call leaves the cursor: on the screen, or at the head of a row for which the scroll
    waits. -/
structure Placed (sb : ScreenBuffer) : Prop where
  column_lt : sb.column < 80
  row_le : sb.row ≤ 25
  waiting : sb.row = 25 → sb.column = 0

theorem scroll_placed {sb : ScreenBuffer} (h : sb.Placed) :
    sb.scroll.column = sb.column ∧ sb.scroll.row = min sb.row 24 ∧
      ∀ x, lineSize * 25 ≤ x → sb.scroll.buffer x = sb.buffer x := by
  have hle := h.row_le
  unfold scroll
  by_cases hs : 25 ≤ sb.row
  · rw [if_pos hs]
    refine ⟨rfl, ?_, fun x hx => ?_⟩
    · dsimp only
      omega
    · unfold lineSize at hx ⊢
      dsimp only
      rw [fill_of_outside _ _ _ _ (by omega), copy_of_outside _ _ _ _ (by omega)]
  · rw [if_neg hs]
    exact ⟨rfl, by omega, fun _ _ => rfl⟩

/-- A character, a backspace included, is stored on the screen and nowhere else. -/
theorem writeChar_placed {sb : ScreenBuffer} (h : sb.Placed) (color ch : UInt8) :
    (writeChar color sb ch).Placed ∧
      ∀ x, lineSize * 25 ≤ x → (writeChar color sb ch).buffer x = sb.buffer x := by
  obtain ⟨hcol, hrow, hbuf⟩ := scroll_placed h
  have hc := h.column_lt
  unfold writeChar
  generalize sb.scroll = t at hcol hrow hbuf ⊢
  have hset : ∀ {column row : Nat} (a b : UInt8), column < 80 → row ≤ 24 →
      ∀ x, lineSize * 25 ≤ x → t.setCell column row a b x = sb.buffer x := by
    intro column row a b h1 h2 x hx
    unfold setCell lineSize at *
    rw [Function.update_of_ne (by omega), Function.update_of_ne (by omega)]
    exact hbuf x hx
  dsimp only
  by_cases hn : ch = 10
  · rw [if_pos hn]
    exact ⟨⟨Nat.succ_pos _, by dsimp only; omega, fun _ => rfl⟩, hbuf⟩
  · rw [if_neg hn]
    by_cases hb : ch = 8
    · rw [if_pos hb]
      by_cases h0 : t.column = 0 ∧ t.row = 0
      · rw [if_pos h0]
        exact ⟨⟨by omega, by omega, fun _ => h0.1⟩, hbuf⟩
      · rw [if_neg h0]
        refine ⟨⟨?_, ?_, ?_⟩, hset 0 0 (by split <;> omega) (by split <;> omega)⟩ <;>
          dsimp only <;> split <;> omega
    · rw [if_neg hb]
      refine ⟨⟨?_, ?_, ?_⟩, hset ch color (by omega) (by omega)⟩ <;> dsimp only <;> split <;> omega

theorem writeScreen_placed {sb : ScreenBuffer} (h : sb.Placed) (text : List UInt8) (color : UInt8) :
    (writeScreen text color sb).Placed ∧
      ∀ x, lineSize * 25 ≤ x → (writeScreen text color sb).buffer x = sb.buffer x := by
  induction text generalizing sb with
  | nil => exact ⟨h, fun _ _ => rfl⟩
  | cons ch text ih =>
      obtain ⟨h1, hb1⟩ := writeChar_placed h color ch
      obtain ⟨h2, hb2⟩ := ih h1
      exact ⟨h2, fun x hx => (hb2 x hx).trans (hb1 x hx)⟩

/-- All 25 rows are blank and the cursor is at the first cell. -/
structure Blank (sb : ScreenBuffer) : Prop where
  cells : ∀ i < 25, ∀ j < 80, sb.cell i j = (0, 0)
  column : sb.column = 0
  row : sb.row = 0

/-- The screen is the page from row `T` on. -/
structure Shows (T : Nat) (sb : ScreenBuffer) (p : Page) : Prop where
  cells : ∀ i < 25, ∀ j < 80, sb.cell i j = p.cell (T + i) j
  column : sb.column = p.column
  row : T + sb.row = p.row
  placed : sb.Placed

theorem Blank.shows {sb : ScreenBuffer} (h : sb.Blank) : Shows 0 sb .blank :=
  ⟨h.cells, h.column, by rw [h.row]; rfl,
    by rw [h.column]; decide, by rw [h.row]; decide, fun _ => h.column⟩

/-- The deferred scroll shows the page one row further down. -/
theorem Shows.scroll {T : Nat} {sb : ScreenBuffer} {p : Page} (h : Shows T sb p) (ht : p.Tidy) :
    Shows (T + sb.row - sb.scroll.row) sb.scroll p := by
  have hrow := h.row
  have hle := h.placed.row_le
  obtain ⟨hc, hr, -⟩ := scroll_placed h.placed
  refine ⟨fun i hi j hj => ?_, hc.trans h.column, by omega, ?_⟩
  · by_cases hs : 25 ≤ sb.row
    · rw [cell_scroll hs hi hj]
      split
      · -- the new last row is the row that the page is about to begin
        refine (ht.unwritten _ _ ?_).symm
        have := h.column
        have := h.placed.waiting (by omega)
        omega
      · rw [h.cells (i + 1) (by omega) j hj]
        congr 1
        omega
    · have hsame : sb.scroll = sb := by
        unfold ScreenBuffer.scroll
        rw [if_neg hs]
      rw [hsame, Nat.add_sub_cancel]
      exact h.cells i hi j hj
  · exact ⟨hc ▸ h.placed.column_lt, by omega, fun h25 => by omega⟩

/-- One character other than a backspace. -/
theorem Shows.put {T : Nat} {sb : ScreenBuffer} {p : Page} (h : Shows T sb p) (ht : p.Tidy)
    (hT : T = 0 ∨ 24 ≤ sb.row) {c : Cell} (hc : c.1 ≠ 8) :
    Shows (p.row - 24) (writeChar c.2 sb c.1) (p.put c) ∧
      (p.row - 24 = 0 ∨ 24 ≤ (writeChar c.2 sb c.1).row) := by
  have hs := h.scroll ht
  have hplaced := (writeChar_placed h.placed c.2 c.1).1
  have hrow := h.row
  have htc := ht.column_lt
  obtain ⟨-, hr, -⟩ := scroll_placed h.placed
  rw [show T + sb.row - sb.scroll.row = p.row - 24 by omega] at hs
  have hrow' := hs.row
  have hcol := hs.column
  unfold writeChar at hplaced ⊢
  unfold Page.put
  generalize sb.scroll = t at hs hr hrow' hcol hplaced ⊢
  dsimp only at hplaced ⊢
  by_cases hn : c.1 = 10
  · rw [if_pos hn] at hplaced ⊢
    rw [if_pos hn]
    refine ⟨⟨hs.cells, rfl, ?_, hplaced⟩, ?_⟩
    · dsimp only
      omega
    · dsimp only
      omega
  · rw [if_neg hn, if_neg hc] at hplaced ⊢
    rw [if_neg hn]
    refine ⟨⟨fun i hi j hj => ?_, ?_, ?_, hplaced⟩, ?_⟩
    · have hcell := cell_setCell t t.row i c.1 c.2 (hcol ▸ htc) hj
      refine hcell.trans ?_
      dsimp only
      by_cases hij : i = t.row ∧ j = t.column
      · rw [if_pos hij, if_pos (by omega)]
      · rw [if_neg hij, if_neg (by omega)]
        exact hs.cells i hi j hj
    · dsimp only
      split <;> split <;> omega
    · dsimp only
      split <;> split <;> omega
    · dsimp only
      split <;> omega

/-- A text without backspaces, from a blank screen. -/
theorem Blank.shows_layout {sb : ScreenBuffer} (h : sb.Blank) (text : List Cell)
    (htext : ∀ c ∈ text, c.1 ≠ 8) :
    Shows (lastRow text - 24) (text.foldl (fun sb c => writeChar c.2 sb c.1) sb) (layout text) ∧
      (lastRow text - 24 = 0 ∨ 24 ≤ (text.foldl (fun sb c => writeChar c.2 sb c.1) sb).row) := by
  induction text using List.reverseRecOn with
  | nil => exact ⟨h.shows, Or.inl rfl⟩
  | append_singleton text c ih =>
      obtain ⟨hs, hT⟩ := ih fun d hd => htext d (List.mem_append_left _ hd)
      have hlast : lastRow (text ++ [c]) = (layout text).row := by
        unfold lastRow
        rw [List.dropLast_concat]
      rw [hlast, layout_concat, List.foldl_append]
      exact hs.put (layout_tidy text) hT (htext c (List.mem_append_right _ (List.mem_singleton_self c)))

/-! ## Calls -/

/-- Calls of `write_screen`, each with its text and its colour. -/
def writeCalls (calls : List (List UInt8 × UInt8)) (sb : ScreenBuffer) : ScreenBuffer :=
  calls.foldl (fun sb c => writeScreen c.1 c.2 sb) sb

/-- The characters of the calls, one after the other. -/
def callsText (calls : List (List UInt8 × UInt8)) : List Cell :=
  calls.flatMap fun c => c.1.map fun ch => (ch, c.2)

theorem writeCalls_eq (calls : List (List UInt8 × UInt8)) (sb : ScreenBuffer) :
    writeCalls calls sb = (callsText calls).foldl (fun sb c => writeChar c.2 sb c.1) sb := by
  induction calls generalizing sb with
  | nil => rfl
  | cons c calls ih =>
      unfold callsText
      rw [List.flatMap_cons, List.foldl_append, List.foldl_map]
      exact ih _

/-- The screen after any calls of `write_screen` from a blank screen. -/
theorem writeScreen_layout {sb : ScreenBuffer} (h : sb.Blank) (calls : List (List UInt8 × UInt8))
    (hcalls : ∀ c ∈ calls, (8 : UInt8) ∉ c.1) :
    (∀ i < 25, ∀ j < 80, (writeCalls calls sb).cell i j =
        (layout (callsText calls)).cell (lastRow (callsText calls) - 24 + i) j) ∧
      (writeCalls calls sb).column = (layout (callsText calls)).column ∧
      lastRow (callsText calls) - 24 + (writeCalls calls sb).row =
        (layout (callsText calls)).row := by
  have htext : ∀ c ∈ callsText calls, c.1 ≠ 8 := by
    intro c hc
    obtain ⟨d, hd, hcd⟩ := List.mem_flatMap.mp hc
    obtain ⟨ch, hch, rfl⟩ := List.mem_map.mp hcd
    intro h8
    exact hcalls d hd (h8 ▸ hch)
  obtain ⟨hs, -⟩ := h.shows_layout (callsText calls) htext
  rw [← writeCalls_eq] at hs
  exact ⟨hs.cells, hs.column, hs.row⟩

/-- The power-on screen of zeros. -/
def zero : ScreenBuffer := ⟨fun _ => 0, 0, 0⟩

theorem zero_blank : zero.Blank := ⟨fun _ _ _ _ => rfl, rfl, rfl⟩

/-- `a`, a newline and `b`, in two calls. -/
theorem writeScreen_layout_two :
    (∀ i < 25, ∀ j < 80, (writeCalls [([97, 10], 0xf), ([98], 0xe)] zero).cell i j =
        (layout (callsText [([97, 10], 0xf), ([98], 0xe)])).cell
          (lastRow (callsText [([97, 10], 0xf), ([98], 0xe)]) - 24 + i) j) ∧
      (writeCalls [([97, 10], 0xf), ([98], 0xe)] zero).column =
        (layout (callsText [([97, 10], 0xf), ([98], 0xe)])).column ∧
      lastRow (callsText [([97, 10], 0xf), ([98], 0xe)]) - 24 +
          (writeCalls [([97, 10], 0xf), ([98], 0xe)] zero).row =
        (layout (callsText [([97, 10], 0xf), ([98], 0xe)])).row :=
  writeScreen_layout zero_blank [([97, 10], 0xf), ([98], 0xe)] (by decide)

/-! ## Clearing -/

/-- The screens that calls of `write_screen` and `clear_screen` reach, from whatever the video
    memory held. -/
inductive Reached : ScreenBuffer → Prop
  | start (m : Mem) : Reached ⟨m, 0, 0⟩
  | write {sb : ScreenBuffer} (text : List UInt8) (color : UInt8) (h : Reached sb) :
      Reached (writeScreen text color sb)
  | clear {sb : ScreenBuffer} (h : Reached sb) : Reached sb.clearScreen

theorem Reached.placed {sb : ScreenBuffer} (h : Reached sb) : sb.Placed := by
  induction h with
  | start m => exact ⟨Nat.succ_pos _, Nat.zero_le _, fun _ => rfl⟩
  | write text color _ ih => exact (writeScreen_placed ih text color).1
  | clear _ _ => exact ⟨Nat.succ_pos _, Nat.zero_le _, fun _ => rfl⟩

/-- The two screens look alike, the cursor included. -/
def Alike (sb sb' : ScreenBuffer) : Prop :=
  (∀ i < 25, ∀ j < 80, sb.cell i j = sb'.cell i j) ∧ sb.column = sb'.column ∧ sb.row = sb'.row

/-- The screen with all 25 rows blanked. -/
def blanked (sb : ScreenBuffer) : ScreenBuffer := ⟨fill sb.buffer 0 (lineSize * 25) 0, 0, 0⟩

/-- After `clear_screen` the screen is blank, and later texts look as on a blanked screen. -/
structure Fresh (sb : ScreenBuffer) : Prop where
  blank : sb.clearScreen.Blank
  later : ∀ calls, Alike (writeCalls calls sb.clearScreen) (writeCalls calls sb.blanked)

theorem clearRows (m : Mem) (n : Nat) :
    (List.range n).foldl (fun m i => fill m (lineSize * i) lineSize 0) m =
      fill m 0 (lineSize * n) 0 := by
  induction n with
  | zero =>
      funext x
      exact (fill_of_outside m 0 _ 0 (Or.inr (Nat.zero_le x))).symm
  | succ n ih =>
      rw [List.range_succ, List.foldl_append, ih]
      funext x
      change fill (fill m 0 (lineSize * n) 0) (lineSize * n) lineSize 0 x = _
      unfold fill lineSize
      by_cases h1 : x < 160 * n
      · rw [if_neg (by omega), if_pos (by omega), if_pos (by omega)]
      · by_cases h2 : x < 160 * (n + 1)
        · rw [if_pos (by omega), if_pos (by omega)]
        · rw [if_neg (by omega), if_neg (by omega), if_neg (by omega)]

theorem clearScreen_eq (sb : ScreenBuffer) :
    sb.clearScreen = ⟨fill sb.buffer 0 (lineSize * 24) 0, 0, 0⟩ := by
  unfold clearScreen
  rw [clearRows]

/-- Row 24 is not among the rows cleared. -/
theorem clearScreen_last (sb : ScreenBuffer) (j : Nat) :
    sb.clearScreen.cell 24 j = sb.cell 24 j := by
  rw [clearScreen_eq]
  unfold cell lineSize
  dsimp only
  rw [fill_of_outside _ _ _ _ (by omega), fill_of_outside _ _ _ _ (by omega)]

theorem clearScreen_blanked {sb : ScreenBuffer} (h : ∀ j < 80, sb.cell 24 j = (0, 0)) :
    sb.clearScreen = sb.blanked := by
  rw [clearScreen_eq]
  unfold blanked
  congr 1
  funext x
  unfold fill lineSize
  by_cases h1 : x < 160 * 24
  · rw [if_pos (by omega), if_pos (by omega)]
  · rw [if_neg (by omega)]
    by_cases h2 : x < 160 * 25
    · have hx := h ((x - 160 * 24) / 2) (by omega)
      unfold cell lineSize at hx
      rw [Prod.mk.injEq] at hx
      rw [if_pos (by omega)]
      rcases Nat.mod_two_eq_zero_or_one (x - 160 * 24) with hp | hp
      · rw [show (x - 160 * 24) / 2 * 2 + 24 * 160 = x by omega] at hx
        exact hx.1
      · rw [show (x - 160 * 24) / 2 * 2 + 24 * 160 + 1 = x by omega] at hx
        exact hx.2
    · rw [if_neg (by omega)]

theorem blanked_blank (sb : ScreenBuffer) : sb.blanked.Blank := by
  refine ⟨fun i hi j hj => ?_, rfl, rfl⟩
  unfold cell blanked lineSize
  dsimp only
  rw [fill_of_inside _ _ (by omega) (by omega), fill_of_inside _ _ (by omega) (by omega)]

theorem Fresh.last_blank {sb : ScreenBuffer} (h : sb.Fresh) : ∀ j < 80, sb.cell 24 j = (0, 0) :=
  fun j hj => (clearScreen_last sb j).symm.trans (h.blank.cells 24 (by decide) j hj)

/-- `clear_screen` is a fresh start exactly when the last row is blank already. -/
theorem clearScreen_fresh_iff (sb : ScreenBuffer) :
    sb.Fresh ↔ ∀ j < 80, sb.cell 24 j = (0, 0) := by
  refine ⟨Fresh.last_blank, fun h => ?_⟩
  have heq := clearScreen_blanked h
  refine ⟨?_, fun calls => ?_⟩
  · rw [heq]
    exact blanked_blank sb
  · rw [heq]
    exact ⟨fun _ _ _ _ => rfl, rfl, rfl⟩

/-- 24 newlines and an `a`, then `clear_screen`: the `a` stays. -/
theorem clearScreen_leaves_row : ∃ sb : ScreenBuffer, sb.Reached ∧ ¬ sb.Fresh := by
  refine ⟨writeScreen (List.replicate 24 10 ++ [97]) 0xf zero, .write _ _ (.start _), fun h => ?_⟩
  have hcell := h.last_blank 0 (by decide)
  revert hcell
  decide +kernel

end ScreenBuffer

end Os64
