/-
  print.c: the text screen.

  `sb->buffer` is the video memory from `P2V(0xb8000)` on: 25 rows of `LINE_SIZE` bytes, two for
  a column (character and colour), and whatever lies behind them.
-/
import Os64.Lib.Bytes

namespace Os64

open Os64.Lib

def lineSize : Nat := 160

structure ScreenBuffer where
  buffer : Mem
  column : Nat
  row : Nat

namespace ScreenBuffer

def clearScreen (sb : ScreenBuffer) : ScreenBuffer where
  buffer := (List.range 24).foldl (fun m i => fill m (lineSize * i) lineSize 0) sb.buffer
  column := 0
  row := 0

/-- The deferred scroll at the head of the loop of `write_screen`. -/
def scroll (sb : ScreenBuffer) : ScreenBuffer :=
  if 25 ≤ sb.row then
    { sb with
      buffer := fill (copy sb.buffer 0 lineSize (lineSize * 24)) (lineSize * 24) lineSize 0
      row := sb.row - 1 }
  else sb

/-- Store a character and its colour in the cell of the cursor. -/
def setCell (sb : ScreenBuffer) (column row : Nat) (ch color : UInt8) : Mem :=
  Function.update (Function.update sb.buffer (column * 2 + row * lineSize) ch)
    (column * 2 + row * lineSize + 1) color

/-- The loop body of `write_screen`. -/
def writeChar (color : UInt8) (sb : ScreenBuffer) (ch : UInt8) : ScreenBuffer :=
  let sb := sb.scroll
  if ch = 10 then
    { sb with column := 0, row := sb.row + 1 }
  else if ch = 8 then
    if sb.column = 0 ∧ sb.row = 0 then sb
    else
      let row := if sb.column = 0 then sb.row - 1 else sb.row
      let column := (if sb.column = 0 then 80 else sb.column) - 1
      ⟨sb.setCell column row 0 0, column, row⟩
  else
    let column := sb.column + 1
    ⟨sb.setCell sb.column sb.row ch color, if 80 ≤ column then 0 else column,
      if 80 ≤ column then sb.row + 1 else sb.row⟩

/-- `write_screen`, with the `size` bytes of `buffer` as a list. -/
def writeScreen (buffer : List UInt8) (color : UInt8) (sb : ScreenBuffer) : ScreenBuffer :=
  buffer.foldl (writeChar color) sb

end ScreenBuffer

end Os64
