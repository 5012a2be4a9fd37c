/-
  print.c and lib/print.c: `printk`, `printf` and the functions that turn numbers into text.

  The two files have the same helpers and the same loop, so each of them is one definition here.
  The local buffer of 1024 bytes starts with whatever the stack held, `leftover`, and `writes`
  records the indices at which it is written. A call that writes outside the buffer overwrites
  its own frame: `printk` and `printf` are then `none`.

  `va_arg` takes the next 64-bit word of `args`; as a `char *` it points at the string
  `strings` has for it.
-/
import Os64.Kernel.LibAsm

namespace Os64

open Os64.Lib

/-- The byte of a character. -/
def ch (c : Char) : UInt8 := UInt8.ofNat c.toNat

/-- The bytes in front of a NUL. -/
structure CString where
  bytes : List UInt8
  noNul : 0 ∉ bytes

namespace CString

/-- `string[i]`, up to the NUL. -/
def byte (s : CString) (i : Nat) : UInt8 := s.bytes.getD i 0

theorem byte_of_length_le {s : CString} {i : Nat} (h : s.bytes.length ≤ i) : s.byte i = 0 := by
  unfold byte
  rw [List.getD_eq_getElem?_getD, List.getElem?_eq_none h]
  rfl

theorem lt_length {s : CString} {i : Nat} (h : s.byte i ≠ 0) : i < s.bytes.length := by
  by_contra hge
  exact h (byte_of_length_le (by omega))

end CString

/-- The local `char buffer[1024]`. -/
structure LocalBuffer where
  bytes : Nat → UInt8
  writes : List Nat

namespace LocalBuffer

/-- `buffer[i] = c`. -/
def put (b : LocalBuffer) (i : Nat) (c : UInt8) : LocalBuffer :=
  ⟨Function.update b.bytes i c, b.writes ++ [i]⟩

def InBounds (b : LocalBuffer) : Prop := ∀ i ∈ b.writes, i < 1024

instance (b : LocalBuffer) : Decidable b.InBounds :=
  inferInstanceAs (Decidable (∀ i ∈ b.writes, i < 1024))

end LocalBuffer

/-- `digits_map` of `hex_to_string`; that of `udecimal_to_string` is its first ten. -/
def digitsMap (d : Nat) : UInt8 := ("0123456789ABCDEF".toList.map ch).getD d 0

/-- The `do` loop: `digits_buffer`, of length `size`, after it. -/
def digitLoop (base : Nat) (hb : 1 < base) (digitsBuffer : List UInt8) (digits : Nat) :
    List UInt8 :=
  let digitsBuffer := digitsBuffer ++ [digitsMap (digits % base)]
  if _ : digits / base ≠ 0 then digitLoop base hb digitsBuffer (digits / base)
  else digitsBuffer
termination_by digits
decreasing_by
  refine Nat.div_lt_self (Nat.pos_of_ne_zero ?_) hb
  rintro rfl
  simp_all

/-- The loop that copies `digits_buffer` back, from its end: `i + 1` digits are left. -/
def copyBack (digitsBuffer : List UInt8) : Nat → LocalBuffer → Nat → LocalBuffer
  | 0, buffer, _ => buffer
  | i + 1, buffer, position =>
      copyBack digitsBuffer i (buffer.put position (digitsBuffer.getD i 0)) (position + 1)

/-- What `udecimal_to_string` and `hex_to_string` have in common. -/
def numberToString (base : Nat) (hb : 1 < base) (buffer : LocalBuffer) (position digits : Nat) :
    LocalBuffer × Nat :=
  let digitsBuffer := digitLoop base hb [] digits
  let size := digitsBuffer.length
  (copyBack digitsBuffer size buffer position, size)

def udecimalToString (buffer : LocalBuffer) (position : Nat) (digits : BitVec 64) :
    LocalBuffer × Nat :=
  numberToString 10 (by decide) buffer position digits.toNat

/-- `-digits` is the negation of the machine: it leaves the least number alone. -/
def decimalToString (buffer : LocalBuffer) (position : Nat) (digits : BitVec 64) :
    LocalBuffer × Nat :=
  if digits.toInt < 0 then
    let (buffer, size) := udecimalToString (buffer.put position (ch '-')) (position + 1) (-digits)
    (buffer, 1 + size)
  else udecimalToString buffer position digits

def hexToString (buffer : LocalBuffer) (position : Nat) (digits : BitVec 64) :
    LocalBuffer × Nat :=
  let (buffer, size) := numberToString 16 (by decide) buffer position digits.toNat
  (buffer.put (position + size) (ch 'H'), size + 1)

/-- The loop of `read_string` from `index` on. -/
def readStringFrom (string : CString) (buffer : LocalBuffer) (position index : Nat) :
    LocalBuffer × Nat :=
  if _ : string.byte index ≠ 0 then
    readStringFrom string (buffer.put position (string.byte index)) (position + 1) (index + 1)
  else (buffer, index)
termination_by string.bytes.length - index
decreasing_by
  have := CString.lt_length ‹_›
  omega

def readString (buffer : LocalBuffer) (position : Nat) (string : CString) : LocalBuffer × Nat :=
  readStringFrom string buffer position 0

/-- The variables of the loop: `buffer`, `buffer_size` and how many arguments are taken. -/
structure Scan where
  buffer : LocalBuffer
  size : Nat
  taken : Nat

namespace Scan

/-- `buffer[buffer_size++] = c`. -/
def putChar (s : Scan) (c : UInt8) : Scan :=
  { s with buffer := s.buffer.put s.size c, size := s.size + 1 }

/-- `buffer_size += f(buffer, buffer_size, va_arg(args, …))`. -/
def convert (s : Scan) (f : LocalBuffer → Nat → BitVec 64 → LocalBuffer × Nat)
    (args : Nat → BitVec 64) : Scan :=
  let r := f s.buffer s.size (args s.taken)
  ⟨r.1, s.size + r.2, s.taken + 1⟩

end Scan

section
variable (strings : BitVec 64 → CString) (args : Nat → BitVec 64)

/-- The loop of `printk` and `printf` from `i` on. The `default` of the switch steps `i` back. -/
def formatLoop (format : CString) (i : Nat) (s : Scan) : Scan :=
  if _ : format.byte i = 0 then s
  else if format.byte i ≠ ch '%' then
    formatLoop format (i + 1) (s.putChar (format.byte i))
  else if _ : format.byte (i + 1) = ch 'x' then
    formatLoop format (i + 2) (s.convert hexToString args)
  else if _ : format.byte (i + 1) = ch 'u' then
    formatLoop format (i + 2) (s.convert udecimalToString args)
  else if _ : format.byte (i + 1) = ch 'd' then
    formatLoop format (i + 2) (s.convert decimalToString args)
  else if _ : format.byte (i + 1) = ch 's' then
    formatLoop format (i + 2)
      (s.convert (fun b position p => readString b position (strings p)) args)
  else formatLoop format (i + 1) (s.putChar (ch '%'))
termination_by format.bytes.length - i
decreasing_by all_goals
  have := CString.lt_length ‹¬ format.byte i = 0›
  omega

/-- The loop from its start. -/
def formatted (leftover : Nat → UInt8) (format : CString) : Scan :=
  formatLoop strings args format 0 ⟨⟨leftover, []⟩, 0, 0⟩

/-- The first `buffer_size` bytes, which are what is written to the screen. -/
def Scan.text (s : Scan) : List UInt8 := (List.range s.size).map s.buffer.bytes

/-- The text and the colour given to `write_screen`, and the result. -/
def printk (leftover : Nat → UInt8) (format : CString) : Option ((List UInt8 × UInt8) × Int) :=
  let s := formatted strings args leftover format
  if s.buffer.InBounds then some ((s.text, 0xf), s.size) else none

/-- `"shell# "`. -/
def prompt : List UInt8 := "shell# ".toList.map ch

/-- The result is that of `writeu`: `sys_write` gives back the size it was given. -/
def printf (leftover : Nat → UInt8) (format : CString) : Option ((List UInt8 × UInt8) × Int) :=
  let s := formatted strings args leftover format
  if s.buffer.InBounds then
    if memcmp (prompt.getD · 0) s.buffer.bytes 7 = 0 then some ((s.text, 0xe), i32 s.size)
    else some ((s.text, 0xf), i32 s.size)
  else none

end

end Os64
