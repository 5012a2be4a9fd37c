/-
  keyboard.c: scan-code decoding, the key buffer and its readers.

  The buffer is a ring of 500 cells. `readKeyBuffer` is cut at its call of `sleep`:
  `takeKey` is the code after it, with the index `front` that was read before it.
-/
import Os64.Kernel.Process

namespace Os64

open Os64.Lib

def e0Sign : Nat := 1
def shift : Nat := 2
def capsLock : Nat := 4

def shiftCode (scanCode : Nat) : Nat :=
  if scanCode = 0x2A ∨ scanCode = 0x36 ∨ scanCode = 0xAA ∨ scanCode = 0xB6 then shift else 0

def lockCode (scanCode : Nat) : Nat := if scanCode = 0x3A then capsLock else 0

/-- The first rows of `key_map`; the rest of the 256 entries are 0. -/
def keyMapRows : List Nat :=
  [0, 0] ++ "1234567890-=".toList.map Char.toNat ++ [8, 0] ++
  "qwertyuiop[]".toList.map Char.toNat ++ [10, 0] ++
  "asdfghjkl;'`".toList.map Char.toNat ++ [0, 92] ++
  "zxcvbnm,./".toList.map Char.toNat ++ [0, 42, 0, 32]

/-- The first rows of `shift_key_map`. -/
def shiftKeyMapRows : List Nat :=
  [0, 1] ++ "!@#$%^&*()_+".toList.map Char.toNat ++ [8, 9] ++
  "QWERTYUIOP".toList.map Char.toNat ++ [123, 125] ++ [10, 0] ++
  "ASDFGHJKL:".toList.map Char.toNat ++ [34, 126] ++ [0, 124] ++
  "ZXCVBNM<>?".toList.map Char.toNat ++ [0, 42, 0, 32]

def keyMap (scanCode : Nat) : Nat := keyMapRows.getD scanCode 0
def shiftKeyMap (scanCode : Nat) : Nat := shiftKeyMapRows.getD scanCode 0

/-- The effect of one scan code on `flag`, and the character it yields. -/
def decodeScanCode (flag scanCode : Nat) : Nat × Nat :=
  if scanCode = 0xE0 then (flag ||| e0Sign, 0)
  else if flag &&& e0Sign ≠ 0 then (flag ^^^ e0Sign, 0)
  else if scanCode &&& 0x80 ≠ 0 then (flag ^^^ (flag &&& shiftCode scanCode), 0)
  else
    let flag := (flag ||| shiftCode scanCode) ^^^ lockCode scanCode
    let ch := if flag &&& shift ≠ 0 then shiftKeyMap scanCode else keyMap scanCode
    if flag &&& capsLock ≠ 0 then
      if 97 ≤ ch ∧ ch ≤ 122 then (flag, ch - 32)
      else if 65 ≤ ch ∧ ch ≤ 90 then (flag, ch + 32)
      else (flag, ch)
    else (flag, ch)

def writeKeyBuffer (ch : Nat) : LowM Unit := do
  let s ← get
  let front := s.keyBuffer.front
  let end_ := s.keyBuffer.end_
  let size := s.keyBuffer.size
  if (end_ + 1) % size = front then
    return
  else
    set { s with
      keyBuffer :=
        { s.keyBuffer with
          buffer := Function.update s.keyBuffer.buffer end_ ch
          end_ := (end_ + 1) % size } }
    observe (.accepted ch)

/-- `keyboard_read` with the scan code that port 0x60 holds. -/
def keyboardRead (scanCode : Nat) : LowM Nat := do
  let s ← get
  let (flag, ch) := decodeScanCode s.flag scanCode
  set { s with flag := flag }
  return ch

def keyboardHandler (scanCode : Nat) : LowM Unit := do
  let ch ← keyboardRead scanCode
  if 0 < ch then
    writeKeyBuffer ch
    wakeUp (-2)

/-- The end of `read_key_buffer`. -/
def takeKey (front : Nat) : KernelM Int := do
  let s ← get
  let ch := s.keyBuffer.buffer front
  set { s with
    keyBuffer :=
      { s.keyBuffer with front := (s.keyBuffer.front + 1) % s.keyBuffer.size } }
  observe (.returned ch)
  return ch

/-- `none` when the reader went to sleep. -/
def readKeyBuffer : KernelM (Option Int) := do
  let s ← get
  let front := s.keyBuffer.front
  if front = s.keyBuffer.end_ then
    sleep (-2) (.readingKey front)
    return none
  else
    let ch ← takeKey front
    return some ch

end Os64
