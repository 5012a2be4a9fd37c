/-
  lib.asm: `memcpy` and `memmove`, which are one routine, and `memcmp`.

  The routine on the registers it uses, instruction by instruction. The string instructions are
  loops over `rcx`: `rep movsb` moves bytes up or down as the direction flag says, and
  `repe cmpsb` compares until a byte differs.
-/
import Os64.Kernel.State

namespace Os64

open Os64.Lib

/-- The registers of the routine and the memory it works on. -/
structure CopyState where
  rdi : Nat
  rsi : Nat
  rdx : Nat
  rcx : Nat
  r8 : Nat
  df : Bool
  mem : Mem

namespace CopyState

/-- `movsb`, with the step that `df` gives. -/
def movsb (s : CopyState) : CopyState :=
  let step := if s.df then 2 ^ 64 - 1 else 1
  { s with
    mem := Function.update s.mem s.rdi (s.mem s.rsi)
    rdi := u64 (s.rdi + step)
    rsi := u64 (s.rsi + step) }

/-- `rep movsb`, for the number of rounds in `rcx`. -/
def repMovsb : Nat → CopyState → CopyState
  | 0, s => { s with rcx := 0 }
  | n + 1, s => repMovsb n s.movsb

/-- From `.copy` to the end: `mov ecx,edx`, `rep movsb`, `cld`. -/
def copyPart (s : CopyState) : CopyState :=
  { repMovsb (u32 s.rdx) { s with rcx := u32 s.rdx } with df := false }

/-- `.overlap`: the pointers go to the last bytes, and the direction is down. -/
def overlapPart (s : CopyState) : CopyState :=
  { s with
    df := true
    rdi := u64 (u64 (s.rdi + s.rdx) + (2 ^ 64 - 1))
    rsi := u64 (u64 (s.rsi + s.rdx) + (2 ^ 64 - 1)) }

def memmove (s : CopyState) : CopyState :=
  let s := { s with df := false }
  if s.rdi ≤ s.rsi then copyPart s
  else
    let s := { s with r8 := u64 (s.rsi + s.rdx) }
    if s.r8 ≤ s.rdi then copyPart s else copyPart (overlapPart s)

/-- The same label. -/
def memcpy : CopyState → CopyState := memmove

end CopyState

/-- `repe cmpsb` over what `rdi` and `rsi` point at: the zero flag when it stops. -/
def repeCmpsb (rdi rsi : Nat → UInt8) : Nat → Bool → Nat → Bool
  | 0, zf, _ => zf
  | n + 1, _, k => if rdi k = rsi k then repeCmpsb rdi rsi n true (k + 1) else false

/-- `memcmp`; `xor eax,eax` sets the zero flag. -/
def memcmp (src1 src2 : Nat → UInt8) (size : Nat) : Nat :=
  if repeCmpsb src1 src2 (u32 size) true 0 then 0 else 1

end Os64
