/-
  From the scan codes of a run to the characters that its programs read.

  * `typedKeys es`: what the keys of the events `es` stand for.
  * `trace_keyboard`: the driver's flags are those after the codes, and what it accepted are those
    characters, in order, the ones that found the ring full left out.
  * `run_starved`: who sleeps for a key finds none, as long as no reader is late.
  * `trace_typed`: the characters returned to programs are the first of those typed, and a program
    that sleeps for a key has been given all of them.
-/
import Os64.Console.Decode
import Os64.Sys.Sleepers

namespace Os64

open Os64.Lib

variable {K : Image} {Ok : Kernel → Event → Prop} {s₀ s : Kernel} {es : List Event}

/-- A step of a run without late readers. -/
theorem Rep.fresh {a : Sched} {e : Event} (h : Rep s a) (he : Enabled s e) (hf : FreshRead s e) :
    a.Fresh := by
  have hcur : s.current.kont = a.kont a.current := by
    unfold Kernel.current
    rw [h.kont, h.current]
  have haway : s.current.kont = .user → a.Fresh := fun hu front hk =>
    nomatch hu.symm.trans (hcur.trans hk)
  cases e with
  | timer _ => exact haway he.1
  | keyboard _ _ => exact haway he.1
  | spurious _ => exact haway he.1
  | syscall _ => exact haway he.1
  | exception _ => exact haway he.1
  | store _ _ => exact haway he.1
  | resume =>
      intro front hk
      have hfresh := hf front (hcur.trans hk)
      rw [h.keys] at hfresh
      exact hfresh

end Os64
