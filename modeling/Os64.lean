import Os64.Sched.Refine
import Os64.Sched.Order
import Os64.Sched.Ended
import Os64.Mem.Boot
import Os64.Mem.Spaces
import Os64.Mem.Ranges
import Os64.Mem.Freeing
import Os64.Lib.Sharing
import Os64.Lib.Cpu
import Os64.Mem.Owners
import Os64.Files.Counts
import Os64.Files.Lookup
import Os64.Files.Reading
import Os64.Files.Asserts
import Os64.Files.Kept
import Os64.Loader.File
import Os64.Files.Names
import Os64.Files.Opening
import Os64.Files.Slices
import Os64.Proc.Reap
import Os64.Sched.Sane
import Os64.Sys.Boot
import Os64.Sys.Step
import Os64.Sys.Machine
import Os64.Sys.Kept
import Os64.Sys.Reading
import Os64.Sys.Reach
import Os64.Sys.Waits
import Os64.Sys.Moves
import Os64.Sys.Refusals
import Os64.Sys.Keys
import Os64.Sys.Identity
import Os64.Sys.Disk
import Os64.Sys.Opened
import Os64.Sys.Limits
import Os64.Sys.Wild
import Os64.Sys.Shared
import Os64.Sys.Counts
import Os64.Sys.Exec
import Os64.Sys.Isolation
import Os64.Sys.Resumed
import Os64.Sys.Answers
import Os64.Sys.Copies
import Os64.Sys.Devices
import Os64.Sched.Asleep
import Os64.Sys.Sleepers
import Os64.Sys.Typing
import Os64.Trap.Asm
import Os64.Trap.Switch
import Os64.Trap.Invariant
import Os64.Trap.Progress
import Os64.Trap.Follows
import Os64.Trap.Resume
import Os64.Trap.Frames
import Os64.Trap.Calls
import Os64.Console.Decode
import Os64.Console.Screen
import Os64.Mem.Memmove
import Os64.Console.KeyRing
import Os64.Console.Bounds
import Os64.Sched.Sequence
import Os64.Mem.Accounting
import Os64.Loader.Load
import Os64.Loader.Alike
import Os64.Loader.Handoff
import Os64.Loader.MemoryMap
import Os64.Lib.Numeral
import Os64.Kernel.Format
import Os64.Console.Format
import Os64.User.Shell
