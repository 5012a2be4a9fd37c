/-
  lib.c: the intrusive lists of the process control block.

  A list item is the `next` field of a process, so an item is a slot. In
  `remove_list` the pointer `prev` starts at the list head itself, whose first field
  is `next`; `none` stands for it.
-/
import Os64.Kernel.State

namespace Os64

open Os64.Lib

def isListEmpty (list : HeadList) : Bool := list.next.isNone

def appendListTail (q : ListId) (item : Slot) : LowM Unit := do
  setProcess item fun p => { p with next := none }
  let s ← get
  if isListEmpty (s.pc.list q) then
    setList q ⟨some item, some item⟩
  else
    match (s.pc.list q).tail with
    | some t =>
        setProcess t fun p => { p with next := some item }
        setList q { s.pc.list q with tail := some item }
    | none => throw .exception

def removeListHead (q : ListId) : LowM (Option Slot) := do
  let s ← get
  match (s.pc.list q).next with
  | none => return none
  | some item =>
      let next := (s.processTable item).next
      setList q ⟨next, if next.isNone then none else (s.pc.list q).tail⟩
      return some item

/-- The `while` of `remove_list`; more rounds than there are processes mean that the
    `next` pointers run in a circle. -/
def removeListLoop (q : ListId) (wait : Int) :
    Nat → Option Slot → Option Slot → LowM (Option Slot)
  | 0, _, _ => throw .divergence
  | _ + 1, _, none => return none
  | fuel + 1, prev, some current => do
      let s ← get
      let next := (s.processTable current).next
      if (s.processTable current).wait = wait then
        match prev with
        | none => setList q { s.pc.list q with next := next }
        | some p => setProcess p fun pr => { pr with next := next }
        let s ← get
        if isListEmpty (s.pc.list q) then
          setList q { s.pc.list q with tail := none }
        else if next.isNone then
          setList q { s.pc.list q with tail := prev }
        return some current
      else
        removeListLoop q wait fuel (some current) next

def removeList (q : ListId) (wait : Int) : LowM (Option Slot) := do
  let s ← get
  removeListLoop q wait (numProc + 1) none (s.pc.list q).next

end Os64
