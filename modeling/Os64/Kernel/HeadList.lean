/-
  lib.c: the lists, over any type of items.

  `Items` is one `HeadList` with the fields of the items that its functions use. A pointer to an
  item is an element of `α`; in `remove_list` the pointer `prev` may be the list head itself, whose
  first field is `next` too: `none` stands for it. The kernel's own lists, whose items are the
  slots of the process table, are in Kernel/List.
-/
import Mathlib.Logic.Function.Basic

namespace Os64

structure Items (α : Type) where
  next : α → Option α
  wait : α → Int
  head : Option α
  tail : Option α

namespace Items

variable {α : Type} [DecidableEq α]

omit [DecidableEq α] in
def isListEmpty (l : Items α) : Bool := l.head.isNone

/-- `i->next = n`. -/
def setNext (l : Items α) (i : α) (n : Option α) : Items α :=
  { l with next := Function.update l.next i n }

/-- `none` when the tail is a null pointer. -/
def appendListTail (l : Items α) (item : α) : Option (Items α) :=
  let l := l.setNext item none
  if l.isListEmpty then
    some { l with head := some item, tail := some item }
  else
    match l.tail with
    | some t => some { l.setNext t (some item) with tail := some item }
    | none => none

omit [DecidableEq α] in
def removeListHead (l : Items α) : Option α × Items α :=
  match l.head with
  | none => (none, l)
  | some item =>
      let l := { l with head := l.next item }
      (some item, if l.head.isNone then { l with tail := none } else l)

/-- The `while` of `remove_list`, for at most `fuel` rounds. -/
def removeListLoop (wait : Int) :
    Nat → Option α → Option α → Items α → Option (Option α × Items α)
  | 0, _, _, _ => none
  | _ + 1, _, none, l => some (none, l)
  | fuel + 1, prev, some current, l =>
      if l.wait current = wait then
        let l := match prev with
          | none => { l with head := l.next current }
          | some p => l.setNext p (l.next current)
        if l.head.isNone then
          some (some current, { l with tail := none })
        else if (l.next current).isNone then
          some (some current, { l with tail := prev })
        else
          some (some current, l)
      else
        removeListLoop wait fuel (some current) (l.next current) l

def removeList (fuel : Nat) (l : Items α) (wait : Int) : Option (Option α × Items α) :=
  removeListLoop wait fuel none l.head l

end Items

end Os64
