import SikMimuw.Lib.CString

/-!
# The request set of the C sender (`big/set.c`)

A `set` is the list of the numbers in its nodes, from `first` on.
-/

namespace SikMimuw.Big

open CStr

/-- Lines 36-46, from `ele` on: while the number is not `found` the walk goes to the next node, and
behind the last one it appends. -/
def walk (num ele : UInt64) (found : Bool) : List UInt64 → List UInt64
  | [] => if found then [ele] else [ele, num]
  | next :: rest =>
    if found then ele :: next :: rest else ele :: walk num next (found || next == num) rest

/-- Lines 29-47: one number of the text. -/
def addNum (collection : List UInt64) (num : UInt64) : List UInt64 :=
  match collection with
  | [] => [num]
  | ele :: next => walk num ele (ele == num) next

/-- `add_to_set`. -/
def addToSet (collection : List UInt64) (commaDelimited : List UInt8) : List UInt64 :=
  (strtok 44 commaDelimited).foldl
    (fun c pt => if 0 ≤ strtol pt then addNum c (UInt64.ofInt (strtol pt)) else c) collection

/-- `pop_set`; on an empty set it calls `syserr`. -/
def popSet : List UInt64 → Option (UInt64 × List UInt64)
  | [] => none
  | ele :: next => some (ele, next)

/-- `empty_set`. -/
def emptySet (collection : List UInt64) : Bool := collection == []

/-- `while (!empty_set(copy_requests)) temp = pop_set(copy_requests)`: what is popped. The loop is
given `n` tests of its condition. -/
def popAll : ℕ → List UInt64 → Option (List UInt64)
  | 0, _ => none
  | n + 1, collection =>
    if emptySet collection then some []
    else do
      let (temp, collection) ← popSet collection
      return temp :: (← popAll n collection)

end SikMimuw.Big
