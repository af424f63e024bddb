import SikMimuw.Model.Big.Buffor
import SikMimuw.Model.Buffor

/-!
# Reassembly in the C receiver (`big/buffor.c`, `printing_loop` of `big/odbiornik.c`)

`Malloc` is the allocator. A `DataHeap` also knows what the data blocks hold.

Line 47 allocates `sizeof(setElem)` bytes, the size of a pointer, for an element of three pointers.
Where the block has no room for it, what `add_to_set` stores lies outside (none).
-/

namespace SikMimuw.Big

/-- The memory with the contents of the data blocks. -/
structure DataHeap where
  heap : Heap
  bytes : UInt64 → List UInt8

/-- `malloc`: the address of the next block, and the bytes a block has room for, by how many were asked
for. -/
structure Malloc where
  address : Heap → UInt64
  room : ℕ → ℕ

def sizeofPointer : ℕ := 8
def sizeofSetElem : ℕ := 24

/-- `add_to_set`. -/
def Heap.addToSet (alloc : Malloc) (h : Heap) (package : UInt64) : Option Heap := do
  let setElem := alloc.address h
  let h ← h.malloc setElem
  if alloc.room sizeofPointer < sizeofSetElem then none
  let h ← h.storeElem setElem fun a => { a with package := package }
  if h.buffor.set = 0 then
    let h ← h.storeElem setElem fun a => { a with prev := setElem }
    let h ← h.storeElem setElem fun a => { a with next := setElem }
    return h.setBuffor fun b => { b with set := setElem }
  else
    let h ← h.storeElem setElem fun a => { a with next := h.buffor.set }
    let first ← h.loadElem h.buffor.set
    let h ← h.storeElem setElem fun a => { a with prev := first.prev }
    let first ← h.loadElem h.buffor.set
    let h ← h.storeElem first.prev fun a => { a with next := setElem }
    h.storeElem h.buffor.set fun a => { a with prev := setElem }

/-- The loop of `test`, with its assertions. -/
def testLoop : ℕ → UInt64 → Heap → Option Unit
  | 0, _, _ => some ()
  | n + 1, ele, h => do
    let e ← h.load ele
    if e.next = 0 ∨ e.prev = 0 then none else testLoop n e.next h

/-- `test`. Its counter is an `int`. -/
def test (h : Heap) : Option Unit :=
  if h.buffor.packages = 0 then some ()
  else if 2 ^ 31 ≤ h.buffor.size.toNat then none
  else testLoop h.buffor.size.toNat h.buffor.packages h

/-- Lines 108-111: a new package with its data, which lie in the second block. -/
def allocPackage (alloc : Malloc) (h : Heap) (num : UInt64) :
    Option (UInt64 × UInt64 × Heap) := do
  let pack := alloc.address h
  let h ← h.malloc pack
  let data := alloc.address h
  let h ← h.malloc data
  let h ← h.store pack fun a => { a with data := data, num := num }
  return (pack, data, h)

/-- Lines 121-127: a package without data, and its element. -/
def addDummy (alloc : Malloc) (h : Heap) (num : UInt64) : Option Heap := do
  let dummy := alloc.address h
  let h ← newPackage h dummy 0 num
  let h ← addToBufferEnd h dummy
  h.addToSet alloc dummy

/-- Lines 130-131. The calls of `check_set` have fuel `fuel`. -/
def discardFirst (fuel : ℕ) (h : Heap) : Option Heap := do
  let (discard, h) ← popFromBuffor fuel h
  removePackage h discard

/-- The loop of `add_to_buffor`. -/
def addLoop (alloc : Malloc) (fuel : ℕ) (pack num len : UInt64) : ℕ → Heap → Option Heap
  | 0, _ => none
  | n + 1, h =>
    if h.buffor.fill < h.buffor.size then do
      let first ← h.load h.buffor.packages
      let last ← h.load first.prev
      if last.num + len = num then addToBufferEnd h pack
      else
        let h ← addDummy alloc h (last.num + len)
        let h ← if h.buffor.fill = h.buffor.size then discardFirst fuel h else some h
        addLoop alloc fuel pack num len n h
    else some h

/-- **`add_to_buffor`**. -/
def addToBuffor (alloc : Malloc) (n : ℕ) (m : DataHeap) (num : UInt64) (data : List UInt8) :
    Option DataHeap := do
  let len := UInt64.ofNat data.length
  test m.heap
  let (found, h) ← checkSet n m.heap num
  if found ≠ 0 then
    let block := alloc.address h
    let h ← h.malloc block
    let h ← h.store found fun a => { a with data := block }
    return ⟨h, Function.update m.bytes block data⟩
  else
    let (pack, block, h) ← allocPackage alloc h num
    let h ← if h.buffor.packages = 0 then addToBufferFirst h pack len
      else addLoop alloc n pack num len n h
    test h
    return ⟨h, Function.update m.bytes block data⟩

/-! ### The printing thread -/

/-- Lines 334-340, under the mutex: the package and its length. One without data ends the loop, and
nothing frees it. -/
def printTake (n : ℕ) (h : Heap) : Option (Option (UInt64 × UInt64) × Heap) := do
  let (package, h) ← popFromBuffor n h
  if h.buffor.size = 0 then none
  let len := h.buffor.maxData / h.buffor.size
  let p ← h.load package
  if p.data = 0 then
    let h ← resetBuffor n h
    return (none, h)
  else return (some (package, len), h)

/-- Lines 343-344, outside the mutex: `write` reads `len` bytes of the block. -/
def printWrite (m : DataHeap) (package len : UInt64) : Option (List UInt8 × DataHeap) := do
  let p ← m.heap.load package
  if (m.bytes p.data).length < len.toNat then none
  let h ← removePackage m.heap package
  return ((m.bytes p.data).take len.toNat, { m with heap := h })

/-! ### Both threads -/

/-- The memory, the package and the length that the printing thread has in hand, and its output. -/
structure Process where
  memory : DataHeap
  package : Option (UInt64 × UInt64)
  written : List UInt8

/-- What the threads do in turn: under the mutex (`add`, `take`, `reset`), or not (`write`). -/
inductive Turn where
  | add (num : UInt64) (data : List UInt8)
  | take
  | write
  | reset

/-- A turn. There is one printing thread at a time. -/
def Process.turn (alloc : Malloc) (n : ℕ) (s : Process) : Turn → Option Process
  | .add num data => do return { s with memory := ← addToBuffor alloc n s.memory num data }
  | .take =>
    if 0 < s.memory.heap.buffor.fill ∧ s.package = none then do
      let (package, h) ← printTake n s.memory.heap
      return { s with memory := { s.memory with heap := h }, package := package }
    else none
  | .write => do
    let (package, len) ← s.package
    let (out, m) ← printWrite s.memory package len
    return ⟨m, none, s.written ++ out⟩
  | .reset => do
    let h ← resetBuffor n s.memory.heap
    return { s with memory := { s.memory with heap := h } }

end SikMimuw.Big
