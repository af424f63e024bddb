import Mathlib.Data.Finset.Basic
import Mathlib.Logic.Function.Basic

/-!
# The packet buffer of the C receiver (`big/buffor.c`)

Packages and elements of the set of missing packages lie at addresses, and 0 is `NULL`. A block can
be read, written and freed while it is `live`; any other access, a failed allocation and a call of
`syserr` are `none`, and so is a loop that outruns its fuel.
-/

namespace SikMimuw.Big

structure Package where
  next : UInt64
  prev : UInt64
  data : UInt64
  num : UInt64

structure SetElem where
  next : UInt64
  prev : UInt64
  package : UInt64

structure Buffor where
  packages : UInt64
  fill : UInt64
  size : UInt64
  maxData : UInt64
  set : UInt64

/-- The buffer and the memory. `freed` lists the calls of `free`. -/
structure Heap where
  buffor : Buffor
  package : UInt64 → Package
  setElem : UInt64 → SetElem
  live : Finset UInt64
  freed : List UInt64
  notNull : 0 ∉ live

/-! ### Memory -/

/-- `malloc` returned `p`, which was not in use. -/
def Heap.malloc (h : Heap) (p : UInt64) : Option Heap :=
  if hp : p ≠ 0 ∧ p ∉ h.live then
    some { h with
      live := insert p h.live
      notNull := fun h0 => (Finset.mem_insert.1 h0).elim (fun h0 => hp.1 h0.symm) h.notNull }
  else none

def Heap.free (h : Heap) (p : UInt64) : Option Heap :=
  if p ∈ h.live then
    some { h with
      live := h.live.erase p
      freed := h.freed ++ [p]
      notNull := fun h0 => h.notNull (Finset.mem_of_mem_erase h0) }
  else none

def Heap.load (h : Heap) (p : UInt64) : Option Package :=
  if p ∈ h.live then some (h.package p) else none

def Heap.loadElem (h : Heap) (e : UInt64) : Option SetElem :=
  if e ∈ h.live then some (h.setElem e) else none

/-- An assignment to a field of a package. -/
def Heap.store (h : Heap) (p : UInt64) (f : Package → Package) : Option Heap :=
  if p ∈ h.live then some { h with package := Function.update h.package p (f (h.package p)) }
  else none

/-- An assignment to a field of an element. -/
def Heap.storeElem (h : Heap) (e : UInt64) (f : SetElem → SetElem) : Option Heap :=
  if e ∈ h.live then some { h with setElem := Function.update h.setElem e (f (h.setElem e)) }
  else none

/-- An assignment to a field of the buffer. -/
def Heap.setBuffor (h : Heap) (f : Buffor → Buffor) : Heap := { h with buffor := f h.buffor }

section

variable {h : Heap} {p : UInt64}

theorem Heap.load_eq (hp : p ∈ h.live) : h.load p = some (h.package p) := if_pos hp

theorem Heap.loadElem_eq (hp : p ∈ h.live) : h.loadElem p = some (h.setElem p) := if_pos hp

theorem Heap.store_eq {f : Package → Package} (hp : p ∈ h.live) :
    h.store p f = some { h with package := Function.update h.package p (f (h.package p)) } :=
  if_pos hp

theorem Heap.storeElem_eq {f : SetElem → SetElem} (hp : p ∈ h.live) :
    h.storeElem p f = some { h with setElem := Function.update h.setElem p (f (h.setElem p)) } :=
  if_pos hp

theorem Heap.malloc_eq (hp : p ≠ 0 ∧ p ∉ h.live) : h.malloc p = some { h with
    live := insert p h.live
    notNull := fun h0 =>
      (Finset.mem_insert.1 h0).elim (fun h0 => hp.1 h0.symm) h.notNull } := dif_pos hp

theorem Heap.free_eq (hp : p ∈ h.live) : h.free p = some { h with
    live := h.live.erase p
    freed := h.freed ++ [p]
    notNull := fun h0 => h.notNull (Finset.mem_of_mem_erase h0) } := if_pos hp

theorem Heap.ne_zero (hp : p ∈ h.live) : p ≠ 0 := fun h0 => h.notNull (h0 ▸ hp)

end

/-! ### The set of missing packages -/

/-- Lines 147-163: the element is unlinked and freed, and its package returned. -/
def removeElem (h : Heap) (elem : UInt64) : Option (UInt64 × Heap) := do
  if (← h.loadElem elem).next = elem then
    let h := h.setBuffor fun b => { b with set := 0 }
    let pack := (← h.loadElem elem).package
    let h ← h.free elem
    return (pack, h)
  else
    let e ← h.loadElem elem
    let h ← h.storeElem e.next fun a => { a with prev := e.prev }
    let e ← h.loadElem elem
    let h ← h.storeElem e.prev fun a => { a with next := e.next }
    let e ← h.loadElem elem
    let h := if elem = h.buffor.set then h.setBuffor fun b => { b with set := e.next } else h
    let h ← h.free elem
    return (e.package, h)

/-- The loop of `check_set`. -/
def checkLoop (num : UInt64) : ℕ → UInt64 → Heap → Option (UInt64 × Heap)
  | 0, _, _ => none
  | n + 1, elem, h => do
    let e ← h.loadElem elem
    if (← h.load e.package).num = num then removeElem h elem
    else if e.next = h.buffor.set then return (0, h)
    else
      let e' ← h.loadElem e.next
      if (← h.load e'.package).num < num then checkLoop num n e.next h else return (0, h)

/-- `check_set`. -/
def checkSet (n : ℕ) (h : Heap) (num : UInt64) : Option (UInt64 × Heap) :=
  if h.buffor.set = 0 then some (0, h) else checkLoop num n h.buffor.set h

/-- `delete_set`. -/
def deleteSet : ℕ → Heap → Option Heap
  | 0, _ => none
  | n + 1, h =>
    if h.buffor.set = 0 then some h
    else do
      let setElem := h.buffor.set
      let e ← h.loadElem setElem
      if e.next = setElem then
        let h ← h.free setElem
        deleteSet n (h.setBuffor fun b => { b with set := 0 })
      else
        let h := h.setBuffor fun b => { b with set := e.next }
        let h ← h.storeElem e.prev fun a => { a with next := e.next }
        let e ← h.loadElem setElem
        let h ← h.storeElem e.next fun a => { a with prev := e.prev }
        let h ← h.free setElem
        deleteSet n h

/-! ### The packages -/

/-- `create_buffor`. -/
def createBuffor (h : Heap) (size : UInt64) : Heap := h.setBuffor fun _ => ⟨0, 0, 0, size, 0⟩

/-- A new package with its data (`datacpy`), or without (`dummy->data = NULL`). -/
def newPackage (h : Heap) (pack data num : UInt64) : Option Heap := do
  let h ← h.malloc pack
  let h ← if data = 0 then some h else h.malloc data
  h.store pack fun a => { a with data := data, num := num }

/-- `add_to_buffer_first`. -/
def addToBufferFirst (h : Heap) (pack len : UInt64) : Option Heap := do
  if len = 0 then none
  let h := h.setBuffor fun b => { b with size := b.maxData / len }
  let h ← h.store pack fun a => { a with prev := pack }
  let h ← h.store pack fun a => { a with next := pack }
  return h.setBuffor fun b => { b with fill := 1, packages := pack }

/-- `add_to_buffer_end`. -/
def addToBufferEnd (h : Heap) (pack : UInt64) : Option Heap := do
  let first ← h.load h.buffor.packages
  let h ← h.store first.prev fun a => { a with next := pack }
  let first ← h.load h.buffor.packages
  let h ← h.store pack fun a => { a with prev := first.prev }
  let h ← h.store h.buffor.packages fun a => { a with prev := pack }
  let h ← h.store pack fun a => { a with next := h.buffor.packages }
  return h.setBuffor fun b => { b with fill := b.fill + 1 }

/-- What `pop_from_buffor` and the loop of `reset_buffor` share: the first package is unlinked. -/
def takeFirst (h : Heap) : Option (UInt64 × Heap) := do
  let temp := h.buffor.packages
  if h.buffor.fill = 1 then
    return (temp, h.setBuffor fun b => { b with packages := 0, fill := b.fill - 1 })
  else
    let t ← h.load temp
    let h := h.setBuffor fun b => { b with packages := t.next }
    let h ← h.store t.prev fun a => { a with next := t.next }
    let t ← h.load temp
    let h ← h.store t.next fun a => { a with prev := t.prev }
    return (temp, h.setBuffor fun b => { b with fill := b.fill - 1 })

/-- `remove_package`. -/
def removePackage (h : Heap) (package : UInt64) : Option Heap := do
  let p ← h.load package
  let h ← if p.data ≠ 0 then h.free p.data else some h
  h.free package

/-- `pop_from_buffor`. -/
def popFromBuffor (n : ℕ) (h : Heap) : Option (UInt64 × Heap) := do
  if h.buffor.fill = 0 then none
  let (temp, h) ← takeFirst h
  let (_, h) ← checkSet n h (← h.load temp).num
  return (temp, h)

/-- The loop of `reset_buffor`. -/
def resetLoop : ℕ → Heap → Option Heap
  | 0, _ => none
  | n + 1, h =>
    if h.buffor.packages = 0 then some h
    else do
      let (elem, h) ← takeFirst h
      let h ← removePackage h elem
      resetLoop n h

/-- `reset_buffor`. -/
def resetBuffor (n : ℕ) (h : Heap) : Option Heap := do
  let h ← resetLoop n h
  deleteSet n h

end SikMimuw.Big
