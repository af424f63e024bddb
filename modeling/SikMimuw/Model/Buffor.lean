import SikMimuw.Lib.Containers
import SikMimuw.Lib.Words

/-!
# The receiver's reassembly buffer (`big3/buffor.cpp`)

`packages` holds the packages in stream order, a package without data standing for one
that has not arrived. `set` maps the numbers of those to their iterators.

`add_to_buffor` has a loop that need not end, so a call is a machine (`Call`) of which
`addToBuffor W b num data n` is the state after `n` passes of the loop. Line 37 moves
`begin()` backwards by `distance`. Where that leaves the list, C++ gives `it->num` no
value; the model takes it from the parameter `W`, and the call records the eviction.
-/

namespace SikMimuw.Receiver

/-- A package of the stream; without data it stands for one still missing. -/
structure Package where
  data : List UInt8
  num : UInt64
deriving DecidableEq

/-- `Buffer`. An iterator into `packages` is the address of its node. -/
structure Buffer where
  packages : NodeList Package
  set : OrdMap UInt64 ℕ
  size : UInt64
  maxData : UInt64

/-- What the machine reads where C++ gives the read no value. -/
structure Wild where
  /-- `it->num` for `it` moved by `distance` places before `begin()` -/
  outOfList : Buffer → UInt64 → UInt64
  /-- `it->num` for an iterator whose package is gone -/
  stale : Buffer → ℕ → UInt64

/-- The zero-initialised buffer, with `max_data` set by `main`. -/
def Buffer.init (maxData : UInt64) : Buffer := ⟨NodeList.empty, OrdMap.empty, 0, maxData⟩

/-- Lines 14-15: the data of a missing package arrives. Where that package is gone, C++ gives the
assignment no meaning; the model leaves the list as it is. -/
def Buffer.fill (b : Buffer) (it : ℕ) (num : UInt64) (data : List UInt8) : Buffer :=
  { b with
    packages := b.packages.modify it fun p => { p with data := data }
    set := b.set.erase num }

/-- `packages.emplace_back(data, len, num)`. -/
def Buffer.append (b : Buffer) (num : UInt64) (data : List UInt8) : Buffer :=
  { b with packages := b.packages.pushBack ⟨data, num⟩ }

/-- Lines 30-31: a package without data, and its iterator. -/
def Buffer.appendDummy (b : Buffer) (num : UInt64) : Buffer :=
  { b with
    packages := b.packages.pushBack ⟨[], num⟩
    set := b.set.insert num b.packages.fresh }

/-- Lines 34-35: `back` is the number of the last package. -/
def distance (size back num len : UInt64) : UInt64 :=
  if (num - back) / len < size - 1 then (num - back) / len else size - 1

/-- One execution of the block at lines 34-40. -/
structure Eviction where
  before : Buffer
  distance : UInt64
  after : Buffer

/-- Lines 34-40. `front` and `back` are the numbers of the first and the last package. -/
def Buffer.evict (W : Wild) (b : Buffer) (front back num len : UInt64) : Eviction :=
  let d := Receiver.distance b.size back num len
  let key := if d = 0 then front else W.outOfList b d
  ⟨b, d, { b with packages := b.packages.popFront, set := b.set.eraseBelow key }⟩

/-- A call of `add_to_buffor`. -/
structure Call where
  buf : Buffer
  evictions : List Eviction
  done : Bool

/-- Lines 12-22: everything but the loop. -/
def Buffer.enter (b : Buffer) (num : UInt64) (data : List UInt8) : Call :=
  match b.set.find? num with
  | some it => ⟨b.fill it num data, [], true⟩
  | none =>
    if b.packages.values = [] then
      ⟨{ b with size := b.maxData / UInt64.ofNat data.length }.append num data, [], true⟩
    else ⟨b, [], false⟩

/-- One evaluation of the loop condition and, if it holds, of the body (lines 23-42). -/
def Call.pass (W : Wild) (num : UInt64) (data : List UInt8) (c : Call) : Call :=
  let len := UInt64.ofNat data.length
  if c.done = true ∨ ¬ c.buf.packages.size < c.buf.size.toNat then { c with done := true }
  else match c.buf.packages.values.head?, c.buf.packages.values.getLast? with
    | some front, some back =>
      if num < front.num then { c with done := true }
      else if back.num + len = num then { c with buf := c.buf.append num data, done := true }
      else
        let b := c.buf.appendDummy (back.num + len)
        if b.packages.size = b.size.toNat then
          let e := b.evict W front.num (back.num + len) num len
          { c with buf := e.after, evictions := c.evictions ++ [e] }
        else { c with buf := b }
    -- `front()` of an empty list; the loop is entered with a package in it
    | _, _ => { c with done := true }

/-- **`add_to_buffor`**: the call after `n` passes of its loop. -/
def addToBuffor (W : Wild) (b : Buffer) (num : UInt64) (data : List UInt8) (n : ℕ) : Call :=
  (Call.pass W num data)^[n] (b.enter num data)

/-- `pop`. On an empty list C++ gives it no meaning. -/
def Buffer.pop (b : Buffer) : Option (Package × Buffer) :=
  b.packages.values.head?.map fun p => (p, { b with packages := b.packages.popFront })

/-- `reset`. -/
def Buffer.reset (b : Buffer) : Buffer :=
  { b with set := OrdMap.empty, packages := b.packages.clear }

@[simp] theorem Buffer.appendDummy_size (b : Buffer) (num : UInt64) :
    (b.appendDummy num).size = b.size := rfl

@[simp] theorem Buffer.appendDummy_values (b : Buffer) (num : UInt64) :
    (b.appendDummy num).packages.values = b.packages.values ++ [⟨[], num⟩] :=
  NodeList.values_pushBack

/-- A call that has returned stays as it is. -/
theorem Call.pass_done (W : Wild) (num : UInt64) (data : List UInt8) {c : Call} (h : c.done = true) :
    c.pass W num data = c := by
  obtain ⟨b, es, d⟩ := c
  simp only at h
  subst h
  simp [Call.pass]

theorem iterate_pass_done (W : Wild) (num : UInt64) (data : List UInt8) {c : Call}
    (h : c.done = true) (n : ℕ) : (Call.pass W num data)^[n] c = c :=
  Function.iterate_fixed (Call.pass_done W num data h) n

end SikMimuw.Receiver
