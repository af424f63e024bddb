import SikMimuw.Lib.Memory
import SikMimuw.Lib.Words

/-!
# The ring buffer of the C sender (`big/fifo.c`)

Arithmetic on the fields is that of `uint64_t`, and comparisons with the `int64_t` parameters are
made there too. Each call returns the copies that it makes.
-/

namespace SikMimuw.Big

open Memory

structure Queue where
  fifo : ℤ → UInt8
  last : UInt64
  size : UInt64
  lastDataNum : UInt64

/-- `create_queue`: `malloc` returns memory with anything in it. -/
def createQueue (fifo : ℤ → UInt8) (size : UInt64) : Queue := ⟨fifo, 0, size, 0⟩

/-- Copies into the ring. -/
def Queue.memcpys (q : Queue) (source : ℤ → UInt8) (cs : List Copy) : ℤ → UInt8 :=
  cs.foldl (fun fifo c => memcpy fifo source c) q.fifo

/-- `add_to_queue`. -/
def addToQueue (q : Queue) (data : ℤ → UInt8) (len : UInt64) : Queue × List Copy :=
  if len > q.size then
    let cs : List Copy := [⟨0, (len - q.size).toNat, q.size.toNat⟩]
    (⟨q.memcpys data cs, len - 1, q.size, q.lastDataNum + len⟩, cs)
  else if len ≤ q.size - q.last then
    let cs : List Copy := [⟨q.last.toNat, 0, len.toNat⟩]
    (⟨q.memcpys data cs, q.last + len, q.size, q.lastDataNum + len⟩, cs)
  else
    let cs : List Copy := [⟨q.last.toNat, 0, (q.size - q.last).toNat⟩,
      ⟨0, -(q.size - q.last).toNat, (len - (q.size - q.last)).toNat⟩]
    (⟨q.memcpys data cs, len - (q.size - q.last), q.size, q.lastDataNum + len⟩, cs)

/-- Lines 44-45: the lower bound is the value of the comparison `last_data_num > -size`. -/
def outOfRange (q : Queue) (size num : UInt64) : Bool :=
  num + size > q.lastDataNum ||
    num < (if q.lastDataNum > q.size then (if q.lastDataNum > -q.size then 1 else 0) else 0)

/-- `retrieve`: the value returned, and the queue and the output buffer after the call. Both
`memcpy`s have the ring as their first argument. Where `size` is below `last` in the second case the
length `size - last` wraps around: the copy that the model makes goes far past the ring, and the real
one crashes. -/
def retrieve (q : Queue) (buffer : ℤ → UInt8) (size num : UInt64) : ℤ × Queue × (ℤ → UInt8) :=
  if outOfRange q size num then (-1, q, buffer)
  else
    let padding := num + size - q.lastDataNum
    let cs : List Copy :=
      if padding < q.last then
        [⟨(q.last.toNat : ℤ) - padding.toNat - size.toNat, 0, size.toNat⟩]
      else
        [⟨(q.size.toNat : ℤ) - (size - q.last).toNat, 0, (size - q.last).toNat⟩,
          ⟨0, (size - q.last).toNat, q.last.toNat⟩]
    (0, { q with fifo := q.memcpys buffer cs }, buffer)

end SikMimuw.Big
