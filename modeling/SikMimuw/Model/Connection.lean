import SikMimuw.Lib.Memory

/-!
# The output buffer of a connection (`zad1/tcpConnection.cpp`)

`send` collects bytes in `buffer`, and `flush` writes the first `buffer_pointer` of them to the
socket. Each `write` takes all of them, so no `TcpException` is thrown.

`buffer` is the memory that the pointer leads to: a store beyond `buffer_size` hits what lies behind
the array. `stores` records the indices of all stores. What `flush` prints to `cerr` is left out.
-/

namespace SikMimuw.Zad1

/-- The fields of a `ConnectionBuffer`, and what it has written and stored. -/
structure ConnectionBuffer where
  bufferSize : UInt32
  buffer : ℕ → UInt8
  bufferPointer : UInt32
  written : List UInt8
  stores : List ℕ

namespace ConnectionBuffer

variable {c : ConnectionBuffer} {n : ℕ}

/-- A new connection. The contents of `buffer` are whatever the memory holds. -/
def init (bufferSize : UInt32) (memory : ℕ → UInt8) : ConnectionBuffer :=
  ⟨bufferSize, memory, 0, [], []⟩

/-- `buffer[0..buffer_pointer)`. -/
def pending (c : ConnectionBuffer) : List UInt8 := Memory.slice c.buffer c.bufferPointer.toNat

/-- The bytes go to `buffer[place]` and on. -/
def store (c : ConnectionBuffer) (place : ℕ) (bytes : List UInt8) : ConnectionBuffer :=
  { c with
    buffer := Memory.copy c.buffer place bytes
    stores := c.stores ++ List.range' place bytes.length }

/-- **`flush`**. -/
def flush (c : ConnectionBuffer) : ConnectionBuffer :=
  { c with written := c.written ++ c.pending, bufferPointer := 0 }

/-- **`send`** of a byte. -/
def sendByte (c : ConnectionBuffer) (byte : UInt8) : ConnectionBuffer :=
  let c' := { c.store c.bufferPointer.toNat [byte] with bufferPointer := c.bufferPointer + 1 }
  if c'.bufferPointer = c'.bufferSize then c'.flush else c'

/-- `buffer_size - buffer_pointer`. -/
def room (c : ConnectionBuffer) : ℕ := (c.bufferSize - c.bufferPointer).toNat

end ConnectionBuffer

/-- The variables of `send` at the head of its loop: `where`, `how_many`, and the bytes from `begin`
on. There `end` is `begin`. -/
structure Chop where
  conn : ConnectionBuffer
  place : ℕ
  howMany : ℕ
  rest : List UInt8

/-- One pass of the loop. -/
def Chop.pass (l : Chop) : Chop :=
  let conn := l.conn.store l.place (l.rest.take l.conn.room)
  { conn := { conn with bufferPointer := conn.bufferSize }.flush
    -- taken before `flush` resets the pointer
    place := l.conn.bufferPointer.toNat
    howMany := l.howMany - l.conn.room
    rest := l.rest.drop l.conn.room }

/-- The loop, with `n` tests of its condition at most. -/
def Chop.loop : ℕ → Chop → Option Chop
  | 0, _ => none
  | n + 1, l => if l.howMany > l.conn.room then l.pass.loop n else some l

/-- The last part of a vector, after the loop. -/
def Chop.finish (l : Chop) : ConnectionBuffer :=
  { l.conn.store l.conn.bufferPointer.toNat l.rest with
    bufferPointer := l.conn.bufferPointer + UInt32.ofNat l.rest.length }

namespace ConnectionBuffer

/-- **`send`** of a vector. Without a byte of room in an empty buffer its loop does not end. -/
def sendBytes (c : ConnectionBuffer) (bytes : List UInt8) : Option ConnectionBuffer :=
  (Chop.loop (bytes.length + 2) ⟨c, c.bufferPointer.toNat, bytes.length, bytes⟩).map Chop.finish

end ConnectionBuffer

/-- A call. -/
inductive Call
  | sendByte (byte : UInt8)
  | sendBytes (bytes : List UInt8)
  | flush

/-- The connection after a call, if the call returns. -/
def ConnectionBuffer.call (c : ConnectionBuffer) : Call → Option ConnectionBuffer
  | .sendByte byte => some (c.sendByte byte)
  | .sendBytes bytes => c.sendBytes bytes
  | .flush => some c.flush

/-- The bytes that a call sends. -/
def Call.bytes : Call → List UInt8
  | .sendByte byte => [byte]
  | .sendBytes bytes => bytes
  | .flush => []

theorem ConnectionBuffer.room_eq {c : ConnectionBuffer} (h : c.bufferPointer = 0) :
    c.room = c.bufferSize.toNat := by
  unfold ConnectionBuffer.room
  rw [h, UInt32.sub_zero]

/-- From an empty buffer on each pass takes a byte at least. -/
theorem Chop.loop_empty {n : ℕ} : ∀ {l : Chop}, l.conn.bufferPointer = 0 →
    0 < l.conn.bufferSize.toNat → l.howMany < n → (l.loop n).isSome := by
  induction n with
  | zero => intro l _ _ hn; exact absurd hn (Nat.not_lt_zero _)
  | succ n ih =>
    intro l hp hsize hn
    rw [Chop.loop]
    by_cases hc : l.howMany > l.conn.room
    · rw [if_pos hc]
      apply ih (l := l.pass) rfl hsize
      have hroom := ConnectionBuffer.room_eq hp
      show l.howMany - l.conn.room < n
      omega
    · rw [if_neg hc]
      rfl

/-- **Enough tests**: a vector is sent in as many passes as it has bytes, and one that fills up the
buffer. -/
theorem ConnectionBuffer.sendBytes_returns {c : ConnectionBuffer} (hsize : 0 < c.bufferSize.toNat)
    (bytes : List UInt8) : ∃ c', c.sendBytes bytes = some c' := by
  apply Option.isSome_iff_exists.1
  rw [ConnectionBuffer.sendBytes, Option.isSome_map, Chop.loop]
  by_cases hc : bytes.length > c.room
  · rw [if_pos hc]
    apply Chop.loop_empty rfl hsize
    show bytes.length - c.room < bytes.length + 1
    omega
  · rw [if_neg hc]
    rfl

end SikMimuw.Zad1
