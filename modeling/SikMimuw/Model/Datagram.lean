import SikMimuw.Model.Wire

/-!
# A received datagram in `data_loop` (lines 308-324)

`recv` writes a datagram over what `buffor` held, and the header is read from there, however short
the datagram is. The length of the payload is that of the datagram less the header, an unsigned
number. `add_to_buffor` divides by it where it sets `size`, and in each of its evictions.
-/

namespace SikMimuw.Receiver

open Endian

/-- `buffor` after `recv`. -/
def recv (buffor datagram : List UInt8) : List UInt8 := datagram ++ buffor.drop datagram.length

/-- `session_id`. -/
def sessionIdOf (e : Endian) (buffor : List UInt8) : UInt64 :=
  ntohll e (UInt64.ofNat (e.load (buffor.take 8)))

/-- `first_byte_num`. -/
def firstByteNumOf (e : Endian) (buffor : List UInt8) : UInt64 :=
  ntohll e (UInt64.ofNat (e.load ((buffor.drop 8).take 8)))

/-- Lines 310-324: the arguments `num` and `len` of `add_to_buffor`, if the packet comes to it. -/
def addArguments (e : Endian) (session : UInt64) (buffor : List UInt8) (lenRecv : ℕ) :
    Option (UInt64 × UInt64) :=
  let sessionId := sessionIdOf e buffor
  if session = 0 ∨ session = sessionId then
    some (firstByteNumOf e buffor, UInt64.ofNat lenRecv - 2 * 8)
  else none

/-- The argument `data`, up to the end of `buffor`. -/
def payload (buffor : List UInt8) (len : UInt64) : List UInt8 := (buffor.drop 16).take len.toNat

/-- The divisors of the divisions that a call executes in `n` passes: at line 20, and at lines 34-35
of each eviction. -/
def divisors (W : Wild) (b : Buffer) (num : UInt64) (data : List UInt8) (n : ℕ) : List UInt64 :=
  let len := UInt64.ofNat data.length
  (if b.set.find? num = none ∧ b.packages.values = [] then [len] else []) ++
    (addToBuffor W b num data n).evictions.map fun _ => len

/-- A datagram with a header is decoded from its own bytes. -/
theorem decode_recv (e : Endian) {buffor datagram : List UInt8} (h : 16 ≤ datagram.length) :
    decode e datagram = some ⟨sessionIdOf e (recv buffor datagram),
      firstByteNumOf e (recv buffor datagram), datagram.drop 16⟩ := by
  have hs : (recv buffor datagram).take 8 = datagram.take 8 :=
    List.take_append_of_le_length (by omega)
  have hn : ((recv buffor datagram).drop 8).take 8 = (datagram.drop 8).take 8 := by
    rw [recv, List.drop_append_of_le_length (by omega),
      List.take_append_of_le_length (by rw [List.length_drop]; omega)]
  unfold decode sessionIdOf firstByteNumOf
  rw [if_pos h, hs, hn]

/-- The payload of a datagram with a header. -/
theorem payload_recv {buffor datagram : List UInt8} (h : 16 ≤ datagram.length)
    (hle : datagram.length < 2 ^ 64) :
    payload (recv buffor datagram) (UInt64.ofNat datagram.length - 2 * 8) = datagram.drop 16 := by
  have hlen : (UInt64.ofNat datagram.length - 2 * 8).toNat = datagram.length - 16 := by
    have h16 : (2 * 8 : UInt64).toNat = 16 := rfl
    rw [Word.toNat_sub', h16, UInt64.toNat_ofNat', Nat.mod_eq_of_lt hle, if_pos h]
  rw [payload, hlen, recv, List.drop_append_of_le_length h]
  apply List.take_left'
  rw [List.length_drop]

end SikMimuw.Receiver
