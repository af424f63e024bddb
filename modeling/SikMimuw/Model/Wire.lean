import SikMimuw.Lib.Words
import SikMimuw.Model.Threads

/-!
# The audio datagram

`sendMcast` is `send_Mcast` of `big3/nadajnik.cpp`, `decode` is what `data_loop` of
`big3/odbiornik.cpp` makes of a received datagram, both on a host of byte order `e`.
-/

namespace SikMimuw

open Endian

/-- Line 208: `session_id = htonl((uint64_t) time(NULL))`. -/
def Transmitter.sessionId (e : Endian) (time : UInt64) : UInt64 := (htonl e time.toUInt32).toUInt64

/-- `send_Mcast`. -/
def Transmitter.sendMcast (e : Endian) (sessionId byteNum : UInt64) (audioData : List UInt8) :
    List UInt8 :=
  e.store 8 (htonll e sessionId).toNat ++ e.store 8 (htonll e byteNum).toNat ++ audioData

/-- Lines 310-313 and 322. A datagram shorter than its header is read together with what was in
the buffer before it; it is `none` here. -/
def Receiver.decode (e : Endian) (buffor : List UInt8) : Option Receiver.Datagram :=
  if 16 ≤ buffor.length then
    some ⟨ntohll e (UInt64.ofNat (e.load (buffor.take 8))),
      ntohll e (UInt64.ofNat (e.load ((buffor.drop 8).take 8))), buffor.drop 16⟩
  else none

/-- **What was sent is decoded.** -/
theorem Receiver.decode_sendMcast (e : Endian) (sessionId byteNum : UInt64) (audioData : List UInt8) :
    Receiver.decode e (Transmitter.sendMcast e sessionId byteNum audioData) =
      some ⟨sessionId, byteNum, audioData⟩ := by
  have hs := length_store e 8 (htonll e sessionId).toNat
  have hn := length_store e 8 (htonll e byteNum).toNat
  have hd : (Transmitter.sendMcast e sessionId byteNum audioData).drop 8 =
      e.store 8 (htonll e byteNum).toNat ++ audioData := by
    unfold Transmitter.sendMcast
    rw [List.append_assoc, List.drop_left' hs]
  unfold Receiver.decode
  rw [hd, List.take_left' hn, ntohll_load_store]
  unfold Transmitter.sendMcast
  rw [if_pos (by rw [List.length_append, List.length_append]; omega), List.append_assoc,
    List.take_left' hs, ntohll_load_store, ← List.append_assoc,
    List.drop_left' (by rw [List.length_append]; omega)]

end SikMimuw
