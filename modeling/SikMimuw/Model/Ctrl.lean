import Mathlib.Data.List.Infix
import SikMimuw.Lib.Containers
import SikMimuw.Lib.CString
import SikMimuw.Lib.Words

/-!
# The sender's control channel (`ctrl_loop` of `big3/nadajnik.cpp`, `big3/set.cpp`)

`Ctrl.handle` handles one datagram: it is read into `ctrl_buffer`, answered when it is `LOOKUP`,
its numbers are added to `retransmision_requests` when it contains `REXMIT`, and the
buffer is zeroed. The result is `none` where the code leaves the buffer.
-/

namespace SikMimuw.Transmitter

open CStr

def lookup : List UInt8 := bytes "ZERO_SEVEN_COME_IN"
def reply : List UInt8 := bytes "BOREWICZ_HERE"
def rexmit : List UInt8 := bytes "LOUDER_PLEASE"

/-- `CTRL_BUF_SIZE`. -/
def ctrlBufSize : ℕ := 64 * 1024

/-- What the sender reads of its `parameters`. -/
structure Parameters where
  mcastAddr : List UInt8
  dataPort : ℤ
  psize : ℕ
  fsize : ℕ
  nazwa : List UInt8

/-- `sprintf(replay, "%s %s %ld %s", ...)`. -/
def Parameters.replay (params : Parameters) : List UInt8 :=
  reply ++ 32 :: params.mcastAddr ++ 32 :: long params.dataPort ++ 32 :: params.nazwa

/-- A datagram is read into a buffer. -/
def recvfrom (buffer d : List UInt8) : List UInt8 := d.take buffer.length ++ buffer.drop d.length

/-- `add_to_set`. -/
def addToSet (collection : OrdSet UInt64) (commaDelimited : List UInt8) : OrdSet UInt64 :=
  (strtok 44 commaDelimited).foldl
    (fun c pt => if 0 ≤ strtol pt then c.insert (UInt64.ofInt (strtol pt)) else c) collection

/-- `ctrl_loop` between two datagrams. -/
structure Ctrl where
  ctrlBuffer : List UInt8
  retransmisionRequests : OrdSet UInt64

/-- `memset(ctrl_buffer, '\0', CTRL_BUF_SIZE)`. -/
def zeroBuffer : List UInt8 := List.replicate ctrlBufSize 0

/-- **One datagram** (lines 142-154): what is sent back, and the state after it. -/
def Ctrl.handle (params : Parameters) (c : Ctrl) (d : List UInt8) :
    Option (Option (List UInt8) × Ctrl) := do
  let ctrlBuffer := recvfrom c.ctrlBuffer d
  let s ← read ctrlBuffer
  if s = lookup then
    return (some params.replay, { c with ctrlBuffer := zeroBuffer })
  else if rexmit <:+: s then
    let ptr ← scan 32 ctrlBuffer
    let commaDelimited ← read (ctrlBuffer.drop (ptr + 1))
    return (none, ⟨zeroBuffer, addToSet c.retransmisionRequests commaDelimited⟩)
  else
    return (none, { c with ctrlBuffer := zeroBuffer })

/-- The state after a history of datagrams. -/
def Ctrl.handleAll (params : Parameters) (c : Ctrl) (ds : List (List UInt8)) : Option Ctrl :=
  ds.foldlM (fun c d => (c.handle params d).map Prod.snd) c

theorem recvfrom_zeroBuffer {d : List UInt8} (h : d.length ≤ ctrlBufSize) :
    recvfrom zeroBuffer d = d ++ List.replicate (ctrlBufSize - d.length) 0 := by
  unfold recvfrom zeroBuffer
  rw [List.length_replicate, List.take_of_length_le h, List.drop_replicate]

end SikMimuw.Transmitter
