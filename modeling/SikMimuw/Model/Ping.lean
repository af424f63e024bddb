import SikMimuw.Lib.CString
import SikMimuw.Lib.Words

/-!
# Ping over a raw socket (`scenariusze/10.gniazda-niskopoziomowo/rawping.c`, `in_cksum.c`)

The program sends one echo request and takes datagrams, each with its IP header, until one is an
echo reply. `pid` is what `getpid` returns. Addresses and the traces on `stdout` are left out.
-/

namespace SikMimuw.Ping

open CStr Endian

/-- `sum += x`, for the `int` `sum`. -/
def addInt (sum x : ℕ) : Option ℕ := if sum + x < 2 ^ 31 then some (sum + x) else none

/-- The loop over the words, and the odd byte behind them. -/
def sumWords (e : Endian) : List UInt8 → ℕ → Option ℕ
  | a :: b :: w, sum => (addInt sum (e.load [a, b])).bind (sumWords e w)
  | [a], sum => addInt sum (e.load [a, 0])
  | [], sum => some sum

/-- **`in_cksum`** over a host's memory. An overflow of `sum` is none. -/
def inCksum (e : Endian) (addr : List UInt8) : Option UInt16 := do
  let sum ← sumWords e addr 0
  let sum := (sum >>> 16) + (sum &&& 0xffff)
  let sum := sum + (sum >>> 16)
  return ~~~ UInt16.ofNat sum

/-- `ntohs`. -/
def ntohs (e : Endian) (x : UInt16) : UInt16 := UInt16.ofNat (big.load (e.store 2 x.toNat))

def icmpEcho : UInt8 := 8
def icmpEchoreply : UInt8 := 0
def bsize : ℕ := 1000
def icmpHeaderLen : ℕ := 8

/-- The echo request with the given checksum, `icmp_len` bytes from `send_buffer` on. -/
def icmp (e : Endian) (pid : UInt32) (cksum : UInt16) : List UInt8 :=
  [icmpEcho, 0] ++ e.store 2 cksum.toNat ++ (e.store 2 (htons e pid.toUInt16).toNat ++
    e.store 2 (htons e 0).toNat ++ bytes "BASIC PING!")

/-- **`send_ping_request`**: the bytes sent. -/
def sendPingRequest (e : Endian) (pid : UInt32) : Option (List UInt8) :=
  (inCksum e (icmp e pid 0)).map (icmp e pid)

inductive Reply
  | strange (type : UInt8)                        -- 0 is returned
  | correct (dataLen : ℤ) (content : List UInt8)  -- 1 is returned
  | short                                         -- the program ends
  | otherId (id : UInt16)                         -- the program ends
deriving DecidableEq

/-- **`receive_ping_reply`**. `recvfrom` has returned a datagram, cut to the size of the buffer,
or -1. -/
def receivePingReply (e : Endian) (pid : UInt32) (datagram : Option (List UInt8)) : Reply :=
  let received := (datagram.getD []).take bsize
  let rcvBuffer := received ++ List.replicate (bsize - received.length) 0
  let len : ℤ := if datagram.isSome then received.length else -1
  let ipHeaderLen : ℕ := (rcvBuffer.getD 0 0).toNat % 16 * 4
  let icmp := rcvBuffer.drop ipHeaderLen
  let icmpLen : ℤ := len - ipHeaderLen
  if icmpLen < icmpHeaderLen then .short
  else if icmp.getD 0 0 ≠ icmpEchoreply then .strange (icmp.getD 0 0)
  else
    let id := ntohs e (UInt16.ofNat (e.load ((icmp.drop 4).take 2)))
    if id.toNat ≠ pid.toNat then .otherId id
    else
      let dataLen := len - ipHeaderLen - icmpHeaderLen
      .correct dataLen (((icmp.drop icmpHeaderLen).take dataLen.toNat).takeWhile (· ≠ 0))

/-- The loop of `main`, over what `recvfrom` returns; `none` while it waits. -/
def loop (e : Endian) (pid : UInt32) : List (Option (List UInt8)) → Option Reply
  | [] => none
  | datagram :: datagrams =>
    match receivePingReply e pid datagram with
    | .strange _ => loop e pid datagrams
    | reply => some reply

end SikMimuw.Ping
