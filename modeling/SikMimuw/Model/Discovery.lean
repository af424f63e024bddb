import SikMimuw.Lib.Scanf

/-!
# The receiver's control channel (`big3/odbiornik.cpp`)

* `requestDatagrams`: the datagrams that `requesting_loop` sends for the packages it read;
* `parseRecv`: `parse_recv`, which takes a station's reply apart. Its out parameters come in
  with what was in them before the call.
-/

namespace SikMimuw.Receiver

open CStr

def lookup : List UInt8 := bytes "ZERO_SEVEN_COME_IN\n"
def reply : List UInt8 := bytes "BOREWICZ_HERE"
def rexmit : List UInt8 := bytes "LOUDER_PLEASE "

/-- The message that `requesting_loop` builds, with `i` numbers in it, and what it has sent. -/
structure Requesting where
  msg : List UInt8
  i : ℕ
  sent : List (List UInt8)

/-- `sendto(..., msg.c_str(), msg.length() - 1, ...)`. -/
def Requesting.sendto (r : Requesting) : Requesting := { r with sent := r.sent ++ [r.msg.dropLast] }

/-- Lines 243-255: one package. -/
def Requesting.add (r : Requesting) (num : UInt64) : Requesting :=
  let r := { r with msg := r.msg ++ decimal num.toNat ++ [44], i := r.i + 1 }
  if r.i = 10 then { r.sendto with msg := rexmit, i := 0 } else r

/-- Lines 239-260: the datagrams for the numbers read from `copy_set`. -/
def requestDatagrams (nums : List UInt64) : List (List UInt8) :=
  if nums = [] then [] else (nums.foldl Requesting.add ⟨rexmit, 0, []⟩).sendto.sent

/-- `while (spaces < 3) { p++; ... }` from a byte on: the memory behind the space that ends it,
with `k` spaces still to come. -/
def skipSpaces : ℕ → List UInt8 → Option (List UInt8)
  | 0, mem => some mem
  | _ + 1, [] => none
  | k + 1, c :: mem => skipSpaces (if c = 32 then k else k + 1) mem

/-- A string is written to an array. -/
def store (array s : List UInt8) : Option (List UInt8) :=
  if s.length < array.length then some (s ++ 0 :: array.drop (s.length + 1)) else none

/-- The out parameters of `parse_recv`. -/
structure Parsed where
  name : List UInt8
  port : UInt16
  address : List UInt8

/-- Line 385: `sscanf(buffer, "BOREWICZ_HERE %s %hu", address, port)`. -/
def scanReply (text : List UInt8) (out : Parsed) : Option Parsed :=
  match sscanf (literal reply ++ [.space, .str, .space, .ushort]) text with
  | [.str a] => (store out.address a).map fun address => { out with address := address }
  | [.str a, .ushort p] =>
    (store out.address a).map fun address => { out with address := address, port := p }
  | _ => some out

/-- Lines 388-389: `temp` after `sscanf(address, "%d.%d.%d.%d", ...)`. -/
def scanQuad (address : List UInt8) (temp : List ℤ) : List ℤ :=
  let vs := (sscanf [.int, .char 46, .int, .char 46, .int, .char 46, .int] address).filterMap
    fun | .int v => some v | _ => none
  vs ++ temp.drop vs.length

/-- **`parse_recv`**: the value returned and the out parameters, or `none` where it leaves
`buffer` or overruns an array. -/
def parseRecv (buffer : List UInt8) (out : Parsed) (temp : List ℤ) : Option (ℤ × Parsed) := do
  let out ← scanReply (← read buffer) out
  -- `*port` is a `uint16_t`, so lines 386-387 never return
  let temp := scanQuad (← read out.address) temp
  if temp.any fun t => t < 0 ∨ t > 255 then
    return (-1, out)
  let p ← skipSpaces 3 buffer.tail
  if p.length < 45 ∨ out.name.length < 45 then failure
  return (0, { out with name := p.take 45 ++ out.name.drop 45 })

end SikMimuw.Receiver
