import Mathlib.Data.List.Infix
import SikMimuw.Lib.Words
import SikMimuw.Model.Discovery
import SikMimuw.Model.Terminal

/-!
# A reply comes (`recieve_lookup` of `big3/odbiornik.cpp`)

`recieve_lookup` takes a datagram apart and puts its station into the menu, and `loop_terminal` ends
each turn with `check_time`. Both calls are the right side of `menu_changed || ...`, so neither is
made while the flag is set.

`inetAton` is `inet_aton`, which is `none` where it returns 0. `syserr` ends the program, and is
`none` too.
-/

namespace SikMimuw.Receiver

open CStr Endian

/-- Lines 463-467: `addr`. -/
def Parsed.sockaddr (e : Endian) (inetAton : List UInt8 → Option UInt32) (parsed : Parsed) :
    Option Address := do
  let addr ← inetAton (← read parsed.address)
  return ⟨addr, htons e parsed.port⟩

/-- **`add_menu`** of the array `name`. Only a new station's is read. -/
def Menu.addName (m : Menu) (addr : Address) (name : List UInt8) (time : ℤ) :
    Option (Menu × Bool) :=
  if m.stations.values.any fun s => s.address = addr then some (m.addMenu addr [] time)
  else (read name).map fun name => m.addMenu addr name time

/-- **`recieve_lookup`**, lines 458-473, of what the datagram has left in `buffer`. The arrays come
in with what was in them. -/
def recieveLookup (e : Endian) (inetAton : List UInt8 → Option UInt32) (buffer : List UInt8)
    (out : Parsed) (temp : List ℤ) (time : ℤ) (m : Menu) (menuChanged : Bool) :
    Option (Menu × Bool) := do
  let text ← read buffer
  if reply <:+: text then
    let (r, parsed) ← parseRecv buffer out temp
    if r = 0 then
      let addr ← parsed.sockaddr e inetAton
      if menuChanged then return (m, true)
      else m.addName addr parsed.name time
    else return (m, menuChanged)
  else return (m, menuChanged)

/-- **`loop_terminal`**, line 187. -/
def endTurn (W : Resume) (time : ℤ) (m : Menu) (menuChanged : Bool) : Menu × Bool :=
  if menuChanged then (m, true) else m.checkTime W time

end SikMimuw.Receiver
