import Mathlib.Data.List.Basic

/-!
# The key reader (`zad1/telnet.cpp`)

`readCommand` takes bytes from the socket, one `recieve` each, until they make a key. A client is
the bytes that it sends; behind them its stream has ended. The functions call each other, and are
given fuel for that: `none` is a call that has run out of it.
-/

namespace SikMimuw.Zad1

inductive Keys
  | print
  | up
  | down
  | enter
  | streamEnd
  | dummy
deriving DecidableEq

def escape : UInt8 := 27
def cr : UInt8 := 13
def lf : UInt8 := 10

/-- What a client sends: the bytes that are still to be read, and those that have been. -/
structure Stream where
  unread : List UInt8
  taken : List UInt8
deriving DecidableEq

/-- `recieve` of a byte; without one it throws `Eof`. -/
def Stream.recieve (s : Stream) : Option (UInt8 × Stream) :=
  match s.unread with
  | [] => none
  | byte :: unread => some (byte, ⟨unread, s.taken ++ [byte]⟩)

def isPrintable (byte : UInt8) : Bool := 32 ≤ byte ∧ byte ≤ 126

def processCsiSequence (s : Stream) : Keys × Stream :=
  match s.recieve with
  | none => (.streamEnd, s)
  | some (byte, s) =>
    if byte = 65 then (.up, s) else if byte = 66 then (.down, s) else (.dummy, s)

mutual

def readCommand : ℕ → Stream → Option (Keys × Stream)
  | 0, _ => none
  | n + 1, s =>
    match s.recieve with
    | none => some (.streamEnd, s)
    | some (byte, s) =>
      if isPrintable byte then some (.print, s)
      else if byte = escape then
        (readAsciEscape n s).bind fun (tmp, s) =>
          if tmp = .dummy then readCommand n s else some (tmp, s)
      else if byte = cr then some (.enter, s)
      else readCommand n s

def readAsciEscape : ℕ → Stream → Option (Keys × Stream)
  | 0, _ => none
  | n + 1, s =>
    match s.recieve with
    | none => some (.streamEnd, s)
    | some (byte, s) => if byte = 91 then some (processCsiSequence s) else readCommand n s

end

/-- The keys that calls of `readCommand` with fuel `n` return, up to `STREAM_END`. There are at most
`m` calls. -/
def readKeys (n : ℕ) : ℕ → Stream → Option (List Keys × Stream)
  | 0, _ => none
  | m + 1, s => do
    let (key, s) ← readCommand n s
    if key = .streamEnd then return ([], s)
    else
      let (keys, s) ← readKeys n m s
      return (key :: keys, s)

/-- The verbs of a telnet command. -/
inductive Verb
  | cmdWill
  | cmdWont
  | cmdDo
  | cmdDont
deriving DecidableEq

def Verb.byte : Verb → UInt8
  | .cmdWill => 251
  | .cmdWont => 252
  | .cmdDo => 253
  | .cmdDont => 254

/-- `CMD_IAC`. -/
def iac : UInt8 := 255

end SikMimuw.Zad1
