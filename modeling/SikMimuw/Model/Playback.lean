import SikMimuw.Model.Buffor

/-!
# Reception and playback (`big3/odbiornik.cpp`)

The receiver of one session, seen from the buffer: `data_loop` stores the packets it
receives (line 324), and the critical sections of a printing thread (lines 365-374 and
379) take packages from the front. Both run with `mutex_buffor` held, so a run is any
sequence of them. A thread writes the package it took before it enters its next section,
so `log` has the write where the section is.

The stream is given by `payload`: a packet numbered `n` carries `payload n`, whenever and
however often it comes.
-/

namespace SikMimuw.Receiver

/-- What a printing thread does, and when `packages` became empty. -/
inductive Output
  | wrote (p : Package)
  | ended
  | emptied
deriving DecidableEq

/-- One critical section of `printing_loop`: the package to write, or the thread ends. `quit`
is the value of `finish || stop` in the loop condition. -/
def Buffer.printingSection (b : Buffer) (quit : Bool) : Buffer × Option Package :=
  if quit then (b, none)
  else match b.pop with
    | none => (b, none)
    | some (p, b') => if p.data = [] then (b'.reset, none) else (b', some p)

/-- The receiver while it is tuned to one session. -/
structure Playback where
  buf : Buffer
  /-- a printing thread runs -/
  printing : Bool
  received : List UInt64
  log : List Output

inductive PlaybackEvent
  | recv (num : UInt64)
  | create
  | printingSection (quit : Bool)

def Playback.init (maxData : UInt64) : Playback := ⟨Buffer.init maxData, false, [], []⟩

/-- `emptied`, if `packages` is empty. -/
def Buffer.emptied (b : Buffer) : List Output := if b.packages.values = [] then [.emptied] else []

/-- The receiver after a section of its printing thread. -/
def Playback.afterSection (s : Playback) (quit : Bool) : Playback :=
  match s.buf.printingSection quit with
  | (b, some p) => { s with buf := b, log := s.log ++ (.wrote p :: b.emptied) }
  | (b, none) => { s with buf := b, printing := false, log := s.log ++ (.ended :: b.emptied) }

/-- A reception whose call returns without evicting, the creation of a printing thread, or a
critical section of the running one. -/
inductive PlaybackStep (W : Wild) (payload : UInt64 → List UInt8) :
    Playback → PlaybackEvent → Playback → Prop
  | recv {s : Playback} (num : UInt64) (n : ℕ)
      (hd : (addToBuffor W s.buf num (payload num) n).done = true)
      (he : (addToBuffor W s.buf num (payload num) n).evictions = []) :
      PlaybackStep W payload s (.recv num)
        { s with
          buf := (addToBuffor W s.buf num (payload num) n).buf
          received := num :: s.received }
  | create {s : Playback} (hp : s.printing = false) :
      PlaybackStep W payload s .create { s with printing := true }
  | printingSection {s : Playback} (quit : Bool) (hp : s.printing = true) :
      PlaybackStep W payload s (.printingSection quit) (s.afterSection quit)

end SikMimuw.Receiver
