import SikMimuw.Model.Atomic
import SikMimuw.Proof.Blocks

/-!
# Senders, their multicast group and a receiver

Any number of senders (`big3/nadajnik.cpp`) and one receiver (`big3/odbiornik.cpp`), each with all
its threads. A datagram that a sender has multicast may come to the receiver at any later time, any
number of times, in any order or never, so the network is the history of the senders. The numbers
that `ctrl_loop` of a sender receives are arbitrary, as are the steps of the menu.
-/

namespace SikMimuw

/-- A sender: its parameters, the id of its session, and what it reads. -/
structure Station where
  params : Transmitter.Parameters
  sessionId : UInt64
  stdin : List UInt8

structure Broadcast (ι : Type) where
  senders : ι → Transmitter.State
  receiver : Receiver.Traced

inductive BroadcastEvent (ι : Type)
  | sender (i : ι) (event : Transmitter.Event)
  | deliver (leave : Bool) (i : ι) (datagram : List UInt8)  -- `data_loop` gets a datagram of `i`
  | receiver (event : Receiver.Event)

/-- The event receives a datagram. -/
def Receiver.Event.receives : Receiver.Event → Bool
  | .data _ (some _) => true
  | _ => false

variable {ι : Type} (e : Endian) (W : Receiver.Wild) (stations : ι → Station)

def Broadcast.init (maxData : UInt64) : Broadcast ι where
  senders i := Transmitter.State.init (stations i).params (stations i).stdin
  receiver := Receiver.Traced.init maxData

/-- What the event is at the receiver. -/
def Broadcast.atReceiver (b : Broadcast ι) : BroadcastEvent ι → Option Receiver.Event
  | .sender .. => none
  | .deliver leave i datagram =>
    if datagram ∈ Transmitter.multicast e (stations i).sessionId (b.senders i).log then
      (Receiver.decode e datagram).map fun d => .data leave (some d)
    else none
  | .receiver event => if event.receives then none else some event

/-- **One step**, of a thread of a sender or of the receiver. -/
def Broadcast.step [DecidableEq ι] (b : Broadcast ι) (event : BroadcastEvent ι) :
    Option (Broadcast ι) :=
  match event with
  | .sender i ev => (Transmitter.step (stations i).params (b.senders i) ev).map fun s =>
      { b with senders := Function.update b.senders i s }
  | .deliver .. | .receiver _ => (b.atReceiver e stations event).bind fun ev =>
      (b.receiver.step W ev).map fun t => { b with receiver := t }

end SikMimuw
