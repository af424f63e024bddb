import SikMimuw.Model.Playback
import SikMimuw.Model.Threads

/-!
# The receiver as a sequence of critical sections

What the threads of `big3/odbiornik.cpp` do with the buffer, if each section under `mutex_buffor`
is one step: a whole call of `add_to_buffor` (lines 323-326), the creation of a printing thread
(330-333), a turn of `printing_loop` (365-374, 379), and the `reset` with which `data_loop` leaves
(343-345). `restart` is the start of the next `data_loop`; `playback` is what was received and
written since then.

This is the abstract model of `Model/Threads.lean`, where a section is many steps.
-/

namespace SikMimuw.Receiver

structure Sections where
  session : UInt64
  playback : Playback

inductive SectionEvent
  | call (d : Datagram) (evictions : List Eviction)
  | create
  | printingSection (quit : Bool)
  | reset
  | restart

def Sections.init (maxData : UInt64) : Sections := ⟨0, Playback.init maxData⟩

/-- **One section.** A call belongs to the running session, or opens one. -/
inductive SectionStep (W : Wild) : Sections → SectionEvent → Sections → Prop
  | call {p : Sections} (d : Datagram) (n : ℕ) (hses : p.session = 0 ∨ p.session = d.session)
      (hd : (addToBuffor W p.playback.buf d.num d.data n).done = true) :
      SectionStep W p (.call d (addToBuffor W p.playback.buf d.num d.data n).evictions)
        ⟨d.session, { p.playback with
          buf := (addToBuffor W p.playback.buf d.num d.data n).buf
          received := d.num :: p.playback.received }⟩
  | create {p : Sections} (hp : p.playback.printing = false) :
      SectionStep W p .create { p with playback := { p.playback with printing := true } }
  | printingSection {p : Sections} (quit : Bool) (hp : p.playback.printing = true) :
      SectionStep W p (.printingSection quit) { p with playback := p.playback.afterSection quit }
  | reset {p : Sections} : SectionStep W p .reset { p with playback := { p.playback with
      buf := p.playback.buf.reset, log := p.playback.log ++ [.emptied] } }
  | restart {p : Sections} (hp : p.playback.printing = false)
      (he : p.playback.buf.packages.values = [] ∧ p.playback.buf.set.entries = []) :
      SectionStep W p .restart ⟨0, ⟨p.playback.buf, false, [], []⟩⟩

/-- A call that returns with these evictions meets the condition. -/
def SectionEvent.Allowed (ok : Datagram → List Eviction → Prop) : SectionEvent → Prop
  | .call d evictions => ok d evictions
  | _ => True

/-! ### The threads, with their history -/

/-- The receiver, with the evictions of the running call, and the numbers stored and the packages
taken since the running `data_loop` started. -/
structure Traced where
  state : State
  evicted : List Eviction
  received : List UInt64
  log : List Output

/-- The call of `add_to_buffor` after the next step of `data_loop`, if that is in one. -/
def Traced.call (W : Wild) (t : Traced) : Option (Datagram × Call) :=
  match t.state.data with
  | .add num data => some (⟨t.state.session, num, data⟩, t.state.buf.enter num data)
  | .adding num data =>
    some (⟨t.state.session, num, data⟩, Call.pass W num data ⟨t.state.buf, t.evicted, false⟩)
  | _ => none

/-- What `data_loop` adds to the log. -/
def DataPc.printed : DataPc → List Output
  | .reset => [.emptied]
  | _ => []

/-- What printing thread `i` adds to the log: the package it pops, or its end. -/
def State.printed (s : State) (i : ℕ) : List Output :=
  match s.printers[i]? with
  | some .test =>
    if s.buf.packages.values ≠ [] ∧ s.finish = false ∧ s.stop = false then []
    else .ended :: s.buf.emptied
  | some .pop =>
    match s.buf.pop with
    | some (p, b) => if p.data = [] then .ended :: b.reset.emptied else .wrote p :: b.emptied
    | none => []
  | _ => []

/-- The history after a step to `s'`. -/
def Traced.next (W : Wild) (t : Traced) (s' : State) : Event → Traced
  | .run => ⟨s', [], [], []⟩
  | .data .. =>
    match t.call W with
    | some (d, c) => ⟨s', c.evictions, if c.done then d.num :: t.received else t.received, t.log⟩
    | none => { t with state := s', log := t.log ++ t.state.data.printed }
  | .printer i => { t with state := s', log := t.log ++ t.state.printed i }
  | _ => { t with state := s' }

/-- One step of the receiver, with its history. -/
def Traced.step (W : Wild) (t : Traced) (e : Event) : Option Traced :=
  (Receiver.step W t.state e).map fun s' => t.next W s' e

def Traced.init (maxData : UInt64) : Traced := ⟨State.init maxData, [], [], []⟩

/-- A call that returns in the step does so with evictions that meet the condition. -/
def Traced.Returns (W : Wild) (ok : Datagram → List Eviction → Prop) (t : Traced) : Event → Prop
  | .data .. => ∀ x ∈ t.call W, x.2.done = true → ok x.1 x.2.evictions
  | _ => True

instance instDecidableReturns (W : Wild) (ok : Datagram → List Eviction → Prop)
    [∀ d evictions, Decidable (ok d evictions)] (t : Traced) (e : Event) :
    Decidable (t.Returns W ok e) :=
  match e with
  | .data .. =>
    inferInstanceAs (Decidable (∀ x ∈ t.call W, x.2.done = true → ok x.1 x.2.evictions))
  | .signal | .run | .printer _ | .requester _ => .isTrue trivial

end SikMimuw.Receiver
