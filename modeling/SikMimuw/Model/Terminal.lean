import SikMimuw.Model.Menu

/-!
# The receiver's terminal (`big3/odbiornik.cpp`)

`loop_terminal` draws the menu for its clients and takes their keys, `recieve_lookup` puts the
stations that reply into the menu, and `data_loop` plays the active one. `menu_changed` tells of
changes. `main` starts `data_loop` whenever the menu has an active station.

* A section under `mutex_menu` is one step, enabled when the mutex is free. Only that of
  `recieve_lookup` is two, the load of the flag and the rest: line 184 clears the flag without the
  mutex, and may come between them.
* What `data_loop` does after its test of the flag reads neither flag nor menu. It goes on or leaves.
* `main` hands `data_loop` a station whose scope ends. The model lets it keep its value.
* `finish` stays false.
-/

namespace SikMimuw.Receiver

/-- `active->address`, if `active` designates a station. -/
def Menu.activeAddress (m : Menu) : Option Address :=
  (m.active.bind m.stations.deref).map Station.address

namespace Terminal

/-- Where `loop_terminal` stands. -/
inductive TerminalPc
  | head
  | accept
  | keys (j : ℕ)
  | redraw
  | send (outBuffer : List UInt8)
  | drawAll
  | sendAll (outBuffer : List UInt8)
  | clear
  | tail
deriving DecidableEq

/-- Where `data_loop` stands. It is `idle` until `main` starts it. -/
inductive DataPc
  | idle
  | start
  | head
  | compare
  | body
  | leave
deriving DecidableEq

/-- A reply in the section of `recieve_lookup`, with the flag as line 469 has loaded it. -/
structure Lookup where
  menuChanged : Bool
  addr : Address
  name : List UInt8
  time : ℤ

/-- `clients` holds the last menu text sent to each client, and `station` is the address of the
station that `data_loop` plays. -/
structure State where
  menu : Menu
  menuChanged : Bool
  terminal : TerminalPc
  clients : List (List UInt8)
  lookup : Option Lookup
  data : DataPc
  station : Address

def State.init (nazwa : List UInt8) : State :=
  ⟨Menu.init nazwa, false, .head, [], none, .idle, ⟨0, 0⟩⟩

/-- What is the case of a step, besides the thread. -/
inductive Event
  /-- `loop_terminal`. `ready`: `poll` finds input, `accept` a client. `red`: what the client at
  the cursor sends, if anything. `time` is read at the end of a turn. -/
  | terminal (ready : Bool) (red : Option (List UInt8)) (time : ℤ)
  /-- `recieve_lookup` locks `mutex_menu` with a reply and loads the flag. -/
  | reply (addr : Address) (name : List UInt8) (time : ℤ)
  /-- It calls `add_menu`, if it is to, stores the flag and unlocks. -/
  | addMenu
  /-- `data_loop`, which may leave its loop. -/
  | data (leave : Bool)
  /-- `main` starts `data_loop`, or its `pthread_join` returns. -/
  | main

/-- A step under `mutex_menu`. Between two steps, only `recieve_lookup` may hold it. -/
def State.locked (s t : State) : Option State := if s.lookup.isNone then some t else none

/-- The next step of `loop_terminal`. -/
def stepTerminal (W : Resume) (s : State) (ready : Bool) (red : Option (List UInt8)) (time : ℤ) :
    Option State :=
  match s.terminal with
  | .head => some { s with
      terminal := if ready then .accept else if s.menuChanged then .drawAll else .tail }
  | .accept =>
    -- `draw_menu` without the mutex
    if ready then some { s with clients := s.clients ++ [s.menu.drawMenu], terminal := .keys 0 }
    else some { s with terminal := .keys 0 }
  | .keys j =>
    if j < s.clients.length then
      match red with
      | none => some { s with terminal := .keys (j + 1) }
      | some [] => some { s with clients := s.clients.eraseIdx j, terminal := .tail }
      | some inBuffer =>
        if inBuffer.length = 3 then
          let r := s.menu.transform inBuffer
          s.locked { s with
            menu := r.1
            menuChanged := s.menuChanged || r.2
            terminal := if r.2 then .redraw else .keys (j + 1) }
        else some { s with terminal := .keys (j + 1) }
    else some { s with terminal := .tail }
  | .redraw => s.locked { s with terminal := .send s.menu.drawMenu }
  | .send outBuffer => some { s with clients := s.clients.map fun _ => outBuffer, terminal := .tail }
  | .drawAll => s.locked { s with terminal := .sendAll s.menu.drawMenu }
  | .sendAll outBuffer =>
    some { s with clients := s.clients.map fun _ => outBuffer, terminal := .clear }
  | .clear => some { s with menuChanged := false, terminal := .tail }
  | .tail =>
    if s.menuChanged then s.locked { s with terminal := .head }
    else
      let r := s.menu.checkTime W time
      s.locked { s with menu := r.1, menuChanged := r.2, terminal := .head }

/-- The next step of `data_loop`. -/
def stepData (s : State) (leave : Bool) : Option State :=
  match s.data with
  | .idle => none
  | .start => some { s with data := .head }
  | .head => some { s with data := if s.menuChanged then .compare else .body }
  | .compare => s.locked { s with
      data := if s.menu.isActive ∧ s.menu.activeAddress = some s.station then .body else .leave }
  | .body => some { s with data := if leave then .leave else .head }
  | .leave => none

/-- The next step of `main`. -/
def stepMain (s : State) : Option State :=
  match s.data with
  | .idle =>
    if s.menu.isActive then
      s.menu.activeAddress.bind fun station => s.locked { s with station := station, data := .start }
    else none
  | .leave => some { s with data := .idle }
  | _ => none

/-- **One step.** -/
def step (W : Resume) (s : State) : Event → Option State
  | .terminal ready red time => stepTerminal W s ready red time
  | .reply addr name time => s.locked { s with lookup := some ⟨s.menuChanged, addr, name, time⟩ }
  | .addMenu => s.lookup.map fun l =>
      let r := if l.menuChanged then (s.menu, true) else s.menu.addMenu l.addr l.name l.time
      { s with menu := r.1, menuChanged := r.2, lookup := none }
  | .data leave => stepData s leave
  | .main => stepMain s

/-- A step, in which `check_time` may go on anywhere after it has erased a station. -/
def Step (s : State) (e : Event) (t : State) : Prop := ∃ W, step W s e = some t

end Terminal

/-- One `read` of a client that returns bytes (lines 142-156): the menu after it, and the bytes if
`transform` is called with them and asks for a refresh. -/
def Menu.readKey (m : Menu) (inBuffer : List UInt8) : Menu × List (List UInt8) :=
  if inBuffer.length = 3 then
    let r := m.transform inBuffer
    (r.1, if r.2 then [inBuffer] else [])
  else (m, [])

/-- What successive reads of a client return, with nothing else happening between them. -/
def Menu.readKeys : Menu → List (List UInt8) → Menu × List (List UInt8)
  | m, [] => (m, [])
  | m, inBuffer :: rest =>
    let r := m.readKey inBuffer
    let t := r.1.readKeys rest
    (t.1, r.2 ++ t.2)

/-- The loop over the clients does with a read what `readKey` does. -/
theorem Terminal.stepTerminal_readKey {W : Resume} {s t : Terminal.State} {j : ℕ}
    {inBuffer : List UInt8} {ready : Bool} {time : ℤ} (hj : s.terminal = .keys j)
    (hlt : j < s.clients.length) (hne : inBuffer ≠ [])
    (hst : stepTerminal W s ready (some inBuffer) time = some t) :
    t.menu = (s.menu.readKey inBuffer).1 := by
  obtain ⟨c, cs, rfl⟩ := List.exists_cons_of_ne_nil hne
  have hlocked : ∀ u, s.locked u = some t → t = u := by
    intro u hu
    unfold State.locked at hu
    split at hu
    · exact (Option.some.inj hu).symm
    · cases hu
  unfold stepTerminal at hst
  rw [hj] at hst
  dsimp only at hst
  rw [if_pos hlt] at hst
  unfold Menu.readKey
  by_cases hlen : (c :: cs).length = 3
  · rw [if_pos hlen] at hst ⊢
    rw [hlocked _ hst]
  · rw [if_neg hlen, Option.some.injEq] at hst
    rw [if_neg hlen, ← hst]

end SikMimuw.Receiver
