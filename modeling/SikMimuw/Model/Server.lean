import SikMimuw.Lib.CString

/-!
# The menu server (`ver2/main.cc`)

The server takes one client after another. It draws a menu for the client and reads its keys, three
bytes at most at a time, until `connection_active` is false.

* A client is what the reads from its socket return. After these its stream has ended.
* All sends succeed. `sent` is what a session has written.
-/

namespace SikMimuw.Ver2

open CStr

/-- What `read` returns: -1, or the bytes that it has read. -/
inductive Read
  | error
  | bytes (bytes : List UInt8)
deriving DecidableEq

/-- The results of the reads from a client's socket, before the end of its stream. -/
abbrev Client := List Read

/-- At the end of the stream `read` returns 0. -/
def Read.endOfStream : Read := .bytes []

inductive Exception
  | tcpException
  | eof
deriving DecidableEq

/-- **`recieve`**. -/
def recieve : Read → Except Exception (List UInt8)
  | .error => .error .tcpException
  | .bytes [] => .error .eof
  | .bytes bytes => .ok bytes

inductive Command
  | dummy
  | enter
  | up
  | down
  | streamEnd
deriving DecidableEq

def enterBytes : List UInt8 := [13, 0]
def upBytes : List UInt8 := [27, 91, 65]
def downBytes : List UInt8 := [27, 91, 66]

/-- `INIT`. -/
def initBytes : List UInt8 := [255, 251, 1, 255, 253, 34]

/-- The command of the bytes that were received. -/
def command (bytes : List UInt8) : Command :=
  if bytes = [] then .streamEnd
  else if enterBytes = bytes then .enter
  else if upBytes = bytes then .up
  else if downBytes = bytes then .down
  else .dummy

/-- **`recv_command`**. -/
def recvCommand (r : Read) : Except Exception Command := (recieve r).map command

/-- The functions behind the options. -/
inductive Action
  | actionA
  | actionB
  | actionK
  | actionB1
  | actionB2
  | actionW
deriving DecidableEq

/-- `Menu`. -/
structure Menu where
  options : List (List UInt8)
  actions : List Action
  active : ℕ
  sizes : actions.length = options.length
  bound : active < options.length

/-- The menu that `main` begins with. -/
def menuMain : Menu where
  options := [bytes "Opcja A-----", bytes "Opcja B-----\n", bytes "Koniec"]
  actions := [.actionA, .actionB, .actionK]
  active := 0
  sizes := rfl
  bound := Nat.zero_lt_succ _

/-- The menu that `actionW` goes back to. -/
def menuW : Menu where
  options := [bytes "Opcja A", bytes "Opcja B", bytes "Koniec"]
  actions := [.actionA, .actionB, .actionK]
  active := 1
  sizes := rfl
  bound := Nat.one_lt_succ_succ _

/-- The menu of `actionB`. -/
def menuB : Menu where
  options := [bytes "Opcka B1", bytes "Opcja B2", bytes "Wstecz"]
  actions := [.actionB1, .actionB2, .actionW]
  active := 1
  sizes := rfl
  bound := Nat.one_lt_succ_succ _

/-- `active` after UP. Where `active - 1` wraps around, adding the size brings it back. -/
def Menu.up (m : Menu) : Menu where
  options := m.options
  actions := m.actions
  active := (m.active + m.options.length - 1) % m.options.length
  sizes := m.sizes
  bound := Nat.mod_lt _ (Nat.zero_lt_of_lt m.bound)

theorem Menu.active_up (m : Menu) :
    m.up.active = (m.active + m.options.length - 1) % m.options.length := rfl

/-- `active` after DOWN. -/
def Menu.down (m : Menu) : Menu where
  options := m.options
  actions := m.actions
  active := (m.active + 1) % m.options.length
  sizes := m.sizes
  bound := Nat.mod_lt _ (Nat.zero_lt_of_lt m.bound)

theorem Menu.active_down (m : Menu) : m.down.active = (m.active + 1) % m.options.length := rfl

/-- `actions[active]`. -/
def Menu.chosen (m : Menu) : Action := m.actions.get ⟨m.active, m.sizes ▸ m.bound⟩

theorem Menu.chosen_eq {m : Menu} {a : Action} (h : m.actions[m.active]? = some a) : m.chosen = a := by
  obtain ⟨_, ha⟩ := List.getElem?_eq_some_iff.1 h
  exact ha

/-- The globals, and what the session has written. -/
structure Session where
  menu : Menu
  connectionActive : Bool
  sent : List UInt8

def Session.write (s : Session) (bytes : List UInt8) : Session := { s with sent := s.sent ++ bytes }

def csi (value : String) : List UInt8 := 27 :: 91 :: bytes value

/-- **`clear_lines`**. -/
def Session.clearLines (s : Session) (n : ℕ) : Session :=
  s.write ((List.replicate (n - 1) (csi "2K" ++ csi "A")).flatten ++ csi "2K")

/-- **`render`**. -/
def Session.render (s : Session) : Session :=
  s.write (s.menu.options.zipIdx.flatMap fun o =>
    (if s.menu.active = o.2 then csi "7m" ++ o.1 ++ csi "0m" else o.1) ++ [13, 10])

/-- A menu in place of the last one. -/
def Session.showMenu (s : Session) (menu : Menu) : Session :=
  ({ s with menu := menu }.clearLines 4).render

@[simp] theorem Session.menu_showMenu (s : Session) (m : Menu) : (s.showMenu m).menu = m := rfl

def Action.run (s : Session) : Action → Session
  | .actionA => (s.write (bytes "A")).write (csi "1D")
  | .actionB => s.showMenu menuB
  | .actionK => { s with connectionActive := false }
  | .actionB1 => (s.write (bytes "B1")).write (csi "2D")
  | .actionB2 => (s.write (bytes "B2")).write (csi "2D")
  | .actionW => s.showMenu menuW

/-- **`execute`**. -/
def Session.execute (s : Session) : Command → Session
  | .streamEnd => { s with connectionActive := false }
  | .enter => s.menu.chosen.run s
  | .up => s.showMenu s.menu.up
  | .down => s.showMenu s.menu.down
  | .dummy => s

/-- One turn of the loop of a session, and its command. -/
def Session.turn (s : Session) (r : Read) : Except Exception (Command × Session) :=
  (recvCommand r).map fun command => (command, s.execute command)

/-- The loop, with the command that ended it. A turn at the end of the stream is the last one. -/
def Session.loop (s : Session) : Client → Except Exception (Command × Session)
  | [] => s.turn .endOfStream
  | r :: client =>
    match s.turn r with
    | .error e => .error e
    | .ok (command, s') => if s'.connectionActive then s'.loop client else .ok (command, s')

/-- The session of a client that has connected. -/
def Session.start : Session := ((⟨menuMain, true, []⟩ : Session).write initBytes).render

/-- **`main`** over the clients that connect: for each session the command that ended it and the
bytes sent, and the exception that ended the loop. Without one the server waits for a client. -/
def main : List Client → List (Command × List UInt8) × Option Exception
  | [] => ([], none)
  | client :: clients =>
    match Session.start.loop client with
    | .error e => ([], some e)
    | .ok (command, s) =>
      ((command, (s.write (csi "?25h")).sent) :: (main clients).1, (main clients).2)

end SikMimuw.Ver2
