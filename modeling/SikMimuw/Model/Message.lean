import SikMimuw.Model.Telnet

/-!
# The screen of the first server (`zad1/state.cpp`, `zad1/menu.cpp`, `zad1/action.cpp`)

`toMessage` is the text that the server sends: the menu with its active option in reverse video, and
below it the text lines. An option of the menu has an action that ENTER executes. The texts are lists
of bytes, and a style sequence is the vector that its function returns.
-/

namespace SikMimuw.Zad1

/-- `Option`, without its action. -/
structure MenuOption where
  displayText : List UInt8
deriving DecidableEq

structure Menu where
  options : List MenuOption
  active : UInt32
deriving DecidableEq

def Menu.init (options : List MenuOption) : Menu := ⟨options, 0⟩

def Menu.toString (m : Menu) : List (List UInt8) := m.options.map MenuOption.displayText

def Menu.getActiveIndex (m : Menu) : UInt32 := m.active

def Menu.setOptions (m : Menu) (options : List MenuOption) (active : UInt32) : Menu :=
  { m with options := options, active := active }

structure State where
  activeMenu : Menu
  lines : List (List UInt8)
deriving DecidableEq

def State.init (activeMenu : Menu) (linesCount : ℕ) : State :=
  ⟨activeMenu, List.replicate linesCount []⟩

def clearLineSeq : List UInt8 := [escape, 91, 50, 75]
def normalStyleSeq : List UInt8 := [escape, 91, 48, 109]
def reverseStyleSeq : List UInt8 := [escape, 91, 55, 109]

def State.clearLine (s : State) (i : ℕ) : State := { s with lines := s.lines.set i clearLineSeq }

def State.setTextLine (s : State) (i : ℕ) (text : List UInt8) : State :=
  { s with lines := s.lines.set i text }

def State.setActiveMenu (s : State) (options : List MenuOption) (active : UInt32 := 0) : State :=
  { s with activeMenu := s.activeMenu.setOptions options active }

/-- A turn of the first loop of `toMessage`, with its counter and the bytes so far. -/
def messageTurn (active : UInt32) (p : UInt32 × List UInt8) (option : List UInt8) :
    UInt32 × List UInt8 :=
  let (i, seq) := p
  let seq := if i = active then seq ++ reverseStyleSeq else seq
  let seq := seq ++ option
  let seq := if i = active then seq ++ normalStyleSeq else seq
  -- the counter is not moved on
  (i, seq ++ [cr] ++ [lf])

def State.toMessage (s : State) : List UInt8 :=
  let (_, seq) := s.activeMenu.toString.foldl (messageTurn s.activeMenu.getActiveIndex) (0, [])
  s.lines.foldl (fun seq line => seq ++ line ++ [cr] ++ [lf]) seq

/-- What the option of the menu does. -/
inductive Action
  | clearTerminal
  | enterSubmenu (submenu : List MenuOption) (active : UInt32)
  | addText (text : List UInt8)
deriving DecidableEq

def Action.execute (s : State) : Action → State
  | .clearTerminal => (List.range s.lines.length).foldl State.clearLine s
  | .enterSubmenu submenu _ => s.setActiveMenu submenu
  | .addText text => s.setTextLine 0 text

end SikMimuw.Zad1
