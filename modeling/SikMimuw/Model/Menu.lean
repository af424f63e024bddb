import SikMimuw.Lib.Containers
import SikMimuw.Lib.CString

/-!
# The receiver's menu (`big3/menu.cpp`)

`stations` is the list of the stations heard, sorted by name, and `active` an iterator into it:
the address of a node, or `none` for `end()`. `isActive` tells `main` to start `data_loop`
with the station at `active`.

`check_time` goes on with `station++` after it has erased the node that `station` designates.
C++ gives that no meaning, and a plain build crashes there. The model takes it to go on at some place
of the list, the one that the parameter `W` names.
-/

namespace SikMimuw.Receiver

open CStr

/-- The fields of a `sockaddr_in` that the receiver compares. -/
structure Address where
  addr : UInt32
  port : UInt16
deriving DecidableEq

structure Station where
  name : List UInt8
  address : Address
  time : ℤ
deriving DecidableEq

/-- `Menu`. -/
structure Menu where
  stations : NodeList Station
  active : Option ℕ
  preferedName : List UInt8
  preferedSet : Bool
  isActive : Bool

/-- The place of `station++` for an iterator whose node was erased from the list. That it has one is
an assumption. -/
abbrev Resume := NodeList Station → ℕ → ℕ

/-- `menu`, after `main` has looked at `NAZWA` (lines 489-493). -/
def Menu.init (nazwa : List UInt8) : Menu := ⟨NodeList.empty, none, nazwa, nazwa ≠ [], false⟩

def up : List UInt8 := [27, 91, 65]
def down : List UInt8 := [27, 91, 66]

def rule : List UInt8 :=
  bytes "------------------------------------------------------------------------\n\r"

def header : List UInt8 := rule ++ bytes " SIK Radio\n\r" ++ rule
def footer : List UInt8 := rule
def pointer : List UInt8 := bytes "  > "

/-- `prefix`. -/
def indent : List UInt8 := bytes "    "

/-- **`draw_menu`**. The first `insert` takes nothing of `clear_screen`. -/
def Menu.drawMenu (m : Menu) : List UInt8 :=
  header ++ (m.stations.nodes.flatMap fun n =>
    (if some n.1 = m.active then pointer else indent) ++ n.2.name ++ bytes "\n\r") ++ footer

/-- **`add_menu`**. -/
def Menu.addMenu (m : Menu) (addr : Address) (name : List UInt8) (time : ℤ) : Menu × Bool :=
  if m.stations.values = [] then
    let m' := { m with stations := m.stations.pushBack ⟨name, addr, time⟩ }
    (if m.preferedSet then m' else { m' with active := m'.stations.front, isActive := true }, true)
  else if m.stations.values.any fun s => s.address = addr then
    ({ m with stations := m.stations.map fun s =>
        if s.address = addr then { s with time := time } else s }, false)
  else
    let st := m.stations.values.findIdx fun s => name < s.name
    let m' := { m with stations := m.stations.insertAt st ⟨name, addr, time⟩ }
    (if m.preferedSet ∧ name = m.preferedName then
      { m' with active := some m.stations.fresh, isActive := true } else m', true)

/-- **`transform`**: three bytes of a client. -/
def Menu.transform (m : Menu) (buffer : List UInt8) : Menu × Bool :=
  if m.stations.size < 2 then (m, false)
  else if buffer.take 3 = up then
    ({ m with active :=
        if m.active = m.stations.front ∨ m.active = none then m.stations.last
        else m.active.bind m.stations.prev }, true)
  else if buffer.take 3 = down then
    ({ m with active :=
        if m.active = m.stations.last ∨ m.active = none then m.stations.front
        else m.active.bind m.stations.next }, true)
  else (m, false)

/-- Line 126. -/
def Station.expired (time : ℤ) (s : Station) : Bool := time - s.time > 20

/-- Lines 130-134, for the node of `station`. -/
def Menu.erase (m : Menu) (station : ℕ) : Menu :=
  let stations := m.stations.erase station
  { m with
    stations := stations
    active := stations.front
    isActive := m.isActive && stations.front.isSome }

/-- The loop of `check_time` from place `at` on, with `n` stations at most to erase. It goes to the
next station that has expired. -/
def Menu.expire (W : Resume) (time : ℤ) : ℕ → ℕ → Menu → Menu × Bool
  | 0, _, m => (m, false)
  | n + 1, place, m =>
    match (m.stations.nodes.drop place).find? fun s => s.2.expired time with
    | none => (m, false)
    | some s =>
      let r := Menu.expire W time n (W m.stations s.1) (m.erase s.1)
      (r.1, m.active = some s.1 || r.2)

/-- **`check_time`**. -/
def Menu.checkTime (W : Resume) (m : Menu) (time : ℤ) : Menu × Bool :=
  m.expire W time m.stations.size 0

/-- What `check_time` does with an iterator. -/
inductive Use
  | compare
  | deref
  | advance
deriving DecidableEq

/-- One use of an iterator, with those whose stations the call has erased so far. -/
structure Access where
  use : Use
  it : ℕ
  erased : List ℕ

/-- Lines 124-126 for one station: `station != stations.end()`, `station->time`. -/
def visit (erased : List ℕ) (station : ℕ) : List Access :=
  [⟨.compare, station, erased⟩, ⟨.deref, station, erased⟩]

/-- The iterators that the loop of `check_time` uses, as `expire` goes through it. -/
def Menu.accesses (W : Resume) (time : ℤ) : ℕ → ℕ → List ℕ → Menu → List Access
  | 0, _, _, _ => []
  | n + 1, place, erased, m =>
    let rest := m.stations.nodes.drop place
    (rest.takeWhile fun s => !s.2.expired time).flatMap
        (fun s => visit erased s.1 ++ [⟨.advance, s.1, erased⟩]) ++
      match rest.find? fun s => s.2.expired time with
      | none => []
      | some s =>
        let erased' := s.1 :: erased
        -- `station == active`, `active == stations.end()`, and `station++`
        visit erased s.1 ++ (s.1 :: m.active.toList).map (fun it => ⟨.compare, it, erased⟩) ++
          (m.erase s.1).active.toList.map (fun it => ⟨.compare, it, erased'⟩) ++
          ⟨.advance, s.1, erased'⟩ ::
          Menu.accesses W time n (W m.stations s.1) erased' (m.erase s.1)

/-- A call. -/
inductive MenuEvent
  | addMenu (addr : Address) (name : List UInt8) (time : ℤ)
  | transform (buffer : List UInt8)
  | checkTime (time : ℤ)

/-- The menu after a call. -/
def Menu.call (W : Resume) (m : Menu) : MenuEvent → Menu
  | .addMenu addr name time => (m.addMenu addr name time).1
  | .transform buffer => (m.transform buffer).1
  | .checkTime time => (m.checkTime W time).1

/-- A call, which may go on anywhere after it has erased a station. -/
def MenuStep (m : Menu) (e : MenuEvent) (m' : Menu) : Prop := ∃ W, m' = m.call W e

theorem size_erase {m : Menu} {n : ℕ × Station} (h : n ∈ m.stations.nodes) :
    (m.erase n.1).stations.size + 1 = m.stations.size := NodeList.size_erase h

/-- **Enough turns**: with as many as there are stations the loop comes to `end()`. -/
theorem expire_enough (W : Resume) (time : ℤ) {n : ℕ} : ∀ {m : Menu}, m.stations.size ≤ n →
    ∀ place, m.expire W time (n + 1) place = m.expire W time n place := by
  induction n with
  | zero =>
    intro m hn place
    have hnil : m.stations.nodes = [] := List.eq_nil_of_length_eq_zero (Nat.le_zero.1 hn)
    simp [Menu.expire, hnil]
  | succ n ih =>
    intro m hn place
    rw [Menu.expire, Menu.expire]
    cases hf : (m.stations.nodes.drop place).find? fun s => s.2.expired time with
    | none => rfl
    | some s =>
      have hs := size_erase (List.mem_of_mem_drop (List.mem_of_find?_eq_some hf))
      dsimp only
      rw [ih (by omega)]

end SikMimuw.Receiver
