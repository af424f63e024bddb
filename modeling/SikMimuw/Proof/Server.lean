import SikMimuw.Model.Server

/-!
# The end of a session

`recieve` throws `Eof` at the end of the stream, so `recv_command` never gets to report
`STREAM_END`, and `main` catches `TcpException` only. A client that goes away takes the server with
it, unless it has chosen `Koniec` before.

* `Place.press`: what the keys do, over the place of the mark. `At.execute`: `execute` does that.
* `Leaves`: the client chooses `Koniec` while it is connected. `loop_leaves`: then, and only
  then, its session ends without an exception.
* `disconnect_ends`: the server after any clients.
-/

namespace SikMimuw.Ver2

variable {s s' : Session} {c : Command} {client : Client} {r : Read} {clients : List Client}

/-- **A disconnect ends only its session**: each session ends at the end of the client's stream, and
the server goes on. -/
def EndsOnly (clients : List Client) : Prop :=
  (main clients).1.map Prod.fst = clients.map (fun _ => Command.streamEnd) ∧ (main clients).2 = none

/-- Where the mark of a menu stands: in the menu of `actionB` or in that of `main`, and at which
option. -/
structure Place where
  sub : Bool
  option : ℕ
deriving DecidableEq

variable {p : Place}

/-- The place after a command, or `none` after `Koniec`. -/
def Place.press (p : Place) : Command → Option Place
  | .up => some { p with option := (p.option + 2) % 3 }
  | .down => some { p with option := (p.option + 1) % 3 }
  | .enter =>
    if p = ⟨false, 2⟩ then none
    else if p = ⟨false, 1⟩ then some ⟨true, 1⟩
    else if p = ⟨true, 2⟩ then some ⟨false, 1⟩
    else some p
  | _ => some p

/-- The client chooses `Koniec`, from a place on, before a read fails or its stream ends. -/
def Leaves : Place → Client → Prop
  | _, [] => False
  | p, r :: client =>
    match r with
    | .error => False
    | .bytes bytes => bytes ≠ [] ∧
      match p.press (command bytes) with
      | none => True
      | some p' => Leaves p' client

/-- The options of a menu. -/
def Place.actions (p : Place) : List Action :=
  if p.sub then [.actionB1, .actionB2, .actionW] else [.actionA, .actionB, .actionK]

/-- The session shows the menu with the mark at the place. -/
structure At (s : Session) (p : Place) : Prop where
  actions : s.menu.actions = p.actions
  active : s.menu.active = p.option
  connected : s.connectionActive = true

theorem At.length (h : At s p) : s.menu.options.length = 3 := by
  rw [← s.menu.sizes, h.actions]
  unfold Place.actions
  split <;> rfl

theorem start_at : At Session.start ⟨false, 0⟩ := ⟨rfl, rfl, rfl⟩

theorem At.up (h : At s p) : At (s.showMenu s.menu.up) { p with option := (p.option + 2) % 3 } where
  actions := h.actions
  active := by
    rw [Session.menu_showMenu, Menu.active_up, h.active, h.length]
    rfl
  connected := h.connected

theorem At.down (h : At s p) :
    At (s.showMenu s.menu.down) { p with option := (p.option + 1) % 3 } where
  actions := h.actions
  active := by rw [Session.menu_showMenu, Menu.active_down, h.active, h.length]
  connected := h.connected

/-- The function behind the marked option. -/
theorem At.chosen {a : Action} (h : At s p) (ha : p.actions[p.option]? = some a) :
    s.execute .enter = a.run s := by
  show s.menu.chosen.run s = a.run s
  rw [Menu.chosen_eq (a := a)]
  rw [h.actions, h.active, ha]

/-- **A command** moves the mark, shows another menu or ends the session. -/
theorem At.execute (h : At s p) (hc : c ≠ .streamEnd) :
    match p.press c with
    | none => (s.execute c).connectionActive = false
    | some p' => At (s.execute c) p' := by
  have hlt : p.option < 3 := by
    rw [← h.active, ← h.length]
    exact s.menu.bound
  cases c with
  | streamEnd => exact absurd rfl hc
  | dummy => exact h
  | up => exact h.up
  | down => exact h.down
  | enter =>
    obtain ⟨sub, option⟩ := p
    obtain rfl | rfl | rfl : option = 0 ∨ option = 1 ∨ option = 2 := by dsimp only at hlt; omega
    · cases sub with
      | false =>
        rw [h.chosen (a := .actionA) rfl]
        exact ⟨h.actions, h.active, h.connected⟩
      | true =>
        rw [h.chosen (a := .actionB1) rfl]
        exact ⟨h.actions, h.active, h.connected⟩
    · cases sub with
      | false =>
        rw [h.chosen (a := .actionB) rfl]
        exact ⟨rfl, rfl, h.connected⟩
      | true =>
        rw [h.chosen (a := .actionB2) rfl]
        exact ⟨h.actions, h.active, h.connected⟩
    · cases sub with
      | false =>
        rw [h.chosen (a := .actionK) rfl]
        rfl
      | true =>
        rw [h.chosen (a := .actionW) rfl]
        exact ⟨rfl, rfl, h.connected⟩

/-- **`STREAM_END`** is never reported. -/
theorem recvCommand_ne (r : Read) : recvCommand r ≠ .ok .streamEnd := by
  intro h
  cases r with
  | error => cases h
  | bytes bytes =>
    cases bytes with
    | nil => cases h
    | cons b bs =>
      have hc := Except.ok.inj h
      unfold command at hc
      rw [if_neg (List.cons_ne_nil b bs)] at hc
      repeat' split at hc
      all_goals cases hc

/-- A turn with the bytes that a read returned. -/
theorem turn_bytes {bytes : List UInt8} (h : bytes ≠ []) :
    s.turn (.bytes bytes) = .ok (command bytes, s.execute (command bytes)) := by
  cases bytes with
  | nil => exact absurd rfl h
  | cons => rfl

theorem command_ne {bytes : List UInt8} (h : bytes ≠ []) : command bytes ≠ .streamEnd := by
  intro hc
  apply recvCommand_ne (.bytes bytes)
  cases bytes with
  | nil => exact absurd rfl h
  | cons => exact congrArg Except.ok hc

/-- **A session** ends without an exception exactly if the client leaves. -/
theorem loop_leaves : ∀ {client : Client} {s : Session} {p : Place}, At s p →
    ((∃ r, s.loop client = .ok r) ↔ Leaves p client) := by
  intro client
  induction client with
  | nil =>
    intro s p h
    apply iff_of_false
    · rintro ⟨r, hr⟩
      cases hr
    · exact id
  | cons r client ih =>
    intro s p h
    cases r with
    | error =>
      apply iff_of_false
      · rintro ⟨r, hr⟩
        cases hr
      · exact id
    | bytes bytes =>
      by_cases hb : bytes = []
      · subst hb
        apply iff_of_false
        · rintro ⟨r, hr⟩
          cases hr
        · exact fun hl => hl.1 rfl
      · have he := h.execute (command_ne hb)
        rw [Session.loop, turn_bytes hb, Leaves]
        dsimp only
        cases hp : p.press (command bytes) with
        | none =>
          rw [hp] at he
          rw [if_neg (by rw [he]; exact Bool.false_ne_true)]
          exact ⟨fun _ => ⟨hb, trivial⟩, fun _ => ⟨_, rfl⟩⟩
        | some p' =>
          rw [hp] at he
          rw [if_pos he.connected, ih he]
          exact ⟨fun hl => ⟨hb, hl⟩, fun hl => hl.2⟩

/-- The command that ends a session is one that was received. -/
theorem loop_ne : ∀ {client : Client} {s : Session}, s.loop client ≠ .ok (.streamEnd, s') := by
  intro client
  induction client with
  | nil => intro s h; cases h
  | cons r client ih =>
    intro s h
    rw [Session.loop] at h
    cases hr : recvCommand r with
    | error e =>
      rw [Session.turn, hr] at h
      cases h
    | ok c =>
      rw [Session.turn, hr] at h
      change (if (s.execute c).connectionActive = true then (s.execute c).loop client
        else .ok (c, s.execute c)) = _ at h
      by_cases ha : (s.execute c).connectionActive = true
      · rw [if_pos ha] at h
        exact ih h
      · rw [if_neg ha] at h
        obtain rfl := (Prod.mk.inj (Except.ok.inj h)).1
        exact recvCommand_ne r hr

/-- **The server goes on** exactly if every client leaves. -/
theorem main_goes_on : (main clients).2 = none ↔ ∀ client ∈ clients, Leaves ⟨false, 0⟩ client := by
  induction clients with
  | nil => exact ⟨fun _ _ h => (nomatch h), fun _ => rfl⟩
  | cons client clients ih =>
    rw [main, List.forall_mem_cons, ← loop_leaves start_at, ← ih]
    cases Session.start.loop client with
    | error e =>
      apply iff_of_false
      · exact fun h => (nomatch h)
      · rintro ⟨⟨r, hr⟩, -⟩
        cases hr
    | ok r => exact ⟨fun h => ⟨⟨r, rfl⟩, h⟩, fun h => h.2⟩

/-- **The ends of sessions.** No client's session ends at the end of its stream, with the server
going on: for whatever clients there are, the server goes on exactly if each has chosen `Koniec`
before. -/
theorem disconnect_ends (clients : List Client) :
    (EndsOnly clients ↔ clients = []) ∧
      ((main clients).2 = none ↔ ∀ client ∈ clients, Leaves ⟨false, 0⟩ client) := by
  refine ⟨⟨fun h => ?_, fun h => ?_⟩, main_goes_on⟩
  · cases clients with
    | nil => rfl
    | cons client clients =>
      have h1 := h.1
      rw [main] at h1
      cases hl : Session.start.loop client with
      | error e =>
        rw [hl] at h1
        cases h1
      | ok r =>
        rw [hl] at h1
        have hr : r.1 = .streamEnd := (List.cons.inj h1).1
        have hend : Session.start.loop client = .ok (.streamEnd, r.2) := by rw [hl, ← hr]
        exact absurd hend loop_ne
  · subst h
    exact ⟨rfl, rfl⟩

/-- A client that goes away at once. -/
theorem disconnect_stops : ¬ ∀ clients, EndsOnly clients := by
  intro h
  have hn := (h [[]]).2
  cases hn

end SikMimuw.Ver2
