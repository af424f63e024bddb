import SikMimuw.Lib.Run
import SikMimuw.Lib.Screen
import SikMimuw.Model.Server

/-!
# What the menu server shows

The bytes of a session, on the terminal of its client. `clear_lines` goes up over three lines of the
menu, so a menu is drawn over the last one, if that has three lines. The menu that `main` begins with
has four, as its second text ends with a line feed: each time it is drawn over, its first line stays.

* `View`: what is to be seen: lines that have stayed, the menu, and the text of an action under it.
* `View.press`: what a command changes. `Shows.execute`: the bytes sent for it do that.
* `screen_ok`: whole sessions.
-/

namespace SikMimuw.Ver2

open CStr Lts Vt

variable {s s' : Session} {m : Menu} {c : Command}

/-- The lines of an option. One that ends with a line feed has a blank line behind it. -/
def optionLines (option : List UInt8) (marked : Bool) : List (List Cell) :=
  if option.getLast? = some 10 then [cells marked option.dropLast, []] else [cells marked option]

/-- **The lines of a menu**, with the active option in reverse video. -/
def Menu.lines (m : Menu) : List (List Cell) :=
  m.options.zipIdx.flatMap fun o => optionLines o.1 (m.active = o.2)

/-- What a client sees. -/
structure View where
  above : List (List Cell)
  menu : Menu
  note : List UInt8

def View.rows (v : View) : List (List Cell) := v.above ++ v.menu.lines ++ [cells false v.note]

/-- **The terminal of the client**: the cursor stands before the note. -/
def View.terminal (v : View) : Terminal :=
  rest v.rows (v.above.length + v.menu.lines.length) 0 false

def View.first : View := ⟨[], menuMain, []⟩

/-- A menu in place of the last three lines, and no note. -/
def View.redraw (v : View) (m : Menu) : View :=
  ⟨v.above ++ v.menu.lines.take (v.menu.lines.length - 3), m, []⟩

/-- The text that an action writes. -/
def Action.text : Action → List UInt8
  | .actionA => bytes "A"
  | .actionB1 => bytes "B1"
  | .actionB2 => bytes "B2"
  | .actionB | .actionK | .actionW => []

/-- What an action changes: another menu, or its text as the note. -/
def View.run (v : View) : Action → View
  | .actionA => { v with note := Action.actionA.text }
  | .actionB => v.redraw menuB
  | .actionK => v
  | .actionB1 => { v with note := Action.actionB1.text }
  | .actionB2 => { v with note := Action.actionB2.text }
  | .actionW => v.redraw menuW

/-- **What a command changes.** -/
def View.press (v : View) : Command → View
  | .enter => v.run v.menu.chosen
  | .up => v.redraw v.menu.up
  | .down => v.redraw v.menu.down
  | .streamEnd | .dummy => v

/-! ### Drawing -/

/-- A text that a menu can have: characters, and a line feed at the end or not. -/
def Drawable (option : List UInt8) : Prop :=
  ∃ text, text.all printable ∧ (option = text ∨ option = text ++ [10])

/-- A menu of this program. -/
structure Menu.Drawn (m : Menu) : Prop where
  options : ∀ o ∈ m.options, Drawable o
  length : m.options.length = 3

theorem drawable_of_text {text : List UInt8} (h : text.all printable) : Drawable text :=
  ⟨text, h, Or.inl rfl⟩

theorem menuMain_drawn : menuMain.Drawn where
  options := by
    intro o ho
    simp only [menuMain, List.mem_cons, List.not_mem_nil, or_false] at ho
    rcases ho with rfl | rfl | rfl
    · exact drawable_of_text (by decide)
    · exact ⟨bytes "Opcja B-----", by decide, Or.inr (by decide)⟩
    · exact drawable_of_text (by decide)
  length := rfl

theorem menuW_drawn : menuW.Drawn where
  options := by
    intro o ho
    simp only [menuW, List.mem_cons, List.not_mem_nil, or_false] at ho
    rcases ho with rfl | rfl | rfl <;> exact drawable_of_text (by decide)
  length := rfl

theorem menuB_drawn : menuB.Drawn where
  options := by
    intro o ho
    simp only [menuB, List.mem_cons, List.not_mem_nil, or_false] at ho
    rcases ho with rfl | rfl | rfl <;> exact drawable_of_text (by decide)
  length := rfl

theorem feeds_up (t : Terminal) (h : t.mode = .ground) :
    t.feeds (csi "A") = { t with row := t.row - 1 } := by
  obtain ⟨mode, cell, row, col, reverse⟩ := t
  dsimp only at h
  subst h
  rfl

theorem feeds_erase (t : Terminal) (h : t.mode = .ground) : t.feeds (csi "2K") = t.eraseLine := by
  obtain ⟨mode, cell, row, col, reverse⟩ := t
  dsimp only at h
  subst h
  rfl

/-- **`clear_lines`** takes the last lines away, and stands where the first of them was. -/
theorem feeds_clear {rows : List (List Cell)} : ∀ {n : ℕ} {old : List (List Cell)},
    old.length = n + 1 → (rest (rows ++ old) (rows.length + n) 0 false).feeds
      ((List.replicate n (csi "2K" ++ csi "A")).flatten ++ csi "2K") =
        rest rows rows.length 0 false := by
  intro n
  induction n with
  | zero =>
    intro old h
    obtain ⟨line, rfl⟩ := List.length_eq_one_iff.1 h
    rw [List.replicate_zero, List.flatten_nil, List.nil_append, feeds_erase _ rfl]
    exact eraseLine_last
  | succ n ih =>
    intro old h
    obtain ⟨old, line, rfl⟩ : ∃ l x, old = l ++ [x] := by
      rcases List.eq_nil_or_concat old with rfl | ⟨l, x, rfl⟩
      · simp at h
      · exact ⟨l, x, List.concat_eq_append⟩
    have hlen : old.length = n + 1 := by simpa using h
    have herase : (rest (rows ++ old ++ [line]) (rows ++ old).length 0 false).eraseLine =
        rest (rows ++ old) (rows ++ old).length 0 false := eraseLine_last
    rw [List.length_append, hlen] at herase
    rw [List.replicate_succ, List.flatten_cons, List.append_assoc, List.append_assoc,
      Terminal.feeds_append, feeds_erase _ rfl, ← List.append_assoc rows, herase,
      Terminal.feeds_append, feeds_up _ rfl]
    exact ih hlen

/-- Reverse video for an option that is marked. -/
theorem feeds_mark {rows : List (List Cell)} {row col : ℕ} (marked : Bool) :
    (rest rows row col false).feeds (if marked then csi "7m" else []) = rest rows row col marked := by
  cases marked <;> rfl

/-- The end of an option. -/
theorem feeds_end {rows : List (List Cell)} {row col : ℕ} (marked : Bool) :
    (rest rows row col marked).feeds ((if marked then csi "0m" else []) ++ [13, 10]) =
      rest rows (row + 1) 0 false := by
  cases marked <;> rfl

/-- **An option** is drawn. -/
theorem feeds_option {rows : List (List Cell)} {option : List UInt8} (h : Drawable option)
    (marked : Bool) : (rest rows rows.length 0 false).feeds
      ((if marked then csi "7m" ++ option ++ csi "0m" else option) ++ [13, 10]) =
        rest (rows ++ optionLines option marked) (rows ++ optionLines option marked).length 0 false := by
  obtain ⟨text, ht, ho⟩ := h
  have hlast : text.getLast? ≠ some 10 := by
    intro hl
    exact absurd (List.all_eq_true.1 ht 10 (List.mem_of_getLast? hl)) (by decide)
  have hparts : (if marked then csi "7m" ++ option ++ csi "0m" else option) ++ [13, 10] =
      (if marked then csi "7m" else []) ++ (option ++ ((if marked then csi "0m" else []) ++ [13, 10])) := by
    cases marked <;> simp
  rw [hparts, Terminal.feeds_append, feeds_mark]
  rcases ho with rfl | rfl
  · rw [Terminal.feeds_append, feeds_line ht, feeds_end, optionLines, if_neg hlast,
      List.length_append]
    rfl
  · -- the line feed leads to a blank line
    have hfeed : (rest (rows ++ [cells marked text]) rows.length text.length marked).feeds [10] =
        rest (rows ++ [cells marked text]) (rows.length + 1) text.length marked := rfl
    have hblank : paper (rows ++ [cells marked text] ++ [[]]) = paper (rows ++ [cells marked text]) :=
      paper_concat_nil
    rw [List.append_assoc] at hblank
    rw [List.append_assoc, Terminal.feeds_append, feeds_line ht, Terminal.feeds_append, hfeed,
      feeds_end, optionLines, if_pos List.getLast?_concat, List.dropLast_concat, List.length_append]
    unfold rest
    rw [← hblank]
    rfl

/-- **`render`** draws the lines of a menu. -/
theorem feeds_render {marked : ℕ → Bool} : ∀ {options : List (List UInt8)} {i : ℕ}
    {rows : List (List Cell)}, (∀ o ∈ options, Drawable o) →
    (rest rows rows.length 0 false).feeds ((options.zipIdx i).flatMap fun o =>
        (if marked o.2 then csi "7m" ++ o.1 ++ csi "0m" else o.1) ++ [13, 10]) =
      rest (rows ++ (options.zipIdx i).flatMap fun o => optionLines o.1 (marked o.2))
        (rows ++ (options.zipIdx i).flatMap fun o => optionLines o.1 (marked o.2)).length 0 false := by
  intro options
  induction options with
  | nil =>
    intro i rows _
    simp [Terminal.feeds]
  | cons o options ih =>
    intro i rows h
    rw [List.zipIdx_cons, List.flatMap_cons, List.flatMap_cons, Terminal.feeds_append,
      feeds_option (h o List.mem_cons_self), ih fun o ho => h o (List.mem_cons_of_mem _ ho),
      List.append_assoc]

/-- What `render` sends. -/
def Menu.drawing (m : Menu) : List UInt8 := m.options.zipIdx.flatMap fun o =>
  (if m.active = o.2 then csi "7m" ++ o.1 ++ csi "0m" else o.1) ++ [13, 10]

theorem feeds_drawing {rows : List (List Cell)} (h : m.Drawn) :
    (rest rows rows.length 0 false).feeds m.drawing = (View.terminal ⟨rows, m, []⟩) := by
  have hr := @feeds_render (fun i => m.active = i) m.options 0 rows h.options
  simp only [decide_eq_true_eq] at hr
  rw [Menu.drawing, hr, View.terminal, View.rows, List.length_append]
  show rest (rows ++ m.lines) _ _ _ = rest (rows ++ m.lines ++ [[]]) _ _ _
  unfold rest
  rw [paper_concat_nil]
  rfl

theorem optionLines_ne (option : List UInt8) (marked : Bool) : 1 ≤ (optionLines option marked).length := by
  unfold optionLines
  split <;> simp

/-- A menu has a line for each option at least. -/
theorem length_lines (h : m.Drawn) : 3 ≤ m.lines.length := by
  have hge : ∀ (options : List (List UInt8)) (i : ℕ), options.length ≤
      ((options.zipIdx i).flatMap fun o => optionLines o.1 (m.active = o.2)).length := by
    intro options
    induction options with
    | nil => intro i; exact Nat.zero_le _
    | cons o options ih =>
      intro i
      have h1 := optionLines_ne o (m.active = i)
      have h2 := ih (i + 1)
      rw [List.zipIdx_cons, List.flatMap_cons, List.length_append, List.length_cons]
      dsimp only
      omega
  have h3 := hge m.options 0
  rw [h.length] at h3
  exact h3

/-- **Drawn over**: the last three lines of the menu and the note go. -/
theorem View.feeds_redraw (v : View) (hv : v.menu.Drawn) (hm : m.Drawn) :
    v.terminal.feeds ((List.replicate 3 (csi "2K" ++ csi "A")).flatten ++ csi "2K" ++ m.drawing) =
      (v.redraw m).terminal := by
  have hlen := length_lines hv
  obtain ⟨k, hk⟩ : ∃ k, v.menu.lines.length = k + 3 := ⟨v.menu.lines.length - 3, by omega⟩
  have hrows : v.rows = (v.above ++ v.menu.lines.take k) ++
      (v.menu.lines.drop k ++ [cells false v.note]) := by
    rw [View.rows, ← List.append_assoc, List.append_assoc v.above (v.menu.lines.take k),
      List.take_append_drop]
  have hold : (v.menu.lines.drop k ++ [cells false v.note]).length = 3 + 1 := by
    rw [List.length_append, List.length_drop, hk]
    simp
  have hrow : v.above.length + v.menu.lines.length = (v.above ++ v.menu.lines.take k).length + 3 := by
    rw [List.length_append, List.length_take, hk]
    omega
  rw [Terminal.feeds_append, View.terminal, hrows, hrow, feeds_clear hold, feeds_drawing hm,
    View.redraw, hk]
  rfl

/-- **Written over**: a text over a note that is no longer, and back. -/
theorem View.feeds_note (v : View) {text : List UInt8} (ht : text.all printable)
    (hnote : v.note.length ≤ text.length)
    {back : List UInt8} (hback : ∀ rows row, (rest rows row text.length false).feeds back =
      rest rows row 0 false) :
    v.terminal.feeds (text ++ back) = View.terminal { v with note := text } := by
  have hrow : v.above.length + v.menu.lines.length = (v.above ++ v.menu.lines).length :=
    (List.length_append ..).symm
  have htext := @feeds_text (v.above ++ v.menu.lines) false text [] (cells false v.note) ht
  rw [Terminal.feeds_append, View.terminal, View.rows, hrow]
  rw [List.nil_append, List.length_nil, Nat.zero_add, List.nil_append] at htext
  have hrest : (cells false v.note).drop text.length = [] :=
    List.drop_eq_nil_of_le (by rw [length_cells]; exact hnote)
  rw [htext, hback, hrest, List.append_nil, ← hrow]
  rfl

/-! ### Sessions -/

/-- **The terminal shows the view.** A note is the text of the active option: another option is
active only after the menu has been drawn again. -/
structure Shows (s : Session) (v : View) : Prop where
  screen : Vt.start.feeds s.sent = v.terminal
  menu : v.menu = s.menu
  drawn : s.menu.Drawn
  note : v.note = [] ∨ v.note = s.menu.chosen.text

theorem start_shows : Shows Session.start View.first where
  screen := by
    show Vt.start.feeds (([] ++ initBytes) ++ menuMain.drawing) = _
    rw [List.nil_append, Terminal.feeds_append]
    exact @feeds_drawing menuMain [] menuMain_drawn
  menu := rfl
  drawn := menuMain_drawn
  note := Or.inl rfl

theorem Shows.redraw {v : View} (h : Shows s v) (hm : m.Drawn) : Shows (s.showMenu m) (v.redraw m) where
  screen := by
    have hsent : (s.showMenu m).sent = s.sent ++
        ((List.replicate 3 (csi "2K" ++ csi "A")).flatten ++ csi "2K" ++ m.drawing) :=
      List.append_assoc _ _ _
    rw [hsent, Terminal.feeds_append, h.screen]
    exact v.feeds_redraw (by rw [h.menu]; exact h.drawn) hm
  menu := rfl
  drawn := hm
  note := Or.inl rfl

/-- The active option writes its text. -/
theorem Shows.write {v : View} (h : Shows s v) {text back : List UInt8}
    (htext : s.menu.chosen.text = text) (ht : text.all printable) (hback : ∀ rows row,
      (rest rows row text.length false).feeds back = rest rows row 0 false) :
    Shows ((s.write text).write back) { v with note := text } where
  screen := by
    have hsent : ((s.write text).write back).sent = s.sent ++ (text ++ back) :=
      List.append_assoc _ _ _
    have hnote : v.note.length ≤ text.length := by
      rcases h.note with hn | hn
      · rw [hn]
        exact Nat.zero_le _
      · rw [hn, htext]
    rw [hsent, Terminal.feeds_append, h.screen]
    exact v.feeds_note ht hnote hback
  menu := h.menu
  drawn := h.drawn
  note := Or.inr htext.symm

/-- **A command** changes what is shown as it should. -/
theorem Shows.execute {v : View} (h : Shows s v) (c : Command) : Shows (s.execute c) (v.press c) := by
  have hup : s.menu.up.Drawn := ⟨h.drawn.options, h.drawn.length⟩
  have hdown : s.menu.down.Drawn := ⟨h.drawn.options, h.drawn.length⟩
  cases c with
  | dummy => exact h
  | streamEnd => exact ⟨h.screen, h.menu, h.drawn, h.note⟩
  | up =>
    rw [View.press, h.menu]
    exact h.redraw hup
  | down =>
    rw [View.press, h.menu]
    exact h.redraw hdown
  | enter =>
    rw [View.press, h.menu]
    show Shows (s.menu.chosen.run s) _
    cases hc : s.menu.chosen with
    | actionA => exact h.write (congrArg Action.text hc) (by decide) fun _ _ => rfl
    | actionB => exact h.redraw menuB_drawn
    | actionK => exact ⟨h.screen, h.menu, h.drawn, h.note⟩
    | actionB1 => exact h.write (congrArg Action.text hc) (by decide) fun _ _ => rfl
    | actionB2 => exact h.write (congrArg Action.text hc) (by decide) fun _ _ => rfl
    | actionW => exact h.redraw menuW_drawn

/-- **A turn** of a session that goes on. -/
def Turns : Session → Read → Session → Prop := fun s r s' =>
  s.connectionActive ∧ ∃ c, s.turn r = .ok (c, s')

/-- The key that a read brings. -/
def Read.key : Read → Command
  | .error => .dummy
  | .bytes got => command got

/-- The view after some reads. -/
def View.seen (reads : Client) : View := (reads.map Read.key).foldl View.press View.first

theorem seen_concat (reads : Client) (r : Read) :
    View.seen (reads ++ [r]) = (View.seen reads).press r.key := by
  rw [View.seen, View.seen, List.map_append, List.foldl_append]
  rfl

theorem turns_execute {r : Read} (h : Turns s r s') : s' = s.execute r.key := by
  obtain ⟨-, c, hc⟩ := h
  unfold Session.turn recvCommand at hc
  cases r with
  | error => cases hc
  | bytes got =>
    cases got with
    | nil => cases hc
    | cons b bs =>
      obtain ⟨-, rfl⟩ := Prod.mk.inj (Except.ok.inj hc)
      rfl

/-- A menu whose texts have one line each. -/
def Menu.Flat (m : Menu) : Prop := ∀ o ∈ m.options, o.getLast? ≠ some 10

theorem menuB_flat : menuB.Flat := by
  intro o ho
  simp only [menuB, List.mem_cons, List.not_mem_nil, or_false] at ho
  rcases ho with rfl | rfl | rfl <;> decide

theorem menuW_flat : menuW.Flat := by
  intro o ho
  simp only [menuW, List.mem_cons, List.not_mem_nil, or_false] at ho
  rcases ho with rfl | rfl | rfl <;> decide

theorem Menu.Flat.length_lines (h : m.Flat) : m.lines.length = m.options.length := by
  have heq : ∀ (options : List (List UInt8)) (i : ℕ), (∀ o ∈ options, o.getLast? ≠ some 10) →
      ((options.zipIdx i).flatMap fun o => optionLines o.1 (m.active = o.2)).length =
        options.length := by
    intro options
    induction options with
    | nil => intro i _; rfl
    | cons o options ih =>
      intro i ho
      have h1 := ih (i + 1) fun o ho' => ho o (List.mem_cons_of_mem _ ho')
      rw [List.zipIdx_cons, List.flatMap_cons, List.length_append, List.length_cons, h1, optionLines,
        if_neg (ho o List.mem_cons_self), List.length_singleton, Nat.add_comm]
  exact heq m.options 0 h

/-- The first line of the menu that `main` begins with. -/
def firstLine (marked : Bool) : List Cell := cells marked (bytes "Opcja A-----")

theorem lines_main (h : m.options = menuMain.options) :
    m.lines.take (m.lines.length - 3) = [firstLine (m.active = 0)] := by
  unfold Menu.lines
  rw [h]
  rfl

/-- **What stays above the menu**: copies of the first line of the first menu, and nothing else. -/
structure View.Kept (v : View) : Prop where
  menu : v.menu.options = menuMain.options ∨ v.menu.Flat
  length : v.menu.options.length = 3
  above : ∀ line ∈ v.above, ∃ marked, line = firstLine marked

theorem first_kept : View.first.Kept := ⟨Or.inl rfl, rfl, by simp [View.first]⟩

theorem View.Kept.redraw {v : View} (h : v.Kept)
    (hm : m.options = v.menu.options ∨ m.Flat ∧ m.options.length = 3) : (v.redraw m).Kept where
  menu := by
    rcases hm with hm | hm
    · rcases h.menu with hv | hv
      · exact Or.inl (hm.trans hv)
      · refine Or.inr fun o ho => hv o ?_
        rw [← hm]
        exact ho
    · exact Or.inr hm.1
  length := by
    rcases hm with hm | hm
    · exact (congrArg List.length hm).trans h.length
    · exact hm.2
  above := by
    intro line hl
    rcases List.mem_append.1 hl with hl | hl
    · exact h.above line hl
    · rcases h.menu with hv | hv
      · rw [lines_main hv, List.mem_singleton] at hl
        exact ⟨_, hl⟩
      · rw [hv.length_lines, h.length, Nat.sub_self, List.take_zero] at hl
        cases hl

theorem View.Kept.press {v : View} (h : v.Kept) (c : Command) : (v.press c).Kept := by
  cases c with
  | dummy | streamEnd => exact h
  | up | down => exact h.redraw (Or.inl rfl)
  | enter =>
    show (v.run v.menu.chosen).Kept
    cases v.menu.chosen with
    | actionK => exact h
    | actionA | actionB1 | actionB2 => exact ⟨h.menu, h.length, h.above⟩
    | actionB => exact h.redraw (Or.inr ⟨menuB_flat, rfl⟩)
    | actionW => exact h.redraw (Or.inr ⟨menuW_flat, rfl⟩)

/-- A menu of three lines is drawn over wholly. -/
theorem View.Kept.press_flat {v : View} (h : v.Kept) (hf : v.menu.Flat) (c : Command) :
    (v.press c).menu.Flat ∧ (v.press c).above = v.above := by
  have habove : ∀ m : Menu, (v.redraw m).above = v.above := by
    intro m
    rw [View.redraw, hf.length_lines, h.length, Nat.sub_self, List.take_zero, List.append_nil]
  cases c with
  | dummy | streamEnd => exact ⟨hf, rfl⟩
  | up | down => exact ⟨hf, habove _⟩
  | enter =>
    show (v.run v.menu.chosen).menu.Flat ∧ (v.run v.menu.chosen).above = v.above
    cases v.menu.chosen with
    | actionA | actionK | actionB1 | actionB2 => exact ⟨hf, rfl⟩
    | actionB => exact ⟨menuB_flat, habove _⟩
    | actionW => exact ⟨menuW_flat, habove _⟩

/-- The view, along a session. -/
theorem run_shows {reads : Client} (h : Run Turns Session.start reads s) :
    Shows s (View.seen reads) ∧ (View.seen reads).Kept := by
  induction h with
  | nil => exact ⟨start_shows, first_kept⟩
  | snoc _ hst ih =>
    rw [seen_concat, turns_execute hst]
    exact ⟨ih.1.execute _, ih.2.press _⟩

/-- **What a client sees.** In every session, after any row of keys:

* the terminal shows the menu, its active option in reverse video, with the note under it and the
  cursor before that;
* the note is the text of the action that ENTER ran since the menu was drawn, which is the one of
  the active option, and nothing else;
* above it stand copies of the first line of the first menu only, and once another menu is shown
  there come no more of them;
* the end of the session changes nothing that is shown. -/
theorem screen_ok {reads : Client} {s : Session} (h : Run Turns Session.start reads s) :
    Vt.start.feeds s.sent = (View.seen reads).terminal ∧ (View.seen reads).menu = s.menu ∧
    ((View.seen reads).note = [] ∨ (View.seen reads).note = s.menu.chosen.text) ∧
    Vt.start.feeds (s.write (csi "?25h")).sent = (View.seen reads).terminal ∧
    (∀ line ∈ (View.seen reads).above, ∃ marked, line = firstLine marked) ∧
    (s.menu.Flat → ∀ reads' s', Run Turns s reads' s' →
      s'.menu.Flat ∧ (View.seen (reads ++ reads')).above = (View.seen reads).above) := by
  obtain ⟨hs, hk⟩ := run_shows h
  refine ⟨hs.screen, hs.menu, hs.note, ?_, hk.above, fun hf reads' s' hr => ?_⟩
  · show Vt.start.feeds (s.sent ++ csi "?25h") = _
    rw [Terminal.feeds_append, hs.screen]
    rfl
  · have hflat : (View.seen (reads ++ reads')).menu.Flat ∧
        (View.seen (reads ++ reads')).above = (View.seen reads).above := by
      induction hr with
      | nil =>
        rw [List.append_nil, hs.menu]
        exact ⟨hf, rfl⟩
      | snoc hr _ ih =>
        obtain ⟨hf, habove⟩ := ih
        have hp := (run_shows (h.append hr)).2.press_flat hf
        rw [← List.append_assoc, seen_concat]
        exact ⟨(hp _).1, (hp _).2.trans habove⟩
    rw [← (run_shows (h.append hr)).1.menu]
    exact hflat

/-- DOWN, and ENTER on the second option: two lines stay above the menu of `actionB`. -/
theorem screen_ok_two : ∃ s, Run Turns Session.start [.bytes downBytes, .bytes enterBytes] s ∧
    s.menu.options = menuB.options ∧
    (View.seen [.bytes downBytes, .bytes enterBytes]).above.length = 2 ∧
    Vt.start.feeds s.sent = (View.seen [.bytes downBytes, .bytes enterBytes]).terminal := by
  have h : Run Turns Session.start [.bytes downBytes, .bytes enterBytes]
      ((Session.start.execute .down).execute .enter) :=
    (Run.single ⟨rfl, .down, rfl⟩).snoc ⟨rfl, .enter, rfl⟩
  exact ⟨_, h, rfl, rfl, (screen_ok h).1⟩

end SikMimuw.Ver2
