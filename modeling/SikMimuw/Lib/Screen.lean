import Mathlib.Data.List.GetD
import Mathlib.Data.UInt
import Mathlib.Logic.Function.Basic
import Mathlib.Tactic.Common

/-!
# A terminal behind a telnet connection

What the bytes of a connection show. The screen is a roll of lines, long and wide enough; a cell holds
a character, in reverse video or not. `feed` takes one byte: a character, a control character, or a
part of a control sequence or of a telnet command. Of the control sequences those are told apart that
move the cursor up or to the left, erase its line, or set the video; others change nothing that is
shown.

* `rest rows row col reverse`: between two sequences, with the lines `rows` on the screen.
* `feeds_text`: characters go over what stands behind the cursor.
* `feeds_line`: a line of text is added. `eraseLine_last`: the last line is erased.
-/

namespace Vt

structure Cell where
  byte : UInt8
  reverse : Bool
deriving DecidableEq

def Cell.blank : Cell := ⟨32, false⟩

/-- Where `feed` stands in a sequence. -/
inductive Mode
  | ground
  | escape
  | control (params : List UInt8)  -- behind ESC [
  | command                        -- behind IAC
  | option                         -- behind IAC WILL, WONT, DO or DONT
deriving DecidableEq

structure Terminal where
  mode : Mode
  cell : ℕ → ℕ → Cell              -- of a line and a column
  row : ℕ
  col : ℕ
  reverse : Bool

namespace Terminal

/-- A character at the cursor. -/
def put (t : Terminal) (byte : UInt8) : Terminal :=
  { t with
    cell := Function.update t.cell t.row
      (Function.update (t.cell t.row) t.col ⟨byte, t.reverse⟩)
    col := t.col + 1 }

/-- The line of the cursor becomes blank. -/
def eraseLine (t : Terminal) : Terminal :=
  { t with cell := Function.update t.cell t.row fun _ => .blank }

/-- A number in decimal, 0 if there is none. -/
def number (params : List UInt8) : ℕ := params.foldl (fun n b => 10 * n + (b - 48).toNat) 0

/-- The control sequence with these parameters and this last byte. -/
def perform (t : Terminal) (params : List UInt8) (final : UInt8) : Terminal :=
  if final = 65 then { t with row := t.row - max 1 (number params) }
  else if final = 68 then { t with col := t.col - max 1 (number params) }
  else if final = 75 ∧ number params = 2 then t.eraseLine
  else if final = 109 ∧ number params = 0 then { t with reverse := false }
  else if final = 109 ∧ number params = 7 then { t with reverse := true }
  else t

/-- **One byte.** -/
def feed (t : Terminal) (byte : UInt8) : Terminal :=
  match t.mode with
  | .ground =>
    if byte = 255 then { t with mode := .command }
    else if byte = 27 then { t with mode := .escape }
    else if byte = 13 then { t with col := 0 }
    else if byte = 10 then { t with row := t.row + 1 }
    else if byte < 32 then t
    else t.put byte
  | .escape => { t with mode := if byte = 91 then .control [] else .ground }
  | .control params =>
    if 64 ≤ byte ∧ byte ≤ 126 then { t.perform params byte with mode := .ground }
    else { t with mode := .control (params ++ [byte]) }
  | .command => { t with mode := if 251 ≤ byte ∧ byte ≤ 254 then .option else .ground }
  | .option => { t with mode := .ground }

def feeds (t : Terminal) (bytes : List UInt8) : Terminal := bytes.foldl feed t

theorem feeds_append (t : Terminal) (xs ys : List UInt8) :
    t.feeds (xs ++ ys) = (t.feeds xs).feeds ys := List.foldl_append

end Terminal

/-- The lines `rows`, with blanks behind each, and blank lines behind the last. -/
def paper (rows : List (List Cell)) : ℕ → ℕ → Cell := fun r c => (rows.getD r []).getD c .blank

/-- A terminal between two sequences. -/
def rest (rows : List (List Cell)) (row col : ℕ) (reverse : Bool) : Terminal :=
  ⟨.ground, paper rows, row, col, reverse⟩

/-- A terminal that has shown nothing. -/
def start : Terminal := rest [] 0 0 false

/-- The bytes of characters. -/
def printable (b : UInt8) : Bool := 32 ≤ b ∧ b ≠ 255

/-- Text on the screen. -/
def cells (reverse : Bool) (text : List UInt8) : List Cell := text.map fun b => ⟨b, reverse⟩

variable {rows : List (List Cell)} {row col : ℕ} {reverse : Bool} {text : List UInt8} {b : UInt8}
  {p q line : List Cell}

@[simp] theorem length_cells : (cells reverse text).length = text.length := List.length_map _

/-- A blank line at the end is not seen. -/
theorem paper_concat_nil : paper (rows ++ [[]]) = paper rows := by
  funext r c
  unfold paper
  congr 1
  rcases Nat.lt_trichotomy r rows.length with h | h | h
  · rw [List.getD_append _ _ _ _ h]
  · subst h
    simp
  · rw [List.getD_eq_default _ _ (by simp; omega), List.getD_eq_default _ _ h.le]

theorem update_paper_last : Function.update (paper (rows ++ [p])) rows.length (line.getD · .blank) =
    paper (rows ++ [line]) := by
  funext r c
  by_cases h : r = rows.length
  · subst h
    simp [paper]
  · rw [Function.update_of_ne h]
    unfold paper
    congr 1
    rcases Nat.lt_or_gt_of_ne h with h | h
    · rw [List.getD_append _ _ _ _ h, List.getD_append _ _ _ _ h]
    · rw [List.getD_eq_default _ _ (by simp; omega), List.getD_eq_default _ _ (by simp; omega)]

/-- **A character** goes over what stands at the cursor. -/
theorem put_last : (rest (rows ++ [p ++ q]) rows.length p.length reverse).put b =
    rest (rows ++ [p ++ ⟨b, reverse⟩ :: q.tail]) rows.length (p.length + 1) reverse := by
  have hline : Function.update (paper (rows ++ [p ++ q]) rows.length) p.length ⟨b, reverse⟩ =
      ((p ++ ⟨b, reverse⟩ :: q.tail).getD · .blank) := by
    funext c
    by_cases h : c = p.length
    · subst h
      simp
    · rw [Function.update_of_ne h]
      have hrow : paper (rows ++ [p ++ q]) rows.length c = (p ++ q).getD c .blank := by
        simp [paper]
      rw [hrow]
      rcases Nat.lt_or_gt_of_ne h with h | h
      · rw [List.getD_append _ _ _ _ h, List.getD_append _ _ _ _ h]
      · rw [List.getD_append_right _ _ _ _ h.le, List.getD_append_right _ _ _ _ h.le]
        obtain ⟨k, hk⟩ : ∃ k, c - p.length = k + 1 := ⟨c - p.length - 1, by omega⟩
        rw [hk]
        cases q <;> simp
  unfold Terminal.put rest
  dsimp only
  rw [hline, update_paper_last]

theorem feed_printable (h : printable b) {t : Terminal} (hm : t.mode = .ground) : t.feed b = t.put b := by
  obtain ⟨hlow, hiac⟩ := of_decide_eq_true h
  have h27 : b ≠ 27 := by rintro rfl; exact absurd hlow (by decide)
  have h13 : b ≠ 13 := by rintro rfl; exact absurd hlow (by decide)
  have h10 : b ≠ 10 := by rintro rfl; exact absurd hlow (by decide)
  unfold Terminal.feed
  rw [hm]
  simp [hiac, h27, h13, h10, UInt8.not_lt.2 hlow]

/-- **Text** goes over what stands behind the cursor. -/
theorem feeds_text : ∀ {text : List UInt8} {p q : List Cell}, text.all printable →
    (rest (rows ++ [p ++ q]) rows.length p.length reverse).feeds text =
      rest (rows ++ [p ++ cells reverse text ++ q.drop text.length]) rows.length
        (p.length + text.length) reverse := by
  intro text
  induction text with
  | nil =>
    intro p q _
    simp [Terminal.feeds, cells]
  | cons b text ih =>
    intro p q h
    rw [List.all_cons, Bool.and_eq_true] at h
    have hfeed : (rest (rows ++ [p ++ q]) rows.length p.length reverse).feed b =
        rest (rows ++ [(p ++ cells reverse [b]) ++ q.tail]) rows.length (p ++ cells reverse [b]).length
          reverse := by
      rw [feed_printable h.1 rfl, put_last]
      simp [cells]
    show ((rest (rows ++ [p ++ q]) rows.length p.length reverse).feed b).feeds text = _
    rw [hfeed, ih h.2]
    simp [cells, Nat.add_comm, Nat.add_left_comm]

/-- **A line of text** in place of blanks. -/
theorem feeds_line (h : text.all printable) : (rest rows rows.length 0 reverse).feeds text =
    rest (rows ++ [cells reverse text]) rows.length text.length reverse := by
  have ht := @feeds_text rows reverse text [] [] h
  simpa [rest, paper_concat_nil] using ht

/-- **The last line** is erased. -/
theorem eraseLine_last : (rest (rows ++ [line]) rows.length col reverse).eraseLine =
    rest rows rows.length col reverse := by
  have hu : Function.update (paper (rows ++ [line])) rows.length (([] : List Cell).getD · .blank) =
      paper (rows ++ [[]]) := update_paper_last
  rw [paper_concat_nil] at hu
  unfold Terminal.eraseLine rest
  dsimp only
  rw [← hu]
  rfl

end Vt
