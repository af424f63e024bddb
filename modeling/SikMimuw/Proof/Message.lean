import SikMimuw.Lib.Run
import SikMimuw.Model.Message

/-!
# Which options are highlighted

`expected` is the message with the active option in reverse video. `toMessage` compares the active
index to a counter that stays zero.

* `toMessage_eq`: all options are in reverse video if the first is active, and none otherwise.
* `toMessage_expected_iff`: **the message is the expected one** exactly for menus of one option.
* `all_highlighted`: the server only ever has the first option active, and highlights them all.
-/

namespace SikMimuw.Zad1

open Lts

/-- A line of the menu. -/
def optionRow (highlighted : Bool) (text : List UInt8) : List UInt8 :=
  (if highlighted then reverseStyleSeq ++ text ++ normalStyleSeq else text) ++ [cr, lf]

/-- **The message as it should be**: the active option alone is highlighted. -/
def State.expected (s : State) : List UInt8 :=
  (s.activeMenu.toString.zipIdx.flatMap fun o => optionRow (o.2 = s.activeMenu.active.toNat) o.1) ++
    s.lines.flatMap (· ++ [cr, lf])

variable {s s₀ : State} {as : List Action}

/-! ### The message -/

theorem foldl_lines (lines : List (List UInt8)) (seq : List UInt8) :
    lines.foldl (fun seq line => seq ++ line ++ [cr] ++ [lf]) seq =
      seq ++ lines.flatMap (· ++ [cr, lf]) := by
  induction lines generalizing seq with
  | nil => exact (List.append_nil seq).symm
  | cons line lines ih =>
    rw [List.foldl_cons, ih, List.flatMap_cons]
    simp only [List.append_assoc, List.cons_append, List.nil_append]

theorem messageTurn_eq (active i : UInt32) (seq option : List UInt8) :
    messageTurn active (i, seq) option = (i, seq ++ optionRow (i = active) option) := by
  unfold messageTurn optionRow
  by_cases h : i = active
  · simp only [h, if_true, decide_true, List.append_assoc, List.cons_append, List.nil_append]
  · simp only [h, if_false, decide_false, Bool.false_eq_true, List.append_assoc, List.cons_append,
      List.nil_append]

/-- **The first loop** treats all options alike. -/
theorem foldl_messageTurn (active i : UInt32) (options : List (List UInt8)) (seq : List UInt8) :
    options.foldl (messageTurn active) (i, seq) =
      (i, seq ++ options.flatMap (optionRow (i = active))) := by
  induction options generalizing seq with
  | nil => rw [List.foldl_nil, List.flatMap_nil, List.append_nil]
  | cons option options ih =>
    rw [List.foldl_cons, messageTurn_eq, ih, List.flatMap_cons, List.append_assoc]

/-- **What is sent.** -/
theorem toMessage_eq (s : State) : s.toMessage =
    s.activeMenu.toString.flatMap (optionRow (0 = s.activeMenu.active)) ++
      s.lines.flatMap (· ++ [cr, lf]) := by
  rw [State.toMessage, foldl_messageTurn, Menu.getActiveIndex]
  exact foldl_lines _ _

/-! ### Its length -/

theorem length_optionRow (b : Bool) (text : List UInt8) :
    (optionRow b text).length = text.length + 2 + if b then 8 else 0 := by
  cases b
  · exact List.length_append
  · unfold optionRow
    rw [if_pos rfl, if_pos rfl]
    simp only [List.length_append, reverseStyleSeq, normalStyleSeq, List.length_cons, List.length_nil]
    omega

/-- A highlighted option has eight bytes more. -/
theorem length_rows (b : ℕ → Bool) (texts : List (List UInt8)) (k : ℕ) :
    ((texts.zipIdx k).flatMap fun o => optionRow (b o.2) o.1).length =
      (texts.flatMap (optionRow false)).length + 8 * (List.range' k texts.length).countP b := by
  induction texts generalizing k with
  | nil => rfl
  | cons text texts ih =>
    rw [List.zipIdx_cons, List.flatMap_cons, List.flatMap_cons, List.length_append, List.length_append,
      ih, length_optionRow, length_optionRow, List.length_cons, List.range'_succ, List.countP_cons]
    cases b k
    · simp only [Bool.false_eq_true, if_false]
      omega
    · simp only [Bool.false_eq_true, if_true, if_false]
      omega

/-! ### The exact menus -/

theorem toString_length (m : Menu) : m.toString.length = m.options.length := List.length_map _

/-- The options of `toMessage`, numbered. -/
theorem toMessage_zipIdx (s : State) : s.toMessage =
    (s.activeMenu.toString.zipIdx.flatMap fun o => optionRow (0 = s.activeMenu.active) o.1) ++
      s.lines.flatMap (· ++ [cr, lf]) := by
  have hrows := List.flatMap_map Prod.fst (optionRow (0 = s.activeMenu.active))
    s.activeMenu.toString.zipIdx
  rw [List.zipIdx_map_fst] at hrows
  rw [toMessage_eq, hrows]

/-- One index of the menu is the active one. -/
theorem countP_active {a n : ℕ} (h : a < n) :
    (List.range' 0 n).countP (fun i => decide (i = a)) = 1 := by
  have hcount := List.count_range_1' (a := a) (s := 0) (n := n)
  rw [if_pos ⟨Nat.zero_le _, by omega⟩] at hcount
  simpa only [List.count, beq_eq_decide] using hcount

/-- `toMessage` highlights as many options as `expected`. -/
theorem countP_of_eq (h : s.activeMenu.active.toNat < s.activeMenu.options.length)
    (heq : s.toMessage = s.expected) :
    (List.range' 0 s.activeMenu.options.length).countP
      (fun _ => decide (0 = s.activeMenu.active)) = 1 := by
  rw [toMessage_zipIdx, State.expected, List.append_left_inj] at heq
  have hlen := congrArg List.length heq
  rw [length_rows (fun _ => decide (0 = s.activeMenu.active)),
    length_rows fun i => decide (i = s.activeMenu.active.toNat), toString_length, countP_active h]
    at hlen
  omega

/-- **Exactly the active option is highlighted** in menus of one option only. -/
theorem toMessage_expected_iff (s : State)
    (h : s.activeMenu.active.toNat < s.activeMenu.options.length) :
    s.toMessage = s.expected ↔ s.activeMenu.options.length = 1 := by
  constructor
  · intro heq
    have hone := countP_of_eq h heq
    by_cases hzero : 0 = s.activeMenu.active
    · have hall := List.countP_eq_length (l := List.range' 0 s.activeMenu.options.length)
        (p := fun _ => decide (0 = s.activeMenu.active))
      rw [hone, List.length_range'] at hall
      exact (hall.2 fun _ _ => decide_eq_true hzero).symm
    · have hnone := List.countP_eq_zero (l := List.range' 0 s.activeMenu.options.length)
        (p := fun _ => decide (0 = s.activeMenu.active))
      rw [hone] at hnone
      exact absurd (hnone.2 fun _ _ hd => hzero (of_decide_eq_true hd)) Nat.one_ne_zero
  · intro hone
    obtain ⟨option, hoption⟩ := List.length_eq_one_iff.1 hone
    have hactive : s.activeMenu.active = 0 := UInt32.toNat_inj.1 (by
      rw [hone] at h
      exact Nat.lt_one_iff.1 h)
    rw [toMessage_zipIdx, State.expected, Menu.toString, hoption, hactive]
    rfl

/-- One option, and one line. -/
theorem toMessage_expected_iff_single :
    0 < 1 ∧ (⟨⟨[⟨[65]⟩], 0⟩, [[66]]⟩ : State).toMessage =
      [27, 91, 55, 109, 65, 27, 91, 48, 109, 13, 10, 66, 13, 10] :=
  ⟨by decide, (toMessage_expected_iff ⟨⟨[⟨[65]⟩], 0⟩, [[66]]⟩ (by decide)).2 rfl⟩

/-- The main menu has two options, and highlights both. -/
theorem toMessage_not_expected : ¬∀ s : State,
    s.activeMenu.active.toNat < s.activeMenu.options.length → s.toMessage = s.expected := by
  intro h
  have := h ⟨⟨[⟨[65]⟩, ⟨[66]⟩], 0⟩, [[]]⟩ (by decide)
  revert this
  decide

/-! ### The server -/

theorem clearLine_activeMenu (is : List ℕ) (s : State) :
    (is.foldl State.clearLine s).activeMenu = s.activeMenu := by
  induction is generalizing s with
  | nil => rfl
  | cons i is ih => exact ih (s.clearLine i)

/-- **An action** leaves the first option active. -/
theorem execute_active (a : Action) (h : s.activeMenu.active = 0) :
    (a.execute s).activeMenu.active = 0 := by
  cases a with
  | clearTerminal => rwa [Action.execute, clearLine_activeMenu]
  | enterSubmenu submenu active => rfl
  | addText text => exact h

/-- **The server highlights every option**, whatever its client has done. -/
theorem all_highlighted {options : List MenuOption} {linesCount : ℕ}
    (h : Run (fun s a t => t = Action.execute s a) (State.init (Menu.init options) linesCount) as s) :
    s.toMessage = s.activeMenu.toString.flatMap (optionRow true) ++ s.lines.flatMap (· ++ [cr, lf]) := by
  have hactive : s.activeMenu.active = 0 := by
    refine h.inv (I := fun s => s.activeMenu.active = 0) rfl fun s a t hs ht => ?_
    rw [ht]
    exact execute_active a hs
  rw [toMessage_eq, hactive]
  rfl

end SikMimuw.Zad1
