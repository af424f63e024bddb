import Mathlib.Data.List.Induction
import SikMimuw.Lib.Run
import SikMimuw.Proof.Telnet

/-!
# Telnet commands between the keys

A client's stream is made of complete keys and of telnet commands, IAC with a verb and an option. The
reader has no state for a command. IAC and the verb are skipped like other bytes, and the option is
read as if it was typed.

* `commands_ignored_iff`: **the commands are ignored**, in the stream and all its beginnings, exactly
  if no option is printable or CR, and no key comes right behind a command whose option is ESC.
* `commands_not_ignored`: a client that agrees to the server's own `DO LINEMODE` has pressed a key.
-/

namespace SikMimuw.Zad1

open Transducer Lts

/-- A complete key. -/
inductive Press
  | char (c : {c : UInt8 // isPrintable c})
  | enter
  | up
  | down
deriving DecidableEq

def Press.bytes : Press → List UInt8
  | .char c => [c.1]
  | .enter => [cr]
  | .up => [escape, 91, 65]
  | .down => [escape, 91, 66]

def Press.key : Press → Keys
  | .char _ => .print
  | .enter => .enter
  | .up => .up
  | .down => .down

structure Command where
  verb : Verb
  option : UInt8
deriving DecidableEq

def Command.bytes (c : Command) : List UInt8 := [iac, c.verb.byte, c.option]

/-- What a client sends at once. -/
inductive Item
  | press (p : Press)
  | command (c : Command)
deriving DecidableEq

def Item.bytes : Item → List UInt8
  | .press p => p.bytes
  | .command c => c.bytes

def Item.isPress : Item → Bool
  | .press _ => true
  | .command _ => false

/-- The keys that `readCommand` returns for a stream, call after call. -/
def keysOf (bytes : List UInt8) : Option (List Keys) :=
  (readKeys (bytes.length + 1) (bytes.length + 1) ⟨bytes, []⟩).map Prod.fst

/-- **The same keys** with the commands and without. -/
def Same (items : List Item) : Prop :=
  ∃ keys, keysOf (items.flatMap Item.bytes) = some keys ∧
    keysOf ((items.filter Item.isPress).flatMap Item.bytes) = some keys

/-- A command whose option is ESC. -/
def Item.escapes : Item → Bool
  | .press _ => false
  | .command c => c.option = escape

/-- **The condition** on an item, behind those before it. -/
def Harmless (before : List Item) : Item → Prop
  | .press _ => ∀ item ∈ before.getLast?, ¬item.escapes
  | .command c => ¬isPrintable c.option ∧ c.option ≠ cr

/-- Where the automaton is behind an item. -/
def Item.mode (item : Item) : Mode := if item.escapes then .afterEsc else .ground

def modeAfter (items : List Item) : Mode := (items.getLast?.map Item.mode).getD .ground

/-- What an item should put out. -/
def Item.keys : Item → List Keys
  | .press p => [p.key]
  | .command _ => []

variable {items pre : List Item} {item : Item} {p : Press} {c : Command} {q : Mode}

theorem keysOf_eq (bytes : List UInt8) : keysOf bytes = some (output Mode.step .ground bytes) := by
  unfold keysOf
  rw [readKeys_eq _ _ ⟨bytes, []⟩ (Nat.lt_succ_self _) (Nat.lt_succ_self _)]
  rfl

theorem same_iff : Same items ↔ output Mode.step .ground (items.flatMap Item.bytes) =
    output Mode.step .ground ((items.filter Item.isPress).flatMap Item.bytes) := by
  unfold Same
  simp only [keysOf_eq, Option.some.injEq, exists_eq_left']
  exact eq_comm

/-! ### One item -/

theorem step_print {byte : UInt8} (h : isPrintable byte) :
    Mode.step .ground byte = (.ground, [.print]) := if_pos h

/-- **A key** that the automaton meets in its first state. -/
theorem press_read (p : Press) : output Mode.step .ground p.bytes = [p.key] ∧
    after Mode.step .ground p.bytes = .ground := by
  cases p with
  | char c =>
    rw [Press.bytes, output_singleton, after_singleton, step_print c.2]
    exact ⟨rfl, rfl⟩
  | enter => decide
  | up => decide
  | down => decide

/-- **A key is lost** or garbled behind ESC. -/
theorem press_lost (p : Press) : output Mode.step .afterEsc p.bytes ≠ [p.key] := by
  cases p with
  | char c =>
    rw [Press.bytes, output_singleton, Mode.step]
    split_ifs
    · exact (List.cons_ne_nil _ _).symm
    · exact (List.cons_ne_nil _ _).symm
  | enter => decide
  | up => decide
  | down => decide

/-- **A command** comes down to its option, read from the first state. -/
theorem command_read (c : Command) (hq : q = .ground ∨ q = .afterEsc) :
    output Mode.step q c.bytes = (Mode.step .ground c.option).2 ∧
      after Mode.step q c.bytes = (Mode.step .ground c.option).1 := by
  obtain ⟨verb, option⟩ := c
  rcases hq with rfl | rfl <;> cases verb <;> exact ⟨List.append_nil _, rfl⟩

theorem step_option (option : UInt8) :
    ((Mode.step .ground option).2 = [] ↔ ¬isPrintable option ∧ option ≠ cr) ∧
      (Mode.step .ground option).1 = if option = escape then .afterEsc else .ground := by
  by_cases hprint : isPrintable option
  · have hesc : option ≠ escape := by
      rintro rfl
      exact absurd hprint (by decide)
    rw [step_print hprint, if_neg hesc]
    exact ⟨iff_of_false (List.cons_ne_nil _ _) fun h => h.1 hprint, rfl⟩
  · rw [Mode.step, if_neg hprint]
    by_cases hcr : option = cr
    · rw [if_pos hcr, hcr]
      exact ⟨iff_of_false (List.cons_ne_nil _ _) fun h => h.2 rfl, rfl⟩
    · rw [if_neg hcr]
      by_cases hesc : option = escape
      · rw [if_pos hesc, if_pos hesc]
        exact ⟨iff_of_true rfl ⟨hprint, hcr⟩, rfl⟩
      · rw [if_neg hesc, if_neg hesc]
        exact ⟨iff_of_true rfl ⟨hprint, hcr⟩, rfl⟩

theorem modeAfter_snoc (items : List Item) (item : Item) :
    modeAfter (items ++ [item]) = item.mode := by
  rw [modeAfter, List.getLast?_append, List.getLast?_singleton]
  rfl

/-- Behind items the automaton is in its first state, unless the last is a command with ESC. -/
theorem modeAfter_cases (items : List Item) :
    modeAfter items = .ground ∧ (∀ item ∈ items.getLast?, ¬item.escapes) ∨
      modeAfter items = .afterEsc ∧ ¬∀ item ∈ items.getLast?, ¬item.escapes := by
  unfold modeAfter
  cases hlast : items.getLast? with
  | none => exact Or.inl ⟨rfl, fun item hitem => nomatch hitem⟩
  | some last =>
    by_cases hesc : last.escapes
    · exact Or.inr ⟨if_pos hesc, fun h => h last rfl hesc⟩
    · refine Or.inl ⟨if_neg hesc, fun item hitem => ?_⟩
      rw [← Option.some.inj hitem]
      exact hesc

/-- **An item is read as it should be** exactly if it is harmless. -/
theorem item_read (pre : List Item) (item : Item) :
    (output Mode.step (modeAfter pre) item.bytes = item.keys ↔ Harmless pre item) ∧
      (Harmless pre item → after Mode.step (modeAfter pre) item.bytes = item.mode) := by
  cases item with
  | press p =>
    rcases modeAfter_cases pre with ⟨hmode, hlast⟩ | ⟨hmode, hlast⟩
    · rw [hmode]
      exact ⟨iff_of_true (press_read p).1 hlast, fun _ => (press_read p).2⟩
    · rw [hmode]
      exact ⟨iff_of_false (press_lost p) hlast, fun hharm => absurd hharm hlast⟩
  | command c =>
    have hq : modeAfter pre = .ground ∨ modeAfter pre = .afterEsc :=
      (modeAfter_cases pre).imp And.left And.left
    obtain ⟨hkeys, hmode⟩ := step_option c.option
    obtain ⟨hout, hafter⟩ := command_read c hq
    refine ⟨?_, fun _ => ?_⟩
    · rw [Item.bytes, hout]
      exact hkeys
    · rw [Item.bytes, hafter, hmode, Item.mode, Item.escapes]
      simp only [decide_eq_true_eq]

/-! ### The stream -/

/-- **Without the commands** every key is read. -/
theorem presses_read (items : List Item) :
    output Mode.step .ground ((items.filter Item.isPress).flatMap Item.bytes) =
      items.flatMap Item.keys := by
  induction items with
  | nil => rfl
  | cons item items ih =>
    cases item with
    | press p =>
      rw [List.filter_cons_of_pos rfl, List.flatMap_cons, List.flatMap_cons, output_append,
        Item.bytes, (press_read p).1, (press_read p).2, ih]
      rfl
    | command c =>
      rw [List.filter_cons_of_neg Bool.false_ne_true, List.flatMap_cons, ih]
      rfl

/-- **With harmless commands** too. -/
theorem items_read (items : List Item) (h : Always Harmless items) :
    output Mode.step .ground (items.flatMap Item.bytes) = items.flatMap Item.keys ∧
      after Mode.step .ground (items.flatMap Item.bytes) = modeAfter items := by
  induction items using List.reverseRecOn with
  | nil => exact ⟨rfl, rfl⟩
  | append_singleton items item ih =>
    obtain ⟨hitems, hharm⟩ := always_snoc_iff.1 h
    obtain ⟨hout, hafter⟩ := ih hitems
    obtain ⟨hkeys, hmode⟩ := item_read items item
    rw [List.flatMap_append, List.flatMap_append, List.flatMap_singleton, List.flatMap_singleton,
      output_append, after_append, hafter, hout, hkeys.2 hharm, hmode hharm, modeAfter_snoc]
    exact ⟨rfl, rfl⟩

/-- **One more item** behind harmless items. -/
theorem same_snoc (h : Always Harmless items) : Same (items ++ [item]) ↔ Harmless items item := by
  obtain ⟨hout, hafter⟩ := items_read items h
  rw [same_iff, presses_read, List.flatMap_append, List.flatMap_append, List.flatMap_singleton,
    List.flatMap_singleton, output_append, hout, hafter, List.append_cancel_left_eq]
  exact (item_read items item).1

/-- **Commands are ignored**, in a stream and all its beginnings, exactly if all items are harmless. -/
theorem commands_ignored_iff (items : List Item) :
    (∀ pre, pre <+: items → Same pre) ↔ Always Harmless items := by
  induction items using List.reverseRecOn with
  | nil =>
    refine iff_of_true (fun pre hpre => ?_) always_nil
    rw [List.prefix_nil.1 hpre]
    exact same_iff.2 rfl
  | append_singleton items item ih =>
    simp only [List.prefix_concat_iff, forall_eq_or_imp]
    rw [always_snoc_iff, ih, and_comm]
    exact and_congr_right same_snoc

/-- IAC WILL LINEMODE gives a key, and IAC DO 13 gives ENTER. -/
theorem commands_not_ignored : ¬∀ items, Same items := by
  intro h
  have := same_iff.1 (h [.command ⟨.cmdWill, 34⟩, .command ⟨.cmdDo, 13⟩])
  revert this
  decide

end SikMimuw.Zad1
