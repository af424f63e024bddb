import SikMimuw.Lib.CString

/-!
# `getopt`

For option strings that begin with a colon and whose options all take an argument. `getopt` goes
through the arguments of a program until a call returns -1, `'?'` or `':'`: the callers considered
here do not go on after an error. `letter` tells the characters of the option string.

Arguments that are no options are skipped, or, where `POSIXLY_CORRECT` is set (`posix`), end it.
-/

namespace Getopt

variable {Λ : Type*}

/-- What a call returns, with `optarg` or `optopt`. -/
inductive Found (Λ : Type*)
  | option (l : Λ) (optarg : List UInt8)
  | unknown (optopt : UInt8)
  | missing (optopt : UInt8)
deriving DecidableEq

/-- What an argument is on its own. -/
inductive Element (Λ : Type*)
  | other
  | stop
  | unknown (c : UInt8)
  | attached (l : Λ) (text : List UInt8)
  | separate (l : Λ) (c : UInt8)

def element (letter : UInt8 → Option Λ) : List UInt8 → Element Λ
  | 45 :: c :: text =>
    if c = 45 ∧ text = [] then .stop
    else match letter c with
      | none => .unknown c
      | some l => if text = [] then .separate l c else .attached l text
  | _ => .other

/-- The results of the calls. An argument of its own follows its option, whatever it looks like. -/
def getopt (posix : Bool) (letter : UInt8 → Option Λ) : List (List UInt8) → List (Found Λ)
  | [] => []
  | arg :: args =>
    match element letter arg with
    | .other => if posix then [] else getopt posix letter args
    | .stop => []
    | .unknown c => [.unknown c]
    | .attached l text => .option l text :: getopt posix letter args
    | .separate l c =>
      match args with
      | [] => [.missing c]
      | text :: args => .option l text :: getopt posix letter args

/-- The argument of the last occurrence of an option. -/
def lastText [DecidableEq Λ] (l : Λ) : List (Found Λ) → Option (List UInt8)
  | [] => none
  | .option l' text :: founds => (lastText l founds).or (if l' = l then some text else none)
  | .unknown _ :: founds => lastText l founds
  | .missing _ :: founds => lastText l founds

theorem mem_of_lastText [DecidableEq Λ] {l : Λ} {text : List UInt8} {founds : List (Found Λ)}
    (h : lastText l founds = some text) : .option l text ∈ founds := by
  induction founds with
  | nil => cases h
  | cons found founds ih =>
    cases found with
    | option l' text' =>
      rw [lastText, Option.or_eq_some_iff] at h
      rcases h with h | ⟨-, h⟩
      · exact List.mem_cons_of_mem _ (ih h)
      · split at h
        · rename_i hl
          rw [Option.some.injEq] at h
          subst hl h
          exact List.mem_cons_self
        · cases h
    | unknown c => exact List.mem_cons_of_mem _ (ih h)
    | missing c => exact List.mem_cons_of_mem _ (ih h)

end Getopt
