import Mathlib.Tactic.Common

/-!
# Transducers

A transducer reads a word letter by letter. `step q x` is the state that the letter `x` leads to from
`q`, and what it puts out. `after` is the state behind a word and `output` all that is put out.
`output_append`: behind a first part the transducer goes on from the state that it is left in.
-/

namespace Transducer

variable {σ α β : Type*} (step : σ → α → σ × List β) {q : σ} {xs ys : List α} {x : α}

def after (q : σ) : List α → σ
  | [] => q
  | x :: xs => after (step q x).1 xs

def output (q : σ) : List α → List β
  | [] => []
  | x :: xs => (step q x).2 ++ output (step q x).1 xs

@[simp] theorem after_singleton : after step q [x] = (step q x).1 := rfl

@[simp] theorem output_singleton : output step q [x] = (step q x).2 := List.append_nil _

theorem after_append : after step q (xs ++ ys) = after step (after step q xs) ys := by
  induction xs generalizing q with
  | nil => rfl
  | cons x xs ih => exact ih

theorem output_append :
    output step q (xs ++ ys) = output step q xs ++ output step (after step q xs) ys := by
  induction xs generalizing q with
  | nil => rfl
  | cons x xs ih =>
    rw [List.cons_append, output, output, ih, List.append_assoc]
    rfl

end Transducer
