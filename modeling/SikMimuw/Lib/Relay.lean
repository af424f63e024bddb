import Mathlib.Data.List.Basic
import Mathlib.Tactic.Common

/-!
# Relays

A relay passes on what it receives. What has left it and what still waits in it is a part of what
has come, in order (`order`), and the rest is counted as lost (`balance`). A relay that has lost
nothing passes on everything (`Relay.sent_append_waiting`).
-/

variable {α : Type*}

structure Relay (α : Type*) where
  received : List α
  sent : List α
  waiting : List α
  lost : ℕ
  order : (sent ++ waiting).Sublist received
  balance : sent.length + waiting.length + lost = received.length

namespace Relay

def empty : Relay α := ⟨[], [], [], 0, List.Sublist.refl [], rfl⟩

/-- New data comes in place of what waits. -/
def take (r : Relay α) (data : List α) : Relay α where
  received := r.received ++ data
  sent := r.sent
  waiting := data
  lost := r.lost + r.waiting.length
  order := ((List.sublist_append_left _ _).trans r.order).append (List.Sublist.refl data)
  balance := by
    have h := r.balance
    rw [List.length_append]
    omega

/-- The first of what waits leaves. -/
def give (r : Relay α) (n : ℕ) : Relay α where
  received := r.received
  sent := r.sent ++ r.waiting.take n
  waiting := r.waiting.drop n
  lost := r.lost
  order := by
    rw [List.append_assoc, List.take_append_drop]
    exact r.order
  balance := by
    have h := r.balance
    rw [List.length_append, List.length_take, List.length_drop]
    omega

/-- What waits is given up. -/
def discard (r : Relay α) : Relay α where
  received := r.received
  sent := r.sent
  waiting := []
  lost := r.lost + r.waiting.length
  order := by
    rw [List.append_nil]
    exact (List.sublist_append_left _ _).trans r.order
  balance := by
    have h := r.balance
    rw [List.length_nil]
    omega

theorem sent_append_waiting {r : Relay α} (h : r.lost = 0) : r.sent ++ r.waiting = r.received := by
  refine r.order.eq_of_length ?_
  have hb := r.balance
  rw [List.length_append]
  omega

end Relay
