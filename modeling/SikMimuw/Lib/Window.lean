import Mathlib.Data.List.DropRight
import Mathlib.Tactic.Common

/-!
# The last entries of a list that grows

`l.rtake m` is what a window of `m` entries shows of the list `l`. A queue that pushes at the
back, and pops at the front as soon as there are more than `m`, holds just that (`rtake_snoc`).
-/

namespace Window

variable {α : Type*} {l : List α} {m : ℕ} {x : α}

theorem length_rtake (l : List α) (m : ℕ) : (l.rtake m).length = min l.length m := by
  rw [List.rtake, List.length_drop]
  omega

theorem rtake_of_length_le (h : l.length ≤ m) : l.rtake m = l := by
  have h0 : l.length - m = 0 := by omega
  rw [List.rtake, h0, List.drop_zero]

/-- **One more entry**: it comes in at the back, and the front goes if there is no room. -/
theorem rtake_snoc (l : List α) (m : ℕ) (x : α) : (l ++ [x]).rtake m =
    if m < (l.rtake m ++ [x]).length then (l.rtake m ++ [x]).tail else l.rtake m ++ [x] := by
  have hlen : (l.rtake m ++ [x]).length = min l.length m + 1 := by
    rw [List.length_append, length_rtake, List.length_singleton]
  rw [hlen]
  cases m with
  | zero => simp
  | succ m =>
    rw [List.rtake_concat_succ]
    by_cases hl : l.length ≤ m
    · rw [if_neg (by omega), rtake_of_length_le hl, rtake_of_length_le (by omega)]
    · rw [if_pos (by omega)]
      have hne : l.rtake (m + 1) ≠ [] := by
        intro h0
        have hz := length_rtake l (m + 1)
        rw [h0, List.length_nil] at hz
        omega
      have hd : l.length - (m + 1) + 1 = l.length - m := by omega
      have ht : (l.rtake (m + 1)).tail = l.rtake m := by
        unfold List.rtake
        rw [List.tail_drop, hd]
      rw [List.tail_append_of_ne_nil hne, ht]

/-- What the window has lost before does not matter once as much has come in. -/
theorem rtake_append {n : ℕ} (l l' : List α) (h : n ≤ m + l'.length) :
    (l.rtake m ++ l').rtake n = (l ++ l').rtake n := by
  unfold List.rtake
  by_cases hle : l.length ≤ m
  · rw [Nat.sub_eq_zero_of_le hle, List.drop_zero]
  · have hlen : (l.drop (l.length - m) ++ l').length - n = (m + l'.length) - n := by
      rw [List.length_append, List.length_drop]
      congr 2
      omega
    rw [hlen, List.length_append]
    have hsplit : l.length + l'.length - n = (l.length - m) + (m + l'.length - n) := by omega
    have hfirst : (l ++ l').drop (l.length - m) = l.drop (l.length - m) ++ l' :=
      List.drop_append_of_le_length (Nat.sub_le _ _)
    rw [hsplit, ← List.drop_drop, hfirst]

theorem getElem?_rtake (l : List α) (m i : ℕ) : (l.rtake m)[i]? = l[l.length - m + i]? := by
  rw [List.rtake, List.getElem?_drop]

theorem getLast?_rtake (hm : 0 < m) : (l.rtake m).getLast? = l.getLast? := by
  rw [List.rtake, List.getLast?_drop]
  split
  · have h0 : l = [] := by
      rw [← List.length_eq_zero_iff]
      omega
    rw [h0]
    rfl
  · rfl

end Window
