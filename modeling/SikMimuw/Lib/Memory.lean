import Mathlib.Algebra.Order.Ring.Int
import Mathlib.Tactic.Common

/-!
# Memory behind a pointer

The cells that a pointer leads to, numbered from it. `copy` stores a list from a place on, and
`slice` reads the first cells. `slice_copy`: what is stored where a slice ends is appended to it.

`memcpy` copies between two memories. Pointers may lead to both sides of the objects they point
to, so its cells are numbered by integers; `Copy.Inside` says that a copy stays in both objects.
-/

namespace Memory

variable {α : Type*} {m : ℕ → α} {place n : ℕ} {as : List α}

/-- The cells after `as` was stored from `place` on. -/
def copy (m : ℕ → α) (place : ℕ) (as : List α) : ℕ → α :=
  fun i => if place ≤ i then (as[i - place]?).getD (m i) else m i

/-- The first `n` cells. -/
def slice (m : ℕ → α) (n : ℕ) : List α := (List.range n).map m

@[simp] theorem length_slice : (slice m n).length = n := by simp [slice]

/-- **A store at the end of a slice** appends to it. -/
theorem slice_copy : slice (copy m place as) (place + as.length) = slice m place ++ as := by
  apply List.ext_getElem
  · simp
  · intro i h1 h2
    simp only [slice, List.getElem_map, List.getElem_range]
    by_cases hi : i < place
    · rw [List.getElem_append_left (by simpa using hi), copy, if_neg (by omega)]
      simp
    · have hlt : i - place < as.length := by
        rw [length_slice] at h1
        omega
      rw [List.getElem_append_right (by simpa using hi), copy, if_pos (by omega)]
      simp [List.getElem?_eq_getElem hlt]

/-- `memcpy(to + dest, from + src, count)`. -/
structure Copy where
  dest : ℤ
  src : ℤ
  count : ℕ
deriving DecidableEq

/-- The cells of `target` after the copy. -/
def memcpy (target source : ℤ → α) (c : Copy) : ℤ → α :=
  fun i => if c.dest ≤ i ∧ i < c.dest + c.count then source (c.src + (i - c.dest)) else target i

/-- Every cell copied is one of the first `n` of the source and goes to one of the first `m`. -/
def Copy.Inside (c : Copy) (m n : ℕ) : Prop :=
  c.count = 0 ∨ 0 ≤ c.dest ∧ c.dest + c.count ≤ m ∧ 0 ≤ c.src ∧ c.src + c.count ≤ n

instance (c : Copy) (m n : ℕ) : Decidable (c.Inside m n) :=
  inferInstanceAs (Decidable (_ ∨ _))

variable {target source : ℤ → α} {c : Copy} {i : ℤ}

theorem memcpy_of_mem (h : c.dest ≤ i) (h' : i < c.dest + c.count) :
    memcpy target source c i = source (c.src + (i - c.dest)) := if_pos ⟨h, h'⟩

theorem memcpy_of_notMem (h : i < c.dest ∨ c.dest + c.count ≤ i) : memcpy target source c i = target i := by
  apply if_neg
  omega

theorem memcpy_zero {dest src : ℤ} : memcpy target source ⟨dest, src, 0⟩ = target := by
  funext i
  apply memcpy_of_notMem
  simp only
  omega

end Memory
