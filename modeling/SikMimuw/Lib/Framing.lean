import Mathlib.Data.List.Basic
import Mathlib.Tactic.Common

/-!
# Records of one size in a stream

A framer collects the pieces of a stream into records of one size. It keeps every byte
(`Framer.content_feed`), so what it has collected is known from the stream alone: the whole records of
any beginning of a stream of records are its first ones (`Framer.records_of_content`), however the
stream was cut.
-/

variable {α : Type*} {size : ℕ}

/-- Whole records, and the beginning of the next one. -/
structure Framer (α : Type*) (size : ℕ) where
  records : List (List α)
  part : List α
  whole : ∀ r ∈ records, r.length = size
  short : part.length < size

namespace Framer

def empty (h : 0 < size) : Framer α size where
  records := []
  part := []
  whole := by
    intro r hr
    cases hr
  short := h

/-- All that has come. -/
def content (f : Framer α size) : List α := f.records.flatten ++ f.part

/-- **A piece**, no longer than what is missing of a record. -/
def feed (f : Framer α size) (piece : List α) (h : f.part.length + piece.length ≤ size) :
    Framer α size :=
  if hfull : f.part.length + piece.length = size then
    { records := f.records ++ [f.part ++ piece]
      part := []
      whole := by
        intro r hr
        rcases List.mem_append.1 hr with hr | hr
        · exact f.whole r hr
        · rw [List.mem_singleton.1 hr, List.length_append, hfull]
      short := Nat.zero_lt_of_lt f.short }
  else
    { records := f.records
      part := f.part ++ piece
      whole := f.whole
      short := by
        rw [List.length_append]
        omega }

theorem content_feed (f : Framer α size) (piece : List α) (h : f.part.length + piece.length ≤ size) :
    (f.feed piece h).content = f.content ++ piece := by
  unfold feed content
  split
  · simp
  · simp

/-- The length of whole records. -/
theorem length_flatten {l : List (List α)} (h : ∀ r ∈ l, r.length = size) :
    l.flatten.length = l.length * size := by
  induction l with
  | nil => simp
  | cons r l ih =>
    rw [List.flatten_cons, List.length_append, h r List.mem_cons_self,
      ih fun r hr => h r (List.mem_cons_of_mem _ hr), List.length_cons, Nat.succ_mul, Nat.add_comm]

/-- **The records of a beginning** of a stream. -/
theorem records_of_content : ∀ {l : List (List α)} {f : Framer α size},
    (∀ r ∈ l, r.length = size) → f.content <+: l.flatten →
      f.records = l.take (f.content.length / size) := by
  intro l f hl hpre
  have hpos : 0 < size := Nat.zero_lt_of_lt f.short
  have hlen : f.content.length / size = f.records.length := by
    rw [content, List.length_append, length_flatten f.whole, Nat.mul_comm,
      Nat.mul_add_div hpos, Nat.div_eq_of_lt f.short, Nat.add_zero]
  rw [hlen]
  have hrec : f.records.flatten <+: l.flatten := (List.prefix_append _ _).trans hpre
  have hwhole := f.whole
  generalize f.records = records at hrec hwhole
  clear hpre hlen
  induction records generalizing l with
  | nil => rw [List.length_nil, List.take_zero]
  | cons r records ih =>
    have hr := hwhole r List.mem_cons_self
    cases l with
    | nil =>
      have hnil := List.prefix_nil.1 hrec
      rw [List.flatten_cons, List.append_eq_nil_iff] at hnil
      rw [hnil.1, List.length_nil] at hr
      omega
    | cons x l =>
      rw [List.flatten_cons, List.flatten_cons] at hrec
      have hx := hl x List.mem_cons_self
      obtain ⟨rest, hrest⟩ := hrec
      rw [List.append_assoc] at hrest
      obtain ⟨rfl, htail⟩ := List.append_inj hrest (hr.trans hx.symm)
      rw [List.length_cons, List.take_succ_cons, ← ih (fun r hr => hl r (List.mem_cons_of_mem _ hr))
        ⟨rest, htail⟩ fun r hr => hwhole r (List.mem_cons_of_mem _ hr)]

end Framer
