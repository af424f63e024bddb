import SikMimuw.Lib.Run
import SikMimuw.Model.Ctrl
import SikMimuw.Model.Big.Set

/-!
# The C request set against the C++ one

`Step` makes the same calls on both. The list keeps its numbers distinct and holds the numbers of
the `std::set` (`sets_agree`); what a text adds stands behind what was there, in order of first
occurrence (`addToSet_order`), and popping gives each number once (`popAll_once`).
-/

namespace SikMimuw.Big

open CStr Lts

variable {c c' nums : List UInt64} {num ele : UInt64} {s : OrdSet UInt64}

/-- The walk appends a number that is neither found yet nor in the rest. -/
theorem walk_eq (num : UInt64) (rest : List UInt64) : ∀ ele found,
    walk num ele found rest =
      if found = true ∨ num ∈ rest then ele :: rest else ele :: (rest ++ [num]) := by
  induction rest with
  | nil => intro ele found; simp [walk]
  | cons next rest ih =>
    intro ele found
    rw [walk, ih]
    cases found with
    | true => simp
    | false =>
      by_cases hn : next = num
      · simp [hn]
      · by_cases hr : num ∈ rest <;> simp [hn, hr, Ne.symm hn]

/-- **One number**: appended unless it is there. -/
theorem addNum_eq (c : List UInt64) (num : UInt64) :
    addNum c num = if num ∈ c then c else c ++ [num] := by
  cases c with
  | nil => simp [addNum]
  | cons ele next =>
    rw [addNum, walk_eq]
    simp only [beq_iff_eq, List.mem_cons, List.cons_append, eq_comm (a := ele)]

theorem mem_addNum {n : UInt64} : n ∈ addNum c num ↔ n = num ∨ n ∈ c := by
  rw [addNum_eq]
  split <;> simp_all [or_comm]

theorem nodup_addNum (h : c.Nodup) : (addNum c num).Nodup := by
  rw [addNum_eq]
  split
  · exact h
  · rename_i hn
    rw [← List.concat_eq_append]
    exact h.concat hn

/-- The numbers of a text, as both programs read them. -/
def numbers (commaDelimited : List UInt8) : List UInt64 :=
  (strtok 44 commaDelimited).filterMap fun pt =>
    if 0 ≤ strtol pt then some (UInt64.ofInt (strtol pt)) else none

theorem addToSet_eq (c : List UInt64) (commaDelimited : List UInt8) :
    addToSet c commaDelimited = (numbers commaDelimited).foldl addNum c := by
  unfold numbers addToSet
  rw [List.foldl_filterMap]
  congr 1
  funext c pt
  split <;> rfl

theorem addToSet_eq_insert (s : OrdSet UInt64) (commaDelimited : List UInt8) :
    Transmitter.addToSet s commaDelimited = (numbers commaDelimited).foldl OrdSet.insert s := by
  unfold numbers Transmitter.addToSet
  rw [List.foldl_filterMap]
  congr 1
  funext s pt
  split <;> rfl

/-- **What several numbers add**: those that are not there yet, each where it first occurs. -/
theorem foldl_addNum (nums : List UInt64) : ∀ c, ∃ new, nums.foldl addNum c = c ++ new ∧
    (∀ n, n ∈ new ↔ n ∈ nums ∧ n ∉ c) ∧ new.Pairwise fun a b => nums.idxOf a < nums.idxOf b := by
  induction nums with
  | nil => intro c; exact ⟨[], by simp⟩
  | cons x xs ih =>
    intro c
    obtain ⟨new, hfold, hmem, hord⟩ := ih (addNum c x)
    -- what comes later is not `x`, so `x` in front moves every place by one
    have hne : ∀ n ∈ new, n ≠ x := by
      intro n hn hx
      exact ((hmem n).1 hn).2 (mem_addNum.2 (Or.inl hx))
    have hidx : ∀ n ∈ new, (x :: xs).idxOf n = xs.idxOf n + 1 := by
      intro n hn
      rw [List.idxOf_cons_ne _ (hne n hn).symm]
    have hord' : new.Pairwise fun a b => (x :: xs).idxOf a < (x :: xs).idxOf b := by
      refine hord.imp_of_mem fun {a b} ha hb hab => ?_
      rw [hidx a ha, hidx b hb]
      omega
    rw [List.foldl_cons, hfold]
    rw [addNum_eq] at hmem ⊢
    by_cases hx : x ∈ c
    · rw [if_pos hx] at hmem ⊢
      refine ⟨new, rfl, fun n => ?_, hord'⟩
      rw [hmem, List.mem_cons]
      constructor
      · rintro ⟨hn, hc⟩
        exact ⟨Or.inr hn, hc⟩
      · rintro ⟨rfl | hn, hc⟩
        · exact absurd hx hc
        · exact ⟨hn, hc⟩
    · rw [if_neg hx] at hmem ⊢
      refine ⟨x :: new, by simp, fun n => ?_, List.pairwise_cons.2 ⟨fun n hn => ?_, hord'⟩⟩
      · rw [List.mem_cons, hmem, List.mem_cons, List.mem_append, List.mem_singleton]
        by_cases hn : n = x
        · simp [hn, hx]
        · simp [hn]
      · rw [hidx n hn, List.idxOf_cons_self]
        omega

/-- A call on both sets. -/
inductive Call
  | add (commaDelimited : List UInt8)
  | pop (num : UInt64)

/-- **One call**: `add_to_set` with the same text, or `pop_set` on a non-empty list and the
removal of its result from the `std::set`. -/
inductive Step : List UInt64 × OrdSet UInt64 → Call → List UInt64 × OrdSet UInt64 → Prop
  | add (c : List UInt64) (s : OrdSet UInt64) (commaDelimited : List UInt8) :
      Step (c, s) (.add commaDelimited)
        (addToSet c commaDelimited, Transmitter.addToSet s commaDelimited)
  | pop {c c' : List UInt64} {num : UInt64} (s : OrdSet UInt64) (h : popSet c = some (num, c')) :
      Step (c, s) (.pop num) (c', s.erase num)

/-- The list holds the numbers of the set, each once. -/
structure Agree (p : List UInt64 × OrdSet UInt64) : Prop where
  nodup : p.1.Nodup
  mem_iff : ∀ n, n ∈ p.1 ↔ n ∈ p.2.keys

theorem Agree.addNum (h : Agree (c, s)) (num : UInt64) : Agree (addNum c num, s.insert num) where
  nodup := nodup_addNum h.nodup
  mem_iff n := by
    have hn := h.mem_iff n
    dsimp only at hn ⊢
    rw [mem_addNum, OrdSet.mem_keys_insert, hn]

theorem Agree.addNums (h : Agree (c, s)) (nums : List UInt64) :
    Agree (nums.foldl Big.addNum c, nums.foldl OrdSet.insert s) := by
  induction nums generalizing c s with
  | nil => exact h
  | cons num nums ih => exact ih (h.addNum num)

theorem Agree.step {p q : List UInt64 × OrdSet UInt64} {call : Call} (h : Agree p)
    (hst : Step p call q) : Agree q := by
  cases hst with
  | add c s text =>
    rw [addToSet_eq, addToSet_eq_insert]
    exact h.addNums _
  | @pop c c' num s hp =>
    cases c with
    | nil => simp [popSet] at hp
    | cons ele next =>
      simp only [popSet, Option.some.injEq, Prod.mk.injEq] at hp
      obtain ⟨rfl, rfl⟩ := hp
      have hnd := List.nodup_cons.1 h.nodup
      refine ⟨hnd.2, fun n => ?_⟩
      have hn := h.mem_iff n
      simp only [List.mem_cons] at hn
      rw [OrdSet.mem_keys_erase, ← hn]
      dsimp only
      constructor
      · intro hmem
        exact ⟨ne_of_mem_of_not_mem hmem hnd.1, Or.inr hmem⟩
      · rintro ⟨hne, rfl | hmem⟩
        · exact absurd rfl hne
        · exact hmem

/-- Popping empties the set. -/
theorem popAll_eq (c : List UInt64) : popAll (c.length + 1) c = some c := by
  induction c with
  | nil => rfl
  | cons ele next ih =>
    rw [List.length_cons, popAll, popSet]
    simp [emptySet, ih]

/-- **Two request sets, one behaviour**: along every sequence of calls the list is without
duplicates and holds what the `std::set` holds; the next text puts its new numbers behind the old
ones, in order of first occurrence; and popping until the list is empty gives each number once. -/
theorem sets_agree {c₀ : List UInt64} {s₀ : OrdSet UInt64} {calls : List Call}
    (hnd : c₀.Nodup) (hmem : ∀ n, n ∈ c₀ ↔ n ∈ s₀.keys) (hrun : Run Step (c₀, s₀) calls (c, s)) :
    c.Nodup ∧ (∀ n, n ∈ c ↔ n ∈ s.keys) ∧
    (∀ text, ∃ new, addToSet c text = c ++ new ∧ (∀ n, n ∈ new ↔ n ∈ numbers text ∧ n ∉ c) ∧
      new.Pairwise fun a b => (numbers text).idxOf a < (numbers text).idxOf b) ∧
    ∃ fuel nums, popAll fuel c = some nums ∧ ∀ n, nums.count n = if n ∈ c then 1 else 0 := by
  have hagree : Agree (c, s) := by
    apply hrun.inv ⟨hnd, hmem⟩
    intro p call q hp hst
    exact hp.step hst
  refine ⟨hagree.nodup, hagree.mem_iff, fun text => ?_, c.length + 1, c, popAll_eq c, fun n => ?_⟩
  · rw [addToSet_eq]
    exact foldl_addNum _ c
  · exact hagree.nodup.count

/-- A text with a number twice and one that is there already. -/
theorem sets_agree_twice :
    (addToSet [7] (bytes "9,7,9")).Nodup ∧
      9 ∈ (Transmitter.addToSet (OrdSet.insert .empty 7) (bytes "9,7,9")).keys := by
  have hrun : Run Step ([7], OrdSet.insert .empty 7) [.add (bytes "9,7,9")] _ :=
    Run.single (Step.add _ _ _)
  have h := sets_agree (by decide) (fun n => by simp [OrdSet.mem_keys_insert]) hrun
  exact ⟨h.1, (h.2.1 9).1 (by decide)⟩

end SikMimuw.Big
