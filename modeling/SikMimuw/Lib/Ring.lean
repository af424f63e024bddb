import Mathlib.Data.List.Cycle
import Mathlib.Tactic.Common

/-!
# Circular doubly linked lists

`next` and `prev` are the links of the cells of a heap. `IsRing next prev l`: the cells of `l` are
linked to a ring, in this order. A ring begins anywhere (`rotate`).

* `unlink`: the first cell is taken out where its neighbours are linked to each other.
* `link`: a cell is put behind the last one.
* `unlink_update`, `link_update`: the stores that do so.
* `walk`: following `next` from the first cell visits them all and returns to it.
* `prev_next`, `next_prev`: the links are inverse to each other.
-/

namespace LinkedRing

variable {α : Type*} {next prev next' prev' : α → α} {l l₁ l₂ : List α} {x y z : α}

/-- Two cells that are linked to each other. -/
def Linked (next prev : α → α) (x y : α) : Prop := next x = y ∧ prev y = x

/-- **A ring.** -/
def IsRing (next prev : α → α) (l : List α) : Prop := (l : Cycle α).Chain (Linked next prev)

theorem isRing_nil : IsRing next prev [] := Cycle.Chain.nil _

theorem isRing_cons : IsRing next prev (x :: l) ↔ (x :: (l ++ [x])).IsChain (Linked next prev) :=
  Cycle.chain_coe_cons _ _ _

theorem isRing_singleton : IsRing next prev [x] ↔ next x = x ∧ prev x = x := by
  rw [isRing_cons, List.nil_append, List.isChain_pair]
  rfl

/-- A chain whose last cell is linked to the first. -/
theorem isRing_concat : IsRing next prev (x :: l) ↔ (x :: l).IsChain (Linked next prev) ∧
    ∀ z ∈ (x :: l).getLast?, Linked next prev z x := by
  rw [isRing_cons, ← List.cons_append, List.isChain_append]
  simp

/-- **A ring begins anywhere.** -/
theorem IsRing.rotate (h : IsRing next prev (l₁ ++ l₂)) : IsRing next prev (l₂ ++ l₁) := by
  have he : ((l₁ ++ l₂ : List α) : Cycle α) = (l₂ ++ l₁ : List α) :=
    Cycle.coe_eq_coe.2 List.isRotated_append
  unfold IsRing at *
  rwa [← he]

/-- Behind the first cell stands the second one, or itself. -/
theorem IsRing.next_head (h : IsRing next prev (x :: l)) : Linked next prev x (l.headD x) := by
  rw [isRing_cons] at h
  cases l with
  | nil => exact List.isChain_pair.1 h
  | cons y l =>
    rw [List.cons_append, List.isChain_cons_cons] at h
    exact h.1

/-- And before it the last one. -/
theorem IsRing.prev_head (h : IsRing next prev (x :: l)) :
    Linked next prev (prev x) x ∧ prev x ∈ (x :: l).getLast? := by
  have hz := List.getLast?_eq_some_getLast (List.cons_ne_nil x l)
  have hlast := (isRing_concat.1 h).2 _ hz
  rw [hlast.2]
  exact ⟨hlast, hz⟩

/-- Any cell can come first. -/
theorem IsRing.split (h : IsRing next prev l) (hx : x ∈ l) :
    ∃ pre post, l = pre ++ x :: post ∧ IsRing next prev (x :: (post ++ pre)) := by
  obtain ⟨pre, post, rfl⟩ := List.append_of_mem hx
  exact ⟨pre, post, rfl, h.rotate⟩

theorem IsRing.prev_next (h : IsRing next prev l) (hx : x ∈ l) : prev (next x) = x := by
  obtain ⟨pre, post, rfl, hr⟩ := h.split hx
  rw [hr.next_head.1]
  exact hr.next_head.2

theorem IsRing.next_prev (h : IsRing next prev l) (hx : x ∈ l) : next (prev x) = x := by
  obtain ⟨pre, post, rfl, hr⟩ := h.split hx
  exact hr.prev_head.1.1

theorem IsRing.next_mem (h : IsRing next prev l) (hx : x ∈ l) : next x ∈ l := by
  obtain ⟨pre, post, rfl, hr⟩ := h.split hx
  have hm : next x ∈ x :: (post ++ pre) := by
    rw [hr.next_head.1]
    cases post ++ pre <;> simp
  simp only [List.mem_cons, List.mem_append] at hm ⊢
  tauto

theorem IsRing.prev_mem (h : IsRing next prev l) (hx : x ∈ l) : prev x ∈ l := by
  obtain ⟨pre, post, rfl, hr⟩ := h.split hx
  have hm := List.mem_of_getLast? hr.prev_head.2
  simp only [List.mem_cons, List.mem_append] at hm ⊢
  tauto

/-- **The first cell is taken out**: its neighbours are linked to each other. -/
theorem IsRing.unlink (h : IsRing next prev (x :: l)) (hx : x ∉ l)
    (hnext : next' (prev x) = next x) (hprev : prev' (next x) = prev x)
    (hnext' : ∀ w ∈ l, w ≠ prev x → next' w = next w)
    (hprev' : ∀ w ∈ l, w ≠ next x → prev' w = prev w) : IsRing next' prev' l := by
  cases l with
  | nil => exact isRing_nil
  | cons y l =>
    obtain ⟨hpx, hlast⟩ := h.prev_head
    rw [List.getLast?_cons_cons] at hlast
    rw [isRing_cons, List.cons_append, List.isChain_cons_cons] at h
    obtain ⟨⟨hxy, hyx⟩, hchain⟩ := h
    have hc : (y :: l).IsChain (Linked next prev) := hchain.left_of_append
    refine isRing_concat.2 ⟨hc.imp_of_mem_imp fun a b ha hb hab => ⟨?_, ?_⟩, fun z hz => ?_⟩
    -- a link inside the rest has neither end at `x`
    · rw [hnext' a ha, hab.1]
      rintro rfl
      have hbx : x = b := hpx.1.symm.trans hab.1
      exact hx (hbx ▸ hb)
    · rw [hprev' b hb, hab.2]
      rintro rfl
      have hax : x = a := hyx.symm.trans (hxy ▸ hab.2)
      exact hx (hax ▸ ha)
    · obtain rfl : prev x = z := by
        rw [Option.mem_def] at hz hlast
        rw [hlast, Option.some.injEq] at hz
        exact hz
      rw [hxy] at hnext hprev
      exact ⟨hnext, hprev⟩

/-- **A cell comes in behind the last one.** -/
theorem IsRing.link (h : IsRing next prev (x :: l)) (hx : x ∉ l) (hlast : next' (prev x) = z)
    (hz : prev' z = prev x) (hz' : next' z = x) (hfirst : prev' x = z)
    (hnext : ∀ w ∈ x :: l, w ≠ prev x → next' w = next w) (hprev : ∀ w ∈ l, prev' w = prev w) :
    IsRing next' prev' (x :: (l ++ [z])) := by
  obtain ⟨hpx, hmem⟩ := h.prev_head
  have hc := List.IsChain.iff_mem_mem_tail.1 (isRing_concat.1 h).1
  rw [isRing_concat, ← List.cons_append, List.isChain_append]
  refine ⟨⟨hc.imp ?_, List.isChain_singleton z, ?_⟩, ?_⟩
  · rintro a b ⟨ha, hb, hab⟩
    refine ⟨?_, (hprev b hb).trans hab.2⟩
    -- behind the last cell stood `x`, and `x` is not in the rest
    rw [hnext a ha, hab.1]
    rintro rfl
    have hbx : x = b := hpx.1.symm.trans hab.1
    exact hx (hbx ▸ hb)
  · intro w hw v hv
    obtain rfl : z = v := by simpa using hv
    obtain rfl : prev x = w := by
      rw [Option.mem_def] at hw hmem
      rw [hmem, Option.some.injEq] at hw
      exact hw
    exact ⟨hlast, hz⟩
  · intro w hw
    rw [List.getLast?_concat, Option.mem_some_iff] at hw
    rw [← hw]
    exact ⟨hz', hfirst⟩

/-- The first cell has neighbours among the others, where there are any. -/
theorem IsRing.neighbours (h : IsRing next prev (x :: l)) (hx : x ∉ l) (hl : l ≠ []) :
    next x ∈ l ∧ prev x ∈ l := by
  obtain ⟨y, l, rfl⟩ := List.exists_cons_of_ne_nil hl
  have hlast := h.prev_head.2
  rw [List.getLast?_cons_cons] at hlast
  rw [isRing_cons, List.cons_append, List.isChain_cons_cons] at h
  exact ⟨h.1.1 ▸ List.mem_cons_self, List.mem_of_getLast? hlast⟩

/-- Its own `next` is itself exactly where it is the only cell. -/
theorem IsRing.next_eq_iff (h : IsRing next prev (x :: l)) (hx : x ∉ l) : next x = x ↔ l = [] := by
  constructor
  · intro hself
    by_contra hl
    exact hx (hself ▸ (h.neighbours hx hl).1)
  · rintro rfl
    exact (isRing_singleton.1 h).1

section Update

open Function

variable [DecidableEq α]

/-- The two stores that unlink the first cell. -/
theorem IsRing.unlink_update (h : IsRing next prev (x :: l)) (hx : x ∉ l) :
    IsRing (update next (prev x) (next x)) (update prev (next x) (prev x)) l := by
  apply h.unlink hx
  · exact update_self ..
  · exact update_self ..
  · intro w _ hw
    exact update_of_ne hw ..
  · intro w _ hw
    exact update_of_ne hw ..

/-- The four stores that link a cell behind the last one. -/
theorem IsRing.link_update (h : IsRing next prev (x :: l)) (hx : x ∉ l) (hz : z ∉ x :: l) :
    IsRing (update (update next (prev x) z) z x) (update (update prev z (prev x)) x z)
      (x :: (l ++ [z])) := by
  have hne : ∀ w ∈ x :: l, w ≠ z := fun w hw hwz => hz (hwz ▸ hw)
  have hxz := hne x List.mem_cons_self
  apply h.link hx
  · rw [update_of_ne (hne _ (h.prev_mem List.mem_cons_self)), update_self]
  · rw [update_of_ne hxz.symm, update_self]
  · exact update_self ..
  · exact update_self ..
  · intro w hw hwp
    rw [update_of_ne (hne w hw), update_of_ne hwp]
  · intro w hw
    have hwx : w ≠ x := fun he => hx (he ▸ hw)
    rw [update_of_ne hwx, update_of_ne (hne w (List.mem_cons_of_mem _ hw))]

end Update

/-- Following `next` along a chain. -/
theorem iterate_next (h : (x :: l).IsChain (Linked next prev)) :
    ∀ i, ∀ y ∈ (x :: l)[i]?, next^[i] x = y := by
  intro i
  induction i generalizing x l with
  | zero =>
    intro y hy
    simpa using hy
  | succ i ih =>
    intro y hy
    cases l with
    | nil => simp at hy
    | cons w l =>
      rw [List.isChain_cons_cons] at h
      rw [Function.iterate_succ_apply, h.1.1]
      exact ih h.2 y (by simpa using hy)

/-- **Following `next`** from the first cell visits the cells in order and comes back. -/
theorem IsRing.walk (h : IsRing next prev (x :: l)) :
    (List.range (x :: l).length).map (fun i => next^[i] x) = x :: l ∧
      next^[(x :: l).length] x = x := by
  have hi := iterate_next (isRing_cons.1 h)
  constructor
  · apply List.ext_getElem
    · simp
    · intro i _ h2
      rw [List.getElem_map, List.getElem_range]
      apply hi i
      rw [← List.cons_append, List.getElem?_append_left h2, List.getElem?_eq_getElem h2, Option.mem_def]
  · apply hi
    rw [← List.cons_append, List.getElem?_append_right le_rfl, Nat.sub_self]
    rfl

end LinkedRing
