import SikMimuw.Lib.Ring
import SikMimuw.Model.Big.Buffor

/-!
# Looking up a missing package

`check_set` walks the ring of missing packages while their numbers are less than the one that it
looks for. So the test for equality can succeed at the first element only, and a number that stands
behind it is not found (`looksUp_iff`).
-/

namespace SikMimuw.Big

open LinkedRing Function

/-- The number of an element's package. -/
def Heap.number (h : Heap) (e : UInt64) : UInt64 := (h.package (h.setElem e).package).num

/-- **The set of missing packages**: a ring of elements with ascending numbers. -/
structure Missing (h : Heap) (es : List UInt64) : Prop where
  set : h.buffor.set = es.headD 0
  ring : IsRing (SetElem.next ∘ h.setElem) (SetElem.prev ∘ h.setElem) es
  nodup : es.Nodup
  elems : ∀ e ∈ es, e ∈ h.live
  packages : ∀ e ∈ es, (h.setElem e).package ∈ h.live ∧ (h.setElem e).package ∉ es
  ascending : es.Pairwise fun a b => h.number a < h.number b

/-- **One element is taken out**, and nothing else changes. -/
structure TakenOut (h : Heap) (es : List UInt64) (e : UInt64) (h' : Heap) : Prop where
  missing : Missing h' (es.erase e)
  buffor : h'.buffor = { h.buffor with set := h'.buffor.set }
  package : h'.package = h.package
  elem : ∀ a, (h'.setElem a).package = (h.setElem a).package
  live : h'.live = h.live.erase e
  freed : h'.freed = h.freed ++ [e]

/-- **What `check_set` is for.** -/
structure LooksUp (n : ℕ) (h : Heap) (es : List UInt64) (num : UInt64) : Prop where
  found : ∀ e ∈ es, h.number e = num →
    ∃ h', checkSet n h num = some ((h.setElem e).package, h') ∧ TakenOut h es e h'
  missed : (∀ e ∈ es, h.number e ≠ num) → checkSet n h num = some (0, h)

variable {h h' : Heap} {e x num : UInt64} {es l : List UInt64} {n : ℕ}

section Store

variable {α β : Type*} {f : α → β} {m : UInt64 → α} {p a : UInt64} {v : α}

/-- A store that leaves a field as it was. -/
theorem comp_update_of_eq (hf : f v = f (m p)) : f ∘ update m p v = f ∘ m := by
  rw [comp_update, hf]
  exact update_eq_self p (f ∘ m)

theorem apply_update_of_eq (hf : f v = f (m p)) : f (update m p v a) = f (m a) :=
  congrFun (comp_update_of_eq hf) a

end Store

/-! ### Taking out the first element -/

/-- The stores of `removeElem` for an element that is not the only one. -/
theorem removeElem_eq (hx : x ∈ h.live) (hnext : (h.setElem x).next ∈ h.live)
    (hprev : (h.setElem x).prev ∈ h.live) (hne : (h.setElem x).next ≠ x)
    (hpe : (h.setElem x).prev ≠ x) (hset : h.buffor.set = x) :
    ∃ h', removeElem h x = some ((h.setElem x).package, h') ∧
      SetElem.next ∘ h'.setElem =
        update (SetElem.next ∘ h.setElem) (h.setElem x).prev (h.setElem x).next ∧
      SetElem.prev ∘ h'.setElem =
        update (SetElem.prev ∘ h.setElem) (h.setElem x).next (h.setElem x).prev ∧
      SetElem.package ∘ h'.setElem = SetElem.package ∘ h.setElem ∧
      h'.buffor = { h.buffor with set := (h.setElem x).next } ∧
      h'.package = h.package ∧ h'.live = h.live.erase x ∧ h'.freed = h.freed ++ [x] := by
  have hxn : x ≠ (h.setElem x).next := hne.symm
  have hxp : x ≠ (h.setElem x).prev := hpe.symm
  simp only [removeElem, Heap.loadElem_eq, Heap.storeElem_eq, Heap.free_eq, hx, hnext, hprev,
    Heap.setBuffor, Option.bind_eq_bind, Option.bind_some, if_neg hne, hset, if_true,
    update_of_ne hxn, update_of_ne hxp]
  refine ⟨_, rfl, ?_, ?_, ?_, ?_, ?_, ?_, ?_⟩
  · rw [comp_update, comp_update_of_eq]
    rfl
  · rw [comp_update_of_eq, comp_update]
    rfl
  · rw [comp_update_of_eq, comp_update_of_eq]
    · rfl
    · rfl
  all_goals rfl

/-- The rest of the ring when its first element is gone. -/
theorem Missing.takenOut (hm : Missing h (x :: l))
    (hbuffor : h'.buffor = { h.buffor with set := l.headD 0 })
    (hring : IsRing (SetElem.next ∘ h'.setElem) (SetElem.prev ∘ h'.setElem) l)
    (helem : SetElem.package ∘ h'.setElem = SetElem.package ∘ h.setElem)
    (hpackage : h'.package = h.package) (hlive : h'.live = h.live.erase x)
    (hfreed : h'.freed = h.freed ++ [x]) : TakenOut h (x :: l) x h' := by
  have helem' : ∀ a, (h'.setElem a).package = (h.setElem a).package := congrFun helem
  have hnumber : ∀ a, h'.number a = h.number a := by
    intro a
    unfold Heap.number
    rw [hpackage, helem' a]
  have hne : ∀ a ∈ l, a ≠ x := fun a ha hax => (List.nodup_cons.1 hm.nodup).1 (hax ▸ ha)
  refine ⟨?_, by rw [hbuffor], hpackage, helem', hlive, hfreed⟩
  rw [List.erase_cons_head]
  refine ⟨by rw [hbuffor], hring, hm.nodup.of_cons, fun a ha => ?_, fun a ha => ?_, ?_⟩
  · rw [hlive]
    exact Finset.mem_erase_of_ne_of_mem (hne a ha) (hm.elems a (List.mem_cons_of_mem _ ha))
  · obtain ⟨hp, hout⟩ := hm.packages a (List.mem_cons_of_mem _ ha)
    rw [List.mem_cons, not_or] at hout
    rw [helem' a, hlive]
    exact ⟨Finset.mem_erase_of_ne_of_mem hout.1 hp, hout.2⟩
  · refine hm.ascending.of_cons.imp fun hab => ?_
    rwa [hnumber, hnumber]

/-- **The first element is taken out.** -/
theorem Missing.removeElem_head (hm : Missing h (x :: l)) :
    ∃ h', removeElem h x = some ((h.setElem x).package, h') ∧ TakenOut h (x :: l) x h' := by
  have hx : x ∈ h.live := hm.elems x List.mem_cons_self
  have hout := (List.nodup_cons.1 hm.nodup).1
  by_cases hl : l = []
  · subst hl
    have hself : (h.setElem x).next = x := (hm.ring.next_eq_iff hout).2 rfl
    simp only [removeElem, Heap.loadElem_eq, Heap.free_eq, hx, Heap.setBuffor, Option.bind_eq_bind,
      Option.bind_some, if_pos hself]
    exact ⟨_, rfl, hm.takenOut rfl isRing_nil rfl rfl rfl rfl⟩
  · obtain ⟨hnext, hprev⟩ := hm.ring.neighbours hout hl
    have hmem : ∀ a ∈ l, a ∈ h.live := fun a ha => hm.elems a (List.mem_cons_of_mem _ ha)
    have hne : ∀ a ∈ l, a ≠ x := fun a ha hax => hout (hax ▸ ha)
    obtain ⟨h', hrem, hn, hp, helem, hbuffor, hpackage, hlive, hfreed⟩ := removeElem_eq hx
      (hmem _ hnext) (hmem _ hprev) (hne _ hnext) (hne _ hprev) hm.set
    refine ⟨h', hrem, hm.takenOut ?_ ?_ helem hpackage hlive hfreed⟩
    · obtain ⟨y, l, rfl⟩ := List.exists_cons_of_ne_nil hl
      rw [hbuffor, ← comp_apply (f := SetElem.next), hm.ring.next_head.1]
      rfl
    · rw [hn, hp]
      exact hm.ring.unlink_update hout

/-! ### The loop -/

/-- One iteration, at an element of the ring. -/
theorem Missing.checkLoop_succ (hm : Missing h es) (he : e ∈ es) :
    checkLoop num (n + 1) e h = if h.number e = num then removeElem h e
      else if (h.setElem e).next = h.buffor.set then some (0, h)
      else if h.number (h.setElem e).next < num then checkLoop num n (h.setElem e).next h
      else some (0, h) := by
  have hnext : (h.setElem e).next ∈ es := hm.ring.next_mem he
  simp only [checkLoop, Heap.loadElem_eq (hm.elems e he), Heap.loadElem_eq (hm.elems _ hnext),
    Heap.load_eq (hm.packages e he).1, Heap.load_eq (hm.packages _ hnext).1, Option.bind_eq_bind,
    Option.bind_some]
  rfl

/-- From an element with another number on, the loop finds nothing: it goes on only to elements
with a lesser number. -/
theorem Missing.checkLoop_miss (hm : Missing h es) : ∀ (post pre : List UInt64) (e : UInt64) (n : ℕ),
    es = pre ++ e :: post → h.number e ≠ num → post.length < n →
      checkLoop num n e h = some (0, h) := by
  intro post
  induction post with
  | nil =>
    rintro pre e n rfl he hn
    obtain ⟨n, rfl⟩ := Nat.exists_eq_succ_of_ne_zero (Nat.pos_iff_ne_zero.1 hn)
    have hnext : (h.setElem e).next = h.buffor.set := by
      rw [hm.set]
      refine hm.ring.rotate.next_head.1.trans ?_
      cases pre <;> rfl
    rw [hm.checkLoop_succ (by simp), if_neg he, if_pos hnext]
  | cons e' post ih =>
    rintro pre e n rfl he hn
    rw [List.length_cons] at hn
    obtain ⟨n, rfl⟩ := Nat.exists_eq_add_of_lt hn
    have hnext : (h.setElem e).next = e' := hm.ring.rotate.next_head.1
    rw [hm.checkLoop_succ (by simp), if_neg he, hnext]
    split_ifs with hset hlt
    · rfl
    · apply ih (pre ++ [e]) e' _ (by simp) (UInt64.ne_of_lt hlt)
      omega
    · rfl

/-- **`check_set` finds what it is for exactly where the number does not stand behind the first
element.** -/
theorem looksUp_iff (hm : Missing h es) (hn : es.length ≤ n) :
    LooksUp n h es num ↔ ∀ e ∈ es.tail, h.number e ≠ num := by
  cases es with
  | nil =>
    have hset : h.buffor.set = 0 := hm.set
    refine iff_of_true ⟨by simp, fun _ => ?_⟩ (by simp)
    unfold checkSet
    rw [if_pos hset]
  | cons x l =>
    have hset : h.buffor.set = x := hm.set
    have hloop : checkSet n h num = checkLoop num n x h := by
      unfold checkSet
      rw [hset, if_neg (Heap.ne_zero (hm.elems x List.mem_cons_self))]
    have hmiss : h.number x ≠ num → checkSet n h num = some (0, h) := fun hx =>
      hloop.trans (hm.checkLoop_miss l [] x n rfl hx hn)
    rw [List.tail_cons]
    constructor
    · intro hlook e he hnum
      obtain ⟨h', hfound, -⟩ := hlook.found e (List.mem_cons_of_mem _ he) hnum
      -- the first element has a lesser number
      have hlt := (List.pairwise_cons.1 hm.ascending).1 e he
      rw [hnum] at hlt
      rw [hmiss (UInt64.ne_of_lt hlt), Option.some.injEq, Prod.mk.injEq] at hfound
      exact Heap.ne_zero (hm.packages e (List.mem_cons_of_mem _ he)).1 hfound.1.symm
    · intro htail
      refine ⟨fun e he hnum => ?_, fun hnone => hmiss (hnone x List.mem_cons_self)⟩
      rcases List.mem_cons.1 he with rfl | he
      · obtain ⟨n, rfl⟩ := Nat.exists_eq_add_of_lt hn
        rw [hloop, hm.checkLoop_succ List.mem_cons_self, if_pos hnum]
        exact hm.removeElem_head
      · exact absurd hnum (htail e he)

/-- A buffer that has received the packets 0 and 30 of length 10, and misses 10 and 20. -/
def gaps : Heap where
  buffor := ⟨56, 4, 8, 80, 16⟩
  package p :=
    if p = 56 then ⟨32, 48, 64, 0⟩
    else if p = 32 then ⟨40, 56, 0, 10⟩
    else if p = 40 then ⟨48, 32, 0, 20⟩
    else ⟨56, 40, 72, 30⟩
  setElem e := if e = 16 then ⟨24, 24, 32⟩ else ⟨16, 16, 40⟩
  live := {16, 24, 32, 40, 48, 56, 64, 72}
  freed := []
  notNull := by decide

theorem gaps_missing : Missing gaps [16, 24] where
  set := rfl
  ring := isRing_cons.2 (by simp [Linked, gaps])
  nodup := by decide
  elems := by simp [gaps]
  packages := by simp [gaps]
  ascending := by decide

/-- The first missing packet is found. -/
theorem looksUp_iff_gaps : LooksUp 2 gaps [16, 24] 10 :=
  (looksUp_iff gaps_missing le_rfl).2 (by simp [Heap.number, gaps])

/-- The second is not. -/
theorem second_missed : ¬ ∀ (h : Heap) (es : List UInt64) (n : ℕ) (num : UInt64),
    Missing h es → es.length ≤ n → LooksUp n h es num := by
  intro hall
  obtain ⟨h', hfound, -⟩ := (hall gaps [16, 24] 2 20 gaps_missing le_rfl).found 24 (by decide) rfl
  have hpack : (checkSet 2 gaps 20).map Prod.fst ≠ some 40 := by decide
  apply hpack
  rw [hfound]
  rfl

end SikMimuw.Big
