import Mathlib.Data.List.Nodup
import Mathlib.Order.Lattice
import Mathlib.Tactic.Common

/-!
# Containers of the C++ standard library

* `NodeList`: `std::list`. A node keeps an identity, its address, which is what an
  iterator holds. Addresses are handed out by a counter and never used again, so an
  iterator to a removed node designates nothing, whatever is added later.
  `l.Designates it a` says that `it` points at a node of `l` with value `a`.
* `OrdMap`: `std::map`, as the list of its entries in strictly increasing key order,
  which is also the order of iteration. `OrdSet`: `std::set`, the map to `Unit`.

What a proof needs to know of an operation is the membership lemma beside it.
-/

/-- Lookup by key in an association list with distinct keys. -/
theorem find?_key_eq_some {κ ν : Type*} [DecidableEq κ] {l : List (κ × ν)}
    (hl : (l.map Prod.fst).Nodup) {k : κ} {v : ν} :
    (l.find? fun e => e.1 = k).map Prod.snd = some v ↔ (k, v) ∈ l := by
  constructor
  · intro h
    obtain ⟨e, he, rfl⟩ := Option.map_eq_some_iff.1 h
    have hk := List.find?_some he
    simp only [decide_eq_true_eq] at hk
    subst hk
    exact List.mem_of_find?_eq_some he
  · intro h
    cases hf : l.find? fun e => e.1 = k with
    | none => exact absurd (List.find?_eq_none.1 hf _ h) (by simp)
    | some e =>
      have hk := List.find?_some hf
      simp only [decide_eq_true_eq] at hk
      have he := List.inj_on_of_nodup_map hl (List.mem_of_find?_eq_some hf) h hk
      rw [he]; rfl

/-- Before the place that `findIdx` finds nothing is found. -/
theorem mem_take_findIdx {α : Type*} {p : α → Bool} {l : List α} {x : α}
    (hx : x ∈ l.take (l.findIdx p)) : p x = false := by
  induction l with
  | nil => cases hx
  | cons y l ih =>
    rw [List.findIdx_cons] at hx
    cases hy : p y with
    | true => simp [hy] at hx
    | false =>
      rw [hy, cond_false, List.take_succ_cons, List.mem_cons] at hx
      rcases hx with rfl | hx
      · exact hy
      · exact ih hx

/-- From there on everything is found, if the list is sorted that way. -/
theorem mem_drop_findIdx {α : Type*} {r : α → α → Prop} {p : α → Bool} {l : List α} {x : α}
    (hp : ∀ x y, r x y → p x = true → p y = true) (hl : l.Pairwise r)
    (hx : x ∈ l.drop (l.findIdx p)) : p x = true := by
  induction l with
  | nil => cases hx
  | cons y l ih =>
    obtain ⟨hy, hl⟩ := List.pairwise_cons.1 hl
    rw [List.findIdx_cons] at hx
    cases hpy : p y with
    | true =>
      rw [hpy, cond_true, List.drop_zero, List.mem_cons] at hx
      rcases hx with rfl | hx
      · exact hpy
      · exact hp y x (hy x hx) hpy
    | false =>
      rw [hpy, cond_false, List.drop_succ_cons] at hx
      exact ih hl hx

/-- **A list of nodes** with distinct addresses, all below the next fresh one. -/
structure NodeList (α : Type*) where
  nodes : List (ℕ × α)
  fresh : ℕ
  bound : ∀ n ∈ nodes, n.1 < fresh
  nodup : (nodes.map Prod.fst).Nodup

namespace NodeList

variable {α : Type*} {l : NodeList α} {it : ℕ} {a b : α}

/-- The iterator `it` points at a node with value `a`. -/
def Designates (l : NodeList α) (it : ℕ) (a : α) : Prop := (it, a) ∈ l.nodes

/-- The values, in list order. -/
def values (l : NodeList α) : List α := l.nodes.map Prod.snd

/-- The iterator of the first node. -/
def front (l : NodeList α) : Option ℕ := l.nodes.head?.map Prod.fst

/-- `size()`. -/
def size (l : NodeList α) : ℕ := l.nodes.length

/-- The empty list; no address was used yet. -/
def empty : NodeList α where
  nodes := []
  fresh := 0
  bound := by simp
  nodup := by simp

/-- `emplace_back`. The new node's iterator is `l.fresh`. -/
def pushBack (l : NodeList α) (a : α) : NodeList α where
  nodes := l.nodes ++ [(l.fresh, a)]
  fresh := l.fresh + 1
  bound := by
    intro n hn
    rw [List.mem_append, List.mem_singleton] at hn
    rcases hn with hn | rfl
    · exact Nat.lt_succ_of_lt (l.bound n hn)
    · exact Nat.lt_succ_self _
  nodup := by
    rw [List.map_append, List.nodup_append]
    refine ⟨l.nodup, by simp, ?_⟩
    intro x hx y hy hxy
    simp only [List.map_cons, List.map_nil, List.mem_singleton] at hy
    obtain ⟨n, hn, rfl⟩ := List.mem_map.1 hx
    have := l.bound n hn
    omega

/-- `pop_front`. -/
def popFront (l : NodeList α) : NodeList α where
  nodes := l.nodes.tail
  fresh := l.fresh
  bound := fun n hn => l.bound n (List.mem_of_mem_tail hn)
  nodup := by rw [List.map_tail]; exact l.nodup.tail

/-- `clear`. -/
def clear (l : NodeList α) : NodeList α where
  nodes := []
  fresh := l.fresh
  bound := by simp
  nodup := by simp

/-- Update of the value an iterator points at. A stale iterator changes nothing. -/
def modify (l : NodeList α) (it : ℕ) (f : α → α) : NodeList α where
  nodes := l.nodes.map fun n => if n.1 = it then (n.1, f n.2) else n
  fresh := l.fresh
  bound := by
    intro n hn
    obtain ⟨m, hm, rfl⟩ := List.mem_map.1 hn
    have := l.bound m hm
    split <;> simpa using this
  nodup := by
    have : (l.nodes.map fun n => if n.1 = it then (n.1, f n.2) else n).map Prod.fst =
        l.nodes.map Prod.fst := by
      rw [List.map_map]
      apply List.map_congr_left
      intro n _
      simp only [Function.comp_apply]
      split <;> rfl
    rw [this]; exact l.nodup

/-- `insert`, before the node at place `n`. The new node's iterator is `l.fresh`. -/
def insertAt (l : NodeList α) (n : ℕ) (a : α) : NodeList α where
  nodes := l.nodes.take n ++ (l.fresh, a) :: l.nodes.drop n
  fresh := l.fresh + 1
  bound := by
    intro m hm
    have hm := List.perm_middle.mem_iff.1 hm
    rw [List.take_append_drop, List.mem_cons] at hm
    rcases hm with rfl | hm
    · exact Nat.lt_succ_self _
    · exact Nat.lt_succ_of_lt (l.bound m hm)
  nodup := by
    rw [(List.perm_middle.map Prod.fst).nodup_iff, List.take_append_drop, List.map_cons,
      List.nodup_cons]
    refine ⟨fun h => ?_, l.nodup⟩
    obtain ⟨n, hn, he⟩ := List.mem_map.1 h
    have := l.bound n hn
    simp only at he
    omega

/-- `erase`. -/
def erase (l : NodeList α) (it : ℕ) : NodeList α where
  nodes := l.nodes.filter fun n => n.1 ≠ it
  fresh := l.fresh
  bound := fun n hn => l.bound n (List.mem_filter.1 hn).1
  nodup := l.nodup.sublist (List.filter_sublist.map Prod.fst)

/-- Update of every value. -/
def map (l : NodeList α) (f : α → α) : NodeList α where
  nodes := l.nodes.map fun n => (n.1, f n.2)
  fresh := l.fresh
  bound := by
    intro n hn
    obtain ⟨m, hm, rfl⟩ := List.mem_map.1 hn
    exact l.bound m hm
  nodup := by
    rw [List.map_map]
    exact l.nodup

/-- The iterators of the list, in its order. -/
def iterators (l : NodeList α) : List ℕ := l.nodes.map Prod.fst

/-- The iterator of the last node. -/
def last (l : NodeList α) : Option ℕ := l.iterators.getLast?

/-- `++it`, with `none` for `end()`. -/
def next (l : NodeList α) (it : ℕ) : Option ℕ := (l.iterators.dropWhile (· ≠ it)).tail.head?

/-- `--it`, for an iterator that is not the first one. -/
def prev (l : NodeList α) (it : ℕ) : Option ℕ := (l.iterators.takeWhile (· ≠ it)).getLast?

/-- The value an iterator points at. -/
def deref (l : NodeList α) (it : ℕ) : Option α := (l.nodes.find? fun n => n.1 = it).map Prod.snd

theorem nodes_inj {l l' : NodeList α} (hn : l.nodes = l'.nodes) (hf : l.fresh = l'.fresh) :
    l = l' := by
  obtain ⟨nodes, fresh, _, _⟩ := l
  obtain ⟨nodes', fresh', _, _⟩ := l'
  simp only at hn hf
  subst hn hf
  rfl

@[simp] theorem values_pushBack : (l.pushBack a).values = l.values ++ [a] := by
  simp [values, pushBack]

@[simp] theorem values_popFront : l.popFront.values = l.values.tail := by
  simp [values, popFront, List.map_tail]

@[simp] theorem values_map {f : α → α} : (l.map f).values = l.values.map f := by
  simp [values, map]

/-- An update that keeps `g` of every value keeps the list of them. -/
theorem values_modify {β : Type*} {f : α → α} {g : α → β} (hf : ∀ a, g (f a) = g a) :
    (l.modify it f).values.map g = l.values.map g := by
  unfold values modify
  simp only [List.map_map]
  apply List.map_congr_left
  intro n _
  simp only [Function.comp_apply]
  split
  · exact hf n.2
  · rfl

@[simp] theorem length_values : l.values.length = l.size := by simp [values, size]

theorem size_pushBack : (l.pushBack a).size = l.size + 1 := by simp [size, pushBack]

@[simp] theorem not_designates_empty : ¬ (empty : NodeList α).Designates it a := by
  simp [Designates, empty]

@[simp] theorem not_designates_clear : ¬ l.clear.Designates it a := by simp [Designates, clear]

theorem Designates.mem (h : l.Designates it a) : a ∈ l.values := List.mem_map.2 ⟨_, h, rfl⟩

theorem exists_designates (h : a ∈ l.values) : ∃ it, l.Designates it a := by
  obtain ⟨n, hn, rfl⟩ := List.mem_map.1 h
  exact ⟨n.1, hn⟩

/-- **An iterator designates one value.** -/
theorem Designates.unique (h : l.Designates it a) (h' : l.Designates it b) : a = b := by
  have := List.inj_on_of_nodup_map l.nodup h h' rfl
  exact (Prod.mk.injEq _ _ _ _ ▸ this).2

theorem Designates.lt_fresh (h : l.Designates it a) : it < l.fresh := l.bound _ h

theorem deref_eq_some : l.deref it = some a ↔ l.Designates it a := find?_key_eq_some l.nodup

theorem deref_map {f : α → α} : (l.map f).deref it = (l.deref it).map f := by
  unfold deref map
  rw [List.find?_map, Option.map_map, Option.map_map]
  rfl

theorem designates_pushBack :
    (l.pushBack b).Designates it a ↔ l.Designates it a ∨ it = l.fresh ∧ a = b := by
  simp [Designates, pushBack]

theorem designates_popFront {n : ℕ × α} {ns : List (ℕ × α)} (hl : l.nodes = n :: ns) :
    l.popFront.Designates it a ↔ l.Designates it a ∧ it ≠ n.1 := by
  have hnd := l.nodup
  rw [hl, List.map_cons, List.nodup_cons] at hnd
  simp only [Designates, popFront, hl, List.tail_cons, List.mem_cons]
  constructor
  · intro h
    refine ⟨Or.inr h, ?_⟩
    rintro rfl
    -- addresses are distinct, so the front's is not in the rest
    exact hnd.1 (List.mem_map.2 ⟨_, h, rfl⟩)
  · rintro ⟨rfl | h, hne⟩
    · exact absurd rfl hne
    · exact h

theorem designates_insertAt {n : ℕ} :
    (l.insertAt n b).Designates it a ↔ l.Designates it a ∨ it = l.fresh ∧ a = b := by
  unfold Designates insertAt
  dsimp only
  rw [List.perm_middle.mem_iff, List.take_append_drop, List.mem_cons, Prod.mk.injEq]
  exact or_comm

theorem size_erase {it' : ℕ} (h : l.Designates it' a) : (l.erase it').size + 1 = l.size := by
  have hi : (l.erase it').iterators = l.iterators.erase it' := by
    unfold iterators
    rw [l.nodup.erase_eq_filter, erase, List.filter_map]
    congr 1
    apply List.filter_congr
    intro n _
    by_cases hn : n.1 = it' <;> simp [hn]
  have hm : it' ∈ l.iterators := List.mem_map.2 ⟨_, h, rfl⟩
  have hl := List.length_erase_add_one hm
  rw [← hi, iterators, iterators, List.length_map, List.length_map] at hl
  exact hl

theorem designates_erase {it' : ℕ} :
    (l.erase it').Designates it a ↔ l.Designates it a ∧ it ≠ it' := by
  unfold Designates erase
  rw [List.mem_filter]
  simp

/-- A front that is not erased stays the front. -/
theorem front_erase {n : ℕ × α} (h : l.front ≠ some n.1) (hn : n ∈ l.nodes) :
    (l.erase n.1).front = l.front := by
  obtain ⟨x, t, hl⟩ := List.exists_cons_of_ne_nil (List.ne_nil_of_mem hn)
  have hx : x.1 ≠ n.1 := fun he => h (by rw [front, hl, ← he]; rfl)
  show ((l.nodes.filter fun m => m.1 ≠ n.1).head?).map Prod.fst = l.nodes.head?.map Prod.fst
  rw [hl, List.filter_cons_of_pos (by simpa using hx)]
  rfl

/-- The nodes around the one that goes. -/
theorem nodes_erase {n : ℕ × α} {pre post : List (ℕ × α)} (hl : l.nodes = pre ++ n :: post) :
    (l.erase n.1).nodes = pre ++ post := by
  have hnd := l.nodup
  rw [hl, List.map_append, List.map_cons, List.nodup_append, List.nodup_cons] at hnd
  obtain ⟨-, ⟨hpost, -⟩, hpre⟩ := hnd
  show l.nodes.filter (fun m => m.1 ≠ n.1) = _
  rw [hl, List.filter_append, List.filter_cons_of_neg (by simp)]
  congr 1
  · refine List.filter_eq_self.2 fun m hm => ?_
    simpa using hpre m.1 (List.mem_map.2 ⟨m, hm, rfl⟩) n.1 List.mem_cons_self
  · refine List.filter_eq_self.2 fun m hm => ?_
    have hne : m.1 ≠ n.1 := fun he => hpost (List.mem_map.2 ⟨m, hm, he⟩)
    simpa using hne

/-- Where an iterator stands. -/
theorem idxOf_iterators {n : ℕ × α} {pre post : List (ℕ × α)} (hl : l.nodes = pre ++ n :: post) :
    l.iterators.idxOf n.1 = pre.length := by
  have hnd := l.nodup
  rw [hl, List.map_append, List.map_cons, List.nodup_append] at hnd
  have hpre : n.1 ∉ pre.map Prod.fst := fun hm => hnd.2.2 n.1 hm n.1 List.mem_cons_self rfl
  rw [iterators, hl, List.map_append, List.idxOf_append_of_notMem hpre, List.map_cons,
    List.idxOf_cons_self, List.length_map, Nat.add_zero]

theorem designates_map {f : α → α} :
    (l.map f).Designates it a ↔ ∃ b, l.Designates it b ∧ f b = a := by
  simp only [Designates, map, List.mem_map, Prod.mk.injEq, Prod.exists]
  constructor
  · rintro ⟨n, b, hb, rfl, hf⟩
    exact ⟨b, hb, hf⟩
  · rintro ⟨b, hb, hf⟩
    exact ⟨it, b, hb, rfl, hf⟩

theorem mem_iterators : it ∈ l.iterators ↔ ∃ a, l.Designates it a := by
  simp [iterators, Designates]

theorem front_eq : l.front = l.iterators.head? := by simp [front, iterators]

theorem front_eq_none : l.front = none ↔ l.nodes = [] := by simp [front]

theorem last_eq_none : l.last = none ↔ l.nodes = [] := by simp [last, iterators]

theorem mem_of_front (h : l.front = some it) : it ∈ l.iterators := by
  rw [front_eq] at h
  exact List.mem_of_mem_head? h

theorem mem_of_last (h : l.last = some it) : it ∈ l.iterators := List.mem_of_getLast? h

theorem mem_of_next {it' : ℕ} (h : l.next it = some it') : it' ∈ l.iterators :=
  (List.dropWhile_suffix _).subset (List.mem_of_mem_tail (List.mem_of_mem_head? h))

theorem mem_of_prev {it' : ℕ} (h : l.prev it = some it') : it' ∈ l.iterators :=
  (List.takeWhile_prefix _).subset (List.mem_of_getLast? h)

theorem getLast?_of_tail_dropWhile {A : List ℕ} (hm : it ∈ A)
    (h : (A.dropWhile (· ≠ it)).tail = []) : A.getLast? = some it := by
  induction A with
  | nil => cases hm
  | cons x A ih =>
    by_cases hx : x = it
    · subst hx
      have hA : A = [] := by simpa using h
      rw [hA]
      rfl
    · have hA : it ∈ A := by simpa [Ne.symm hx] using hm
      have hd : (A.dropWhile (· ≠ it)).tail = [] := by simpa [hx] using h
      rw [List.getLast?_cons, ih hA hd]
      rfl

/-- An iterator that is not the last one has a next. -/
theorem next_ne_none (hm : it ∈ l.iterators) (hne : l.last ≠ some it) : l.next it ≠ none := by
  intro h
  rw [next, List.head?_eq_none_iff] at h
  exact hne (getLast?_of_tail_dropWhile hm h)

/-- An iterator that is not the first one has a previous. -/
theorem prev_ne_none (hm : it ∈ l.iterators) (hne : l.front ≠ some it) : l.prev it ≠ none := by
  intro h
  rw [front_eq] at hne
  rw [prev, List.getLast?_eq_none_iff] at h
  cases hi : l.iterators with
  | nil => simp [hi] at hm
  | cons x A =>
    rw [hi] at h hne
    have hx : x = it := by
      by_contra hx
      simp [hx] at h
    exact hne (by rw [hx]; rfl)

/-- The iterators around the one at place `i`. -/
theorem iterators_split {i : ℕ} (h : l.iterators[i]? = some it) :
    ∃ pre post, l.iterators = pre ++ it :: post ∧ pre.length = i ∧ it ∉ pre := by
  obtain ⟨hi, hit⟩ := List.getElem?_eq_some_iff.1 h
  have hsplit : l.iterators = l.iterators.take i ++ it :: l.iterators.drop (i + 1) := by
    rw [← hit, ← List.drop_eq_getElem_cons hi, List.take_append_drop]
  refine ⟨_, _, hsplit, ?_, fun hm => ?_⟩
  · rw [List.length_take]
    omega
  · have hnd : l.iterators.Nodup := l.nodup
    rw [hsplit, List.nodup_append] at hnd
    exact hnd.2.2 it hm it List.mem_cons_self rfl

/-- **`++it`** goes one place on. -/
theorem next_eq {i : ℕ} (h : l.iterators[i]? = some it) : l.next it = l.iterators[i + 1]? := by
  obtain ⟨pre, post, hl, rfl, hpre⟩ := iterators_split h
  have hd : (pre ++ it :: post).dropWhile (· ≠ it) = it :: post := by
    rw [List.dropWhile_append_of_pos fun x hx => by simpa using ne_of_mem_of_not_mem hx hpre]
    simp
  rw [next, hl, hd, List.tail_cons, List.getElem?_append_right (Nat.le_succ _), List.head?_eq_getElem?]
  simp

/-- **`--it`** goes one place back. -/
theorem prev_eq {i : ℕ} (h : l.iterators[i + 1]? = some it) : l.prev it = l.iterators[i]? := by
  obtain ⟨pre, post, hl, hlen, hpre⟩ := iterators_split h
  have ht : (pre ++ it :: post).takeWhile (· ≠ it) = pre := by
    rw [List.takeWhile_append_of_pos fun x hx => by simpa using ne_of_mem_of_not_mem hx hpre]
    simp
  rw [prev, hl, ht, List.getElem?_append_left (by omega), List.getLast?_eq_getElem?, hlen,
    Nat.add_sub_cancel]

theorem front_pushBack (hne : l.nodes ≠ []) : (l.pushBack a).front = l.front := by
  unfold front pushBack
  rw [List.head?_append_of_ne_nil _ hne]

theorem designates_modify {f : α → α} {it' : ℕ} :
    (l.modify it f).Designates it' a ↔
      if it' = it then ∃ b, l.Designates it b ∧ f b = a else l.Designates it' a := by
  simp only [Designates, modify, List.mem_map]
  constructor
  · rintro ⟨⟨n, b⟩, hn, h⟩
    simp only at h
    split at h
    · rename_i hit
      simp only [Prod.mk.injEq] at h
      obtain ⟨rfl, rfl⟩ := h
      subst hit
      rw [if_pos rfl]; exact ⟨b, hn, rfl⟩
    · rename_i hit
      simp only [Prod.mk.injEq] at h
      obtain ⟨rfl, rfl⟩ := h
      rw [if_neg hit]; exact hn
  · intro h
    split at h
    · rename_i hit
      obtain ⟨b, hb, rfl⟩ := h
      exact ⟨(it, b), hb, by simp [hit]⟩
    · rename_i hit
      exact ⟨(it', a), h, by simp [hit]⟩

/-- A value of the changed list is the changed one, or was there before. -/
theorem mem_modify {f : α → α} (h : a ∈ (l.modify it f).values) :
    (∃ b, l.Designates it b ∧ f b = a) ∨ a ∈ l.values := by
  obtain ⟨it', hd⟩ := exists_designates h
  rw [designates_modify] at hd
  split at hd
  · exact Or.inl hd
  · exact Or.inr hd.mem

end NodeList

/-- **An ordered map**: entries with strictly increasing keys. -/
structure OrdMap (κ ν : Type*) [LinearOrder κ] where
  entries : List (κ × ν)
  sorted : entries.Pairwise fun a b => a.1 < b.1

namespace OrdMap

variable {κ ν : Type*} [LinearOrder κ] {m : OrdMap κ ν} {k k' : κ} {v v' : ν}

def empty : OrdMap κ ν := ⟨[], List.Pairwise.nil⟩

/-- `m[k] = v`. -/
def insert (m : OrdMap κ ν) (k : κ) (v : ν) : OrdMap κ ν where
  entries := (m.entries.filter fun e => e.1 < k) ++ (k, v) :: m.entries.filter fun e => k < e.1
  sorted := by
    rw [List.pairwise_append, List.pairwise_cons]
    refine ⟨m.sorted.filter _, ⟨?_, m.sorted.filter _⟩, ?_⟩
    · intro e he
      simpa using (List.mem_filter.1 he).2
    · intro a ha b hb
      have ha := (List.mem_filter.1 ha).2
      simp only [decide_eq_true_eq] at ha
      rcases List.mem_cons.1 hb with rfl | hb
      · exact ha
      · have hb := (List.mem_filter.1 hb).2
        simp only [decide_eq_true_eq] at hb
        exact lt_trans ha hb

/-- `m.erase(k)`. -/
def erase (m : OrdMap κ ν) (k : κ) : OrdMap κ ν :=
  ⟨m.entries.filter fun e => e.1 ≠ k, m.sorted.filter _⟩

/-- `m.erase(m.begin(), m.lower_bound(k))`. -/
def eraseBelow (m : OrdMap κ ν) (k : κ) : OrdMap κ ν :=
  ⟨m.entries.filter fun e => k ≤ e.1, m.sorted.filter _⟩

/-- `m.find(k)`. -/
def find? (m : OrdMap κ ν) (k : κ) : Option ν :=
  (m.entries.find? fun e => e.1 = k).map Prod.snd

/-- The keys, in order of iteration. -/
def keys (m : OrdMap κ ν) : List κ := m.entries.map Prod.fst

@[simp] theorem entries_empty : (empty : OrdMap κ ν).entries = [] := rfl

@[simp] theorem keys_empty : (empty : OrdMap κ ν).keys = [] := rfl

theorem mem_insert :
    (k', v') ∈ (m.insert k v).entries ↔ k' = k ∧ v' = v ∨ k' ≠ k ∧ (k', v') ∈ m.entries := by
  simp only [insert, List.mem_append, List.mem_cons, List.mem_filter, decide_eq_true_eq,
    Prod.mk.injEq]
  constructor
  · rintro (⟨h, hlt⟩ | h | ⟨h, hlt⟩)
    · exact Or.inr ⟨ne_of_lt hlt, h⟩
    · exact Or.inl h
    · exact Or.inr ⟨ne_of_gt hlt, h⟩
  · rintro (h | ⟨hne, h⟩)
    · exact Or.inr (Or.inl h)
    · rcases lt_or_gt_of_ne hne with hlt | hlt
      · exact Or.inl ⟨h, hlt⟩
      · exact Or.inr (Or.inr ⟨h, hlt⟩)

theorem mem_erase : (k', v') ∈ (m.erase k).entries ↔ k' ≠ k ∧ (k', v') ∈ m.entries := by
  simp [erase, and_comm]

theorem nodup_keys : m.keys.Nodup := by
  unfold keys
  rw [List.Nodup, List.pairwise_map]
  exact m.sorted.imp fun h => ne_of_lt h

theorem mem_keys : k ∈ m.keys ↔ ∃ v, (k, v) ∈ m.entries := by simp [keys]

/-- One more key at most. -/
theorem length_insert_le : (m.insert k v).entries.length ≤ m.entries.length + 1 := by
  have hsub : (m.insert k v).keys ⊆ k :: m.keys := by
    intro k' hk'
    obtain ⟨v', hv'⟩ := mem_keys.1 hk'
    rw [List.mem_cons]
    rcases mem_insert.1 hv' with ⟨rfl, -⟩ | ⟨-, hv'⟩
    · exact Or.inl rfl
    · exact Or.inr (mem_keys.2 ⟨v', hv'⟩)
  have hlen := List.Nodup.length_le_of_subset nodup_keys hsub
  simpa [keys] using hlen

theorem find?_eq_some : m.find? k = some v ↔ (k, v) ∈ m.entries :=
  find?_key_eq_some m.nodup_keys

/-- **A key has one value.** -/
theorem mem_unique (h : (k, v) ∈ m.entries) (h' : (k, v') ∈ m.entries) : v = v' := by
  have := find?_eq_some.2 h
  rw [find?_eq_some.2 h', Option.some.injEq] at this
  exact this.symm

theorem find?_eq_none : m.find? k = none ↔ ∀ v, (k, v) ∉ m.entries := by
  constructor
  · intro h v hv
    rw [find?_eq_some.2 hv] at h
    cases h
  · intro h
    cases hf : m.find? k with
    | none => rfl
    | some v => exact absurd (find?_eq_some.1 hf) (h v)

end OrdMap

/-- `std::set`. -/
abbrev OrdSet (κ : Type*) [LinearOrder κ] := OrdMap κ Unit

namespace OrdSet

variable {κ : Type*} [LinearOrder κ] {s : OrdSet κ} {k k' : κ}

def insert (s : OrdSet κ) (k : κ) : OrdSet κ := OrdMap.insert s k ()

theorem mem_keys_insert : k' ∈ (insert s k).keys ↔ k' = k ∨ k' ∈ s.keys := by
  simp only [OrdMap.mem_keys, insert, OrdMap.mem_insert]
  constructor
  · rintro ⟨u, ⟨rfl, -⟩ | ⟨-, h⟩⟩
    · exact Or.inl rfl
    · exact Or.inr ⟨u, h⟩
  · rintro (rfl | ⟨u, h⟩)
    · exact ⟨(), Or.inl ⟨rfl, trivial⟩⟩
    · by_cases hk : k' = k
      · exact ⟨(), Or.inl ⟨hk, trivial⟩⟩
      · exact ⟨u, Or.inr ⟨hk, h⟩⟩

theorem mem_keys_erase : k' ∈ (OrdMap.erase s k).keys ↔ k' ≠ k ∧ k' ∈ s.keys := by
  simp only [OrdMap.mem_keys, OrdMap.mem_erase, exists_and_left]

end OrdSet
