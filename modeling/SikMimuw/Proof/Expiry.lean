import SikMimuw.Proof.Menu

/-!
# What expires, and what stays selected

`check_time` sets `active` to the front with every station that it erases, whether that was the
active one or not. And it goes on from the station that it has erased.

* `Kept`: the selection is kept, or the change is told. An erasure keeps it if it takes the active
  station, or leaves it at the front (`Kept.erase`), and later ones do (`expire_kept`).
* `keeps_active_iff`: the exact condition.
* `Expires`: exactly the expired stations go, and no iterator of an erased one is used.
  `expires_iff`: the exact condition. `expire_successor`: the stations that remain, if the erased
  one still leads to the next.
-/

namespace SikMimuw.Receiver

open Lts

variable {W : Resume} {m m' : Menu} {time : ℤ} {n place : ℕ} {s : ℕ × Station} {r : Menu × Bool}

/-! ### The selection -/

/-- **The selection is kept**: an active station that has not expired stays active, and another
change of `active` is told. -/
structure Kept (time : ℤ) (m : Menu) (r : Menu × Bool) : Prop where
  station : ∀ it s, m.active = some it → m.stations.Designates it s → s.expired time = false →
    r.1.active = some it ∧ r.1.stations.Designates it s ∧ r.1.isActive = m.isActive
  told : r.1.active ≠ m.active → r.2 = true

theorem Kept.refl (m : Menu) : Kept time m (m, false) :=
  ⟨fun _ _ hit hs _ => ⟨hit, hs, rfl⟩, fun h => absurd rfl h⟩

/-- **An erasure** that takes the active station, or leaves it at the front. -/
theorem Kept.erase (hs : s ∈ m.stations.nodes) (hx : s.2.expired time = true)
    (hc : m.active = some s.1 ∨ (m.stations.erase s.1).front = m.active)
    (hr : Kept time (m.erase s.1) r) :
    Kept time m (r.1, decide (m.active = some s.1) || r.2) := by
  by_cases ha : m.active = some s.1
  · refine ⟨fun it s' hit hs' hx' => ?_, fun _ => by simp [ha]⟩
    -- the active station has expired
    rw [ha, Option.some.injEq] at hit
    subst hit
    have hsame : s' = s.2 := hs'.unique hs
    rw [hsame, hx] at hx'
    cases hx'
  · have hfront : (m.erase s.1).active = m.active := hc.resolve_left ha
    refine ⟨fun it s' hit hs' hx' => ?_, fun hne => ?_⟩
    · have hne : it ≠ s.1 := fun he => ha (by rw [hit, he])
      obtain ⟨h1, h2, h3⟩ := hr.station it s' (hfront.trans hit)
        (NodeList.designates_erase.2 ⟨hs', hne⟩) hx'
      refine ⟨h1, h2, h3.trans ?_⟩
      show (m.isActive && (m.stations.erase s.1).front.isSome) = m.isActive
      have hfr : (m.stations.erase s.1).front = some it := hfront.trans hit
      rw [hfr, Option.isSome_some, Bool.and_true]
    · have hr2 := hr.told fun he => hne (he.trans hfront)
      rw [hr2, Bool.or_true]

/-- Behind the first erasure `active` is the front, and all later ones keep the selection. -/
theorem expire_kept : ∀ {n place : ℕ} {m : Menu}, m.active = m.stations.front →
    Kept time m (m.expire W time n place) := by
  intro n
  induction n with
  | zero => intro place m _; exact Kept.refl m
  | succ n ih =>
    intro place m hfront
    rw [Menu.expire]
    cases hf : (m.stations.nodes.drop place).find? fun s => s.2.expired time with
    | none => exact Kept.refl m
    | some s =>
      have hs : s ∈ m.stations.nodes := List.mem_of_mem_drop (List.mem_of_find?_eq_some hf)
      have hx : s.2.expired time = true := by simpa using List.find?_some hf
      refine Kept.erase hs hx ?_ (ih rfl)
      by_cases ha : m.active = some s.1
      · exact Or.inl ha
      · rw [hfront] at ha ⊢
        exact Or.inr (NodeList.front_erase ha hs)

/-- With an expired station there is a turn of the loop. -/
theorem checkTime_some (h : m.firstExpired time = some s) : ∃ n place, m.checkTime W time =
    (((m.erase s.1).expire W time n place).1,
      decide (m.active = some s.1) || ((m.erase s.1).expire W time n place).2) := by
  have hs := size_erase (firstExpired_some h).1
  unfold Menu.checkTime
  obtain ⟨n, hn⟩ : ∃ n, m.stations.size = n + 1 := ⟨_, hs.symm⟩
  refine ⟨n, W m.stations s.1, ?_⟩
  rw [hn, Menu.expire, List.drop_zero]
  unfold Menu.firstExpired at h
  rw [h]

theorem checkTime_none (h : m.firstExpired time = none) : m.checkTime W time = (m, false) :=
  expire_none (firstExpired_none.1 h)

/-- **Expiry keeps the selection**, wherever it goes on, exactly if the first station that has
expired is the active one, or the active one is the front of the others. -/
theorem keeps_active_iff (m : Menu) (time : ℤ) : (∀ W, Kept time m (m.checkTime W time)) ↔
    ∀ s ∈ m.firstExpired time, m.active = some s.1 ∨ (m.stations.erase s.1).front = m.active := by
  constructor
  · intro h s hs
    by_contra hno
    rw [not_or] at hno
    have hk := h fun l _ => l.size
    rw [checkTime_stops hs] at hk
    have ht := hk.told hno.2
    exact hno.1 (of_decide_eq_true ht)
  · intro h W
    cases hf : m.firstExpired time with
    | none =>
      rw [checkTime_none hf]
      exact Kept.refl m
    | some s =>
      obtain ⟨hs, hx⟩ := firstExpired_some hf
      obtain ⟨n, place, heq⟩ := checkTime_some (W := W) hf
      rw [heq]
      exact Kept.erase hs hx (h s hf) (expire_kept rfl)

/-- A refreshes, B is active and refreshes, and C expires: A becomes active, and nothing is told. -/
theorem selection_lost : ¬ ∀ (nazwa : List UInt8) (es : List MenuEvent) (m : Menu),
    Run MenuStep (Menu.init nazwa) es m → ∀ (time : ℤ) (W : Resume),
      Kept time m (m.checkTime W time) := by
  intro h
  have hk := h [] _ _ (calls_run (fun l _ => l.size) _ [.addMenu ⟨1, 1⟩ [65] 0, .addMenu ⟨2, 1⟩ [66] 0,
    .transform down, .addMenu ⟨3, 1⟩ [67] 0, .addMenu ⟨1, 1⟩ [65] 21, .addMenu ⟨2, 1⟩ [66] 21]) 22
    fun l _ => l.size
  obtain ⟨ha, -, -⟩ := hk.station 1 ⟨[66], ⟨2, 1⟩, 21⟩ rfl (NodeList.deref_eq_some.1 rfl) rfl
  exact absurd ha (by decide)

/-! ### The stations that go -/

/-- **Exactly the expired stations go**, and no iterator of an erased station is used. -/
structure Expires (W : Resume) (m : Menu) (time : ℤ) : Prop where
  exact : (m.checkTime W time).1.stations.nodes = m.stations.nodes.filter fun s => !s.2.expired time
  safe : ∀ a ∈ m.accesses W time m.stations.size 0 [], a.it ∉ a.erased

/-- Without an expired station nothing is erased. -/
theorem erased_accesses (h : ∀ s ∈ m.stations.values, s.expired time = false) {erased : List ℕ} :
    ∀ a ∈ m.accesses W time n place erased, a.erased = erased := by
  intro a ha
  cases n with
  | zero => cases ha
  | succ n =>
    rw [Menu.accesses, find_expired_none h, List.append_nil] at ha
    obtain ⟨s, -, ha⟩ := List.mem_flatMap.1 ha
    simp only [visit, List.cons_append, List.nil_append, List.mem_cons, List.not_mem_nil,
      or_false] at ha
    rcases ha with rfl | rfl | rfl
    · rfl
    · rfl
    · rfl

/-- **`station++`** after the first erasure. -/
theorem advances_erased (h : m.firstExpired time = some s) :
    ∃ a ∈ m.accesses W time m.stations.size 0 [], a.it ∈ a.erased := by
  have hsize := size_erase (firstExpired_some h).1
  obtain ⟨n, hn⟩ : ∃ n, m.stations.size = n + 1 := ⟨_, hsize.symm⟩
  refine ⟨⟨.advance, s.1, [s.1]⟩, ?_, List.mem_singleton_self _⟩
  unfold Menu.firstExpired at h
  rw [hn, Menu.accesses, List.drop_zero, h]
  exact List.mem_append_right _ (List.mem_append_right _ List.mem_cons_self)

/-- **Expiry is exact and safe** exactly if no station has expired. -/
theorem expires_iff (W : Resume) (m : Menu) (time : ℤ) :
    Expires W m time ↔ ∀ s ∈ m.stations.values, s.expired time = false := by
  constructor
  · intro h
    cases hf : m.firstExpired time with
    | none => exact firstExpired_none.1 hf
    | some s =>
      obtain ⟨a, ha, hin⟩ := advances_erased (W := W) hf
      exact absurd hin (h.safe a ha)
  · intro h
    refine ⟨?_, fun a ha => ?_⟩
    · rw [Menu.checkTime, expire_none h]
      refine (List.filter_eq_self.2 fun n hn => ?_).symm
      rw [h n.2 (List.mem_map.2 ⟨n, hn, rfl⟩)]
      rfl
    · rw [erased_accesses h a ha]
      exact List.not_mem_nil

/-- Station A has expired: the loop goes on from it. -/
theorem goes_on_from_erased : ¬ ∀ (nazwa : List UInt8) (es : List MenuEvent) (m : Menu),
    Run MenuStep (Menu.init nazwa) es m → ∀ (time : ℤ) (W : Resume), Expires W m time := by
  intro h
  have he := h [] _ _ (calls_run (fun l _ => l.size) _ [.addMenu ⟨1, 1⟩ [65] 0]) 21 fun l _ => l.size
  exact he.safe ⟨.advance, 0, [0]⟩ (List.mem_append_right _ (List.mem_append_right _ List.mem_cons_self))
    (List.mem_singleton_self 0)

/-- The stations before the one that the loop comes to have not expired, whatever goes after it. -/
theorem expire_successor (hW : ∀ l it, W l it = l.iterators.idxOf it) :
    ∀ {n place : ℕ} {m : Menu}, m.stations.size ≤ n →
      (∀ s ∈ m.stations.nodes.take place, s.2.expired time = false) →
      (m.expire W time n place).1.stations.nodes =
        m.stations.nodes.filter fun s => !s.2.expired time := by
  intro n
  induction n with
  | zero =>
    intro place m hn _
    have hnil : m.stations.nodes = [] := List.eq_nil_of_length_eq_zero (Nat.le_zero.1 hn)
    rw [Menu.expire, hnil]
    rfl
  | succ n ih =>
    intro place m hn hbefore
    rw [Menu.expire]
    cases hf : (m.stations.nodes.drop place).find? fun s => s.2.expired time with
    | none =>
      refine (List.filter_eq_self.2 fun s hs => ?_).symm
      rw [← List.take_append_drop place m.stations.nodes, List.mem_append] at hs
      rcases hs with hs | hs
      · rw [hbefore s hs]
        rfl
      · have hx := List.find?_eq_none.1 hf s hs
        rw [Bool.not_eq_true] at hx
        rw [hx]
        rfl
    | some s =>
      obtain ⟨hx, mid, post, hdrop, hmid⟩ := List.find?_eq_some_iff_append.1 hf
      -- behind the erasure the loop stands where the erased station stood
      have hnodes : m.stations.nodes = m.stations.nodes.take place ++ mid ++ s :: post := by
        rw [List.append_assoc, ← hdrop, List.take_append_drop]
      have herase := NodeList.nodes_erase hnodes
      have hsize := size_erase (List.mem_of_mem_drop (List.mem_of_find?_eq_some hf))
      dsimp only
      rw [hW, NodeList.idxOf_iterators hnodes, ih (by omega)]
      · show (m.stations.erase s.1).nodes.filter _ = _
        have hgone : ∀ pre : List (ℕ × Station), (pre ++ s :: post).filter (fun s => !s.2.expired time) =
            (pre ++ post).filter fun s => !s.2.expired time := by
          intro pre
          rw [List.filter_append, List.filter_append, List.filter_cons_of_neg (by rw [hx]; simp)]
        rw [herase, ← hgone, ← hnodes]
      · intro s' hs'
        change s' ∈ (m.stations.erase s.1).nodes.take _ at hs'
        rw [herase, List.take_left', List.mem_append] at hs'
        · rcases hs' with hs' | hs'
          · exact hbefore s' hs'
          · simpa using hmid s' hs'
        · rfl

/-- **Where the erased station still leads to the next one**, exactly the expired stations go. -/
theorem checkTime_successor (hW : ∀ l it, W l it = l.iterators.idxOf it) :
    (m.checkTime W time).1.stations.nodes = m.stations.nodes.filter fun s => !s.2.expired time :=
  expire_successor hW (le_refl _) fun s hs => by simp at hs

end SikMimuw.Receiver
