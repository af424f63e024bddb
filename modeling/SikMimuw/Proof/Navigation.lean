import SikMimuw.Proof.Menu

/-!
# The arrow keys

`transform` moves `active` around the list, with the end of the list as the place from which the
first key starts. On the places of `n` stations the keys are the steps `+ 1` and `- 1` modulo `n`.

* `StandsAt`: `active` at a place, taken modulo `n`. `StandsAt.goesDown`, `StandsAt.goesUp`: one key.
* `navigate_ok`: any keys.
-/

namespace SikMimuw.Receiver

variable {m : Menu} {z : ℤ} {buffer : List UInt8}

/-- `active` is at place `z` modulo the number of stations. -/
def StandsAt (m : Menu) (z : ℤ) : Prop :=
  m.active = m.stations.iterators[(z % m.stations.size).toNat]?

/-- The menu after some keys. -/
def Menu.press (m : Menu) (keys : List (List UInt8)) : Menu :=
  keys.foldl (fun m key => (m.transform key).1) m

theorem length_iterators (m : Menu) : m.stations.iterators.length = m.stations.size := by
  simp [NodeList.iterators, NodeList.size]

/-- The place after `z`, modulo `n`. -/
theorem emod_succ {n : ℤ} (hn : 0 < n) : (z + 1) % n = if z % n + 1 = n then 0 else z % n + 1 := by
  have hlt := Int.emod_lt_of_pos z hn
  have hpos := Int.emod_nonneg z (ne_of_gt hn)
  rw [← Int.emod_add_emod]
  split
  · rename_i h
    rw [h, Int.emod_self]
  · exact Int.emod_eq_of_lt (by omega) (by omega)

/-- The place before `z`, modulo `n`. -/
theorem emod_pred {n : ℤ} (hn : 0 < n) : (z - 1) % n = if z % n = 0 then n - 1 else z % n - 1 := by
  have hlt := Int.emod_lt_of_pos z hn
  have hpos := Int.emod_nonneg z (ne_of_gt hn)
  rw [← Int.emod_sub_emod]
  split
  · rename_i h
    have hback := Int.add_emod_right (0 - 1) n
    rw [h, ← hback]
    exact (Int.emod_eq_of_lt (by omega) (by omega)).trans (by omega)
  · exact Int.emod_eq_of_lt (by omega) (by omega)

/-- A place holds an iterator, and only one does. -/
theorem place_inj {i j : ℕ} (hi : i < m.stations.size) :
    m.stations.iterators[i]? = m.stations.iterators[j]? ↔ i = j := by
  have hnd : m.stations.iterators.Nodup := m.stations.nodup
  exact List.getElem?_inj (by rwa [length_iterators]) hnd

theorem StandsAt.ne_none (h : StandsAt m z) (hn : 2 ≤ m.stations.size) : m.active ≠ none := by
  have hlt := Int.emod_lt_of_pos z (show (0 : ℤ) < m.stations.size by omega)
  have hpos := Int.emod_nonneg z (show (m.stations.size : ℤ) ≠ 0 by omega)
  rw [h, Ne, List.getElem?_eq_none_iff, length_iterators]
  omega

theorem front_eq (m : Menu) : m.stations.front = m.stations.iterators[0]? := by
  rw [NodeList.front_eq, List.head?_eq_getElem?]

theorem last_eq (m : Menu) : m.stations.last = m.stations.iterators[m.stations.size - 1]? := by
  rw [NodeList.last, List.getLast?_eq_getElem?, length_iterators]

/-- **DOWN** goes one place on. -/
theorem StandsAt.goesDown (h : StandsAt m z) (hn : 2 ≤ m.stations.size) :
    (m.transform down).1 =
      { m with active := m.stations.iterators[((z + 1) % m.stations.size).toNat]? } := by
  have hsize : (0 : ℤ) < m.stations.size := by omega
  have hlt := Int.emod_lt_of_pos z hsize
  have hpos := Int.emod_nonneg z (ne_of_gt hsize)
  have hne := h.ne_none hn
  have hud : down.take 3 ≠ up := by decide
  unfold Menu.transform
  rw [if_neg (by omega), if_neg hud, if_pos (by rfl)]
  dsimp only
  congr 1
  rw [emod_succ hsize]
  by_cases hlast : z % m.stations.size + 1 = m.stations.size
  · have ha : m.active = m.stations.last := by
      have hi : (z % m.stations.size).toNat = m.stations.size - 1 := by omega
      rw [h, hi, last_eq]
    rw [if_pos (Or.inl ha), if_pos hlast, front_eq]
    rfl
  · have ha : ¬ (m.active = m.stations.last ∨ m.active = none) := by
      rintro (ha | ha)
      · rw [h, last_eq, place_inj (by omega)] at ha
        omega
      · exact hne ha
    obtain ⟨it, hit⟩ := Option.ne_none_iff_exists'.1 hne
    have hplace : m.stations.iterators[(z % m.stations.size).toNat]? = some it := by rw [← h, hit]
    have hi : (z % m.stations.size + 1).toNat = (z % m.stations.size).toNat + 1 := by omega
    rw [if_neg ha, if_neg hlast, hit, Option.bind_some, NodeList.next_eq hplace, hi]

/-- **UP** goes one place back. -/
theorem StandsAt.goesUp (h : StandsAt m z) (hn : 2 ≤ m.stations.size) :
    (m.transform up).1 =
      { m with active := m.stations.iterators[((z - 1) % m.stations.size).toNat]? } := by
  have hsize : (0 : ℤ) < m.stations.size := by omega
  have hlt := Int.emod_lt_of_pos z hsize
  have hpos := Int.emod_nonneg z (ne_of_gt hsize)
  have hne := h.ne_none hn
  unfold Menu.transform
  rw [if_neg (by omega), if_pos (by rfl)]
  dsimp only
  congr 1
  rw [emod_pred hsize]
  by_cases hfirst : z % m.stations.size = 0
  · have ha : m.active = m.stations.front := by
      rw [h, hfirst, front_eq]
      rfl
    have hi : ((m.stations.size : ℤ) - 1).toNat = m.stations.size - 1 := by omega
    rw [if_pos (Or.inl ha), if_pos hfirst, last_eq, hi]
  · have ha : ¬ (m.active = m.stations.front ∨ m.active = none) := by
      rintro (ha | ha)
      · rw [h, front_eq, place_inj (by omega)] at ha
        omega
      · exact hne ha
    obtain ⟨it, hit⟩ := Option.ne_none_iff_exists'.1 hne
    have hi : (z % m.stations.size - 1).toNat + 1 = (z % m.stations.size).toNat := by omega
    have hplace : m.stations.iterators[(z % m.stations.size - 1).toNat + 1]? = some it := by
      rw [hi, ← h, hit]
    rw [if_neg ha, if_neg hfirst, hit, Option.bind_some, NodeList.prev_eq hplace]

/-- **Any keys**, from place `z` on. -/
theorem StandsAt.press {keys : List (List UInt8)} (hk : ∀ key ∈ keys, key = up ∨ key = down) :
    ∀ {m : Menu} {z : ℤ}, StandsAt m z → 2 ≤ m.stations.size → m.press keys =
      { m with active := m.stations.iterators[
          ((z + keys.count down - keys.count up) % m.stations.size).toNat]? } := by
  induction keys with
  | nil =>
    intro m z h _
    simp only [List.count_nil, Nat.cast_zero, Int.add_zero, Int.sub_zero]
    rw [← h]
    rfl
  | cons key keys ih =>
    intro m z h hn
    have hrest : ∀ key ∈ keys, key = up ∨ key = down := fun k hm => hk k (List.mem_cons_of_mem _ hm)
    have hcons : m.press (key :: keys) = (m.transform key).1.press keys := rfl
    rcases hk key List.mem_cons_self with rfl | rfl
    · have hnext := ih hrest (m := (m.transform up).1) (z := z - 1)
        (by rw [h.goesUp hn]; rfl) (by rw [h.goesUp hn]; exact hn)
      have hd : (up :: keys).count down = keys.count down :=
        List.count_cons_of_ne (by decide)
      rw [hcons, hnext, h.goesUp hn, hd, List.count_cons_self]
      dsimp only
      congr 4
      push_cast
      omega
    · have hnext := ih hrest (m := (m.transform down).1) (z := z + 1)
        (by rw [h.goesDown hn]; rfl) (by rw [h.goesDown hn]; exact hn)
      have hu : (down :: keys).count up = keys.count up :=
        List.count_cons_of_ne (by decide)
      rw [hcons, hnext, h.goesDown hn, hu, List.count_cons_self]
      dsimp only
      congr 4
      push_cast
      omega

/-- **The arrow keys** move `active` around the list, from `end()` to its ends. Other bytes change
nothing. -/
theorem navigate_ok {m : Menu} (hn : 2 ≤ m.stations.size) :
    (∀ p < m.stations.size, m.active = m.stations.iterators[p]? →
      ∀ keys : List (List UInt8), (∀ key ∈ keys, key = up ∨ key = down) → m.press keys =
        { m with active := m.stations.iterators[
            (((p : ℤ) + keys.count down - keys.count up) % m.stations.size).toNat]? }) ∧
    (m.active = none →
      (m.transform down).1 = { m with active := m.stations.iterators[0]? } ∧
      (m.transform up).1 = { m with active := m.stations.iterators[m.stations.size - 1]? }) ∧
    ∀ buffer : List UInt8, buffer.length = 3 → buffer ≠ up → buffer ≠ down →
      m.transform buffer = (m, false) := by
  refine ⟨fun p hp ha keys hk => ?_, fun ha => ⟨?_, ?_⟩, fun buffer hlen hup hdown => ?_⟩
  · have hs : StandsAt m p := by
      have hmod : ((p : ℤ) % m.stations.size).toNat = p := by
        rw [← Int.natCast_mod, Int.toNat_natCast, Nat.mod_eq_of_lt hp]
      rw [StandsAt, hmod, ha]
    exact hs.press hk hn
  · have hud : down.take 3 ≠ up := by decide
    unfold Menu.transform
    rw [if_neg (by omega), if_neg hud, if_pos (by rfl), if_pos (Or.inr ha), front_eq]
  · unfold Menu.transform
    rw [if_neg (by omega), if_pos (by rfl), if_pos (Or.inr ha), last_eq]
  · have htake : buffer.take 3 = buffer := List.take_of_length_le (by omega)
    rw [← htake] at hup hdown
    exact transform_other (Or.inr ⟨hup, hdown⟩)

/-- Three stations, with the second one active: UP twice comes to the last one. -/
theorem navigate_ok_wraps : ∃ m : Menu, m.stations.size = 3 ∧ m.active = some 1 ∧
    (m.press [up, up]).active = some 2 := by
  have h := (navigate_ok (m := [.addMenu ⟨1, 1⟩ [65] 0, .addMenu ⟨2, 1⟩ [66] 0,
    .addMenu ⟨3, 1⟩ [67] 0, .transform down].foldl (Menu.call fun _ _ => 0) (Menu.init []))
    (by decide)).1 1 (by decide) rfl [up, up] (by decide)
  exact ⟨_, rfl, rfl, by rw [h]; rfl⟩

end SikMimuw.Receiver
