import SikMimuw.Lib.Run
import SikMimuw.Model.Menu

/-!
# The menu's selection

`is_active` and `active` are set in different branches. Two of them move `active` from `end()` to
a station and leave `is_active` false: an arrow key, and a station that expires while others
remain. Then the menu marks a station that `main` does not play.

* `addMenu_case`, `addMenu_list`: what `add_menu` does. `transform_active`, `transform_other`: what a
  key does. `expire_inv`: what every erasure keeps, the loop of `check_time` keeps.
* `Selected`: the invariant. `Selected.addMenu`, `Selected.transform` and `Selected.expire` keep it,
  the last two where `is_active` is true, or no more than one station is there.
* `menu_ok`: so do runs of such calls, and exactly these calls keep it.
-/

namespace SikMimuw.Receiver

open Lts

variable {W : Resume} {m m' : Menu} {time : ℤ} {n place : ℕ}

/-- **`is_active`** tells whether `active` designates a station. -/
def MenuOk (m : Menu) : Prop :=
  m.isActive = true ↔ ∃ it s, m.active = some it ∧ m.stations.Designates it s

/-- The call does not move `active` away from `end()` while `is_active` is false. -/
def Selects (m : Menu) : MenuEvent → Prop
  | .addMenu .. => True
  | .transform buffer =>
    m.isActive = true ∨ m.stations.size < 2 ∨ buffer.take 3 ≠ up ∧ buffer.take 3 ≠ down
  | .checkTime time =>
    m.isActive = true ∨ m.stations.size ≤ 1 ∨ ∀ s ∈ m.stations.values, s.expired time = false

/-- **The invariant**: `active` is `end()` or designates a station, and `is_active` tells which. -/
structure Selected (m : Menu) : Prop where
  flag : m.isActive = m.active.isSome
  valid : ∀ it, m.active = some it → it ∈ m.stations.iterators

theorem Selected.menuOk (h : Selected m) : MenuOk m := by
  unfold MenuOk
  rw [h.flag, Option.isSome_iff_exists]
  constructor
  · rintro ⟨it, hit⟩
    obtain ⟨s, hs⟩ := NodeList.mem_iterators.1 (h.valid it hit)
    exact ⟨it, s, hit, hs⟩
  · rintro ⟨it, -, hit, -⟩
    exact ⟨it, hit⟩

/-- A selected station with `is_active` false. -/
theorem not_menuOk {it : ℕ} (hf : m.isActive = false) (ha : m.active = some it)
    (hm : it ∈ m.stations.iterators) : ¬ MenuOk m := by
  intro h
  obtain ⟨s, hs⟩ := NodeList.mem_iterators.1 hm
  rw [h.2 ⟨it, s, ha, hs⟩] at hf
  cases hf

theorem init_selected (nazwa : List UInt8) : Selected (Menu.init nazwa) :=
  ⟨rfl, fun _ h => by cases h⟩

/-- `active` is `end()` or designates a station. -/
def Menu.Valid (m : Menu) : Prop := ∀ it, m.active = some it → it ∈ m.stations.iterators

/-- A station after a reply of `addr`. -/
def Station.reply (addr : Address) (time : ℤ) (s : Station) : Station :=
  if s.address = addr then { s with time := time } else s

@[simp] theorem Station.reply_name (addr : Address) (time : ℤ) (s : Station) :
    (s.reply addr time).name = s.name := by
  unfold Station.reply
  split
  · rfl
  · rfl

@[simp] theorem Station.reply_address (addr : Address) (time : ℤ) (s : Station) :
    (s.reply addr time).address = s.address := by
  unfold Station.reply
  split
  · rfl
  · rfl

/-- All that `add_menu` can do. -/
inductive AddCase (m : Menu) (addr : Address) (name : List UInt8) (time : ℤ) : Menu × Bool → Prop
  | first (hnil : m.stations.values = []) :
      AddCase m addr name time
        (if m.preferedSet then { m with stations := m.stations.pushBack ⟨name, addr, time⟩ }
          else { m with
            stations := m.stations.pushBack ⟨name, addr, time⟩
            active := (m.stations.pushBack ⟨name, addr, time⟩).front
            isActive := true }, true)
  | known {s : Station} (hs : s ∈ m.stations.values) (ha : s.address = addr) :
      AddCase m addr name time
        ({ m with stations := m.stations.map (Station.reply addr time) }, false)
  | new (hne : m.stations.values ≠ []) (hnew : ∀ s ∈ m.stations.values, s.address ≠ addr)
      {stations : NodeList Station}
      (hst : stations = m.stations.insertAt
        (m.stations.values.findIdx fun s => name < s.name) ⟨name, addr, time⟩) :
      AddCase m addr name time
        (if m.preferedSet ∧ name = m.preferedName then
          { m with stations := stations, active := some m.stations.fresh, isActive := true }
          else { m with stations := stations }, true)

/-- **One call of `add_menu`.** -/
theorem addMenu_case (m : Menu) (addr : Address) (name : List UInt8) (time : ℤ) :
    AddCase m addr name time (m.addMenu addr name time) := by
  unfold Menu.addMenu
  split
  · exact .first ‹_›
  · rename_i hne
    split
    · rename_i hany
      obtain ⟨s, hs, ha⟩ := List.any_eq_true.1 hany
      exact .known hs (by simpa using ha)
    · rename_i hany
      refine .new hne (fun s hs ha => hany ?_) rfl
      exact List.any_eq_true.2 ⟨s, hs, by simpa using ha⟩

/-- What `add_menu` does to the list. Into an empty one it inserts too. -/
inductive ListCase (m : Menu) (addr : Address) (name : List UInt8) (time : ℤ) :
    NodeList Station → Bool → Prop
  | known {s : Station} (hs : s ∈ m.stations.values) (ha : s.address = addr) :
      ListCase m addr name time (m.stations.map (Station.reply addr time)) false
  | new (hnew : ∀ s ∈ m.stations.values, s.address ≠ addr) :
      ListCase m addr name time (m.stations.insertAt
        (m.stations.values.findIdx fun s => name < s.name) ⟨name, addr, time⟩) true

theorem addMenu_list (m : Menu) (addr : Address) (name : List UInt8) (time : ℤ) :
    ListCase m addr name time (m.addMenu addr name time).1.stations
      (m.addMenu addr name time).2 := by
  have hc := addMenu_case m addr name time
  generalize m.addMenu addr name time = r at hc
  cases hc with
  | first hnil =>
    have hnodes : m.stations.nodes = [] := List.map_eq_nil_iff.1 hnil
    have hnew : ∀ s ∈ m.stations.values, s.address ≠ addr := by simp [hnil]
    have hsame : m.stations.pushBack ⟨name, addr, time⟩ = m.stations.insertAt
        (m.stations.values.findIdx fun s => name < s.name) ⟨name, addr, time⟩ :=
      NodeList.nodes_inj (by simp [NodeList.pushBack, NodeList.insertAt, hnodes]) rfl
    have hlist : ListCase m addr name time (m.stations.pushBack ⟨name, addr, time⟩) true := by
      rw [hsame]
      exact .new hnew
    dsimp only
    split
    · exact hlist
    · exact hlist
  | known hs ha => exact .known hs ha
  | new _ hnew hst =>
    subst hst
    dsimp only
    split
    · exact .new hnew
    · exact .new hnew

theorem Menu.Valid.addMenu (h : m.Valid) (addr : Address) (name : List UInt8) (time : ℤ) :
    (m.addMenu addr name time).1.Valid := by
  have hc := addMenu_case m addr name time
  generalize m.addMenu addr name time = r at hc
  cases hc with
  | first =>
    dsimp only
    split
    · intro it hit
      obtain ⟨s, hs⟩ := NodeList.mem_iterators.1 (h it hit)
      exact NodeList.mem_iterators.2 ⟨s, NodeList.designates_pushBack.2 (Or.inl hs)⟩
    · exact fun it hit => NodeList.mem_of_front hit
  | known =>
    intro it hit
    obtain ⟨s, hs⟩ := NodeList.mem_iterators.1 (h it hit)
    exact NodeList.mem_iterators.2 ⟨_, NodeList.designates_map.2 ⟨s, hs, rfl⟩⟩
  | new hne hnew hst =>
    subst hst
    dsimp only
    split
    · intro it hit
      obtain rfl := Option.some.inj hit
      exact NodeList.mem_iterators.2 ⟨_, NodeList.designates_insertAt.2 (Or.inr ⟨rfl, rfl⟩)⟩
    · intro it hit
      obtain ⟨s, hs⟩ := NodeList.mem_iterators.1 (h it hit)
      exact NodeList.mem_iterators.2 ⟨s, NodeList.designates_insertAt.2 (Or.inl hs)⟩

theorem Selected.addMenu (h : Selected m) (addr : Address) (name : List UInt8) (time : ℤ) :
    Selected (m.addMenu addr name time).1 := by
  have hv : m.Valid := h.valid
  refine ⟨?_, hv.addMenu addr name time⟩
  have hc := addMenu_case m addr name time
  generalize m.addMenu addr name time = r at hc
  cases hc with
  | first =>
    dsimp only
    split
    · exact h.flag
    · have hne : (m.stations.pushBack ⟨name, addr, time⟩).front ≠ none := by
        rw [Ne, NodeList.front_eq_none]
        simp [NodeList.pushBack]
      exact (Option.isSome_iff_ne_none.2 hne).symm
  | known => exact h.flag
  | new =>
    dsimp only
    split
    · rfl
    · exact h.flag

theorem nodes_ne_nil (h : ¬ m.stations.size < 2) : m.stations.nodes ≠ [] := by
  intro h0
  simp [NodeList.size, h0] at h

/-- `transform` moves `active` to a station. -/
theorem transform_active (h : m.Valid) (hn : ¬ m.stations.size < 2) {buffer : List UInt8}
    (hb : buffer.take 3 = up ∨ buffer.take 3 = down) :
    ∃ it ∈ m.stations.iterators, (m.transform buffer).1 = { m with active := some it } := by
  have hne := nodes_ne_nil hn
  unfold Menu.transform
  rw [if_neg hn]
  by_cases hup : buffer.take 3 = up
  · rw [if_pos hup]
    dsimp only
    split
    · obtain ⟨it, hit⟩ := Option.ne_none_iff_exists'.1 (mt NodeList.last_eq_none.1 hne)
      exact ⟨it, NodeList.mem_of_last hit, by rw [hit]⟩
    · rename_i hmid
      rw [not_or] at hmid
      obtain ⟨a, ha⟩ := Option.ne_none_iff_exists'.1 hmid.2
      have hp := NodeList.prev_ne_none (h a ha) (by rw [← ha]; exact fun he => hmid.1 he.symm)
      obtain ⟨it, hit⟩ := Option.ne_none_iff_exists'.1 hp
      exact ⟨it, NodeList.mem_of_prev hit, by rw [ha, Option.bind_some, hit]⟩
  · have hdown := hb.resolve_left hup
    rw [if_neg hup, if_pos hdown]
    dsimp only
    split
    · obtain ⟨it, hit⟩ := Option.ne_none_iff_exists'.1 (mt NodeList.front_eq_none.1 hne)
      exact ⟨it, NodeList.mem_of_front hit, by rw [hit]⟩
    · rename_i hmid
      rw [not_or] at hmid
      obtain ⟨a, ha⟩ := Option.ne_none_iff_exists'.1 hmid.2
      have hp := NodeList.next_ne_none (h a ha) (by rw [← ha]; exact fun he => hmid.1 he.symm)
      obtain ⟨it, hit⟩ := Option.ne_none_iff_exists'.1 hp
      exact ⟨it, NodeList.mem_of_next hit, by rw [ha, Option.bind_some, hit]⟩

/-- `transform` leaves the menu alone. -/
theorem transform_other {buffer : List UInt8}
    (h : m.stations.size < 2 ∨ buffer.take 3 ≠ up ∧ buffer.take 3 ≠ down) :
    m.transform buffer = (m, false) := by
  unfold Menu.transform
  rcases h with h | ⟨hup, hdown⟩
  · rw [if_pos h]
  · by_cases hn : m.stations.size < 2
    · rw [if_pos hn]
    · rw [if_neg hn, if_neg hup, if_neg hdown]

/-- `transform` changes `active` alone. -/
theorem transform_eq (m : Menu) (buffer : List UInt8) :
    ∃ active, (m.transform buffer).1 = { m with active := active } := by
  unfold Menu.transform
  split
  · exact ⟨_, rfl⟩
  · split
    · exact ⟨_, rfl⟩
    · split
      · exact ⟨_, rfl⟩
      · exact ⟨_, rfl⟩

theorem Menu.Valid.transform (h : m.Valid) (buffer : List UInt8) : (m.transform buffer).1.Valid := by
  by_cases hother : m.stations.size < 2 ∨ buffer.take 3 ≠ up ∧ buffer.take 3 ≠ down
  · rw [transform_other hother]
    exact h
  · rw [not_or, not_and_or, not_not, not_not] at hother
    obtain ⟨it, hit, heq⟩ := transform_active h hother.1 hother.2
    rw [heq]
    intro it' hit'
    obtain rfl := Option.some.inj hit'
    exact hit

/-- After an erasure `active` is the front. -/
theorem erase_valid (m : Menu) (station : ℕ) : (m.erase station).Valid :=
  fun _ hit => NodeList.mem_of_front hit

/-- **A run of the loop** keeps what every erasure keeps. -/
theorem expire_inv {P : Menu → Prop} (herase : ∀ m, P m → ∀ s ∈ m.stations.nodes, P (m.erase s.1)) :
    ∀ {n place : ℕ} {m : Menu}, P m → P (m.expire W time n place).1 := by
  intro n
  induction n with
  | zero => intro place m h; exact h
  | succ n ih =>
    intro place m h
    rw [Menu.expire]
    cases hf : (m.stations.nodes.drop place).find? fun s => s.2.expired time with
    | none => exact h
    | some s => exact ih (herase m h s (List.mem_of_mem_drop (List.mem_of_find?_eq_some hf)))

/-- **Every call** keeps `active` valid. -/
theorem Menu.Valid.call (h : m.Valid) (e : MenuEvent) : (m.call W e).Valid := by
  cases e with
  | addMenu addr name time => exact h.addMenu addr name time
  | transform buffer => exact h.transform buffer
  | checkTime time => exact expire_inv (fun m _ s _ => erase_valid m s.1) h

theorem Selected.transform (h : Selected m) {buffer : List UInt8}
    (hs : Selects m (.transform buffer)) : Selected (m.transform buffer).1 := by
  by_cases hother : m.stations.size < 2 ∨ buffer.take 3 ≠ up ∧ buffer.take 3 ≠ down
  · rw [transform_other hother]
    exact h
  · have ha : m.isActive = true := hs.resolve_right hother
    rw [not_or, not_and_or, not_not, not_not] at hother
    obtain ⟨it, hit, heq⟩ := transform_active h.valid hother.1 hother.2
    rw [heq]
    refine ⟨ha, fun it' hit' => ?_⟩
    obtain rfl := Option.some.inj hit'
    exact hit

/-- A station goes, while `is_active` is true or no other is there. -/
theorem Selected.erase {s : ℕ × Station} (hm : s ∈ m.stations.nodes)
    (hs : m.isActive = true ∨ m.stations.size ≤ 1) :
    Selected (m.erase s.1) ∧ ((m.erase s.1).isActive = true ∨ (m.erase s.1).stations.size ≤ 1) := by
  have hsize := size_erase hm
  have hnil : (m.stations.erase s.1).front = none → (m.erase s.1).stations.size = 0 := by
    intro h0
    show (m.stations.erase s.1).nodes.length = 0
    rw [NodeList.front_eq_none.1 h0]
    rfl
  refine ⟨⟨?_, fun it hit => NodeList.mem_of_front hit⟩, ?_⟩
  · show (m.isActive && (m.stations.erase s.1).front.isSome) = (m.stations.erase s.1).front.isSome
    rcases hs with ha | hle
    · rw [ha, Bool.true_and]
    · have h0 : (m.stations.erase s.1).front = none := by
        rw [NodeList.front_eq_none]
        exact List.eq_nil_of_length_eq_zero (by show (m.erase s.1).stations.size = 0; omega)
      rw [h0, Option.isSome_none, Bool.and_false]
  · by_cases h0 : (m.stations.erase s.1).front = none
    · rw [hnil h0]
      exact Or.inr (Nat.zero_le _)
    · rcases hs with ha | hle
      · refine Or.inl ?_
        show (m.isActive && (m.stations.erase s.1).front.isSome) = true
        rw [ha, Option.isSome_iff_ne_none.2 h0]
        rfl
      · exact Or.inr (by omega)

theorem Selected.expire (h : Selected m) (hs : m.isActive = true ∨ m.stations.size ≤ 1) :
    Selected (m.expire W time n place).1 := by
  refine (expire_inv (P := fun m => Selected m ∧ (m.isActive = true ∨ m.stations.size ≤ 1)) ?_
    ⟨h, hs⟩).1
  exact fun m h s hm => Selected.erase hm h.2

/-- No place leads to an expired station. -/
theorem find_expired_none (h : ∀ s ∈ m.stations.values, s.expired time = false) (place : ℕ) :
    ((m.stations.nodes.drop place).find? fun s => s.2.expired time) = none := by
  rw [List.find?_eq_none]
  intro s hs
  have hx := h s.2 (List.mem_map_of_mem (List.mem_of_mem_drop hs))
  rw [hx]
  exact Bool.false_ne_true

/-- Without an expired station the loop does nothing. -/
theorem expire_none (h : ∀ s ∈ m.stations.values, s.expired time = false) :
    m.expire W time n place = (m, false) := by
  cases n with
  | zero => rfl
  | succ n => rw [Menu.expire, find_expired_none h]

theorem Selected.checkTime (h : Selected m) (hs : Selects m (.checkTime time)) :
    Selected (m.checkTime W time).1 := by
  rcases hs with ha | hle | hnone
  · exact h.expire (Or.inl ha)
  · exact h.expire (Or.inr hle)
  · rw [Menu.checkTime, expire_none hnone]
    exact h

/-- **A call** that keeps the selection. -/
theorem Selected.call {e : MenuEvent} (h : Selected m) (hs : Selects m e) : Selected (m.call W e) := by
  cases e with
  | addMenu addr name time => exact h.addMenu addr name time
  | transform buffer => exact h.transform hs
  | checkTime time => exact h.checkTime hs

/-- The station that `check_time` comes to first. -/
def Menu.firstExpired (m : Menu) (time : ℤ) : Option (ℕ × Station) :=
  m.stations.nodes.find? fun s => s.2.expired time

theorem firstExpired_none :
    m.firstExpired time = none ↔ ∀ s ∈ m.stations.values, s.expired time = false := by
  refine ⟨fun h s hs => ?_, fun h => find_expired_none h 0⟩
  obtain ⟨n, hn, rfl⟩ := List.mem_map.1 hs
  have hx := List.find?_eq_none.1 h n hn
  exact Bool.eq_false_of_not_eq_true hx

theorem firstExpired_some {s : ℕ × Station} (h : m.firstExpired time = some s) :
    s ∈ m.stations.nodes ∧ s.2.expired time = true :=
  ⟨List.mem_of_find?_eq_some h, by simpa using List.find?_some h⟩

/-- `check_time` may stop after the first station. -/
theorem checkTime_stops {s : ℕ × Station} (h : m.firstExpired time = some s) :
    m.checkTime (fun l _ => l.size) time = (m.erase s.1, decide (m.active = some s.1)) := by
  have hsize := size_erase (firstExpired_some h).1
  obtain ⟨k, hk⟩ : ∃ k, m.stations.size = k + 1 := ⟨_, hsize.symm⟩
  have hstop : (m.erase s.1).expire (fun l _ => l.size) time k m.stations.size =
      (m.erase s.1, false) := by
    have hd : (m.erase s.1).stations.nodes.drop m.stations.size = [] := by
      rw [List.drop_eq_nil_iff]
      show (m.erase s.1).stations.size ≤ m.stations.size
      omega
    cases k with
    | zero => rfl
    | succ k =>
      rw [Menu.expire, hd]
      rfl
  unfold Menu.firstExpired at h
  unfold Menu.checkTime
  rw [hk, Menu.expire, List.drop_zero, h]
  dsimp only
  rw [hstop, Bool.or_false]

/-- An expired station goes, others remain, and the walk ends there. -/
theorem checkTime_breaks (ha : m.isActive = false) (hn : ¬ m.stations.size ≤ 1)
    (hs : ¬ ∀ s ∈ m.stations.values, s.expired time = false) :
    ¬ MenuOk (m.checkTime (fun l _ => l.size) time).1 := by
  cases hf : m.firstExpired time with
  | none => exact absurd (firstExpired_none.1 hf) hs
  | some s =>
    have hsize := size_erase (firstExpired_some hf).1
    rw [checkTime_stops hf]
    -- what remains is selected, and the flag is not set
    have hne : (m.erase s.1).stations.front ≠ none := by
      rw [Ne, NodeList.front_eq_none]
      intro h0
      have hz : (m.erase s.1).stations.size = 0 := by rw [NodeList.size, h0]; rfl
      omega
    obtain ⟨it, hit⟩ := Option.ne_none_iff_exists'.1 hne
    refine not_menuOk ?_ hit (NodeList.mem_of_front hit)
    show (m.isActive && _) = false
    rw [ha, Bool.false_and]

/-- **A call keeps the selection** exactly if it does not move `active` behind the flag. -/
theorem Selected.call_iff {e : MenuEvent} (h : Selected m) :
    (∀ m', MenuStep m e m' → MenuOk m') ↔ Selects m e := by
  constructor
  · intro hok
    by_contra hs
    cases e with
    | addMenu => exact hs trivial
    | transform buffer =>
      simp only [Selects, not_or, not_and_or, not_not] at hs
      obtain ⟨ha, hn, hb⟩ := hs
      rw [Bool.not_eq_true] at ha
      obtain ⟨it, hit, heq⟩ := transform_active h.valid hn hb
      have hc : MenuOk (m.transform buffer).1 := hok _ ⟨fun _ _ => 0, rfl⟩
      rw [heq] at hc
      exact not_menuOk (m := { m with active := some it }) ha rfl hit hc
    | checkTime time =>
      simp only [Selects, not_or] at hs
      obtain ⟨ha, hn, hx⟩ := hs
      exact checkTime_breaks (Bool.not_eq_true _ ▸ ha) hn hx (hok _ ⟨_, rfl⟩)
  · rintro hs m' ⟨W, rfl⟩
    exact (h.call hs).menuOk

/-- **The selection over a run.** In every run of such calls `is_active` tells whether `active`
designates a station, and the next call keeps that, wherever it goes on, exactly if it is one. -/
theorem menu_ok {nazwa : List UInt8} {es : List MenuEvent} {m : Menu}
    (h : Run (Guarded MenuStep Selects) (Menu.init nazwa) es m) :
    MenuOk m ∧ ∀ e, (∀ m', MenuStep m e m' → MenuOk m') ↔ Selects m e := by
  have hs : Selected m := by
    refine h.inv (init_selected nazwa) fun m e m' hI hst => ?_
    obtain ⟨⟨W, rfl⟩, hs⟩ := hst
    exact hI.call hs
  exact ⟨hs.menuOk, fun e => hs.call_iff⟩

/-- The calls of a list, in its order. -/
theorem calls_run (W : Resume) (m : Menu) (es : List MenuEvent) :
    Run MenuStep m es (es.foldl (Menu.call W) m) := by
  induction es generalizing m with
  | nil => exact Run.nil
  | cons e es ih =>
    have h1 : Run MenuStep m [e] (m.call W e) := Run.single ⟨W, rfl⟩
    exact h1.append (ih _)

theorem guarded_call {e : MenuEvent} (hs : Selects m e) :
    Guarded MenuStep Selects m e (m.call (fun _ _ => 0) e) := ⟨⟨_, rfl⟩, hs⟩

/-- Station B is preferred: it becomes active when it comes, and an arrow key moves on to A. -/
theorem menu_ok_prefered : ∃ m, m.active = some 0 ∧ m.isActive = true ∧ MenuOk m := by
  have h0 : Run (Guarded MenuStep Selects) (Menu.init [66]) [] _ := Run.nil
  have h1 := h0.snoc (guarded_call (e := .addMenu ⟨1, 1⟩ [65] 0) trivial)
  have h2 := h1.snoc (guarded_call (e := .addMenu ⟨2, 1⟩ [66] 0) trivial)
  have h3 := h2.snoc (guarded_call (e := .transform up) (Or.inl rfl))
  exact ⟨_, rfl, rfl, (menu_ok h3).1⟩

/-- Station C is preferred and has not come: an arrow key marks one of the others, and `is_active`
stays false. -/
theorem marked_not_active : ¬ ∀ (nazwa : List UInt8) (es : List MenuEvent) (m : Menu),
    Run MenuStep (Menu.init nazwa) es m → MenuOk m := by
  intro h
  have h0 : Run MenuStep (Menu.init [67]) [] _ := Run.nil
  have h1 := h0.snoc (e := .addMenu ⟨1, 1⟩ [65] 0) ⟨fun _ _ => 0, rfl⟩
  have h2 := h1.snoc (e := .addMenu ⟨2, 1⟩ [66] 0) ⟨fun _ _ => 0, rfl⟩
  have h3 := h2.snoc (e := .transform up) ⟨fun _ _ => 0, rfl⟩
  have hok := (h _ _ _ h3).2 ⟨1, ⟨[66], ⟨2, 1⟩, 0⟩, rfl, NodeList.deref_eq_some.1 rfl⟩
  cases hok

end SikMimuw.Receiver
