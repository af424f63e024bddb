import SikMimuw.Proof.Menu

/-!
# The preferred station

`add_menu` selects a station with the preferred name where it inserts one among others. The first
station of an empty menu takes another path, on which a preferred name leaves `active` at `end()`,
even if it is the station's own.

* `Prefers`: what the parameter `-n` promises. `prefers_iff`: `add_menu` keeps it exactly if the menu
  is not empty. `preferred_ok`: in every reachable menu.
-/

namespace SikMimuw.Receiver

open Lts

variable {W : Resume} {m m' : Menu} {addr : Address} {name : List UInt8} {time : ℤ}

/-- **The new station is played**: `active` designates it, and `is_active` is true. -/
def Prefers (m : Menu) (addr : Address) (name : List UInt8) (time : ℤ) : Prop :=
  ∃ it, (m.addMenu addr name time).1.active = some it ∧
    (m.addMenu addr name time).1.stations.Designates it ⟨name, addr, time⟩ ∧
    (m.addMenu addr name time).1.isActive = true

/-- The preferred name is `name`. -/
def Wants (name : List UInt8) (m : Menu) : Prop := m.preferedSet = true ∧ m.preferedName = name

theorem Wants.addMenu {nazwa : List UInt8} (h : Wants nazwa m) :
    Wants nazwa (m.addMenu addr name time).1 := by
  have hc := addMenu_case m addr name time
  generalize m.addMenu addr name time = r at hc
  cases hc with
  | first =>
    dsimp only
    split
    · exact h
    · exact h
  | known => exact h
  | new =>
    dsimp only
    split
    · exact h
    · exact h

theorem Wants.transform (h : Wants name m) (buffer : List UInt8) :
    Wants name (m.transform buffer).1 := by
  obtain ⟨active, heq⟩ := transform_eq m buffer
  rw [heq]
  exact h

/-- **A call** leaves the preference alone. -/
theorem Wants.call (h : Wants name m) (e : MenuEvent) : Wants name (m.call W e) := by
  cases e with
  | addMenu addr name time => exact h.addMenu
  | transform buffer => exact h.transform buffer
  | checkTime time => exact expire_inv (fun _ h _ _ => h) h

/-- **A new station with the preferred name** is played exactly if it is not the first one. -/
theorem prefers_iff (hv : m.Valid) (hw : Wants name m)
    (hnew : ∀ s ∈ m.stations.values, s.address ≠ addr) :
    Prefers m addr name time ↔ m.stations.values ≠ [] := by
  obtain ⟨hset, hname⟩ := hw
  unfold Prefers
  have hc := addMenu_case m addr name time
  generalize m.addMenu addr name time = r at hc
  cases hc with
  | first hnil =>
    -- `active` stays at `end()`
    have hnone : m.active = none := by
      rw [Option.eq_none_iff_forall_ne_some]
      intro it hit
      obtain ⟨s, hs⟩ := NodeList.mem_iterators.1 (hv it hit)
      have hm := hs.mem
      rw [hnil] at hm
      cases hm
    refine iff_of_false ?_ (fun hne => hne hnil)
    rintro ⟨it, hit, -⟩
    rw [if_pos hset] at hit
    change m.active = some it at hit
    rw [hnone] at hit
    cases hit
  | known hs ha => exact absurd ha (hnew _ hs)
  | new hne _ hst =>
    refine iff_of_true ⟨m.stations.fresh, ?_⟩ hne
    rw [if_pos ⟨hset, hname.symm⟩]
    subst hst
    exact ⟨rfl, NodeList.designates_insertAt.2 (Or.inr ⟨rfl, rfl⟩), rfl⟩

/-- **The preferred station over a run.** In every reachable menu, a reply of a new station with the
preferred name is played exactly if the menu is not empty. -/
theorem preferred_ok {nazwa : List UInt8} (hn : nazwa ≠ []) {es : List MenuEvent} {m : Menu}
    (h : Run MenuStep (Menu.init nazwa) es m) {addr : Address}
    (hnew : ∀ s ∈ m.stations.values, s.address ≠ addr) (time : ℤ) :
    Prefers m addr nazwa time ↔ m.stations.values ≠ [] := by
  have hinit : Wants nazwa (Menu.init nazwa) := ⟨decide_eq_true hn, rfl⟩
  have hinv : m.Valid ∧ Wants nazwa m := by
    refine h.inv (I := fun m => m.Valid ∧ Wants nazwa m) ⟨fun _ hit => (by cases hit), hinit⟩ ?_
    rintro m e m' ⟨hv, hw⟩ ⟨W, rfl⟩
    exact ⟨hv.call e, hw.call e⟩
  exact prefers_iff hinv.1 hinv.2 hnew

/-- Station A has come, and B is preferred. -/
theorem preferred_ok_second : ∃ m, m.stations.values = [⟨[65], ⟨1, 1⟩, 0⟩] ∧
    Prefers m ⟨2, 1⟩ [66] 5 := by
  have h0 : Run MenuStep (Menu.init [66]) [] _ := Run.nil
  have h1 := h0.snoc (e := .addMenu ⟨1, 1⟩ [65] 0) ⟨fun _ _ => 0, rfl⟩
  refine ⟨_, rfl, (preferred_ok (by decide) h1 ?_ 5).2 (by decide)⟩
  decide

/-- Station B is preferred, and is the first to come. -/
theorem first_not_played : ¬ ∀ (nazwa : List UInt8) (es : List MenuEvent) (m : Menu),
    nazwa ≠ [] → Run MenuStep (Menu.init nazwa) es m →
      ∀ (addr : Address) (time : ℤ), (∀ s ∈ m.stations.values, s.address ≠ addr) →
        Prefers m addr nazwa time := by
  intro h
  obtain ⟨it, hit, -⟩ := h [66] [] _ (by decide) Run.nil ⟨2, 1⟩ 0 (by decide)
  cases hit

end SikMimuw.Receiver
