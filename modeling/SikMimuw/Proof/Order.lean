import SikMimuw.Proof.Menu

/-!
# The order of the stations

`add_menu` puts a new station before the first one with a greater name, so the list is sorted by
name, and stations of one name stand in the order in which they were discovered. It knows a station
by its address, which only one station has.

A node's address is its place in the order of discovery: `fresh` counts the stations that were added.

* `Ordered`: the invariant. `Ordered.insert`: a new station keeps it. `Ordered.step`: so does every
  call, `check_time` taking away any stations.
* `Ordered.refresh`: a reply of a station that is known. `discovered`: one of a new station.
* `order_ok`: all of it, over every run. `MenuStep.listStep`: the receiver's runs are among them.
-/

namespace SikMimuw.Receiver

open Lts

variable {W : Resume} {m m' : Menu} {addr : Address} {name : List UInt8} {time : ℤ}
  {n place : ℕ}

/-- A call, in which `check_time` may take away any stations. -/
inductive ListStep : Menu → MenuEvent → Menu → Prop
  | addMenu {m : Menu} (addr : Address) (name : List UInt8) (time : ℤ) :
      ListStep m (.addMenu addr name time) (m.addMenu addr name time).1
  | transform {m : Menu} (buffer : List UInt8) :
      ListStep m (.transform buffer) (m.transform buffer).1
  | checkTime {m m' : Menu} (time : ℤ) (hsub : m'.stations.nodes.Sublist m.stations.nodes)
      (hfresh : m'.stations.fresh = m.stations.fresh) : ListStep m (.checkTime time) m'

/-- Sorted by name, and in one name by discovery. -/
def Before (x y : ℕ × Station) : Prop :=
  x.2.name < y.2.name ∨ x.2.name = y.2.name ∧ x.1 < y.1

/-- **The invariant**: the list is sorted, and no two stations have the same address. -/
structure Ordered (m : Menu) : Prop where
  sorted : m.stations.nodes.Pairwise Before
  distinct : (m.stations.values.map Station.address).Nodup

theorem init_ordered (nazwa : List UInt8) : Ordered (Menu.init nazwa) :=
  ⟨List.Pairwise.nil, List.nodup_nil⟩

/-- **A new station** before the first one with a greater name. -/
theorem Ordered.insert (h : Ordered m) (hnew : ∀ s ∈ m.stations.values, s.address ≠ addr)
    {l : NodeList Station} (hl : l = m.stations.insertAt
      (m.stations.values.findIdx fun s => name < s.name) ⟨name, addr, time⟩) :
    l.nodes.Pairwise Before ∧ (l.values.map Station.address).Nodup := by
  have hidx : m.stations.values.findIdx (fun s => name < s.name) =
      m.stations.nodes.findIdx fun n => name < n.2.name := by
    unfold NodeList.values
    rw [List.findIdx_map]
    rfl
  have hle : ∀ x ∈ m.stations.nodes.take (m.stations.nodes.findIdx fun n => name < n.2.name),
      x.2.name ≤ name := by
    intro x hx
    have hnot := mem_take_findIdx hx
    exact of_decide_eq_false hnot
  have hgt : ∀ y ∈ m.stations.nodes.drop (m.stations.nodes.findIdx fun n => name < n.2.name),
      name < y.2.name := by
    intro y hy
    refine of_decide_eq_true (mem_drop_findIdx (r := Before) ?_ h.sorted hy)
    rintro x y (hxy | ⟨hxy, -⟩) hx
    · exact decide_eq_true (List.lt_trans (of_decide_eq_true hx) hxy)
    · rw [← hxy]
      exact hx
  rw [hidx] at hl
  subst hl
  unfold NodeList.values NodeList.insertAt
  dsimp only
  generalize (m.stations.nodes.findIdx fun n => name < n.2.name) = k at hle hgt
  constructor
  · rw [List.pairwise_append, List.pairwise_cons]
    refine ⟨h.sorted.sublist (List.take_sublist _ _),
      ⟨fun y hy => Or.inl (hgt y hy), h.sorted.sublist (List.drop_sublist _ _)⟩, ?_⟩
    intro x hx y hy
    rcases List.mem_cons.1 hy with rfl | hy
    -- a station before the new one has a smaller name, or the same and was discovered before
    · rcases List.le_iff_lt_or_eq.1 (hle x hx) with hlt | heq
      · exact Or.inl hlt
      · exact Or.inr ⟨heq, m.stations.bound x (List.mem_of_mem_take hx)⟩
    · exact Or.inl (List.lt_of_le_of_lt (hle x hx) (hgt y hy))
  · have hd := h.distinct
    unfold NodeList.values at hd
    rw [List.map_map] at hd ⊢
    rw [(List.perm_middle.map _).nodup_iff, List.take_append_drop, List.map_cons, List.nodup_cons]
    refine ⟨fun hm => ?_, hd⟩
    obtain ⟨x, hx, ha⟩ := List.mem_map.1 hm
    exact hnew x.2 (List.mem_map.2 ⟨x, hx, rfl⟩) ha

/-- New times for the stations of an address. -/
theorem Ordered.known (h : Ordered m) {l : NodeList Station}
    (hl : l = m.stations.map (Station.reply addr time)) :
    l.nodes.Pairwise Before ∧ (l.values.map Station.address).Nodup := by
  subst hl
  constructor
  · unfold NodeList.map
    dsimp only
    rw [List.pairwise_map]
    refine h.sorted.imp fun {x y} hxy => ?_
    unfold Before
    rw [Station.reply_name, Station.reply_name]
    exact hxy
  · have haddr : Station.address ∘ Station.reply addr time = Station.address := by
      funext s
      exact s.reply_address addr time
    rw [NodeList.values_map, List.map_map, haddr]
    exact h.distinct

theorem Ordered.addMenu (h : Ordered m) (addr : Address) (name : List UInt8) (time : ℤ) :
    Ordered (m.addMenu addr name time).1 := by
  suffices hlist : (m.addMenu addr name time).1.stations.nodes.Pairwise Before ∧
      ((m.addMenu addr name time).1.stations.values.map Station.address).Nodup from
    ⟨hlist.1, hlist.2⟩
  have hc := addMenu_list m addr name time
  generalize (m.addMenu addr name time).1.stations = l at hc
  generalize (m.addMenu addr name time).2 = told at hc
  cases hc with
  | known => exact h.known rfl
  | new hnew => exact h.insert hnew rfl

/-- **A call** keeps the order. -/
theorem Ordered.step {e : MenuEvent} (h : Ordered m) (hst : ListStep m e m') : Ordered m' := by
  cases hst with
  | addMenu addr name time => exact h.addMenu addr name time
  | transform buffer =>
    obtain ⟨active, heq⟩ := transform_eq m buffer
    rw [heq]
    exact ⟨h.sorted, h.distinct⟩
  | checkTime time hsub _ =>
    exact ⟨h.sorted.sublist hsub, h.distinct.sublist ((hsub.map _).map _)⟩

/-- **A reply of a known station** changes its time. -/
theorem Ordered.refresh (h : Ordered m) {it : ℕ} {s : Station} (hs : m.stations.Designates it s)
    (name : List UInt8) (time : ℤ) : m.addMenu s.address name time =
      ({ m with stations := m.stations.modify it fun s => { s with time := time } }, false) := by
  have hc := addMenu_case m s.address name time
  generalize m.addMenu s.address name time = r at hc
  cases hc with
  | first hnil =>
    have hm := hs.mem
    rw [hnil] at hm
    cases hm
  | new _ hnew => exact absurd rfl (hnew s hs.mem)
  | known =>
    -- no other node has a station with this address
    have hnodes : (m.stations.map (Station.reply s.address time)).nodes =
        (m.stations.modify it fun s => { s with time := time }).nodes := by
      refine List.map_congr_left fun x hx => ?_
      have hd := h.distinct
      unfold NodeList.values at hd
      rw [List.map_map] at hd
      unfold Station.reply
      by_cases ha : x.2.address = s.address
      · obtain rfl := List.inj_on_of_nodup_map hd hx hs ha
        rw [if_pos rfl, if_pos rfl]
      · rw [if_neg ha, if_neg]
        rintro rfl
        have hsame : x.2 = s := NodeList.Designates.unique hx hs
        exact ha (congrArg Station.address hsame)
    rw [NodeList.nodes_inj hnodes rfl]

/-- **A discovery** takes the next number. -/
theorem discovered (h : (m.addMenu addr name time).2 = true) :
    (m.addMenu addr name time).1.stations.Designates m.stations.fresh ⟨name, addr, time⟩ := by
  have hc := addMenu_list m addr name time
  generalize (m.addMenu addr name time).1.stations = l at hc
  rw [h] at hc
  cases hc with
  | new => exact NodeList.designates_insertAt.2 (Or.inr ⟨rfl, rfl⟩)

/-- **The list over a run.** In every reachable menu, the stations stand in the order of their names,
those of one name in the order of discovery, and no two have the same address. A reply of one of
them changes its time, and another one is a discovery. -/
theorem order_ok {nazwa : List UInt8} {es : List MenuEvent} {m : Menu}
    (h : Run ListStep (Menu.init nazwa) es m) :
    (m.stations.nodes.Pairwise fun x y => x.2.name ≤ y.2.name ∧ (x.2.name = y.2.name → x.1 < y.1)) ∧
      (m.stations.values.map Station.address).Nodup ∧
      (∀ it s, m.stations.Designates it s → ∀ name time, m.addMenu s.address name time =
        ({ m with stations := m.stations.modify it fun s => { s with time := time } }, false)) ∧
      ∀ addr name time, (m.addMenu addr name time).2 = true →
        (m.addMenu addr name time).1.stations.Designates m.stations.fresh ⟨name, addr, time⟩ := by
  have ho : Ordered m := h.inv (init_ordered nazwa) fun m e m' hI hst => hI.step hst
  refine ⟨ho.sorted.imp ?_, ho.distinct, fun it s hs => ho.refresh hs, fun _ _ _ => discovered⟩
  rintro x y (hlt | ⟨heq, hlt⟩)
  · exact ⟨List.le_of_lt hlt, fun heq => absurd (heq ▸ hlt) (List.lt_irrefl _)⟩
  · exact ⟨heq ▸ List.le_refl _, fun _ => hlt⟩

/-! ### The calls of the receiver -/

/-- `check_time` takes stations away. -/
theorem expire_nodes (m : Menu) :
    (m.expire W time n place).1.stations.nodes.Sublist m.stations.nodes ∧
      (m.expire W time n place).1.stations.fresh = m.stations.fresh := by
  refine expire_inv (P := fun m' => m'.stations.nodes.Sublist m.stations.nodes ∧
    m'.stations.fresh = m.stations.fresh) ?_ ⟨List.Sublist.refl _, rfl⟩
  rintro m' ⟨hsub, hfresh⟩ s -
  exact ⟨List.filter_sublist.trans hsub, hfresh⟩

/-- **The receiver's calls** are such calls, wherever `check_time` goes on. -/
theorem MenuStep.listStep {e : MenuEvent} (h : MenuStep m e m') : ListStep m e m' := by
  obtain ⟨W, rfl⟩ := h
  cases e with
  | addMenu addr name time => exact .addMenu addr name time
  | transform buffer => exact .transform buffer
  | checkTime time => exact .checkTime time (expire_nodes m).1 (expire_nodes m).2

/-- B comes, then A, then a second A, which stands between them. -/
theorem order_ok_second : ∃ m : Menu, m.stations.iterators = [1, 2, 0] ∧
    (m.stations.values.map Station.address).Nodup := by
  have h := (calls_run (fun _ _ => 0) (Menu.init []) [.addMenu ⟨1, 1⟩ [66] 0, .addMenu ⟨2, 1⟩ [65] 0,
    .addMenu ⟨3, 1⟩ [65] 0]).mono fun _ _ _ hst => hst.listStep
  exact ⟨_, by decide, (order_ok h).2.1⟩

end SikMimuw.Receiver
