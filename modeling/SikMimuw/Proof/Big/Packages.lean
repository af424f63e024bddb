import Mathlib.Data.FinEnum
import SikMimuw.Lib.Run
import SikMimuw.Proof.Big.CheckSet

/-!
# The packages are a queue

`Holds h q`: the packages are linked to a ring in the order of `q`, and the nodes and the data of
`q` are blocks of memory of their own. Each operation keeps it (`Holds.perform`) and does to `q`
what a queue does. The counter does not wrap round: the nodes have different addresses.

`queue_refines`: in every run, following `next` for `fill` steps visits the nodes of the queue, and
what can be reached is in use.
-/

namespace SikMimuw.Big

open LinkedRing Function Lts

/-! ### The queue and the operations -/

/-- The blocks that `remove_package` frees. -/
def Heap.blocks (h : Heap) (p : UInt64) : List UInt64 :=
  if (h.package p).data ≠ 0 then [(h.package p).data, p] else [p]

/-- Nodes with their data, in blocks of their own. -/
structure Owns (h : Heap) (q : List UInt64) : Prop where
  nodup : (q.flatMap h.blocks).Nodup
  live : ∀ b ∈ q.flatMap h.blocks, b ∈ h.live

/-- **The heap holds a queue.** -/
structure Holds (h : Heap) (q : List UInt64) : Prop where
  packages : h.buffor.packages = q.headD 0
  fill : h.buffor.fill.toNat = q.length
  set : h.buffor.set = 0
  ring : IsRing (Package.next ∘ h.package) (Package.prev ∘ h.package) q
  owns : Owns h q

/-- The operations. A package is added when it has been allocated, with `data` or with none. -/
inductive Op
  | first (pack data num len : UInt64)
  | last (pack data num : UInt64)
  | pop
  | reset

/-- The value returned, and the heap. -/
def Op.perform (n : ℕ) (h : Heap) : Op → Option (UInt64 × Heap)
  | first pack data num len => do
    let h ← newPackage h pack data num
    return (0, ← addToBufferFirst h pack len)
  | last pack data num => do
    let h ← newPackage h pack data num
    return (0, ← addToBufferEnd h pack)
  | pop => popFromBuffor n h
  | reset => do return (0, ← resetBuffor n h)

/-- `malloc` returns fresh blocks. -/
def Fresh (h : Heap) (pack data : UInt64) : Prop :=
  pack ≠ 0 ∧ pack ∉ h.live ∧ (data = 0 ∨ data ∉ h.live ∧ data ≠ pack)

/-- Where an operation is called. `add_to_buffer_first` divides by `len`. -/
def Op.Enabled (h : Heap) (q : List UInt64) : Op → Prop
  | first pack data _ len => q = [] ∧ len ≠ 0 ∧ Fresh h pack data
  | last pack data _ => q ≠ [] ∧ Fresh h pack data
  | pop => q ≠ []
  | reset => True

/-- **The abstract queue** after an operation. -/
def Op.next (q : List UInt64) : Op → List UInt64
  | first pack _ _ _ => q ++ [pack]
  | last pack _ _ => q ++ [pack]
  | pop => q.tail
  | reset => []

/-- A pop returns the oldest node. -/
def Op.returns (q : List UInt64) : Op → UInt64
  | pop => q.headD 0
  | _ => 0

/-- A reset frees the nodes and their data. -/
def Op.frees (h : Heap) (q : List UInt64) : Op → List UInt64
  | reset => q.flatMap h.blocks
  | _ => []

/-- The step relation on the heap and the abstract queue. -/
def Does (s : Heap × List UInt64) (op : Op) (t : Heap × List UInt64) : Prop :=
  op.Enabled s.1 s.2 ∧ (∃ n r, op.perform n s.1 = some (r, t.1)) ∧ t.2 = op.next s.2

/-- The nodes that can be reached from the buffer. -/
inductive Reaches (h : Heap) : UInt64 → Prop
  | packages : h.buffor.packages ≠ 0 → Reaches h h.buffor.packages
  | next {p : UInt64} : Reaches h p → Reaches h (h.package p).next
  | prev {p : UInt64} : Reaches h p → Reaches h (h.package p).prev

/-- **The pointers are a queue.** -/
structure Refines (h : Heap) (q : List UInt64) : Prop where
  null_iff : h.buffor.packages = 0 ↔ h.buffor.fill = 0
  fill : h.buffor.fill.toNat = q.length
  walk : (List.range h.buffor.fill.toNat).map
    (fun i => (Package.next ∘ h.package)^[i] h.buffor.packages) = q
  returns : (Package.next ∘ h.package)^[h.buffor.fill.toNat] h.buffor.packages = h.buffor.packages
  inverse : ∀ p ∈ q, (h.package (h.package p).next).prev = p ∧ (h.package (h.package p).prev).next = p
  nodup : q.Nodup
  reaches : ∀ p, Reaches h p ↔ p ∈ q
  live : ∀ p, Reaches h p → p ∈ h.live

/-- **What an operation does**, whatever its fuel, unless that is too little for the queue. -/
structure Op.Done (op : Op) (h : Heap) (q : List UInt64) (h' : Heap) : Prop where
  runs : ∀ n, op.perform n h = some (op.returns q, h') ∨ n ≤ q.length ∧ op.perform n h = none
  refines : Refines h' (op.next q)
  freed : h'.freed = h.freed ++ op.frees h q
  nodup : (op.frees h q).Nodup
  once : op = Op.reset → ∀ p ∈ q, (op.frees h q).count p = 1

variable {h h' : Heap} {x p pack data num len size : UInt64} {q l : List UInt64} {n : ℕ} {op : Op}
  {ops : List Op} {s : Heap × List UInt64}

/-! ### The blocks of a queue -/

theorem Heap.mem_blocks (h : Heap) (p : UInt64) : p ∈ h.blocks p := by
  unfold blocks
  split_ifs <;> simp

theorem Heap.blocks_congr (hdata : Package.data ∘ h'.package = Package.data ∘ h.package) :
    h'.blocks = h.blocks := by
  funext p
  have hp : (h'.package p).data = (h.package p).data := congrFun hdata p
  unfold blocks
  rw [hp]

theorem Owns.congr (ho : Owns h q) (hdata : Package.data ∘ h'.package = Package.data ∘ h.package)
    (hlive : h'.live = h.live) : Owns h' q := by
  obtain ⟨hnodup, hmem⟩ := ho
  rw [← Heap.blocks_congr hdata] at hnodup hmem
  exact ⟨hnodup, fun b hb => hlive ▸ hmem b hb⟩

theorem Owns.mem_live (ho : Owns h q) (hp : p ∈ q) : p ∈ h.live :=
  ho.live p (List.mem_flatMap.2 ⟨p, hp, h.mem_blocks p⟩)

theorem Owns.of_cons (ho : Owns h (x :: l)) : Owns h l := by
  obtain ⟨hnodup, hmem⟩ := ho
  rw [List.flatMap_cons] at hnodup hmem
  exact ⟨hnodup.of_append_right, fun b hb => hmem b (List.mem_append_right _ hb)⟩

/-- Nodes in blocks of their own are different nodes. -/
theorem Owns.nodup_nodes (ho : Owns h q) : q.Nodup := by
  induction q with
  | nil => exact List.nodup_nil
  | cons x l ih =>
    refine List.nodup_cons.2 ⟨fun hx => ?_, ih ho.of_cons⟩
    have hd := List.disjoint_of_nodup_append (List.flatMap_cons ▸ ho.nodup)
    exact hd (h.mem_blocks x) (List.mem_flatMap.2 ⟨x, hx, h.mem_blocks x⟩)

/-- **There are fewer nodes than addresses.** -/
theorem Owns.length_lt (ho : Owns h q) : q.length < 2 ^ 64 := by
  have h0 : 0 ∉ q := fun h0 => h.notNull (ho.mem_live h0)
  have hcard := (List.nodup_cons.2 ⟨h0, ho.nodup_nodes⟩).length_le_card
  rw [← FinEnum.card_eq_fintypeCard, FinEnum.card_UInt64, List.length_cons] at hcard
  exact hcard

/-- One more node, in fresh blocks. -/
theorem Owns.append (ho : Owns h q) (hq : ∀ p ∈ q, h'.blocks p = h.blocks p)
    (hlive : ∀ b ∈ h.live, b ∈ h'.live) (hnodup : (h'.blocks pack).Nodup)
    (hnew : ∀ b ∈ h'.blocks pack, b ∈ h'.live ∧ b ∉ h.live) : Owns h' (q ++ [pack]) := by
  have hsame : (q ++ [pack]).flatMap h'.blocks = q.flatMap h.blocks ++ h'.blocks pack := by
    rw [List.flatMap_append, List.flatMap_singleton, List.flatMap_congr hq]
  constructor
  · rw [hsame]
    exact ho.nodup.append hnodup fun b hb hb' => (hnew b hb').2 (ho.live b hb)
  · intro b hb
    rw [hsame, List.mem_append] at hb
    rcases hb with hb | hb
    · exact hlive b (ho.live b hb)
    · exact (hnew b hb).1

/-! ### Adding packages -/

theorem newPackage_eq (num : UInt64) (hf : Fresh h pack data) : ∃ h', newPackage h pack data num = some h' ∧
    h'.buffor = h.buffor ∧ h'.freed = h.freed ∧
    h'.package = update h.package pack { h.package pack with data := data, num := num } ∧
    ∀ b, b ∈ h'.live ↔ b ∈ h.live ∨ b = pack ∨ b = data ∧ data ≠ 0 := by
  obtain ⟨hpack, hout, hdata⟩ := hf
  by_cases h0 : data = 0
  · simp only [newPackage, Heap.malloc_eq ⟨hpack, hout⟩, if_pos h0, Heap.store_eq,
      Finset.mem_insert_self, Option.bind_eq_bind, Option.bind_some]
    refine ⟨_, rfl, rfl, rfl, rfl, fun b => ?_⟩
    rw [Finset.mem_insert]
    tauto
  · obtain ⟨hdout, hdp⟩ := hdata.resolve_left h0
    have hdata' : data ∉ insert pack h.live := by
      rw [Finset.mem_insert]
      tauto
    have hmem : pack ∈ insert data (insert pack h.live) := by simp
    simp only [newPackage, Heap.malloc_eq, Heap.store_eq, hpack, hout, h0, hdata', hmem, ne_eq,
      not_false_eq_true, and_self, if_false, Option.bind_eq_bind, Option.bind_some]
    refine ⟨_, rfl, rfl, rfl, rfl, fun b => ?_⟩
    rw [Finset.mem_insert, Finset.mem_insert]
    tauto

/-- **A new package** is a node in fresh blocks, and the links stay. -/
theorem Owns.new (num : UInt64) (ho : Owns h q) (hf : Fresh h pack data) :
    ∃ h', newPackage h pack data num = some h' ∧ h'.buffor = h.buffor ∧ h'.freed = h.freed ∧
      Package.next ∘ h'.package = Package.next ∘ h.package ∧
      Package.prev ∘ h'.package = Package.prev ∘ h.package ∧ Owns h' (q ++ [pack]) := by
  obtain ⟨h', hnew, hbuffor, hfreed, hpackage, hlive⟩ := newPackage_eq num hf
  obtain ⟨hpack, hout, hdata⟩ := hf
  refine ⟨h', hnew, hbuffor, hfreed, ?_, ?_, ?_⟩
  · rw [hpackage, comp_update_of_eq]
    rfl
  · rw [hpackage, comp_update_of_eq]
    rfl
  have hblocks : h'.blocks pack = if data ≠ 0 then [data, pack] else [pack] := by
    unfold Heap.blocks
    rw [hpackage, update_self]
  apply ho.append
  · intro p hp
    have hne : p ≠ pack := fun he => hout (he ▸ ho.mem_live hp)
    unfold Heap.blocks
    rw [hpackage, update_of_ne hne]
  · intro b hb
    exact (hlive b).2 (Or.inl hb)
  · rw [hblocks]
    split_ifs with h0
    · simpa using (hdata.resolve_left h0).2
    · exact List.nodup_singleton pack
  · intro b hb
    rw [hblocks] at hb
    rw [hlive]
    split_ifs at hb with h0
    · rw [List.mem_cons, List.mem_singleton] at hb
      rcases hb with rfl | rfl
      · exact ⟨Or.inr (Or.inr ⟨rfl, h0⟩), (hdata.resolve_left h0).1⟩
      · exact ⟨Or.inr (Or.inl rfl), hout⟩
    · rw [List.mem_singleton] at hb
      rw [hb]
      exact ⟨Or.inr (Or.inl rfl), hout⟩

/-- **`add_to_buffer_first`** on the node of a new package. -/
theorem addToBufferFirst_holds (hset : h.buffor.set = 0) (ho : Owns h [pack]) (hlen : len ≠ 0) :
    ∃ h', addToBufferFirst h pack len = some h' ∧ h'.freed = h.freed ∧ Holds h' [pack] := by
  have hpack : pack ∈ h.live := ho.mem_live (List.mem_singleton_self pack)
  simp only [addToBufferFirst, if_neg hlen, Heap.store_eq, hpack, Heap.setBuffor,
    Option.bind_eq_bind, Option.bind_some]
  refine ⟨_, rfl, rfl, rfl, rfl, hset, isRing_singleton.2 ?_, ho.congr ?_ rfl⟩
  · simp
  · rw [comp_update_of_eq, comp_update_of_eq]
    · rfl
    · rfl

/-- **`add_to_buffer_end`** on the node of a new package. -/
theorem addToBufferEnd_holds (hpackages : h.buffor.packages = x)
    (hfill : h.buffor.fill.toNat = (x :: l).length) (hset : h.buffor.set = 0)
    (hring : IsRing (Package.next ∘ h.package) (Package.prev ∘ h.package) (x :: l))
    (ho : Owns h (x :: l ++ [pack])) :
    ∃ h', addToBufferEnd h pack = some h' ∧ h'.freed = h.freed ∧ Holds h' (x :: l ++ [pack]) := by
  have hx : x ∈ h.live := ho.mem_live (by simp)
  have hpack : pack ∈ h.live := ho.mem_live (by simp)
  have hprev : (h.package x).prev ∈ h.live :=
    ho.mem_live (List.mem_append_left _ (hring.prev_mem List.mem_cons_self))
  -- the first store leaves `packages->prev`, also where that is `packages` itself
  have hlast : (update h.package (h.package x).prev
      { h.package (h.package x).prev with next := pack } x).prev = (h.package x).prev :=
    apply_update_of_eq rfl
  have hnodup := List.nodup_append.1 ho.nodup_nodes
  have hz : pack ∉ x :: l := fun hp => hnodup.2.2 pack hp pack (List.mem_singleton_self pack) rfl
  have hlt := ho.length_lt
  rw [List.length_append, List.length_singleton] at hlt
  simp only [addToBufferEnd, Heap.load_eq, Heap.store_eq, hpackages, hx, hpack, hprev, hlast,
    Heap.setBuffor, Option.bind_eq_bind, Option.bind_some]
  refine ⟨_, rfl, rfl, rfl, ?_, hset, ?_, ho.congr ?_ rfl⟩
  · rw [UInt64.toNat_add, hfill]
    change (_ + 1) % _ = _
    rw [Nat.mod_eq_of_lt hlt, List.length_append, List.length_singleton]
  · rw [List.cons_append]
    convert hring.link_update (List.nodup_cons.1 hnodup.1).1 hz using 1
    · rw [comp_update, comp_update_of_eq, comp_update_of_eq, comp_update]
      · rfl
      · rfl
      · rfl
    · rw [comp_update_of_eq, comp_update, comp_update, comp_update_of_eq]
      · rfl
      · rfl
      · rfl
  · rw [comp_update_of_eq, comp_update_of_eq, comp_update_of_eq, comp_update_of_eq]
    all_goals rfl

/-! ### Taking out packages -/

theorem Holds.packages_ne_zero (hh : Holds h (x :: l)) : h.buffor.packages ≠ 0 :=
  hh.packages ▸ Heap.ne_zero (hh.owns.mem_live List.mem_cons_self)

theorem Holds.fill_ne_zero (hh : Holds h (x :: l)) : h.buffor.fill ≠ 0 := by
  intro h0
  have hfill := hh.fill
  rw [h0] at hfill
  cases hfill

/-- The stores of `takeFirst` where the first package is not the only one. -/
theorem takeFirst_eq (hpackages : h.buffor.packages = x) (hone : h.buffor.fill ≠ 1) (hx : x ∈ h.live)
    (hnext : (h.package x).next ∈ h.live) (hprev : (h.package x).prev ∈ h.live)
    (hpe : (h.package x).prev ≠ x) :
    ∃ h', takeFirst h = some (x, h') ∧
      Package.next ∘ h'.package =
        update (Package.next ∘ h.package) (h.package x).prev (h.package x).next ∧
      Package.prev ∘ h'.package =
        update (Package.prev ∘ h.package) (h.package x).next (h.package x).prev ∧
      Package.data ∘ h'.package = Package.data ∘ h.package ∧
      h'.buffor = { h.buffor with packages := (h.package x).next, fill := h.buffor.fill - 1 } ∧
      h'.live = h.live ∧ h'.freed = h.freed := by
  have hxp : x ≠ (h.package x).prev := hpe.symm
  simp only [takeFirst, if_neg hone, hpackages, Heap.load_eq, Heap.store_eq, Heap.setBuffor, hx,
    hnext, hprev, update_of_ne hxp, Option.bind_eq_bind, Option.bind_some]
  refine ⟨_, rfl, ?_, ?_, ?_, rfl, rfl, rfl⟩
  · rw [comp_update_of_eq, comp_update]
    rfl
  · rw [comp_update, comp_update_of_eq]
    rfl
  · rw [comp_update_of_eq, comp_update_of_eq]
    · rfl
    · rfl

/-- **`takeFirst`** unlinks the oldest node. -/
theorem Holds.take (hh : Holds h (x :: l)) :
    ∃ h', takeFirst h = some (x, h') ∧ h'.freed = h.freed ∧ h'.live = h.live ∧
      Package.data ∘ h'.package = Package.data ∘ h.package ∧ Holds h' l := by
  have hpackages : h.buffor.packages = x := hh.packages
  have hfill := hh.fill
  have hout := (List.nodup_cons.1 hh.owns.nodup_nodes).1
  rw [List.length_cons] at hfill
  have hsub : (h.buffor.fill - 1).toNat = l.length := by
    have h1 : (1 : UInt64).toNat = 1 := rfl
    rw [UInt64.toNat_sub_of_le _ _ (by rw [UInt64.le_iff_toNat_le]; omega), hfill, h1]
    rfl
  by_cases hone : h.buffor.fill = 1
  · have hl : l = [] := by
      rw [hone] at hsub
      exact List.eq_nil_of_length_eq_zero hsub.symm
    subst hl
    simp only [takeFirst, if_pos hone, hpackages]
    exact ⟨_, rfl, rfl, rfl, rfl, rfl, hsub, hh.set, isRing_nil, hh.owns.of_cons.congr rfl rfl⟩
  · have hl : l ≠ [] := by
      rintro rfl
      exact hone (UInt64.toNat_inj.1 hfill)
    obtain ⟨hnext, hprev⟩ := hh.ring.neighbours hout hl
    have hx : x ∈ h.live := hh.owns.mem_live List.mem_cons_self
    have hlive : ∀ p ∈ l, p ∈ h.live := fun p hp => hh.owns.of_cons.mem_live hp
    obtain ⟨h', htake, hn, hp, hdata, hbuffor, hlive', hfreed⟩ := takeFirst_eq hpackages hone hx
      (hlive _ hnext) (hlive _ hprev) fun he => hout (he ▸ hprev)
    refine ⟨h', htake, hfreed, hlive', hdata, ?_, hbuffor ▸ hsub, hbuffor ▸ hh.set, ?_,
      hh.owns.of_cons.congr hdata hlive'⟩
    · obtain ⟨y, l, rfl⟩ := List.exists_cons_of_ne_nil hl
      rw [hbuffor]
      exact hh.ring.next_head.1
    · rw [hn, hp]
      exact hh.ring.unlink_update hout

/-- **`remove_package`** frees a node and its data, and leaves the rest. -/
theorem removePackage_frees (ho : Owns h [x]) :
    ∃ h', removePackage h x = some h' ∧ h'.buffor = h.buffor ∧ h'.package = h.package ∧
      h'.freed = h.freed ++ h.blocks x ∧ ∀ b ∈ h.live, b ∉ h.blocks x → b ∈ h'.live := by
  obtain ⟨hnodup, hlive⟩ := ho
  rw [List.flatMap_singleton] at hnodup hlive
  have hx : x ∈ h.live := hlive x (h.mem_blocks x)
  unfold Heap.blocks at *
  by_cases h0 : (h.package x).data ≠ 0
  · rw [if_pos h0] at hnodup hlive ⊢
    have hdata : (h.package x).data ∈ h.live := hlive _ List.mem_cons_self
    have hne : x ≠ (h.package x).data := fun he => (List.nodup_cons.1 hnodup).1 (by simp [← he])
    have hx' : x ∈ h.live.erase (h.package x).data := Finset.mem_erase_of_ne_of_mem hne hx
    simp only [removePackage, Heap.load_eq hx, if_pos h0, Heap.free_eq, hdata, hx',
      Option.bind_eq_bind, Option.bind_some]
    refine ⟨_, rfl, rfl, rfl, by simp, fun b hb hbx => ?_⟩
    rw [List.mem_cons, List.mem_singleton, not_or] at hbx
    exact Finset.mem_erase_of_ne_of_mem hbx.2 (Finset.mem_erase_of_ne_of_mem hbx.1 hb)
  · rw [if_neg h0] at hnodup hlive ⊢
    simp only [removePackage, Heap.load_eq hx, if_neg h0, Heap.free_eq hx, Option.bind_eq_bind,
      Option.bind_some]
    refine ⟨_, rfl, rfl, rfl, rfl, fun b hb hbx => ?_⟩
    exact Finset.mem_erase_of_ne_of_mem (List.ne_of_not_mem_cons hbx) hb

/-- One round of `reset_buffor`: the oldest node is unlinked and freed with its data. -/
theorem Holds.discard (hh : Holds h (x :: l)) :
    ∃ h₁ h₂, takeFirst h = some (x, h₁) ∧ removePackage h₁ x = some h₂ ∧
      h₂.freed = h.freed ++ h.blocks x ∧ h₂.blocks = h.blocks ∧ Holds h₂ l := by
  obtain ⟨h₁, htake, hfreed₁, hlive₁, hdata, hh₁⟩ := hh.take
  have hblocks₁ : h₁.blocks = h.blocks := Heap.blocks_congr hdata
  obtain ⟨hnodup, hlive⟩ := hh.owns.congr hdata hlive₁
  rw [List.flatMap_cons] at hnodup hlive
  have hx : Owns h₁ [x] := by
    constructor
    · rw [List.flatMap_singleton]
      exact hnodup.of_append_left
    · rw [List.flatMap_singleton]
      exact fun b hb => hlive b (List.mem_append_left _ hb)
  obtain ⟨h₂, hremove, hbuffor, hpackage, hfreed₂, hlive₂⟩ := removePackage_frees hx
  have hblocks₂ : h₂.blocks = h₁.blocks := Heap.blocks_congr (by rw [hpackage])
  refine ⟨h₁, h₂, htake, hremove, by rw [hfreed₂, hfreed₁, hblocks₁], hblocks₂.trans hblocks₁, ?_⟩
  -- the blocks of the rest are not those of the node
  have howns : Owns h₂ l := by
    constructor
    · rw [hblocks₂]
      exact hnodup.of_append_right
    · intro b hb
      rw [hblocks₂] at hb
      exact hlive₂ b (hlive b (List.mem_append_right _ hb)) fun hbx =>
        List.disjoint_of_nodup_append hnodup hbx hb
  exact ⟨hbuffor ▸ hh₁.packages, hbuffor ▸ hh₁.fill, hbuffor ▸ hh₁.set, hpackage ▸ hh₁.ring, howns⟩

/-- **The loop of `reset_buffor`** frees the blocks of the queue. -/
theorem Holds.loop (hh : Holds h q) :
    ∃ h', (∀ n, resetLoop n h = if q.length < n then some h' else none) ∧
      h'.freed = h.freed ++ q.flatMap h.blocks ∧ Holds h' [] := by
  induction q generalizing h with
  | nil =>
    have hpackages : h.buffor.packages = 0 := hh.packages
    refine ⟨h, fun n => ?_, by simp, hh⟩
    cases n with
    | zero => rfl
    | succ n =>
      rw [resetLoop, if_pos hpackages]
      rfl
  | cons x l ih =>
    obtain ⟨h₁, h₂, htake, hremove, hfreed₂, hblocks, hh₂⟩ := hh.discard
    obtain ⟨h', hrun, hfreed, hdone⟩ := ih hh₂
    refine ⟨h', fun n => ?_, ?_, hdone⟩
    · cases n with
      | zero => rfl
      | succ n =>
        rw [resetLoop, if_neg hh.packages_ne_zero, htake]
        simp only [Option.bind_eq_bind, Option.bind_some, hremove, hrun n, List.length_cons,
          Nat.add_lt_add_iff_right]
    · rw [hfreed, hfreed₂, hblocks, List.flatMap_cons, List.append_assoc]

theorem Holds.reset (hh : Holds h q) :
    ∃ h', (∀ n, resetBuffor n h = if q.length < n then some h' else none) ∧
      h'.freed = h.freed ++ q.flatMap h.blocks ∧ Holds h' [] := by
  obtain ⟨h', hrun, hfreed, hh'⟩ := hh.loop
  refine ⟨h', fun n => ?_, hfreed, hh'⟩
  unfold resetBuffor
  rw [hrun n]
  split_ifs with hn
  · obtain ⟨n, rfl⟩ := Nat.exists_eq_add_of_lt hn
    rw [Option.bind_eq_bind, Option.bind_some, deleteSet, if_pos hh'.set]
  · rfl

/-- **`pop_from_buffor`** returns the oldest node. -/
theorem Holds.pop (hh : Holds h (x :: l)) :
    ∃ h', (∀ n, popFromBuffor n h = some (x, h')) ∧ h'.freed = h.freed ∧ Holds h' l := by
  obtain ⟨h', htake, hfreed, hlive, -, hh'⟩ := hh.take
  refine ⟨h', fun n => ?_, hfreed, hh'⟩
  have hx : x ∈ h'.live := hlive ▸ hh.owns.mem_live List.mem_cons_self
  have hcheck : checkSet n h' (h'.package x).num = some (0, h') := if_pos hh'.set
  simp only [popFromBuffor, if_neg hh.fill_ne_zero, htake, Heap.load_eq hx, hcheck,
    Option.bind_eq_bind, Option.bind_some]
  rfl

/-! ### Any run -/

theorem reaches_iterate (h0 : h.buffor.packages ≠ 0) (i : ℕ) :
    Reaches h ((Package.next ∘ h.package)^[i] h.buffor.packages) := by
  induction i with
  | zero => exact Reaches.packages h0
  | succ i ih =>
    rw [iterate_succ_apply']
    exact ih.next

/-- **The nodes of the queue are what can be reached.** -/
theorem Holds.reaches_iff (hh : Holds h q) : Reaches h p ↔ p ∈ q := by
  constructor
  · intro hp
    induction hp with
    | packages h0 =>
      cases q with
      | nil => exact absurd hh.packages h0
      | cons x l =>
        rw [hh.packages]
        exact List.mem_cons_self
    | next _ ih => exact hh.ring.next_mem ih
    | prev _ ih => exact hh.ring.prev_mem ih
  · intro hp
    cases q with
    | nil => cases hp
    | cons x l =>
      have hx : h.buffor.packages = x := hh.packages
      rw [← hh.ring.walk.1, List.mem_map] at hp
      obtain ⟨i, -, rfl⟩ := hp
      rw [← hx]
      exact reaches_iterate hh.packages_ne_zero i

/-- **The heap is a queue** to those who follow its pointers. -/
theorem Holds.refines (hh : Holds h q) : Refines h q where
  null_iff := by
    cases q with
    | nil => exact iff_of_true hh.packages (UInt64.toNat_inj.1 hh.fill)
    | cons x l => exact iff_of_false hh.packages_ne_zero hh.fill_ne_zero
  fill := hh.fill
  walk := by
    rw [hh.fill]
    cases q with
    | nil => rfl
    | cons x l =>
      rw [hh.packages]
      exact hh.ring.walk.1
  returns := by
    rw [hh.fill]
    cases q with
    | nil => rfl
    | cons x l =>
      rw [hh.packages]
      exact hh.ring.walk.2
  inverse p hp := ⟨hh.ring.prev_next hp, hh.ring.next_prev hp⟩
  nodup := hh.owns.nodup_nodes
  reaches _ := hh.reaches_iff
  live _ hp := hh.owns.mem_live (hh.reaches_iff.1 hp)

/-- **Each operation** does to the heap what it does to the queue. -/
theorem Holds.perform (hh : Holds h q) (he : op.Enabled h q) :
    ∃ h', op.Done h q h' ∧ Holds h' (op.next q) := by
  cases op with
  | first pack data num len =>
    obtain ⟨rfl, hlen, hfresh⟩ := he
    obtain ⟨h₁, hnew, hbuffor, hfreed₁, -, -, ho⟩ := hh.owns.new num hfresh
    obtain ⟨h', hadd, hfreed, hh'⟩ := addToBufferFirst_holds (hbuffor ▸ hh.set) ho hlen
    refine ⟨h', ⟨fun n => Or.inl ?_, hh'.refines, ?_, List.nodup_nil, nofun⟩, hh'⟩
    · simp only [Op.perform, hnew, hadd, Option.bind_eq_bind, Option.bind_some]
      rfl
    · rw [hfreed, hfreed₁]
      exact (List.append_nil _).symm
  | last pack data num =>
    obtain ⟨hq, hfresh⟩ := he
    obtain ⟨x, l, rfl⟩ := List.exists_cons_of_ne_nil hq
    obtain ⟨h₁, hnew, hbuffor, hfreed₁, hnext, hprev, ho⟩ := hh.owns.new num hfresh
    obtain ⟨h', hadd, hfreed, hh'⟩ := addToBufferEnd_holds (hbuffor ▸ hh.packages)
      (hbuffor ▸ hh.fill) (hbuffor ▸ hh.set) (hnext ▸ hprev ▸ hh.ring) ho
    refine ⟨h', ⟨fun n => Or.inl ?_, hh'.refines, ?_, List.nodup_nil, nofun⟩, hh'⟩
    · simp only [Op.perform, hnew, hadd, Option.bind_eq_bind, Option.bind_some]
      rfl
    · rw [hfreed, hfreed₁]
      exact (List.append_nil _).symm
  | pop =>
    obtain ⟨x, l, rfl⟩ := List.exists_cons_of_ne_nil he
    obtain ⟨h', hpop, hfreed, hh'⟩ := hh.pop
    refine ⟨h', ⟨fun n => Or.inl (hpop n), hh'.refines, ?_, List.nodup_nil, nofun⟩, hh'⟩
    rw [hfreed]
    exact (List.append_nil _).symm
  | reset =>
    obtain ⟨h', hreset, hfreed, hh'⟩ := hh.reset
    refine ⟨h', ⟨fun n => ?_, hh'.refines, hfreed, hh.owns.nodup, fun _ p hp => ?_⟩, hh'⟩
    · simp only [Op.perform, hreset n]
      split_ifs with hn
      · exact Or.inl rfl
      · exact Or.inr ⟨not_lt.1 hn, rfl⟩
    · apply List.count_eq_one_of_mem hh.owns.nodup
      exact List.mem_flatMap.2 ⟨p, hp, h.mem_blocks p⟩

/-- **Any step** keeps it. -/
theorem Holds.step {t : Heap × List UInt64} (hh : Holds s.1 s.2) (hst : Does s op t) : Holds t.1 t.2 := by
  obtain ⟨he, ⟨n, r, hperform⟩, hnext⟩ := hst
  obtain ⟨h', hdone, hh'⟩ := hh.perform he
  rw [hnext]
  rcases hdone.runs n with hrun | ⟨-, hrun⟩
  · rw [hrun, Option.some.injEq, Prod.mk.injEq] at hperform
    exact hperform.2 ▸ hh'
  · rw [hrun] at hperform
    cases hperform

theorem createBuffor_holds (h : Heap) (size : UInt64) : Holds (createBuffor h size) [] where
  packages := rfl
  fill := rfl
  set := rfl
  ring := isRing_nil
  owns := ⟨List.nodup_nil, by simp⟩

/-- **The buffer is a queue in every run**, and every operation that is called does there what it
does to the queue. -/
theorem queue_refines (hrun : Run Does (createBuffor h size, []) ops s) :
    Refines s.1 s.2 ∧ ∀ op : Op, op.Enabled s.1 s.2 → ∃ h', op.Done s.1 s.2 h' := by
  have hh : Holds s.1 s.2 := hrun.inv (createBuffor_holds h size) fun _ _ _ => Holds.step
  refine ⟨hh.refines, fun op he => ?_⟩
  obtain ⟨h', hdone, -⟩ := hh.perform he
  exact ⟨h', hdone⟩

/-- Memory with nothing in use. -/
def unused : Heap where
  buffor := ⟨0, 0, 0, 0, 0⟩
  package _ := ⟨1, 2, 3, 4⟩
  setElem _ := ⟨1, 2, 3⟩
  live := ∅
  freed := []
  notNull := by decide

def Heap.after (h : Heap) (op : Op) : Heap := ((op.perform 1 h).map Prod.snd).getD h

theorem does_after (he : op.Enabled h q) (hsome : (op.perform 1 h).isSome) :
    Does (h, q) op (h.after op, op.next q) := by
  obtain ⟨⟨r, h'⟩, hr⟩ := Option.isSome_iff_exists.1 hsome
  refine ⟨he, ⟨1, r, ?_⟩, rfl⟩
  simp only [Heap.after, hr, Option.map_some, Option.getD_some]

/-- A package in an empty buffer. -/
def oneAdded : Heap := (createBuffor unused 80).after (.first 16 32 0 10)

/-- And another. -/
def twoAdded : Heap := oneAdded.after (.last 24 0 10)

/-- Two packages come and one goes. -/
theorem queue_refines_two : Refines (twoAdded.after .pop) [24] := by
  have hfirst : Does (createBuffor unused 80, []) (.first 16 32 0 10) (oneAdded, [16]) :=
    does_after ⟨rfl, by decide, by decide, by decide, by decide⟩ (by decide)
  have hlast : Does (oneAdded, [16]) (.last 24 0 10) (twoAdded, [16, 24]) :=
    does_after ⟨by decide, by decide, by decide, by decide⟩ (by decide)
  have hpop : Does (twoAdded, [16, 24]) .pop (twoAdded.after .pop, [24]) :=
    does_after (List.cons_ne_nil 16 [24]) (by decide)
  exact (queue_refines (((Run.single hfirst).snoc hlast).snoc hpop)).1

end SikMimuw.Big
